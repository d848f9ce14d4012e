import Rps.Controller.HttpRewrite
import Rps.Controller.WebSessions

/-! The session cookie among others.

A browser sends every cookie of a host in one header, so the console's own may stand behind
cookies of another application. Such a header is items between semicolons, and an item need
not be a pair. `session_token` leaves its loop at an item without an equals sign, as if there
were no session, and does not look at a header that holds a byte beyond ASCII.

`sessionToken_iff`: the token is found exactly if all in front of it are pairs and the header
is visible ASCII; where there is no token, none is found. -/
namespace Rps.Controller.SessionCookie
open Base WebSessions HttpProxy

/-- What an item says, as bytes. -/
inductive Content where
  | pair (name value : Bytes)
  | word (bytes : Bytes)
  | empty
  deriving DecidableEq

namespace Content

def bytes : Content → Bytes
  | pair name value => name ++ 61 :: value
  | word bytes => bytes
  | empty => []

/-- A pair is cut at its first equals sign, and a word has none. -/
def WellFormed : Content → Prop
  | pair name _ => 61 ∉ name
  | word bytes => bytes ≠ [] ∧ 61 ∉ bytes
  | empty => True

def IsPair : Content → Prop
  | pair _ _ => True
  | _ => False

instance : (c : Content) → Decidable c.WellFormed
  | pair name _ => inferInstanceAs (Decidable (61 ∉ name))
  | word bytes => inferInstanceAs (Decidable (bytes ≠ [] ∧ 61 ∉ bytes))
  | empty => .isTrue trivial

instance : (c : Content) → Decidable c.IsPair
  | pair _ _ => .isTrue trivial
  | word _ => .isFalse id
  | empty => .isFalse id

end Content

/-- A blank or a tab. -/
def isBlank (b : UInt8) : Bool := b = 9 || b = 32

structure Item where
  leading : Bytes
  content : Content
  trailing : Bytes
  blank : ∀ b ∈ leading ++ trailing, isBlank b = true
  wellFormed : content.WellFormed
  semicolon : 59 ∉ content.bytes
  first : ∀ b ∈ content.bytes.head?, isBlank b = false
  last : ∀ b ∈ content.bytes.getLast?, isBlank b = false

def Item.bytes (i : Item) : Bytes := i.leading ++ i.content.bytes ++ i.trailing

def cookieHeader (items : List Item) : Bytes := [59].intercalate (items.map Item.bytes)

/-- The value of an item named `rps_session`, if it is not empty. -/
def Item.token (i : Item) : Option Bytes :=
  match i.content with
  | .pair name value => if name = encode sessionCookieName.toList ∧ value ≠ [] then some value else none
  | _ => none

/-- The token a header carries. -/
def token (items : List Item) : Option Bytes := items.findSome? Item.token

/-- Bytes that `to_str` takes. -/
def Visible (b : UInt8) : Prop := b = 9 ∨ 32 ≤ b ∧ b < 127

instance (b : UInt8) : Decidable (Visible b) := inferInstanceAs (Decidable (_ ∨ _))

/-! ### One item -/

/-- Of the visible bytes blanks and tabs are white space. -/
theorem isWhitespace_visible {b : UInt8} (h : Visible b) : isWhitespace (Char.ofNat b.toNat) = isBlank b := by
  revert b
  apply forall_byte
  decide +kernel

theorem trim_item {i : Item} (h : ∀ b ∈ i.bytes, Visible b) : trim (ascii i.bytes) = ascii i.content.bytes := by
  have hcontent : ∀ b ∈ i.content.bytes, Visible b := by
    intro b hb
    exact h b (by simp [Item.bytes, hb])
  have hends (o : Option UInt8) (hmem : ∀ b ∈ o, b ∈ i.content.bytes) (hblank : ∀ b ∈ o, isBlank b = false) :
      ∀ c ∈ o.map fun b => Char.ofNat b.toNat, isWhitespace c = false := by
    intro c hc
    obtain ⟨b, hb, rfl⟩ := Option.map_eq_some_iff.mp hc
    rw [isWhitespace_visible (hcontent b (hmem b hb))]
    exact hblank b hb
  rw [Item.bytes, ascii_append, ascii_append]
  apply trim_blank
  · intro c hc
    rw [← ascii_append] at hc
    obtain ⟨b, hb, rfl⟩ := List.mem_map.mp hc
    rw [isWhitespace_visible (h b (by
      rcases List.mem_append.mp hb with hb | hb <;> simp [Item.bytes, hb]))]
    exact i.blank b hb
  · rw [ascii, List.head?_map]
    exact hends _ (fun b hb => List.mem_of_mem_head? hb) i.first
  · rw [ascii, List.getLast?_map]
    exact hends _ (fun b hb => List.mem_of_getLast? hb) i.last

/-- An item that is no pair has no equals sign. -/
theorem splitOnce_content {i : Item} :
    splitOnce '=' (ascii i.content.bytes) =
      match i.content with
      | .pair name value => some (ascii name, ascii value)
      | _ => none := by
  have hform := i.wellFormed
  cases hcontent : i.content with
  | pair name value =>
    rw [hcontent] at hform
    rw [Content.bytes, ascii_append]
    exact splitOnce_append (mem_ascii.not.mpr hform) _
  | word bytes =>
    rw [hcontent] at hform
    exact splitOnce_eq_none.mpr (mem_ascii.not.mpr hform.2)
  | empty => rfl

/-! ### The loop -/

/-- What the loop finds: it stops at the first item that is no pair. -/
def search : List Item → Option Bytes
  | [] => none
  | i :: rest =>
    match i.content with
    | .pair _ _ => i.token <|> search rest
    | _ => none

theorem ascii_sessionCookieName : ascii (encode sessionCookieName.toList) = sessionCookieName.toList := by decide

theorem findSessionCookie_items {items : List Item} (h : ∀ i ∈ items, ∀ b ∈ i.bytes, Visible b) :
    findSessionCookie (items.map fun i => ascii i.bytes) = (search items).map ascii := by
  induction items with
  | nil => rfl
  | cons i rest ih =>
    rw [List.forall_mem_cons] at h
    rw [List.map_cons, findSessionCookie, trim_item h.1, splitOnce_content, search, Item.token]
    cases i.content with
    | pair name value =>
      have hname : ascii name = sessionCookieName.toList ↔ name = encode sessionCookieName.toList := by
        rw [← ascii_sessionCookieName]
        exact ⟨ascii_injective, congrArg ascii⟩
      have hvalue : ascii value ≠ [] ↔ value ≠ [] := by simp [ascii]
      simp only [hname, hvalue]
      split
      · rfl
      · exact ih h.2
    | word bytes => rfl
    | empty => rfl

theorem isPair_of_token {i : Item} {value : Bytes} (h : i.token = some value) : i.content.IsPair := by
  unfold Item.token at h
  cases hcontent : i.content with
  | pair name value => trivial
  | word bytes =>
    rw [hcontent] at h
    cases h
  | empty =>
    rw [hcontent] at h
    cases h

theorem search_cons (i : Item) (rest : List Item) :
    (i.content.IsPair → search (i :: rest) = (i.token <|> search rest)) ∧
      (¬ i.content.IsPair → search (i :: rest) = none) := by
  rw [search]
  cases i.content with
  | pair name value => exact ⟨fun _ => rfl, fun h => absurd trivial h⟩
  | word bytes => exact ⟨False.elim, fun _ => rfl⟩
  | empty => exact ⟨False.elim, fun _ => rfl⟩

/-- The loop finds the token exactly if all in front of it are pairs. -/
theorem search_eq_token_iff (items : List Item) :
    search items = token items ↔
      (∀ i ∈ items, i.token = none) ∨ ∀ i ∈ items.takeWhile fun i => i.token.isNone, i.content.IsPair := by
  induction items with
  | nil => simp [search, token]
  | cons i rest ih =>
    obtain ⟨hpair, hother⟩ := search_cons i rest
    cases hi : i.token with
    | some value =>
      rw [hpair (isPair_of_token hi), token, List.findSome?_cons, hi]
      simp [hi]
    | none =>
      rw [token, List.findSome?_cons, hi, ← token, List.takeWhile_cons, hi, List.forall_mem_cons]
      simp only [Option.isNone_none, if_true, List.forall_mem_cons, hi, true_and]
      by_cases hp : i.content.IsPair
      · rw [hpair hp, hi, and_iff_right hp]
        exact ih
      · rw [hother hp, eq_comm, token, List.findSome?_eq_none_iff]
        simp [hp]

/-! ### The header -/

theorem toStr_eq (value : Bytes) [Decidable (∀ b ∈ value, Visible b)] :
    toStr value = if ∀ b ∈ value, Visible b then some (ascii value) else none := by
  have hall : (value.all fun b => b = 9 || (32 ≤ b && b < 127)) = true ↔ ∀ b ∈ value, Visible b := by
    simp [Visible]
  rw [toStr]
  exact if_congr hall rfl rfl

theorem ascii_intercalate (parts : List Bytes) : ascii ([59].intercalate parts) = [';'].intercalate (parts.map ascii) := by
  induction parts with
  | nil => rfl
  | cons part rest ih =>
    cases rest with
    | nil => simp
    | cons next rest =>
      rw [List.intercalate_cons_cons, ascii_append, ascii_append, ih]
      simp only [List.map_cons, List.intercalate_cons_cons]
      rfl

theorem splitOn_cookieHeader {items : List Item} (h : items ≠ []) :
    (ascii (cookieHeader items)).splitOn ';' = items.map fun i => ascii i.bytes := by
  have hblank : isBlank 59 = false := by decide
  have hsemicolon : ∀ text ∈ items.map fun i => ascii i.bytes, ';' ∉ text := by
    intro text htext
    obtain ⟨i, -, rfl⟩ := List.mem_map.mp htext
    intro hmem
    have hbyte : (59 : UInt8) ∈ i.bytes := mem_ascii.mp hmem
    simp only [Item.bytes, List.mem_append] at hbyte
    rcases hbyte with (hbyte | hbyte) | hbyte
    · have := i.blank 59 (List.mem_append_left _ hbyte)
      rw [hblank] at this
      cases this
    · exact i.semicolon hbyte
    · have := i.blank 59 (List.mem_append_right _ hbyte)
      rw [hblank] at this
      cases this
  rw [cookieHeader, ascii_intercalate, List.map_map]
  exact List.splitOn_intercalate ';' hsemicolon (by simpa using h)

theorem visible_items {items : List Item} (h : ∀ b ∈ cookieHeader items, Visible b) :
    ∀ i ∈ items, ∀ b ∈ i.bytes, Visible b := by
  have hmem : ∀ (parts : List Bytes), ∀ part ∈ parts, ∀ b ∈ part, b ∈ [59].intercalate parts := by
    intro parts
    induction parts with
    | nil => simp
    | cons first rest ih =>
      cases rest with
      | nil => simp
      | cons next rest =>
        rw [List.intercalate_cons_cons]
        intro part hpart b hb
        rcases List.mem_cons.mp hpart with rfl | hpart
        · exact List.mem_append_left _ (List.mem_append_left _ hb)
        · exact List.mem_append_right _ (ih part hpart b hb)
  intro i hi b hb
  exact h b (hmem _ i.bytes (List.mem_map.mpr ⟨i, hi, rfl⟩) b hb)

/-- What `session_token` makes of a header. -/
theorem sessionToken_eq {headers : HeaderMap} {items : List Item} [Decidable (∀ b ∈ cookieHeader items, Visible b)]
    (hcookie : headers.get "cookie" = some (cookieHeader items)) :
    sessionToken headers =
      if ∀ b ∈ cookieHeader items, Visible b then (search items).map fun value => String.ofList (ascii value)
      else none := by
  rw [sessionToken, hcookie]
  simp only [Option.bind_eq_bind, Option.bind_some, toStr_eq]
  split
  · rename_i hvisible
    cases items with
    | nil => rfl
    | cons i rest =>
      rw [Option.bind_some, splitOn_cookieHeader (by simp), findSessionCookie_items (visible_items hvisible)]
      cases search (i :: rest) with
      | none => rfl
      | some value => rfl
  · rfl

/-- **The token of a header is found exactly if the header is visible ASCII and only pairs stand in front of
it, or there is none to be found.** -/
theorem sessionToken_iff (headers : HeaderMap) (items : List Item)
    (hcookie : headers.get "cookie" = some (cookieHeader items)) :
    sessionToken headers = (token items).map (fun value => String.ofList (ascii value)) ↔
      (∀ i ∈ items, i.token = none) ∨
        (∀ b ∈ cookieHeader items, Visible b) ∧
          ∀ i ∈ items.takeWhile fun i => i.token.isNone, i.content.IsPair := by
  have hinjective : Function.Injective fun value : Bytes => String.ofList (ascii value) := by
    intro a b h
    exact ascii_injective (by simpa using congrArg String.toList h)
  rw [sessionToken_eq hcookie]
  split
  · rename_i hvisible
    rw [Option.map_injective hinjective |>.eq_iff, search_eq_token_iff, and_iff_right hvisible]
  · rename_i hvisible
    rw [eq_comm, Option.map_eq_none_iff, token, List.findSome?_eq_none_iff]
    simp [hvisible]

/-- The items of `theme=dark; rps_session=t` and of `theme; rps_session=t`. -/
def themeDark : Item where
  leading := []
  content := .pair (encode "theme".toList) (encode "dark".toList)
  trailing := []
  blank := List.all_eq_true.mp rfl
  wellFormed := by decide
  semicolon := by decide
  first := by intro b hb; cases hb; rfl
  last := by intro b hb; cases hb; rfl

def theme : Item where
  leading := []
  content := .word (encode "theme".toList)
  trailing := []
  blank := List.all_eq_true.mp rfl
  wellFormed := by decide
  semicolon := by decide
  first := by intro b hb; cases hb; rfl
  last := by intro b hb; cases hb; rfl

def session : Item where
  leading := [32]
  content := .pair (encode sessionCookieName.toList) (encode "t".toList)
  trailing := []
  blank := List.all_eq_true.mp rfl
  wellFormed := by decide
  semicolon := by decide
  first := by intro b hb; cases hb; rfl
  last := by intro b hb; cases hb; rfl

theorem sessionToken_behind_pair :
    cookieHeader [themeDark, session] = encode "theme=dark; rps_session=t".toList ∧
      sessionToken [("cookie", cookieHeader [themeDark, session])] = some "t" := by
  have hvisible : (cookieHeader [themeDark, session]).all fun b => decide (Visible b) := by decide
  refine ⟨by decide, ?_⟩
  have h := (sessionToken_iff [("cookie", cookieHeader [themeDark, session])] [themeDark, session] (by decide)).mpr
    (.inr ⟨by simpa only [List.all_eq_true, decide_eq_true_eq] using hvisible, by decide⟩)
  exact h

/-- Behind a word the token is not found. -/
theorem sessionToken_behind_word :
    cookieHeader [theme, session] = encode "theme; rps_session=t".toList ∧
      sessionToken [("cookie", cookieHeader [theme, session])] = none ∧
      sessionToken [("cookie", cookieHeader [theme, session])] ≠
        (token [theme, session]).map fun value => String.ofList (ascii value) := by
  decide

end Rps.Controller.SessionCookie
