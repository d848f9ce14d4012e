import Mathlib.Algebra.Order.BigOperators.Group.List
import Mathlib.Data.List.Basic
import Mathlib.Data.List.TakeWhile
import Rps.Base.Bytes

/-! Texts and their UTF-8 bytes.

A program that reads bytes and takes them for a text decodes whatever has arrived.
`encode_split` says where that is harmless: bytes are the encoding of a text exactly if the
parts before and after an ASCII byte are. A text of CRLF lines is split and joined again;
`splitCrlf_append` and `joinCrlf_append` say that a CRLF is a place to cut. -/
namespace Rps.Base

/-! ### UTF-8 -/

/-- The UTF-8 bytes of a text. -/
def encode (text : List Char) : Bytes := text.flatMap String.utf8EncodeChar

@[simp] theorem encode_nil : encode [] = [] := rfl

@[simp] theorem encode_cons (c : Char) (text : List Char) :
    encode (c :: text) = String.utf8EncodeChar c ++ encode text := rfl

@[simp] theorem encode_append (a b : List Char) : encode (a ++ b) = encode a ++ encode b := by
  simp [encode]

@[simp] theorem encode_eq_nil {text : List Char} : encode text = [] ↔ text = [] := by
  cases text with
  | nil => simp
  | cons c rest =>
    have hpos := c.utf8Size_pos
    rw [← String.length_utf8EncodeChar, List.length_pos_iff] at hpos
    simp [hpos]

/-- Bytes that decode are the encoding of what they decode to. -/
theorem fromUTF8_eq_some {bytes : Bytes} {s : String} :
    String.fromUTF8? ⟨bytes.toArray⟩ = some s ↔ bytes = encode s.toList := by
  have hbytes : s.toByteArray = (encode s.toList).toByteArray := by
    rw [← String.utf8Encode_toList]
    rfl
  have hmk : (⟨bytes.toArray⟩ : ByteArray) = bytes.toByteArray := by
    apply ByteArray.ext
    simp
  constructor
  · intro h
    have heq : s.toByteArray = ⟨bytes.toArray⟩ := by
      unfold String.fromUTF8? at h
      split at h
      · cases h
        rfl
      · cases h
    rw [hbytes, hmk] at heq
    simpa using (congrArg (fun b : ByteArray => b.data.toList) heq).symm
  · intro h
    have heq : (⟨bytes.toArray⟩ : ByteArray) = s.toByteArray := by rw [hmk, hbytes, ← h]
    unfold String.fromUTF8?
    rw [dif_pos (by rw [heq]; exact s.isValidUTF8)]
    rw [Option.some.injEq, ← String.toByteArray_inj]
    exact heq

/-- A character is one ASCII byte, or several bytes none of which is ASCII. -/
theorem encodeChar_cases (c : Char) :
    (∃ b : UInt8, String.utf8EncodeChar c = [b] ∧ b.toNat < 128) ∨
      (1 < (String.utf8EncodeChar c).length ∧ ∀ b ∈ String.utf8EncodeChar c, 128 ≤ b.toNat) := by
  unfold String.utf8EncodeChar
  simp only
  split
  · rename_i hlt
    refine .inl ⟨_, rfl, ?_⟩
    rw [UInt8.toNat_ofNat']
    omega
  · refine .inr ?_
    split
    · constructor
      · simp
      · simp
        omega
    · split
      · constructor
        · simp
        · simp
          omega
      · constructor
        · simp
        · simp
          omega

/-- Next to an ASCII byte a character ends. -/
theorem encode_split {a b : Bytes} {text : List Char} (h : a ++ b = encode text)
    (hcut : (∀ x ∈ a.getLast?, x.toNat < 128) ∨ ∀ x ∈ b.head?, x.toNat < 128) :
    ∃ t₁ t₂, text = t₁ ++ t₂ ∧ a = encode t₁ ∧ b = encode t₂ := by
  induction text generalizing a with
  | nil =>
    obtain ⟨rfl, rfl⟩ := List.append_eq_nil_iff.mp h
    exact ⟨[], [], rfl, rfl, rfl⟩
  | cons c text ih =>
    rw [encode_cons] at h
    rcases List.append_eq_append_iff.mp h with ⟨within, hc, hb⟩ | ⟨more, ha, hb⟩
    · -- `a` ends with the first character or inside it, where no byte is ASCII
      rcases List.eq_nil_or_concat a with rfl | ⟨init, x, rfl⟩
      · exact ⟨[], c :: text, rfl, rfl, h⟩
      · cases within with
        | nil => exact ⟨[c], text, rfl, by simpa using hc.symm, by simpa using hb⟩
        | cons y within =>
          exfalso
          rcases encodeChar_cases c with ⟨z, hz, -⟩ | ⟨-, hall⟩
          · have := congrArg List.length (hz.symm.trans hc)
            simp at this
            omega
          · have hx := hall x (by rw [hc]; simp)
            have hy := hall y (by rw [hc]; simp)
            rcases hcut with hcut | hcut
            · have := hcut x (by simp)
              omega
            · have := hcut y (by rw [hb]; simp)
              omega
    · obtain ⟨t₁, t₂, rfl, h₁, h₂⟩ := ih hb.symm (by
        rcases hcut with hcut | hcut
        · refine .inl fun x hx => hcut x ?_
          rw [ha, List.getLast?_append, Option.mem_def.mp hx]
          rfl
        · exact .inr hcut)
      exact ⟨c :: t₁, t₂, rfl, by rw [ha, h₁, encode_cons], h₂⟩

theorem encode_injective {a b : List Char} (h : encode a = encode b) : a = b := by
  have ha : String.fromUTF8? ⟨(encode a).toArray⟩ = some (String.ofList a) := by
    rw [fromUTF8_eq_some, String.toList_ofList]
  have hb : String.fromUTF8? ⟨(encode a).toArray⟩ = some (String.ofList b) := by
    rw [fromUTF8_eq_some, String.toList_ofList, h]
  have hab := Option.some.inj (ha.symm.trans hb)
  simpa using congrArg String.toList hab

/-- A text of ASCII bytes. -/
def ascii (bytes : Bytes) : List Char := bytes.map fun b => Char.ofNat b.toNat

@[simp] theorem ascii_nil : ascii [] = [] := rfl

theorem ofNat_injective {a b : UInt8} (h : Char.ofNat a.toNat = Char.ofNat b.toNat) : a = b := by
  have hback : ∀ b : UInt8, (Char.ofNat b.toNat).toNat = b.toNat := by
    apply forall_byte
    decide +kernel
  rw [← UInt8.toNat_inj, ← hback a, ← hback b, h]

theorem ascii_injective {a b : Bytes} (h : ascii a = ascii b) : a = b :=
  List.map_injective_iff.mpr (fun _ _ => ofNat_injective) h

theorem mem_ascii {b : UInt8} {bytes : Bytes} : Char.ofNat b.toNat ∈ ascii bytes ↔ b ∈ bytes := by
  constructor
  · intro h
    obtain ⟨a, ha, hab⟩ := List.mem_map.mp h
    rwa [← ofNat_injective hab]
  · intro h
    exact List.mem_map.mpr ⟨b, h, rfl⟩

theorem ascii_append (a b : Bytes) : ascii (a ++ b) = ascii a ++ ascii b := List.map_append ..

theorem encode_ascii {bytes : Bytes} (h : ∀ b ∈ bytes, b.toNat < 128) : encode (ascii bytes) = bytes := by
  induction bytes with
  | nil => rfl
  | cons b bytes ih =>
    have hb : b.toNat < 128 := h b (by simp)
    have hchar : String.utf8EncodeChar (Char.ofNat b.toNat) = [b] := by
      have hval : (Char.ofNat b.toNat).val.toNat = b.toNat := by
        have hvalid : b.toNat.isValidChar := .inl (by omega)
        rw [Char.ofNat, dif_pos hvalid]
        rfl
      unfold String.utf8EncodeChar
      simp only [hval]
      rw [if_pos (by omega)]
      simp
    show String.utf8EncodeChar _ ++ encode (ascii bytes) = b :: bytes
    rw [hchar, ih fun x hx => h x (List.mem_cons_of_mem b hx)]
    rfl

/-- A text of ASCII characters is the text of its bytes. -/
theorem ascii_of_lt {text : List Char} (h : ∀ c ∈ text, c.toNat < 128) :
    ascii (encode text) = text ∧ (encode text).length = text.length := by
  obtain ⟨bytes, hbytes, rfl⟩ : ∃ bytes : Bytes, (∀ b ∈ bytes, b.toNat < 128) ∧ ascii bytes = text := by
    refine ⟨text.map fun c => UInt8.ofNat c.toNat, ?_, ?_⟩
    · intro b hb
      obtain ⟨c, hc, rfl⟩ := List.mem_map.mp hb
      have := h c hc
      rw [UInt8.toNat_ofNat']
      omega
    · rw [ascii, List.map_map]
      refine (List.map_congr_left ?_).trans (List.map_id text)
      intro c hc
      have hmod : c.toNat % 256 = c.toNat := Nat.mod_eq_of_lt ((h c hc).trans (by decide))
      simp [hmod]
  rw [encode_ascii hbytes]
  exact ⟨rfl, (List.length_map ..).symm⟩

/-- A byte that is not ASCII is not a character. -/
theorem encode_ne_singleton {b : UInt8} (hb : 128 ≤ b.toNat) (text : List Char) : encode text ≠ [b] := by
  intro h
  cases text with
  | nil => cases h
  | cons c text =>
    rw [encode_cons] at h
    rcases encodeChar_cases c with ⟨x, hx, hlt⟩ | ⟨hlen, -⟩
    · rw [hx] at h
      obtain rfl : x = b := (List.cons.inj h).1
      omega
    · have := congrArg List.length h
      simp only [List.length_append, List.length_singleton] at this
      omega

/-- An ASCII byte of an encoding is a character of the text. -/
theorem mem_of_mem_encode {c : Char} {b : UInt8} {text : List Char} (hc : encode [c] = [b]) (hb : b.toNat < 128)
    (h : b ∈ encode text) : c ∈ text := by
  obtain ⟨d, hd, hmem⟩ := List.mem_flatMap.mp h
  obtain ⟨x, hx, -⟩ | ⟨-, hall⟩ := encodeChar_cases d
  · rw [hx, List.mem_singleton] at hmem
    subst hmem
    have hdc : encode [d] = encode [c] := by rw [hc, encode_cons, hx, encode_nil, List.append_nil]
    rwa [← List.cons.inj (encode_injective hdc) |>.1]
  · have := hall b hmem
    omega

/-- Bytes behind an ASCII byte that decode wherever they are cut are ASCII. -/
theorem ascii_of_decodes {head rest : Bytes} {n : Nat} (hlast : ∀ x ∈ head.getLast?, x.toNat < 128)
    (h : ∀ k < n, ∃ text, head ++ rest.take k = encode text) : ∀ k < n, ∀ b ∈ rest.take k, b.toNat < 128 := by
  intro k
  induction k with
  | zero => simp
  | succ k ih =>
    intro hk b hb
    have hbefore := ih (by omega)
    rw [List.take_add_one] at hb
    rcases List.mem_append.mp hb with hb | hb
    · exact hbefore b hb
    · by_contra hnot
      obtain ⟨text, htext⟩ := h (k + 1) hk
      rw [List.take_add_one, Option.mem_toList.mp hb, ← List.append_assoc] at htext
      obtain ⟨-, t₂, -, -, hbyte⟩ := encode_split htext (.inl (by
        intro x hx
        rw [List.getLast?_append, Option.mem_def, Option.or_eq_some_iff] at hx
        rcases hx with hx | ⟨-, hx⟩
        · exact hbefore x (List.mem_of_getLast? hx)
        · exact hlast x hx))
      exact encode_ne_singleton (by omega) t₂ hbyte.symm

/-! ### Cuts at a character -/

/-- A text that is cut at `c` and at `d`, with `c` not in front of the other cut. -/
theorem cut_behind {a rest before after : List Char} {c d : Char} (h : a ++ c :: rest = before ++ d :: after)
    (hc : c ∉ before) (hne : c ≠ d) : ∃ more, a = before ++ d :: more := by
  rcases List.append_eq_append_iff.mp h with ⟨more, hbefore, hrest⟩ | ⟨more, ha, hrest⟩
  · cases more with
    | nil => exact absurd (List.cons.inj hrest).1 hne
    | cons e more =>
      obtain ⟨rfl, -⟩ := List.cons.inj hrest
      exact absurd (by rw [hbefore]; simp) hc
  · cases more with
    | nil => exact absurd (List.cons.inj hrest).1.symm hne
    | cons e more =>
      obtain ⟨rfl, -⟩ := List.cons.inj hrest
      exact ⟨more, ha⟩

theorem takeWhile_ne {c : Char} {a : List Char} (h : c ∉ a) (b : List Char) :
    (a ++ c :: b).takeWhile (· ≠ c) = a ∧ (a ++ c :: b).dropWhile (· ≠ c) = c :: b := by
  have hall : ∀ d ∈ a, decide (d ≠ c) = true := by
    intro d hd
    rw [decide_eq_true_iff]
    rintro rfl
    exact h hd
  rw [List.takeWhile_append_of_pos hall, List.dropWhile_append_of_pos hall]
  simp

theorem takeWhile_ne_of_not_mem {c : Char} {s : List Char} (h : c ∉ s) :
    s.takeWhile (· ≠ c) = s ∧ s.dropWhile (· ≠ c) = [] := by
  have hall : ∀ d ∈ s, decide (d ≠ c) = true := by
    intro d hd
    rw [decide_eq_true_iff]
    rintro rfl
    exact h hd
  exact ⟨List.takeWhile_eq_self_iff.mpr hall, List.dropWhile_eq_nil_iff.mpr hall⟩

/-! ### CRLF lines -/

def crlf : List Char := ['\r', '\n']

/-- Split at every CRLF; the line being read is kept reversed. -/
def splitCrlf (line : List Char) : List Char → List (List Char)
  | [] => [line.reverse]
  | [c] => [(c :: line).reverse]
  | c :: d :: rest =>
    if c = '\r' ∧ d = '\n' then line.reverse :: splitCrlf [] rest else splitCrlf (c :: line) (d :: rest)

def joinCrlf : List (List Char) → List Char
  | [] => []
  | [line] => line
  | line :: next :: rest => line ++ crlf ++ joinCrlf (next :: rest)

/-- What is behind the first CRLF. -/
def afterCrlf : List Char → Option (List Char)
  | [] => none
  | [_] => none
  | c :: d :: rest => if c = '\r' ∧ d = '\n' then some rest else afterCrlf (d :: rest)

theorem splitCrlf_ne_nil (line s : List Char) : splitCrlf line s ≠ [] := by
  fun_induction splitCrlf line s with
  | case1 line => simp
  | case2 line c => simp
  | case3 line c d rest h ih => simp
  | case4 line c d rest h ih => exact ih

theorem splitCrlf_of_not_mem {s : List Char} (h : '\r' ∉ s) (line : List Char) :
    splitCrlf line s = [line.reverse ++ s] := by
  fun_induction splitCrlf line s with
  | case1 line => simp
  | case2 line c => simp
  | case3 line c d rest hcd ih => simp [hcd.1] at h
  | case4 line c d rest hcd ih =>
    rw [ih fun hmem => h (List.mem_cons_of_mem c hmem)]
    simp

/-- Nothing is lost at a CRLF and nothing is read across it. -/
theorem splitCrlf_append (line a b : List Char) :
    splitCrlf line (a ++ crlf ++ b) = splitCrlf line a ++ splitCrlf [] b := by
  fun_induction splitCrlf line a with
  | case1 line => simp [crlf, splitCrlf]
  | case2 line c => simp [crlf, splitCrlf]
  | case3 line c d rest h ih =>
    simp only [List.cons_append, splitCrlf, h, and_self, if_true, ih]
  | case4 line c d rest h ih =>
    rw [← ih]
    simp only [List.cons_append, splitCrlf, h, if_false]

/-- Lines with a CRLF behind each. -/
def crlfLines (lines : List (List Char)) : List Char := lines.flatMap (· ++ crlf)

theorem splitCrlf_crlfLines {lines : List (List Char)} (h : ∀ line ∈ lines, '\r' ∉ line) (rest : List Char) :
    splitCrlf [] (crlfLines lines ++ rest) = lines ++ splitCrlf [] rest := by
  induction lines with
  | nil => rfl
  | cons line lines ih =>
    have hsplit := splitCrlf_append [] line (crlfLines lines ++ rest)
    rw [splitCrlf_of_not_mem (h line (List.mem_cons_self ..)),
      ih fun l hl => h l (List.mem_cons_of_mem line hl)] at hsplit
    simpa [crlfLines] using hsplit

theorem joinCrlf_cons {line : List Char} {rest : List (List Char)} (h : rest ≠ []) :
    joinCrlf (line :: rest) = line ++ crlf ++ joinCrlf rest := by
  obtain ⟨next, rest, rfl⟩ := List.exists_cons_of_ne_nil h
  rfl

theorem joinCrlf_append {a b : List (List Char)} (ha : a ≠ []) (hb : b ≠ []) :
    joinCrlf (a ++ b) = joinCrlf a ++ crlf ++ joinCrlf b := by
  induction a with
  | nil => exact absurd rfl ha
  | cons line rest ih =>
    cases rest with
    | nil => exact joinCrlf_cons hb
    | cons next rest =>
      have hfirst : joinCrlf (line :: next :: rest) = line ++ crlf ++ joinCrlf (next :: rest) := rfl
      rw [List.cons_append, joinCrlf_cons (by simp), ih (by simp), hfirst]
      simp

theorem joinCrlf_crlfLines (lines : List (List Char)) : joinCrlf (lines ++ [[]]) = crlfLines lines := by
  induction lines with
  | nil => rfl
  | cons line lines ih =>
    rw [List.cons_append, joinCrlf_cons (by simp), ih]
    rfl

theorem joinCrlf_splitCrlf (line s : List Char) : joinCrlf (splitCrlf line s) = line.reverse ++ s := by
  fun_induction splitCrlf line s with
  | case1 line => simp [joinCrlf]
  | case2 line c => simp [joinCrlf]
  | case3 line c d rest h ih =>
    obtain ⟨rfl, rfl⟩ := h
    rw [joinCrlf_cons (splitCrlf_ne_nil [] rest), ih]
    simp [crlf]
  | case4 line c d rest h ih =>
    rw [ih]
    simp

/-- Of lines that are joined each one is split on its own. -/
theorem splitCrlf_joinCrlf {lines : List (List Char)} (h : lines ≠ []) :
    splitCrlf [] (joinCrlf lines) = lines.flatMap (splitCrlf []) := by
  induction lines with
  | nil => exact absurd rfl h
  | cons line lines ih =>
    cases lines with
    | nil => simp [joinCrlf]
    | cons next rest =>
      rw [joinCrlf_cons (by simp), splitCrlf_append, ih (by simp)]
      rfl

/-- A line that was split off is not split again. -/
theorem splitCrlf_line {s line : List Char} (h : line ∈ splitCrlf [] s) : splitCrlf [] line = [line] := by
  have hpos : ∀ l, 1 ≤ (splitCrlf [] l).length := fun l => List.length_pos_iff.mpr (splitCrlf_ne_nil [] l)
  have hflat := splitCrlf_joinCrlf (splitCrlf_ne_nil [] s)
  rw [joinCrlf_splitCrlf, List.reverse_nil, List.nil_append] at hflat
  obtain ⟨a, b, hlines⟩ := List.append_of_mem h
  have hle : ∀ lines : List (List Char), lines.length ≤ (lines.flatMap (splitCrlf [])).length := by
    intro lines
    induction lines with
    | nil => exact Nat.le_refl _
    | cons l lines ih =>
      have := hpos l
      rw [List.flatMap_cons, List.length_append, List.length_cons]
      omega
  -- as many lines as before, so none of them has become two
  have hone : (splitCrlf [] line).length = 1 := by
    have hlen := congrArg List.length hflat
    have ha := hle a
    have hb := hle b
    have := hpos line
    rw [hlines, List.flatMap_append, List.flatMap_cons] at hlen
    simp only [List.length_append, List.length_cons] at hlen
    omega
  obtain ⟨only, honly⟩ := List.length_eq_one_iff.mp hone
  have hjoin := joinCrlf_splitCrlf [] line
  rw [honly] at hjoin ⊢
  simpa [joinCrlf] using hjoin

theorem afterCrlf_append {a rest : List Char} (h : afterCrlf a = some rest) (b : List Char) :
    afterCrlf (a ++ b) = some (rest ++ b) := by
  fun_induction afterCrlf a with
  | case1 => cases h
  | case2 c => cases h
  | case3 c d tail hcd =>
    cases h
    simp [afterCrlf, hcd]
  | case4 c d tail hcd ih =>
    simpa [afterCrlf, hcd] using ih h

theorem afterCrlf_of_not_mem {a : List Char} (h : '\r' ∉ a) (b : List Char) : afterCrlf (a ++ crlf ++ b) = some b := by
  fun_induction afterCrlf a with
  | case1 => simp [crlf, afterCrlf]
  | case2 c => simp [crlf, afterCrlf]
  | case3 c d tail hcd => simp [hcd.1] at h
  | case4 c d tail hcd ih =>
    have := ih fun hmem => h (List.mem_cons_of_mem c hmem)
    simpa [afterCrlf, hcd] using this

/-- There is something behind the first CRLF of a text that has one. -/
theorem afterCrlf_isSome (a b : List Char) : (afterCrlf (a ++ crlf ++ b)).isSome := by
  fun_induction afterCrlf a with
  | case1 => simp [crlf, afterCrlf]
  | case2 c => simp [crlf, afterCrlf]
  | case3 c d tail hcd => simp [afterCrlf, hcd]
  | case4 c d tail hcd ih => simpa [afterCrlf, hcd] using ih

/-- The bytes of lines with a CRLF behind each. -/
def linesSize (lines : List (List Char)) : Nat := (lines.map fun line => (encode line).length + 2).sum

@[simp] theorem linesSize_append (a b : List (List Char)) : linesSize (a ++ b) = linesSize a + linesSize b := by
  simp [linesSize]

theorem encode_crlf_length : (encode crlf).length = 2 := by decide

theorem joinCrlf_size {lines : List (List Char)} (h : lines ≠ []) :
    (encode (joinCrlf lines)).length + 2 = linesSize lines := by
  induction lines with
  | nil => exact absurd rfl h
  | cons line rest ih =>
    cases rest with
    | nil => simp [joinCrlf, linesSize]
    | cons next rest =>
      have := ih (by simp)
      rw [joinCrlf_cons (by simp)]
      simp only [encode_append, List.length_append, encode_crlf_length, linesSize, List.map_cons,
        List.sum_cons] at this ⊢
      omega

/-- Lines that are taken out are missing. -/
theorem linesSize_filter_lt {lines : List (List Char)} {p : List Char → Bool} (h : ∃ line ∈ lines, p line = false) :
    linesSize (lines.filter p) < linesSize lines := by
  induction lines with
  | nil => simp at h
  | cons line rest ih =>
    have hle : linesSize (rest.filter p) ≤ linesSize rest :=
      (List.filter_sublist.map _).sum_le_sum fun _ _ => Nat.zero_le _
    cases hp : p line with
    | false =>
      rw [List.filter_cons_of_neg (by simp [hp])]
      simp only [linesSize, List.map_cons, List.sum_cons] at hle ⊢
      omega
    | true =>
      rw [List.filter_cons_of_pos hp]
      obtain ⟨x, hx, hpx⟩ := h
      rcases List.mem_cons.mp hx with rfl | hx
      · rw [hp] at hpx
        cases hpx
      · have := ih ⟨x, hx, hpx⟩
        simp only [linesSize, List.map_cons, List.sum_cons] at this ⊢
        omega

end Rps.Base
