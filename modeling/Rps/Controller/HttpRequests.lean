import Mathlib.Data.List.Flatten
import Rps.Controller.HttpProxy

/-! Requests one after another on a connection of the HTTP proxy port.

The port reads one header, opens one target and pipes the rest of the connection to it. So
the second request of a connection goes to the target of the first one, with its absolute
URI and its authorization (`second_request_misrouted`).

`requests_handled`: whatever the port forwards is delivered to its own target in origin form
if the request it forwards is the only one, its URI is one that the port understands
(`Uri.Plain`) and no line that came in with the header section looks like an authorization.
For a connection whose first request is taken on its own account nothing less will do. -/
namespace Rps.Controller
open Base

namespace HttpProxy

/-! ### Requests in absolute form -/

def visible (c : Char) : Bool := 0x21 ≤ c.toNat && c.toNat ≤ 0x7e

/-- The characters of methods and of field names. -/
def tokenChar (c : Char) : Bool := c.isAlphanum || "!#$%&'*+-.^_`|~".toList.contains c

inductive Scheme where
  | http | https
  deriving DecidableEq

def Scheme.name : Scheme → List Char
  | .http => "http".toList
  | .https => "https".toList

def Scheme.port : Scheme → Nat
  | .http => 80
  | .https => 443

/-- An absolute URI. The case of the scheme is free, the port may be left out or left empty,
and only an address in brackets has colons. -/
structure Uri where
  scheme : Scheme
  spelling : List Char
  host : List Char
  port : Option (List Char)
  path : List Char
  query : Option (List Char)
  spelled : eqIgnoreAsciiCase spelling scheme.name = true
  hostChars : ∀ c ∈ host, visible c = true ∧ c ∉ "/?#@".toList
  hostColon : ':' ∈ host → host.head? = some '[' ∧ host.getLast? = some ']'
  portChars : ∀ digits ∈ port, ∀ c ∈ digits, c.isDigit = true
  pathChars : ∀ c ∈ path, visible c = true ∧ c ∉ "?#".toList
  pathSlash : path ≠ [] → path.head? = some '/'
  queryChars : ∀ q ∈ query, ∀ c ∈ q, visible c = true ∧ c ≠ '#'

def Uri.portText (u : Uri) : List Char :=
  match u.port with
  | none => []
  | some digits => ':' :: digits

def Uri.queryText (u : Uri) : List Char :=
  match u.query with
  | none => []
  | some q => '?' :: q

/-- The URI without its scheme. -/
def Uri.rest (u : Uri) : List Char := u.host ++ u.portText ++ u.path ++ u.queryText

def Uri.text (u : Uri) : List Char := u.spelling ++ "://".toList ++ u.rest

/-- The target that the URI names. -/
def Uri.target (u : Uri) : List Char :=
  u.host ++ ':' ::
    match u.port with
    | some (d :: digits) => d :: digits
    | _ => (toString u.scheme.port).toList

/-- The URI in origin form. -/
def Uri.origin (u : Uri) : List Char := (if u.path = [] then ['/'] else u.path) ++ u.queryText

structure Field where
  name : List Char
  value : Bytes
  token : name ≠ [] ∧ ∀ c ∈ name, tokenChar c = true
  plain : ∀ b ∈ value, b ≠ 13 ∧ b ≠ 10

def Field.bytes (f : Field) : Bytes := encode f.name ++ 58 :: f.value

def Field.authorization (f : Field) : Bool := eqIgnoreAsciiCase f.name "Proxy-Authorization".toList

def fieldLines (fields : List Field) : Bytes := fields.flatMap fun f => f.bytes ++ encode crlf

/-- A request in absolute form that the port does not take for a CONNECT. The body is as long
as the client likes: the port does not read the fields that say so. -/
structure PlainRequest where
  method : List Char
  uri : Uri
  fields : List Field
  body : Bytes
  token : method ≠ [] ∧ ∀ c ∈ method, tokenChar c = true
  notConnect : eqIgnoreAsciiCase method "CONNECT".toList = false
  host : ∃ f ∈ fields, eqIgnoreAsciiCase f.name "Host".toList = true

/-- The request line with the URI in one form or the other. -/
def PlainRequest.line (r : PlainRequest) (path : List Char) : List Char :=
  r.method ++ [' '] ++ path ++ [' '] ++ "HTTP/1.1".toList

def PlainRequest.head (r : PlainRequest) : Bytes :=
  encode (r.line r.uri.text ++ crlf) ++ fieldLines r.fields ++ encode crlf

/-- The request as the client sends it. -/
def PlainRequest.bytes (r : PlainRequest) : Bytes := r.head ++ r.body

/-- What the client sends on the connection. -/
def stream (rs : List PlainRequest) : Bytes := rs.flatMap PlainRequest.bytes

@[simp] theorem stream_nil : stream [] = [] := rfl

@[simp] theorem stream_cons (r : PlainRequest) (more : List PlainRequest) :
    stream (r :: more) = r.head ++ (r.body ++ stream more) := by
  simp [stream, PlainRequest.bytes]

/-- The header section without authorizations. -/
def PlainRequest.headAs (r : PlainRequest) (path : List Char) : Bytes :=
  encode (r.line path ++ crlf) ++ fieldLines (r.fields.filter (!·.authorization)) ++ encode crlf

/-- The request as its target should receive it. -/
def PlainRequest.originForm (r : PlainRequest) : Bytes := r.headAs r.uri.origin ++ r.body

/-- Every request that is forwarded reaches the target of its own URI, in origin form and
without an authorization. -/
def Handled (rs : List PlainRequest) : Outcome → Prop
  | .opened _ target received =>
    ∃ forwarded : List PlainRequest, forwarded.Sublist rs ∧ (∀ r ∈ forwarded, r.uri.target = target) ∧
      received = forwarded.flatMap PlainRequest.originForm
  | _ => True

/-! ### What the port makes of a URI -/

/-- A URI that the port understands. -/
structure Uri.Plain (u : Uri) : Prop where
  spelling : u.spelling = u.scheme.name
  colon : ':' ∈ u.host → u.port.isSome
  port : u.port ≠ some []
  query : u.path = [] → u.query = none

theorem length_of_eqIgnoreAsciiCase {a b : List Char} (h : eqIgnoreAsciiCase a b = true) : a.length = b.length := by
  have := congrArg List.length (of_decide_eq_true h)
  simpa using this

/-- A scheme in lower case is recognised. -/
theorem stripScheme_name (scheme : Scheme) (rest : List Char) :
    stripScheme (scheme.name ++ "://".toList ++ rest) = some (rest, scheme.port) := by
  rw [stripScheme]
  cases scheme with
  | http =>
    have hstrip : "http://".toList.isPrefixOf? (Scheme.name .http ++ "://".toList ++ rest) = some rest :=
      List.isPrefixOf?_eq_some_iff_append_eq.mpr rfl
    rw [hstrip]
    rfl
  | https =>
    have hstrip : "https://".toList.isPrefixOf? (Scheme.name .https ++ "://".toList ++ rest) = some rest :=
      List.isPrefixOf?_eq_some_iff_append_eq.mpr rfl
    have hother : "http://".toList.isPrefixOf? (Scheme.name .https ++ "://".toList ++ rest) = none := rfl
    rw [hother, hstrip]
    rfl

theorem stripScheme_plain (u : Uri) (h : u.spelling = u.scheme.name) :
    stripScheme u.text = some (u.rest, u.scheme.port) := by
  rw [Uri.text, h]
  exact stripScheme_name u.scheme u.rest

/-- A scheme in any other spelling is not. -/
theorem stripScheme_spelling {scheme : Scheme} {spelling : List Char}
    (hspelled : eqIgnoreAsciiCase spelling scheme.name = true) (h : spelling ≠ scheme.name) (rest : List Char) :
    stripScheme (spelling ++ "://".toList ++ rest) = none := by
  have hlen := length_of_eqIgnoreAsciiCase hspelled
  -- what is in the place of the scheme is the spelling
  have hnone : ∀ name tail : List Char, name.length = spelling.length → spelling ≠ name →
      (name ++ tail).isPrefixOf? (spelling ++ "://".toList ++ rest) = none := by
    intro name tail hname hne
    rw [Option.eq_none_iff_forall_ne_some]
    intro found hfound
    rw [List.isPrefixOf?_eq_some_iff_append_eq, List.append_assoc, List.append_assoc] at hfound
    exact hne (List.append_inj_left hfound hname).symm
  rw [stripScheme]
  cases scheme with
  | http =>
    have h₁ : "http://".toList.isPrefixOf? (spelling ++ "://".toList ++ rest) = none :=
      hnone "http".toList "://".toList hlen.symm h
    have h₂ : "https://".toList.isPrefixOf? (spelling ++ "://".toList ++ rest) = none :=
      hnone "http".toList "s://".toList hlen.symm h
    rw [h₁, h₂]
  | https =>
    have hcolon : spelling ≠ "http:".toList := by
      intro hcolon
      rw [hcolon] at hspelled
      exact absurd hspelled (by decide)
    have hfive : "http:".toList.length = spelling.length := by
      rw [hlen]
      decide
    have h₁ : "http://".toList.isPrefixOf? (spelling ++ "://".toList ++ rest) = none :=
      hnone "http:".toList "//".toList hfive hcolon
    have h₂ : "https://".toList.isPrefixOf? (spelling ++ "://".toList ++ rest) = none :=
      hnone "https".toList "://".toList hlen.symm h
    rw [h₁, h₂]

theorem stripScheme_other (u : Uri) (h : u.spelling ≠ u.scheme.name) : stripScheme u.text = none :=
  stripScheme_spelling u.spelled h u.rest

theorem Uri.portText_ne (u : Uri) {c : Char} (hc : c ≠ ':') (hdigit : c.isDigit = false) : c ∉ u.portText := by
  unfold Uri.portText
  cases hport : u.port with
  | none => simp
  | some digits =>
    rw [List.mem_cons, not_or]
    refine ⟨hc, fun hmem => ?_⟩
    rw [u.portChars digits hport c hmem] at hdigit
    cases hdigit

theorem Uri.authority_ne_slash (u : Uri) : ∀ c ∈ u.host ++ u.portText, decide (c ≠ '/') = true := by
  intro c hc
  rw [decide_eq_true_iff]
  rintro rfl
  rcases List.mem_append.mp hc with hc | hc
  · exact (u.hostChars _ hc).2 (by decide)
  · exact u.portText_ne (by decide) (by decide) hc

/-- The port looks for the first slash: what it takes for the host and for the path. -/
theorem Uri.rest_split (u : Uri) :
    u.rest.takeWhile (· ≠ '/') = u.host ++ u.portText ++ (u.path ++ u.queryText).takeWhile (· ≠ '/') ∧
      u.rest.dropWhile (· ≠ '/') = (u.path ++ u.queryText).dropWhile (· ≠ '/') := by
  rw [Uri.rest, List.append_assoc _ u.path]
  exact ⟨List.takeWhile_append_of_pos u.authority_ne_slash, List.dropWhile_append_of_pos u.authority_ne_slash⟩

/-- Behind a slash, or with nothing behind the authority, it finds what the URI says. -/
theorem Uri.path_split (u : Uri) (h : u.path = [] → u.query = none) :
    (u.path ++ u.queryText).takeWhile (· ≠ '/') = [] ∧
      (u.path ++ u.queryText).dropWhile (· ≠ '/') = u.path ++ u.queryText := by
  cases hpath : u.path with
  | nil =>
    rw [Uri.queryText, h hpath]
    exact ⟨rfl, rfl⟩
  | cons c path =>
    have hslash := u.pathSlash (by simp [hpath])
    rw [hpath, List.head?_cons, Option.some.injEq] at hslash
    subst hslash
    exact ⟨rfl, rfl⟩

theorem portDigits_ne {c : Char} (hdigit : c.isDigit = false) (scheme : Scheme) :
    c ∉ (toString scheme.port).toList := by
  have hdigits : ∀ d ∈ (toString scheme.port).toList, d.isDigit = true :=
    List.all_eq_true.mp (by cases scheme <;> decide)
  intro hc
  rw [hdigits c hc] at hdigit
  cases hdigit

/-- A port that is given, or the default. -/
def portOr (port : Option (List Char)) (default : Nat) : List Char :=
  match port with
  | some (d :: digits) => d :: digits
  | _ => (toString default).toList

/-- The default port is added where it belongs, exactly if a host with a colon comes with a
port and no port is empty. -/
theorem withDefaultPort_iff (host : List Char) (port : Option (List Char)) (default : Nat) :
    withDefaultPort (host ++ (match port with | none => [] | some digits => ':' :: digits)) default =
        host ++ ':' :: portOr port default ↔
      (':' ∈ host → port.isSome) ∧ port ≠ some [] := by
  rw [withDefaultPort]
  match port with
  | none =>
    rw [List.append_nil]
    split
    · rename_i hcolon
      simp [hcolon]
    · rename_i hcolon
      simp [hcolon, portOr]
  | some [] => simp [portOr]
  | some (d :: digits) => simp [portOr]

theorem Uri.Plain.target {u : Uri} (h : u.Plain) :
    withDefaultPort (u.rest.takeWhile (· ≠ '/')) u.scheme.port = u.target := by
  rw [u.rest_split.1, (u.path_split h.query).1, List.append_nil]
  exact (withDefaultPort_iff u.host u.port u.scheme.port).mpr ⟨h.colon, h.port⟩

theorem mem_withDefaultPort {c : Char} {host : List Char} (h : c ∈ host) (port : Nat) :
    c ∈ withDefaultPort host port := by
  unfold withDefaultPort
  split
  · exact h
  · simp [h]

theorem Uri.target_ne_question (u : Uri) : '?' ∉ u.target := by
  rw [Uri.target, List.mem_append, List.mem_cons]
  intro h
  obtain hhost | hcolon | hport := h
  · exact (u.hostChars _ hhost).2 (by decide)
  · exact absurd hcolon (by decide)
  · split at hport
    · rename_i d digits hdigits
      have := u.portChars _ hdigits _ hport
      exact absurd this (by decide)
    · exact portDigits_ne (by decide) u.scheme hport

/-- No other URI is understood: what is taken for the host is not the target. -/
theorem Uri.Plain.of_target {u : Uri} (hspelling : u.spelling = u.scheme.name)
    (h : withDefaultPort (u.rest.takeWhile (· ≠ '/')) u.scheme.port = u.target) : u.Plain := by
  have hquery : u.path = [] → u.query = none := by
    intro hpath
    cases hquery : u.query with
    | none => rfl
    | some q =>
      -- the query is taken for a part of the host
      have hmem : '?' ∈ u.rest.takeWhile (· ≠ '/') := by
        rw [u.rest_split.1, hpath, Uri.queryText, hquery]
        simp
      exact absurd (h ▸ mem_withDefaultPort hmem _) u.target_ne_question
  rw [u.rest_split.1, (u.path_split hquery).1, List.append_nil] at h
  obtain ⟨hcolon, hport⟩ := (withDefaultPort_iff u.host u.port u.scheme.port).mp h
  exact ⟨hspelling, hcolon, hport, hquery⟩

/-- A URI that is understood is put into origin form. -/
theorem Uri.Plain.originPath {u : Uri} (h : u.Plain) : originPath u.text = u.origin := by
  rw [HttpProxy.originPath, stripScheme_plain u h.spelling]
  simp only
  rw [u.rest_split.2, (u.path_split h.query).2, Uri.origin]
  by_cases hpath : u.path = []
  · rw [hpath, Uri.queryText, h.query hpath]
    rfl
  · rw [if_neg hpath, if_neg (by simp [hpath])]

/-- A URI in origin form is shorter. -/
theorem Uri.origin_length (u : Uri) : (encode u.origin).length < (encode u.text).length := by
  have hsep : (encode "://".toList).length = 3 := by decide
  have hslash : (encode ['/']).length = 1 := by decide
  rw [Uri.origin, Uri.text, Uri.rest]
  simp only [encode_append, List.length_append, hsep]
  split <;> omega

/-! ### The header section of a request -/

theorem visible_toNat {c : Char} (h : visible c = true) : 0x21 ≤ c.toNat ∧ c.toNat ≤ 0x7e := by
  simpa [visible] using h

theorem isWhitespace_of_visible {c : Char} (h : visible c = true) : isWhitespace c = false := by
  have := visible_toNat h
  simp only [isWhitespace, Bool.or_eq_false_iff, Bool.and_eq_false_iff, decide_eq_false_iff_not]
  omega

theorem visible_of_tokenChar {c : Char} (h : tokenChar c = true) : visible c = true ∧ c ≠ ':' := by
  rw [tokenChar, Bool.or_eq_true] at h
  rcases h with h | h
  · have hnat : ((65 ≤ c.toNat ∧ c.toNat ≤ 90) ∨ 97 ≤ c.toNat ∧ c.toNat ≤ 122) ∨ 48 ≤ c.toNat ∧ c.toNat ≤ 57 := by
      have hval : ((decide (c.val ≥ 65 ∧ c.val ≤ 90) || decide (c.val ≥ 97) && decide (c.val ≤ 122)) ||
          decide (c.val ≥ 48) && decide (c.val ≤ 57)) = true := h
      simpa [UInt32.le_iff_toNat_le] using hval
    refine ⟨?_, ?_⟩
    · simp only [visible, Bool.and_eq_true, decide_eq_true_iff]
      omega
    · rintro rfl
      revert hnat
      decide
  · have hall : ∀ d ∈ "!#$%&'*+-.^_`|~".toList, (visible d && d ≠ ':') = true := List.all_eq_true.mp (by decide)
    simpa using hall c (List.contains_iff_mem.mp h)

theorem visible_of_toLower {c : Char} (h : visible c.toLower = true) : visible c = true := by
  unfold Char.toLower at h
  split at h
  · rename_i hc
    have hnat : 65 ≤ c.toNat ∧ c.toNat ≤ 90 := hc
    simp only [visible, Bool.and_eq_true, decide_eq_true_iff]
    omega
  · exact h

theorem visible_of_isDigit {c : Char} (h : c.isDigit = true) : visible c = true :=
  (visible_of_tokenChar (by simp [tokenChar, Char.isAlphanum, h])).1

theorem Uri.visible_spelling (u : Uri) : ∀ c ∈ u.spelling, visible c = true := by
  intro c hc
  have hname : ∀ d ∈ u.scheme.name.map Char.toLower, visible d = true :=
    List.all_eq_true.mp (by cases u.scheme <;> decide)
  have hlower : c.toLower ∈ u.scheme.name.map Char.toLower := by
    rw [← of_decide_eq_true u.spelled]
    exact List.mem_map_of_mem hc
  exact visible_of_toLower (hname _ hlower)

theorem Uri.visible_text (u : Uri) : ∀ c ∈ u.text, visible c = true := by
  intro c hc
  simp only [Uri.text, Uri.rest, List.mem_append] at hc
  rcases hc with (hspelling | hsep) | ((hhost | hport) | hpath) | hquery
  · exact u.visible_spelling c hspelling
  · have hall : ∀ d ∈ "://".toList, visible d = true := List.all_eq_true.mp (by decide)
    exact hall c hsep
  · exact (u.hostChars c hhost).1
  · unfold Uri.portText at hport
    split at hport
    · cases hport
    · rename_i digits hdigits
      rcases List.mem_cons.mp hport with rfl | hmem
      · decide
      · exact visible_of_isDigit (u.portChars digits hdigits c hmem)
  · exact (u.pathChars c hpath).1
  · unfold Uri.queryText at hquery
    split at hquery
    · cases hquery
    · rename_i q hq
      rcases List.mem_cons.mp hquery with rfl | hmem
      · decide
      · exact (u.queryChars q hq c hmem).1

theorem PlainRequest.line_ne_cr (r : PlainRequest) : '\r' ∉ r.line r.uri.text := by
  simp only [PlainRequest.line, List.mem_append, List.mem_singleton]
  rintro ((((hmethod | hspace) | huri) | hspace) | hversion)
  · exact absurd (visible_of_tokenChar (r.token.2 _ hmethod)).1 (by decide)
  · exact absurd hspace (by decide)
  · exact absurd (r.uri.visible_text _ huri) (by decide)
  · exact absurd hspace (by decide)
  · exact absurd hversion (by decide)

/-- A word is read to the next white space. -/
theorem splitWhitespace_word {a : List Char} (h : ∀ c ∈ a, visible c = true) (word rest : List Char) :
    splitWhitespace word (a ++ rest) = splitWhitespace (a.reverse ++ word) rest := by
  induction a generalizing word with
  | nil => rfl
  | cons c a ih =>
    have hc := isWhitespace_of_visible (h c (List.mem_cons_self ..))
    rw [List.cons_append, splitWhitespace, hc, if_neg (by simp), ih fun d hd => h d (List.mem_cons_of_mem c hd)]
    simp

theorem splitWhitespace_space {word : List Char} (h : word ≠ []) (rest : List Char) :
    splitWhitespace word (' ' :: rest) = word.reverse :: splitWhitespace [] rest := by
  have hspace : isWhitespace ' ' = true := by decide
  rw [splitWhitespace, hspace, if_pos rfl, if_neg h]

/-- The port reads the request line of a request as it is meant. -/
theorem requestLine_line (r : PlainRequest) :
    requestLine (r.line r.uri.text) = ⟨r.method, r.uri.text, "HTTP/1.1".toList⟩ := by
  have hwords : splitWhitespace [] (r.line r.uri.text) = [r.method, r.uri.text, "HTTP/1.1".toList] := by
    have hline : r.line r.uri.text = r.method ++ ' ' :: (r.uri.text ++ ' ' :: ("HTTP/1.1".toList ++ [])) := by
      simp [PlainRequest.line]
    have huri : r.uri.text ≠ [] := by simp [Uri.text]
    rw [hline, splitWhitespace_word fun c hc => (visible_of_tokenChar (r.token.2 c hc)).1,
      splitWhitespace_space (by simpa using r.token.1), splitWhitespace_word r.uri.visible_text,
      splitWhitespace_space (by simpa using huri), splitWhitespace_word (List.all_eq_true.mp (by decide))]
    simp [splitWhitespace]
  rw [requestLine, splitCrlf_of_not_mem r.line_ne_cr]
  simp only [List.reverse_nil, List.nil_append, List.headD_cons, hwords]
  rfl

/-- The text of a field, if its value is one. -/
structure Field.IsText (f : Field) (text : List Char) : Prop where
  bytes : f.bytes = encode text
  line : '\r' ∉ text
  authorization : isProxyAuthorization text = f.authorization

theorem splitOnce_append {c : Char} {before : List Char} (h : c ∉ before) (after : List Char) :
    splitOnce c (before ++ c :: after) = some (before, after) := by
  obtain ⟨htake, hdrop⟩ := takeWhile_ne h after
  rw [splitOnce, List.span_eq_takeWhile_dropWhile, htake, hdrop]

theorem Field.isText {f : Field} {value : List Char} (h : f.value = encode value) :
    f.IsText (f.name ++ ':' :: value) where
  bytes := by
    have hcolon : String.utf8EncodeChar ':' = [58] := by decide
    rw [Field.bytes, h, encode_append, encode_cons, hcolon]
    rfl
  line := by
    rw [List.mem_append, List.mem_cons]
    intro hboth
    obtain hname | hcolon | hvalue := hboth
    · exact absurd (visible_of_tokenChar (f.token.2 _ hname)).1 (by decide)
    · exact absurd hcolon (by decide)
    · have hmem : (13 : UInt8) ∈ f.value := by
        rw [h]
        exact List.mem_flatMap.mpr ⟨'\r', hvalue, by decide⟩
      exact (f.plain _ hmem).1 rfl
  authorization := by
    have hname : ':' ∉ f.name := fun hmem => (visible_of_tokenChar (f.token.2 _ hmem)).2 rfl
    rw [isProxyAuthorization, splitOnce_append hname]
    rfl

theorem Field.decode {f : Field} {rest : Bytes} {text : List Char}
    (h : f.bytes ++ encode crlf ++ rest = encode text) :
    ∃ line tail, text = line ++ crlf ++ tail ∧ f.IsText line ∧ rest = encode tail := by
  have hcrlf : encode crlf = [13, 10] := by decide
  have hcolon : encode [':'] = [58] := by decide
  obtain ⟨t₁, tail, rfl, ht₁, htail⟩ := encode_split h (.inl (by simp [hcrlf]))
  obtain ⟨line, t₂, rfl, hline, ht₂⟩ := encode_split ht₁ (.inr (by simp [hcrlf]))
  obtain rfl := encode_injective ht₂
  obtain ⟨name, t₃, rfl, hname, ht₃⟩ := encode_split hline (.inr (by simp))
  have hsplit : [58] ++ f.value = encode t₃ := ht₃
  obtain ⟨colon, value, rfl, hcolon', hvalue⟩ := encode_split hsplit (.inl (by simp))
  obtain rfl := encode_injective hname
  obtain rfl := encode_injective (hcolon.trans hcolon')
  exact ⟨_, tail, rfl, Field.isText hvalue, htail⟩

theorem decode_fields {fields : List Field} {rest : Bytes} {text : List Char}
    (h : fieldLines fields ++ rest = encode text) :
    ∃ lines tail, text = crlfLines lines ++ tail ∧ List.Forall₂ Field.IsText fields lines ∧ rest = encode tail := by
  induction fields generalizing text with
  | nil => exact ⟨[], text, rfl, .nil, h⟩
  | cons f fields ih =>
    have hfirst : f.bytes ++ encode crlf ++ (fieldLines fields ++ rest) = encode text := by
      rw [← h]
      simp [fieldLines]
    obtain ⟨line, tail, rfl, hline, htail⟩ := Field.decode hfirst
    obtain ⟨lines, tail, rfl, hlines, htail⟩ := ih htail
    exact ⟨line :: lines, tail, by simp [crlfLines], .cons hline hlines, htail⟩

/-- The text of the header section of a request. -/
theorem PlainRequest.decode {r : PlainRequest} {text : List Char} (h : r.head = encode text) :
    ∃ lines, text = r.line r.uri.text ++ crlf ++ (crlfLines lines ++ crlf) ∧
      List.Forall₂ Field.IsText r.fields lines := by
  have hcrlf : encode crlf = [13, 10] := by decide
  rw [PlainRequest.head, List.append_assoc] at h
  obtain ⟨first, rest, rfl, hfirst, hrest⟩ := encode_split h (.inl (by simp [hcrlf]))
  obtain rfl := encode_injective hfirst
  obtain ⟨lines, tail, rfl, hlines, htail⟩ := decode_fields hrest
  obtain rfl := encode_injective htail
  exact ⟨lines, rfl, hlines⟩

theorem encode_kept {fields : List Field} {lines : List (List Char)} (h : List.Forall₂ Field.IsText fields lines) :
    encode (crlfLines (keptLines lines)) = fieldLines (fields.filter (!·.authorization)) := by
  induction h with
  | nil => rfl
  | @cons f line fields lines hline _ ih =>
    rw [keptLines, List.filter_cons, List.filter_cons, hline.authorization]
    cases f.authorization with
    | true => exact ih
    | false =>
      simp only [Bool.not_false, if_true]
      rw [crlfLines, List.flatMap_cons, encode_append, encode_append, ← hline.bytes, fieldLines, List.flatMap_cons]
      exact congrArg _ ih

/-- A header section without its authorizations. -/
theorem stripProxyHeaders_crlfLines {lines : List (List Char)} (h : ∀ line ∈ lines, '\r' ∉ line) :
    stripProxyHeaders (crlfLines lines ++ crlf) = crlfLines (keptLines lines) ++ crlf := by
  have hend : keptLines (splitCrlf [] crlf) = [[]] ++ [[]] := by decide
  rw [stripProxyHeaders, splitCrlf_crlfLines h, keptLines_append, hend, ← List.append_assoc, joinCrlf_crlfLines]
  simp [crlfLines]

theorem hasHeaderEnd_cons {b : UInt8} (h : b ≠ 13) (rest : Bytes) :
    hasHeaderEnd (b :: rest) = hasHeaderEnd rest := by
  have hne : (13 == b) = false := beq_eq_false_iff_ne.mpr (Ne.symm h)
  rw [hasHeaderEnd, headerEnd, List.isPrefixOf, hne]
  rfl

theorem hasHeaderEnd_append {line : Bytes} (h : 13 ∉ line) (rest : Bytes) :
    hasHeaderEnd (line ++ rest) = hasHeaderEnd rest := by
  induction line with
  | nil => rfl
  | cons b line ih =>
    rw [List.mem_cons, not_or] at h
    rw [List.cons_append, hasHeaderEnd_cons (Ne.symm h.1), ih h.2]

/-- There is no CRLF CRLF before the empty line. -/
theorem hasHeaderEnd_lines {lines : List Bytes} (h : ∀ line ∈ lines, line ≠ [] ∧ 13 ∉ line) :
    hasHeaderEnd (lines.flatMap (· ++ [13, 10]) ++ [13]) = false := by
  induction lines with
  | nil => decide
  | cons line lines ih =>
    have ih := ih fun l hl => h l (List.mem_cons_of_mem line hl)
    rw [List.flatMap_cons, List.append_assoc, List.append_assoc,
      hasHeaderEnd_append (h line (List.mem_cons_self ..)).2]
    cases lines with
    | nil => decide
    | cons next lines =>
      obtain ⟨hne, hcr⟩ := h next (by simp)
      obtain ⟨b, next, rfl⟩ := List.exists_cons_of_ne_nil hne
      have hb : (13 == b) = false := beq_eq_false_iff_ne.mpr fun hb => hcr (by simp [hb])
      rw [← ih]
      show hasHeaderEnd (13 :: 10 :: b :: _) = hasHeaderEnd (b :: _)
      rw [hasHeaderEnd, hasHeaderEnd_cons (by decide)]
      simp [headerEnd, List.isPrefixOf, hb]

/-- The lines of the header section. -/
def PlainRequest.headLines (r : PlainRequest) : List Bytes := encode (r.line r.uri.text) :: r.fields.map Field.bytes

theorem PlainRequest.head_eq (r : PlainRequest) : r.head = r.headLines.flatMap (· ++ [13, 10]) ++ [13, 10] := by
  have hcrlf : encode crlf = [13, 10] := by decide
  rw [PlainRequest.head, PlainRequest.headLines, fieldLines, List.flatMap_cons, List.flatMap_map, encode_append,
    hcrlf]

theorem PlainRequest.headLines_plain (r : PlainRequest) : ∀ line ∈ r.headLines, line ≠ [] ∧ 13 ∉ line := by
  have hcr : encode ['\r'] = [13] := by decide
  intro line hline
  rcases List.mem_cons.mp hline with rfl | hline
  · refine ⟨?_, fun hmem => r.line_ne_cr (mem_of_mem_encode hcr (by decide) hmem)⟩
    rw [Ne, encode_eq_nil]
    simp [PlainRequest.line]
  · obtain ⟨f, -, rfl⟩ := List.mem_map.mp hline
    refine ⟨by simp [Field.bytes], fun hmem => ?_⟩
    rcases List.mem_append.mp hmem with hname | hvalue
    · have hchar := f.token.2 _ (mem_of_mem_encode hcr (by decide) hname)
      exact absurd hchar (by decide)
    · rcases List.mem_cons.mp hvalue with hcolon | hvalue
      · exact absurd hcolon (by decide)
      · exact (f.plain _ hvalue).1 rfl

def PlainRequest.toSection (r : PlainRequest) : Section where
  head := r.head
  ends := by
    obtain ⟨init, last, hlast⟩ : ∃ init last, r.headLines = init ++ [last] :=
      ⟨_, _, (List.dropLast_append_getLast (List.cons_ne_nil _ _)).symm⟩
    rw [r.head_eq, hlast]
    exact ⟨init.flatMap (· ++ [13, 10]) ++ last, by simp [headerEnd]⟩
  first := by
    have hdrop : (r.headLines.flatMap (· ++ [13, 10]) ++ [13, 10]).dropLast =
        r.headLines.flatMap (· ++ [13, 10]) ++ [13] := by
      rw [List.dropLast_append_of_ne_nil (by simp)]
      rfl
    rw [r.head_eq, hdrop]
    exact hasHeaderEnd_lines r.headLines_plain

/-! ### What is forwarded of a request -/

section
variable {env : AuthEnv} {now : Int} {s : AuthState}

theorem Field.IsText.lines {fields : List Field} {lines : List (List Char)}
    (h : List.Forall₂ Field.IsText fields lines) : ∀ line ∈ lines, '\r' ∉ line := by
  induction h with
  | nil => simp
  | cons hline _ ih =>
    intro line hmem
    rcases List.mem_cons.mp hmem with rfl | hmem
    · exact hline.line
    · exact ih line hmem

/-- The request line as the port reads it. -/
def PlainRequest.requestLine (r : PlainRequest) : RequestLine := ⟨r.method, r.uri.text, "HTTP/1.1".toList⟩

theorem PlainRequest.rewrite {r : PlainRequest} {text : List Char} (h : r.head = encode text) :
    encode (rewriteAbsoluteForm r.requestLine text) = r.headAs (originPath r.uri.text) := by
  obtain ⟨lines, rfl, hlines⟩ := PlainRequest.decode h
  have hline : originLine r.requestLine = r.line (originPath r.uri.text) := rfl
  rw [rewriteAbsoluteForm, afterCrlf_of_not_mem r.line_ne_cr, Option.getD_some,
    stripProxyHeaders_crlfLines (Field.IsText.lines hlines), hline, ← List.append_assoc, encode_append,
    encode_append, encode_kept hlines]
  rfl

/-- What is forwarded is the header section and what came in with it exactly if that has no
line that looks like an authorization. -/
theorem PlainRequest.rewrite_iff {r : PlainRequest} {text : List Char} (h : r.head = encode text) (extra : List Char)
    (unread : Bytes) :
    encode (rewriteAbsoluteForm r.requestLine (text ++ extra)) ++ unread =
        r.headAs (originPath r.uri.text) ++ (encode extra ++ unread) ↔
      ∀ line ∈ splitCrlf [] extra, isProxyAuthorization line = false := by
  obtain ⟨init, rfl⟩ := r.toSection.text h
  rw [← PlainRequest.rewrite h]
  exact rewriteAbsoluteForm_iff r.requestLine init extra unread

theorem PlainRequest.serve {r : PlainRequest} {text : List Char}
    (h : r.head = encode text) (extra : List Char) (unread : Bytes) :
    serve env now s (r.head ++ encode extra) unread =
      match (authenticatedRoute env now s (String.ofList (text ++ extra))).1 with
      | none => .unauthorized
      | some auth =>
        match httpTarget r.uri.text (text ++ extra) with
        | .error error => .unrouted auth error
        | .ok target =>
          .opened auth target (encode (rewriteAbsoluteForm r.requestLine (text ++ extra)) ++ unread) := by
  have hline : HttpProxy.requestLine (text ++ extra) = r.requestLine := by
    obtain ⟨lines, rfl, -⟩ := PlainRequest.decode h
    rw [List.append_assoc, requestLine_append, requestLine_line]
    rfl
  have hconnect : eqIgnoreAsciiCase r.requestLine.method "CONNECT".toList = false := r.notConnect
  rw [h, ← encode_append, HttpProxy.serve, fromUtf8_encode]
  simp only [String.toList_ofList, hline, hconnect]
  rfl

/-- The port takes the request, with `extra` in its header, and finds a target. -/
def Forwards (env : AuthEnv) (now : Int) (s : AuthState) (r : PlainRequest) (extra : List Char) : Prop :=
  ∃ text, r.head = encode text ∧ (authenticatedRoute env now s (String.ofList (text ++ extra))).1.isSome = true ∧
    (httpTarget r.uri.text (text ++ extra)).isOk = true

theorem Forwards.opened {r : PlainRequest} {extra : List Char}
    (h : Forwards env now s r extra) :
    ∃ text auth target, r.head = encode text ∧ httpTarget r.uri.text (text ++ extra) = .ok target ∧
      ∀ unread, serve env now s (r.head ++ encode extra) unread =
        .opened auth target (encode (rewriteAbsoluteForm r.requestLine (text ++ extra)) ++ unread) := by
  obtain ⟨text, hhead, hauth, htarget⟩ := h
  obtain ⟨auth, hauth⟩ := Option.isSome_iff_exists.mp hauth
  cases htarget' : httpTarget r.uri.text (text ++ extra) with
  | error error =>
    rw [htarget'] at htarget
    cases htarget
  | ok target =>
    refine ⟨text, auth, target, hhead, htarget', fun unread => ?_⟩
    rw [PlainRequest.serve hhead, hauth]
    simp only [htarget']

/-- A target is opened only for a request that the port forwards. -/
theorem forwards_of_opened {r : PlainRequest} {extra unread : Bytes}
    {auth : HttpProxyAuth} {target : List Char} {received : Bytes}
    (h : serve env now s (r.head ++ extra) unread = .opened auth target received) :
    ∃ text t, r.head = encode text ∧ extra = encode t ∧ Forwards env now s r t ∧
      httpTarget r.uri.text (text ++ t) = .ok target ∧
      received = encode (rewriteAbsoluteForm r.requestLine (text ++ t)) ++ unread := by
  by_cases hbytes : ∃ text, r.head ++ extra = encode text
  · obtain ⟨text, hbytes⟩ := hbytes
    obtain ⟨text, t, rfl, hhead, rfl⟩ := encode_split hbytes (.inl r.toSection.getLast_ascii)
    rw [PlainRequest.serve hhead] at h
    split at h
    · cases h
    · rename_i auth' hauth
      split at h
      · cases h
      · rename_i target' htarget
        cases h
        exact ⟨text, t, hhead, rfl, ⟨text, hhead, by rw [hauth]; rfl, by rw [htarget]; rfl⟩, htarget, rfl⟩
  · push Not at hbytes
    rw [serve, fromUtf8_error hbytes] at h
    cases h

/-! ### Whole connections -/

/-- Without its scheme and authority, and perhaps some fields, a request is shorter. -/
theorem PlainRequest.originForm_length (r : PlainRequest) : r.originForm.length < r.bytes.length := by
  have hfields : (fieldLines (r.fields.filter (!·.authorization))).length ≤ (fieldLines r.fields).length :=
    (List.filter_sublist.flatMap _).length_le
  have huri := r.uri.origin_length
  simp only [PlainRequest.originForm, PlainRequest.headAs, PlainRequest.bytes, PlainRequest.head, PlainRequest.line,
    encode_append, List.length_append]
  omega

/-- Requests in origin form are shorter than the requests. -/
theorem originForm_sublist_length {forwarded rs : List PlainRequest} (h : forwarded.Sublist rs) :
    (forwarded.flatMap PlainRequest.originForm).length + rs.length ≤ (stream rs).length := by
  induction h with
  | slnil => simp
  | cons r _ ih =>
    have := r.originForm_length
    simp only [stream_cons, PlainRequest.bytes, List.length_append, List.length_cons] at this ⊢
    omega
  | cons_cons r _ ih =>
    have := r.originForm_length
    simp only [stream_cons, PlainRequest.bytes, List.flatMap_cons, List.length_append, List.length_cons] at this ⊢
    omega

theorem httpTarget_plain {u : Uri} (h : u.spelling = u.scheme.name) (header : List Char) :
    httpTarget u.text header = .ok (withDefaultPort (u.rest.takeWhile (· ≠ '/')) u.scheme.port) := by
  rw [httpTarget, stripScheme_plain u h]

/-- A request whose scheme is spelled in another way is not put into origin form. -/
theorem originPath_other {u : Uri} (h : u.spelling ≠ u.scheme.name) : originPath u.text = u.text := by
  have htext : u.text ≠ [] := by simp [Uri.text]
  rw [originPath, stripScheme_other u h]
  simp only
  rw [if_neg htext]

theorem PlainRequest.headAs_length (r : PlainRequest) {a b : List Char} (h : (encode a).length < (encode b).length) :
    (r.headAs a).length < (r.headAs b).length := by
  simp only [PlainRequest.headAs, PlainRequest.line, encode_append, List.length_append]
  omega

/-- If what is forwarded of a header section that came in alone is handled, there is nothing
but this request, and its URI is understood. -/
theorem alone_of_forwarded {r : PlainRequest} {more forwarded : List PlainRequest} {header target : List Char}
    (htarget : httpTarget r.uri.text header = .ok target) (hsub : forwarded.Sublist (r :: more))
    (htargets : ∀ r ∈ forwarded, r.uri.target = target)
    (h : r.headAs (originPath r.uri.text) ++ (r.body ++ stream more) =
      forwarded.flatMap PlainRequest.originForm) : more = [] ∧ r.uri.Plain := by
  have hlen := congrArg List.length h
  simp only [List.length_append] at hlen
  cases hsub with
  | cons _ hsub =>
    -- the first request is not among them
    have hmore := originForm_sublist_length hsub
    have hhead : 0 < (r.headAs (originPath r.uri.text)).length := by
      simp only [PlainRequest.headAs, List.length_append, encode_crlf_length]
      omega
    omega
  | @cons_cons fs _ _ hsub =>
    have hmore := originForm_sublist_length hsub
    rw [List.flatMap_cons, List.length_append, PlainRequest.originForm, List.length_append] at hlen
    by_cases hspelling : r.uri.spelling = r.uri.scheme.name
    · rw [httpTarget_plain hspelling, Except.ok.injEq] at htarget
      have hplain : r.uri.Plain :=
        Uri.Plain.of_target hspelling (htarget.trans (htargets r (List.mem_cons_self ..)).symm)
      rw [hplain.originPath] at hlen
      exact ⟨List.eq_nil_of_length_eq_zero (by omega), hplain⟩
    · have hlonger := r.headAs_length r.uri.origin_length
      rw [originPath_other hspelling] at hlen
      omega

/-- Whenever the first request, with what came in with its header section, is forwarded, it
is the only one, its URI is understood and nothing that came in looks like an authorization. -/
def Alone (env : AuthEnv) (now : Int) (s : AuthState) : List PlainRequest → Prop
  | [] => True
  | r :: more =>
    ∀ k < readSize, ∀ extra, (r.body ++ stream more).take k = encode extra →
      Forwards env now s r extra →
        more = [] ∧ r.uri.Plain ∧ ∀ line ∈ splitCrlf [] extra, isProxyAuthorization line = false

/-- The first request has room and is forwarded on its own account. -/
def Admitted (env : AuthEnv) (now : Int) (s : AuthState) : List PlainRequest → Prop
  | [] => True
  | r :: _ => r.head.length ≤ maxHeader ∧ Forwards env now s r []

theorem handled_of_opened {rs : List PlainRequest} {outcome : Outcome}
    (h : ∀ auth target received, outcome = .opened auth target received →
      ∃ forwarded : List PlainRequest, forwarded.Sublist rs ∧ (∀ r ∈ forwarded, r.uri.target = target) ∧
        received = forwarded.flatMap PlainRequest.originForm) : Handled rs outcome := by
  cases outcome with
  | failed error => trivial
  | unauthorized => trivial
  | unrouted auth error => trivial
  | opened auth target received => exact h auth target received rfl

theorem handled_of_alone {r : PlainRequest} {more : List PlainRequest}
    (h : Alone env now s (r :: more)) {k : Nat} (hk : k < readSize) :
    Handled (r :: more) (serve env now s (r.head ++ (r.body ++ stream more).take k)
      ((r.body ++ stream more).drop k)) := by
  apply handled_of_opened
  intro auth target received hopened
  obtain ⟨text, t, hhead, ht, hforwards, htarget, rfl⟩ := forwards_of_opened hopened
  obtain ⟨rfl, hplain, hnone⟩ := h k hk t ht hforwards
  refine ⟨[r], List.Sublist.refl _, ?_, ?_⟩
  · rw [httpTarget_plain hplain.spelling, Except.ok.injEq] at htarget
    simpa using hplain.target.symm.trans htarget
  · rw [(PlainRequest.rewrite_iff hhead t _).mpr hnone, ← ht, List.take_append_drop, hplain.originPath]
    simp [PlainRequest.originForm]

/-- Requests that are handled however they are read are handled wherever the first read is cut. -/
theorem handled_serve {r : PlainRequest} {more : List PlainRequest}
    (hroom : r.head.length ≤ maxHeader)
    (h : ∀ reads : Reads (stream (r :: more)),
      Handled (r :: more) (handleHttpProxy env now s reads.chunks)) {k : Nat} (hk : k < readSize) :
    Handled (r :: more) (serve env now s (r.head ++ (r.body ++ stream more).take k)
      ((r.body ++ stream more).drop k)) := by
  let request : Request := {r.toSection with rest := r.body ++ stream more, bounded := hroom}
  exact (forall_reads env now s request (stream_cons r more)).mp h k hk

/-- A request that is forwarded on its own account and is handled is the only one. -/
theorem alone_of_handled {r : PlainRequest} {more : List PlainRequest}
    (hroom : r.head.length ≤ maxHeader) (hforwards : Forwards env now s r [])
    (h : ∀ reads : Reads (stream (r :: more)),
      Handled (r :: more) (handleHttpProxy env now s reads.chunks)) : more = [] ∧ r.uri.Plain := by
  have hfirst := handled_serve hroom h (k := 0) (by decide)
  obtain ⟨text, auth, target, hhead, htarget, hopened⟩ := hforwards.opened
  rw [encode_nil, List.append_nil, List.append_nil, PlainRequest.rewrite hhead] at hopened
  rw [List.take_zero, List.append_nil, List.drop_zero, hopened] at hfirst
  obtain ⟨forwarded, hsub, htargets, hreceived⟩ := hfirst
  exact alone_of_forwarded htarget hsub htargets hreceived

/-- A single request that is handled came in with nothing that looks like an authorization. -/
theorem clean_of_handled {r : PlainRequest} {extra : List Char}
    {unread : Bytes} (hbody : encode extra ++ unread = r.body) (hplain : r.uri.Plain)
    (hforwards : Forwards env now s r extra)
    (h : Handled [r] (serve env now s (r.head ++ encode extra) unread)) :
    ∀ line ∈ splitCrlf [] extra, isProxyAuthorization line = false := by
  obtain ⟨text, auth, target, hhead, -, hopened⟩ := hforwards.opened
  rw [hopened] at h
  obtain ⟨forwarded, hsub, -, hreceived⟩ := h
  rcases List.sublist_singleton.mp hsub with rfl | rfl
  · -- something is forwarded
    have hnil := (List.append_eq_nil_iff.mp hreceived).1
    rw [encode_eq_nil] at hnil
    simp [rewriteAbsoluteForm, crlf] at hnil
  · apply (PlainRequest.rewrite_iff hhead extra unread).mp
    rw [hreceived, hplain.originPath, hbody]
    simp [PlainRequest.originForm]

/-- **Requests are handled if the one that is forwarded is alone.** A connection whose first
request is forwarded on its own account is handled, however it is read, only if it is. -/
theorem requests_handled (env : AuthEnv) (now : Int) (s : AuthState) (rs : List PlainRequest) :
    (Alone env now s rs →
      ∀ reads : Reads (stream rs), Handled rs (handleHttpProxy env now s reads.chunks)) ∧
    (Admitted env now s rs →
      (∀ reads : Reads (stream rs), Handled rs (handleHttpProxy env now s reads.chunks)) →
        Alone env now s rs) := by
  cases rs with
  | nil =>
    refine ⟨fun _ reads => ?_, fun _ _ => trivial⟩
    have hnone : reads.chunks = [] := by
      refine List.eq_nil_iff_forall_not_mem.mpr fun chunk hchunk => reads.nonempty chunk hchunk ?_
      exact List.flatten_eq_nil_iff.mp reads.joined chunk hchunk
    rw [hnone]
    trivial
  | cons r more =>
    constructor
    · intro halone reads
      obtain ⟨-, error, hfailed⟩ | ⟨k, hk, hserve⟩ :=
        handleHttpProxy_section env now s r.toSection (stream_cons r more) reads
      · rw [hfailed]
        trivial
      · rw [hserve]
        exact handled_of_alone halone hk
    · rintro ⟨hroom, hforwards⟩ hreads
      obtain ⟨rfl, hplain⟩ := alone_of_handled hroom hforwards hreads
      intro k hk extra hextra hforwards
      refine ⟨rfl, hplain, clean_of_handled ?_ hplain hforwards (hextra ▸ handled_serve hroom hreads hk)⟩
      rw [← hextra, List.take_append_drop]
      simp

end

/-! ### The second request -/

def sampleUri (first : Bool) : Uri where
  scheme := .http
  spelling := "http".toList
  host := if first then ['a'] else ['b']
  port := none
  path := ['/']
  query := none
  spelled := by decide
  hostChars := by
    intro c hc
    cases first <;> (rw [List.mem_singleton.mp hc]; decide)
  hostColon := by cases first <;> decide
  portChars := by simp
  pathChars := by
    intro c hc
    rw [List.mem_singleton.mp hc]
    decide
  pathSlash := by simp
  queryChars := by simp

def sampleHost (first : Bool) : Field where
  name := "Host".toList
  value := if first then [97] else [98]
  token := ⟨by decide, List.all_eq_true.mp (by decide)⟩
  plain := by
    intro b hb
    cases first <;> (rw [List.mem_singleton.mp hb]; decide)

/-- A request for `a`, or one for `b`. -/
def sampleRequest (first : Bool) : PlainRequest where
  method := "GET".toList
  uri := sampleUri first
  fields := [sampleHost first]
  body := []
  token := ⟨by decide, List.all_eq_true.mp (by decide)⟩
  notConnect := by decide
  host := ⟨_, List.mem_cons_self .., by cases first <;> decide⟩

/-- The theorem for a request on a connection of its own. -/
theorem requests_handled_single :
    Alone sampleEnv 0 openState [sampleRequest true] ∧
      ∀ reads : Reads (stream [sampleRequest true]),
        Handled [sampleRequest true] (handleHttpProxy sampleEnv 0 openState reads.chunks) := by
  have halone : Alone sampleEnv 0 openState [sampleRequest true] := by
    intro k hk extra hextra hforwards
    have hnil : extra = [] := encode_eq_nil.mp (hextra.symm.trans List.take_nil)
    subst hnil
    exact ⟨rfl, ⟨rfl, by decide, by decide, by decide⟩, by decide⟩
  exact ⟨halone, (requests_handled sampleEnv 0 openState [sampleRequest true]).1 halone⟩

/-- A port without accounts opens the target of the first request, and sends it the second
one as it came. -/
theorem second_request_misrouted :
    ¬ ∀ (env : AuthEnv) (now : Int) (s : AuthState) (rs : List PlainRequest)
      (reads : Reads (stream rs)), Handled rs (handleHttpProxy env now s reads.chunks) := by
  intro h
  have hforwards : Forwards sampleEnv 0 openState (sampleRequest true) [] := by
    refine ⟨"GET http://a/ HTTP/1.1".toList ++ crlf ++ "Host:a".toList ++ crlf ++ crlf, by decide +kernel, rfl, ?_⟩
    rw [httpTarget_plain rfl]
    rfl
  have halone := alone_of_handled (by decide +kernel) hforwards
    (h sampleEnv 0 openState [sampleRequest true, sampleRequest false])
  cases halone.1

end HttpProxy

end Rps.Controller
