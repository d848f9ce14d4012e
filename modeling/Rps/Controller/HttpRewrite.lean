import Rps.Controller.HttpRequests

/-! The header that is sent on.

A request is forwarded under a request line with the path of its URI and without its
`Proxy-Authorization` lines. `rewrite_exact` says what becomes of a header section that is
made of CRLF lines: every other line stays where it is, and so does the empty line at the
end.

The lines are taken out where the text is split at CRLF. The credentials are looked for
where `str::lines` splits it, which is at every LF. `credentials_stripped` says when that
makes no difference: a line that is kept must not have an authorization behind a bare LF. -/
namespace Rps.Controller.HttpProxy
open Base

/-! ### Fields with a name -/

/-- The text before the first colon of the line is the name, in any ASCII case. -/
def Named (name line : List Char) : Prop :=
  ∃ before after, line = before ++ ':' :: after ∧ ':' ∉ before ∧ eqIgnoreAsciiCase before name = true

def proxyAuthorization : List Char := "Proxy-Authorization".toList

theorem splitOnce_eq_none {c : Char} {s : List Char} : splitOnce c s = none ↔ c ∉ s := by
  constructor
  · intro h hmem
    obtain ⟨a, b, rfl, ha⟩ := List.eq_append_cons_of_mem hmem
    rw [splitOnce_append ha] at h
    cases h
  · intro h
    obtain ⟨-, hdrop⟩ := takeWhile_ne_of_not_mem h
    rw [splitOnce, List.span_eq_takeWhile_dropWhile, hdrop]

theorem splitOnce_eq_some {c : Char} {s before after : List Char} :
    splitOnce c s = some (before, after) ↔ s = before ++ c :: after ∧ c ∉ before := by
  constructor
  · intro h
    by_cases hmem : c ∈ s
    · obtain ⟨a, b, rfl, ha⟩ := List.eq_append_cons_of_mem hmem
      rw [splitOnce_append ha] at h
      cases h
      exact ⟨rfl, ha⟩
    · rw [splitOnce_eq_none.mpr hmem] at h
      cases h
  · intro hboth
    obtain ⟨rfl, h⟩ := hboth
    exact splitOnce_append h after

theorem isProxyAuthorization_iff {line : List Char} :
    isProxyAuthorization line = true ↔ Named proxyAuthorization line := by
  unfold isProxyAuthorization
  constructor
  · intro h
    cases hfield : splitOnce ':' line with
    | none => simp [hfield] at h
    | some field =>
      obtain ⟨before, after⟩ := field
      rw [hfield] at h
      obtain ⟨hline, hcolon⟩ := splitOnce_eq_some.mp hfield
      exact ⟨before, after, hline, hcolon, h⟩
  · intro hboth
    obtain ⟨before, after, rfl, hcolon, hname⟩ := hboth
    rw [splitOnce_append hcolon]
    exact hname

instance (line : List Char) : Decidable (Named proxyAuthorization line) :=
  decidable_of_iff (isProxyAuthorization line = true) isProxyAuthorization_iff

theorem keptLines_eq (lines : List (List Char)) :
    keptLines lines = lines.filter fun line => decide (¬ Named proxyAuthorization line) := by
  refine List.filter_congr fun line _ => ?_
  rw [Bool.eq_iff_iff]
  simp [← isProxyAuthorization_iff]

/-! ### Header sections of CRLF lines -/

/-- A request line, field lines and the empty line, with nothing behind it. -/
structure RequestText where
  line : List Char
  fields : List (List Char)
  plain : ∀ l ∈ line :: fields, '\r' ∉ l ∧ '\n' ∉ l
  nonempty : ∀ l ∈ fields, l ≠ []

def RequestText.text (r : RequestText) : List Char := r.line ++ crlf ++ crlfLines r.fields ++ crlf

/-- The request with a request line of its own and without the authorizations. -/
def RequestText.withLine (r : RequestText) (method path version : List Char) : List Char :=
  method ++ [' '] ++ path ++ [' '] ++ version ++ crlf ++
    crlfLines (r.fields.filter fun line => decide (¬ Named proxyAuthorization line)) ++ crlf

/-- What is in front of the authority of an absolute URI. -/
def absolutePrefixes : List (List Char) := ["http://".toList, "https://".toList]

/-- The path of a URI: from the first slash behind the scheme on, a single slash if there is
none, or the URI itself if it is not absolute. -/
inductive PathOf (uri : List Char) : List Char → Prop
  | slash {scheme authority path : List Char} : scheme ∈ absolutePrefixes → '/' ∉ authority →
      uri = scheme ++ authority ++ '/' :: path → PathOf uri ('/' :: path)
  | missing {scheme authority : List Char} : scheme ∈ absolutePrefixes → '/' ∉ authority →
      uri = scheme ++ authority → PathOf uri ['/']
  | other : (∀ scheme ∈ absolutePrefixes, ¬ scheme <+: uri) → PathOf uri uri

theorem stripScheme_some {uri rest : List Char} {port : Nat} (h : stripScheme uri = some (rest, port)) :
    ∃ scheme ∈ absolutePrefixes, uri = scheme ++ rest := by
  unfold stripScheme at h
  split at h
  · rename_i rest' hrest
    cases h
    exact ⟨"http://".toList, by simp [absolutePrefixes], (List.isPrefixOf?_eq_some_iff_append_eq.mp hrest).symm⟩
  · split at h
    · rename_i rest' hrest
      cases h
      exact ⟨"https://".toList, by simp [absolutePrefixes], (List.isPrefixOf?_eq_some_iff_append_eq.mp hrest).symm⟩
    · cases h

theorem stripScheme_none {uri : List Char} (h : stripScheme uri = none) :
    ∀ scheme ∈ absolutePrefixes, ¬ scheme <+: uri := by
  rintro scheme hscheme ⟨rest, rfl⟩
  unfold stripScheme at h
  simp only [absolutePrefixes, List.mem_cons, List.not_mem_nil, or_false] at hscheme
  split at h
  · cases h
  · rename_i hhttp
    split at h
    · cases h
    · rename_i hhttps
      rcases hscheme with rfl | rfl
      · rw [List.isPrefixOf?_eq_some_iff_append_eq.mpr rfl] at hhttp
        cases hhttp
      · rw [List.isPrefixOf?_eq_some_iff_append_eq.mpr rfl] at hhttps
        cases hhttps

theorem originPath_pathOf {uri : List Char} (h : uri ≠ []) : PathOf uri (originPath uri) := by
  unfold originPath
  cases hstrip : stripScheme uri with
  | none =>
    rw [if_neg h]
    exact .other (stripScheme_none hstrip)
  | some found =>
    obtain ⟨rest, port⟩ := found
    obtain ⟨scheme, hscheme, huri⟩ := stripScheme_some hstrip
    by_cases hslash : '/' ∈ rest
    · obtain ⟨authority, path, rfl, hauthority⟩ := List.eq_append_cons_of_mem hslash
      simp only [(takeWhile_ne hauthority path).2, reduceCtorEq, if_false]
      exact .slash hscheme hauthority (by rw [huri, List.append_assoc])
    · simp only [(takeWhile_ne_of_not_mem hslash).2, if_true]
      exact .missing hscheme hslash huri

/-- Lines that are taken out are not there to be taken out again. -/
theorem stripProxyHeaders_idem (header : List Char) :
    stripProxyHeaders (stripProxyHeaders header) = stripProxyHeaders header := by
  unfold stripProxyHeaders
  by_cases hnone : keptLines (splitCrlf [] header) = []
  · rw [hnone]
    rfl
  · have hsplit : splitCrlf [] (joinCrlf (keptLines (splitCrlf [] header))) = keptLines (splitCrlf [] header) := by
      rw [splitCrlf_joinCrlf hnone]
      have hlines : ∀ line ∈ keptLines (splitCrlf [] header), splitCrlf [] line = [line] := by
        intro line hline
        exact splitCrlf_line (List.mem_of_mem_filter hline)
      rw [List.flatMap_congr hlines]
      simp
    rw [hsplit]
    simp [keptLines]

/-- **What is sent on** of a header section of CRLF lines: the method, the path of the URI and
the version, then the field lines that are not authorizations, and one empty line. An empty
URI has a single slash for its path. Taking the authorizations out twice is taking them out
once, of any text. -/
theorem rewrite_exact :
    (∀ (r : RequestText) (line : RequestLine), ∃ path,
      (line.uri ≠ [] ∧ PathOf line.uri path ∨ line.uri = [] ∧ path = ['/']) ∧
        rewriteAbsoluteForm line r.text = r.withLine line.method path line.version) ∧
    ∀ header, stripProxyHeaders (stripProxyHeaders header) = stripProxyHeaders header := by
  refine ⟨fun r line => ⟨originPath line.uri, ?_, ?_⟩, stripProxyHeaders_idem⟩
  · by_cases h : line.uri = []
    · exact .inr ⟨h, by rw [h]; rfl⟩
    · exact .inl ⟨h, originPath_pathOf h⟩
  · have hline : afterCrlf r.text = some (crlfLines r.fields ++ crlf) := by
      rw [RequestText.text, List.append_assoc]
      exact afterCrlf_of_not_mem (r.plain r.line (List.mem_cons_self ..)).1 _
    have hfields : ∀ l ∈ r.fields, '\r' ∉ l := fun l hl => (r.plain l (List.mem_cons_of_mem r.line hl)).1
    rw [rewriteAbsoluteForm, hline, Option.getD_some, stripProxyHeaders_crlfLines hfields, keptLines_eq,
      RequestText.withLine, originLine]
    simp only [List.append_assoc]

/-- A request without a URI. -/
def bareRequest : RequestText where
  line := "GET".toList
  fields := ["Host: a".toList]
  plain := by decide
  nonempty := by decide

/-- Its URI is not absolute, and what is sent on does not have it for a path. -/
theorem bareRequest_path :
    ¬ ∃ path, PathOf (requestLine bareRequest.text).uri path ∧
      rewriteAbsoluteForm (requestLine bareRequest.text) bareRequest.text =
        bareRequest.withLine (requestLine bareRequest.text).method path (requestLine bareRequest.text).version := by
  have huri : (requestLine bareRequest.text).uri = [] := by decide
  intro h
  obtain ⟨path, hpath, hrewrite⟩ := h
  rw [huri] at hpath
  have hempty : path = [] := by
    cases hpath with
    | slash hscheme hauthority heq => simp at heq
    | missing hscheme hauthority heq =>
      obtain ⟨rfl, -⟩ := List.append_eq_nil_iff.mp heq.symm
      exact absurd hscheme (by decide)
    | other hprefix => rfl
  rw [hempty] at hrewrite
  exact absurd hrewrite (by decide)

/-! ### Where a line begins -/

theorem Named.not_mem {line : List Char} (h : Named proxyAuthorization line) :
    ∃ before after, line = before ++ ':' :: after ∧ ':' ∉ before ∧ '\r' ∉ before ∧ '\n' ∉ before := by
  obtain ⟨before, after, hline, hcolon, hname⟩ := h
  have hchar : ∀ c ∈ before, c.toLower ∈ proxyAuthorization.map Char.toLower := by
    intro c hc
    rw [← of_decide_eq_true hname]
    exact List.mem_map_of_mem hc
  refine ⟨before, after, hline, hcolon, fun hmem => ?_, fun hmem => ?_⟩
  · exact absurd (hchar _ hmem) (by decide)
  · exact absurd (hchar _ hmem) (by decide)

/-- What is behind the end of a line is not a part of its name. -/
theorem named_append {c : Char} (hc : c = '\r' ∨ c = '\n') (line rest : List Char) :
    Named proxyAuthorization (line ++ c :: rest) ↔ Named proxyAuthorization line := by
  constructor
  · intro h
    obtain ⟨before, after, hline, hcolon, hname⟩ := h
    have hend : c ∉ before := by
      obtain ⟨before', after', hline', hcolon', hcr, hlf⟩ := Named.not_mem ⟨before, after, hline, hcolon, hname⟩
      have hsame := (splitOnce_eq_some.mpr ⟨hline, hcolon⟩).symm.trans (splitOnce_eq_some.mpr ⟨hline', hcolon'⟩)
      obtain ⟨rfl, rfl⟩ := Prod.mk.inj (Option.some.inj hsame)
      rcases hc with rfl | rfl
      · exact hcr
      · exact hlf
    have hne : c ≠ ':' := by rcases hc with rfl | rfl <;> decide
    obtain ⟨more, rfl⟩ := cut_behind hline hend hne
    exact ⟨before, more, rfl, hcolon, hname⟩
  · intro hboth
    obtain ⟨before, after, rfl, hcolon, hname⟩ := hboth
    exact ⟨before, after ++ c :: rest, by simp, hcolon, hname⟩

theorem not_named_nil : ¬ Named proxyAuthorization [] := by decide

/-- At the start of the text or behind one of its line feeds there is an authorization. -/
def Authorizes (text : List Char) : Prop :=
  Named proxyAuthorization text ∨ ∃ a b, text = a ++ '\n' :: b ∧ Named proxyAuthorization b

theorem exists_cut_cons {P : List Char → Prop} {x c : Char} {rest : List Char} :
    (∃ a b, c :: rest = a ++ x :: b ∧ P b) ↔ c = x ∧ P rest ∨ ∃ a b, rest = a ++ x :: b ∧ P b := by
  constructor
  · intro h
    obtain ⟨a, b, heq, hb⟩ := h
    cases a with
    | nil =>
      obtain ⟨rfl, rfl⟩ := List.cons.inj heq
      exact .inl ⟨rfl, hb⟩
    | cons d a =>
      obtain ⟨-, rfl⟩ := List.cons.inj heq
      exact .inr ⟨a, b, rfl, hb⟩
  · intro h
    obtain ⟨rfl, hb⟩ | ⟨a, b, rfl, hb⟩ := h
    · exact ⟨[], rest, rfl, hb⟩
    · exact ⟨c :: a, b, rfl, hb⟩

/-- These are the authorizations among the lines of the text. -/
theorem lines_authorizes (line text : List Char) :
    (∃ l ∈ lines line text, Named proxyAuthorization l) ↔
      Named proxyAuthorization (line.reverse ++ text) ∨ ∃ a b, text = a ++ '\n' :: b ∧ Named proxyAuthorization b := by
  induction text generalizing line with
  | nil =>
    by_cases h : line = []
    · simp [lines, h, not_named_nil]
    · simp [lines, h]
  | cons c rest ih =>
    rw [exists_cut_cons]
    by_cases hc : c = '\n'
    · subst hc
      have hline : Named proxyAuthorization (if line.head? = some '\r' then line.tail else line).reverse ↔
          Named proxyAuthorization line.reverse := by
        split
        · rename_i hhead
          obtain ⟨tail, rfl⟩ := List.head?_eq_some_iff.mp hhead
          rw [List.tail_cons, List.reverse_cons, named_append (.inl rfl)]
        · exact Iff.rfl
      have hrest := ih []
      rw [List.reverse_nil, List.nil_append] at hrest
      simp only [lines, if_true, List.exists_mem_cons_iff, hline, hrest, named_append (.inr rfl), true_and]
    · rw [lines, if_neg hc, ih]
      simp [hc]

theorem authorizes_iff (text : List Char) :
    Authorizes text ↔ ∃ l ∈ lines [] text, Named proxyAuthorization l := (lines_authorizes [] text).symm

/-- A CRLF makes no authorization, and takes none away. -/
theorem authorizes_crlf (line : List Char) : Authorizes (line ++ crlf) ↔ Authorizes line := by
  unfold Authorizes
  rw [show line ++ crlf = line ++ '\r' :: ['\n'] from rfl, named_append (.inl rfl)]
  refine or_congr_right ⟨?_, ?_⟩
  · intro h
    obtain ⟨a, b, heq, hb⟩ := h
    rcases List.append_eq_append_iff.mp heq with ⟨more, -, hmore⟩ | ⟨more, hline, hmore⟩
    · -- the line feed is the one of the CRLF, and nothing is behind it
      have hlen := congrArg List.length hmore
      match more, hmore with
      | [], hmore => exact absurd (List.cons.inj hmore).1 (by decide)
      | [_], hmore =>
        obtain rfl : b = [] := by simpa using hlen
        exact absurd hb not_named_nil
      | _ :: _ :: more, hmore =>
        simp only [List.length_cons, List.length_append, List.length_nil] at hlen
        omega
    · cases more with
      | nil => exact absurd (List.cons.inj hmore).1 (by decide)
      | cons d more =>
        obtain ⟨rfl, rfl⟩ := List.cons.inj hmore
        exact ⟨a, more, hline, (named_append (.inl rfl) more ['\n']).mp hb⟩
  · intro h
    obtain ⟨a, b, rfl, hb⟩ := h
    exact ⟨a, b ++ crlf, by simp [crlf], (named_append (.inl rfl) b ['\n']).mpr hb⟩

theorem authorizes_append (line rest : List Char) :
    Authorizes (line ++ crlf ++ rest) ↔ Authorizes line ∨ Authorizes rest := by
  have hlines : lines [] (line ++ crlf ++ rest) = lines [] (line ++ crlf) ++ lines [] rest := by
    have hcut : ∀ b, line ++ crlf ++ b = (line ++ ['\r']) ++ '\n' :: b := by simp [crlf]
    have hnil := hcut []
    rw [List.append_nil] at hnil
    rw [hcut, hnil, lines_append]
  rw [← authorizes_crlf line, authorizes_iff, hlines, authorizes_iff, authorizes_iff]
  simp only [List.mem_append, or_and_right, exists_or]

theorem authorizes_joinCrlf (lines : List (List Char)) :
    Authorizes (joinCrlf lines) ↔ ∃ line ∈ lines, Authorizes line := by
  induction lines with
  | nil =>
    rw [authorizes_iff]
    simp [joinCrlf, Controller.lines]
  | cons line rest ih =>
    cases rest with
    | nil => simp [joinCrlf]
    | cons next rest =>
      rw [joinCrlf_cons (by simp), authorizes_append, ih]
      simp

/-! ### The request line -/

theorem splitWhitespace_plain {word s : List Char} (h : ∀ c ∈ word, isWhitespace c = false) :
    ∀ part ∈ splitWhitespace word s, ∀ c ∈ part, isWhitespace c = false := by
  induction s generalizing word with
  | nil =>
    by_cases hword : word = []
    · simp [splitWhitespace, hword]
    · simpa [splitWhitespace, hword] using h
  | cons c rest ih =>
    cases hc : isWhitespace c with
    | true =>
      by_cases hword : word = []
      · simpa [splitWhitespace, hc, hword] using @ih [] (by simp)
      · intro part hpart
        simp only [splitWhitespace, hc, if_true, if_neg hword] at hpart
        rcases List.mem_cons.mp hpart with rfl | hpart
        · simpa using h
        · exact ih (by simp) part hpart
    | false =>
      have hnext := @ih (c :: word) (by simpa [hc] using h)
      simpa [splitWhitespace, hc] using hnext

/-- The words of a request line have no white space in them. -/
theorem requestLine_plain (header : List Char) :
    ∀ part ∈ [(requestLine header).method, (requestLine header).uri, (requestLine header).version],
      ∀ c ∈ part, isWhitespace c = false := by
  have hwords := @splitWhitespace_plain [] ((splitCrlf [] header).headD []) (by simp)
  have hgetD : ∀ i (default : List Char), (∀ c ∈ default, isWhitespace c = false) →
      ∀ c ∈ (splitWhitespace [] ((splitCrlf [] header).headD [])).getD i default, isWhitespace c = false := by
    intro i default hdefault
    rw [List.getD_eq_getElem?_getD]
    cases hpart : (splitWhitespace [] ((splitCrlf [] header).headD []))[i]? with
    | none => exact hdefault
    | some part => exact hwords part (List.mem_of_getElem? hpart)
  intro part hpart
  simp only [List.mem_cons, List.not_mem_nil, or_false] at hpart
  rcases hpart with rfl | rfl | rfl
  · exact hgetD 0 _ (by simp)
  · exact hgetD 1 _ (by simp)
  · refine hgetD 2 _ fun c hc => ?_
    have hall : "HTTP/1.1".toList.all (!isWhitespace ·) = true := by decide
    simpa using List.all_eq_true.mp hall c hc

theorem mem_originPath {uri : List Char} {c : Char} (h : c ∈ originPath uri) : c ∈ uri ∨ c = '/' := by
  by_cases hempty : uri = []
  · rw [hempty, show originPath [] = ['/'] from rfl] at h
    exact .inr (List.mem_singleton.mp h)
  · generalize hpath : originPath uri = path at h
    have hof := originPath_pathOf hempty
    rw [hpath] at hof
    cases hof with
    | slash _ _ heq => exact .inl (by rw [heq]; exact List.mem_append_right _ h)
    | missing _ _ _ => exact .inr (by simpa using h)
    | other _ => exact .inl h

theorem originLine_not_mem (header : List Char) : '\n' ∉ originLine (requestLine header) := by
  have hplain := requestLine_plain header
  simp only [List.mem_cons, List.not_mem_nil, or_false, forall_eq_or_imp, forall_eq] at hplain
  obtain ⟨hmethod, huri, hversion⟩ := hplain
  have hpath : '\n' ∉ originPath (requestLine header).uri := by
    intro h
    rcases mem_originPath h with h | h
    · exact absurd (huri _ h) (by decide)
    · exact absurd h (by decide)
  have hm : '\n' ∉ (requestLine header).method := fun h => absurd (hmethod _ h) (by decide)
  have hv : '\n' ∉ (requestLine header).version := fun h => absurd (hversion _ h) (by decide)
  simp [originLine, hm, hpath, hv]

theorem lines_of_not_mem {a : List Char} (h : '\n' ∉ a) (line rest : List Char) :
    lines line (a ++ crlf ++ rest) = (line.reverse ++ a) :: lines [] rest := by
  induction a generalizing line with
  | nil => simp [crlf, lines]
  | cons c a ih =>
    simp only [List.mem_cons, not_or] at h
    have := ih h.2 (c :: line)
    simpa [lines, Ne.symm h.1] using this

/-- Behind the request line of what is sent on are the lines that are kept. -/
theorem rewrite_lines (header : List Char) :
    (lines [] (rewriteAbsoluteForm (requestLine header) header)).tail =
      lines [] (stripProxyHeaders ((afterCrlf header).getD crlf)) := by
  rw [rewriteAbsoluteForm, lines_of_not_mem (originLine_not_mem header), List.tail_cons]

/-! ### Credentials that are sent on -/

/-- In no CRLF line that is kept is there an authorization behind a bare line feed. -/
def NoHiddenAuthorization (header : List Char) : Prop :=
  ∀ line ∈ splitCrlf [] ((afterCrlf header).getD crlf), ¬ Named proxyAuthorization line →
    ∀ a b, line = a ++ '\n' :: b → ¬ Named proxyAuthorization b

theorem not_authorizes_iff (header : List Char) :
    ¬ Authorizes (stripProxyHeaders ((afterCrlf header).getD crlf)) ↔ NoHiddenAuthorization header := by
  rw [stripProxyHeaders, authorizes_joinCrlf, keptLines_eq]
  simp only [List.mem_filter, decide_eq_true_eq, not_exists, not_and]
  constructor
  · intro h line hline hkept a b hcut hb
    exact h line ⟨hline, hkept⟩ (.inr ⟨a, b, hcut, hb⟩)
  · rintro h line ⟨hline, hkept⟩ (hnamed | ⟨a, b, hcut, hb⟩)
    · exact hkept hnamed
    · exact h line hline hkept a b hcut hb

/-- **No credentials are sent on** that the proxy would read, exactly if no line that is kept
hides an authorization behind a bare line feed. -/
theorem credentials_stripped (header : List Char) :
    ((∀ line ∈ (lines [] (rewriteAbsoluteForm (requestLine header) header)).tail, ¬ Named proxyAuthorization line) ∧
      ∀ env, proxyAuthLine env (lines [] (rewriteAbsoluteForm (requestLine header) header)).tail = none) ↔
    NoHiddenAuthorization header := by
  have hlines : (∀ line ∈ (lines [] (rewriteAbsoluteForm (requestLine header) header)).tail,
      ¬ Named proxyAuthorization line) ↔ NoHiddenAuthorization header := by
    rw [rewrite_lines, ← not_authorizes_iff, authorizes_iff]
    simp
  refine ⟨fun h => hlines.mp h.1, fun h => ⟨hlines.mpr h, fun env => ?_⟩⟩
  have hskip := proxyAuthLine_skip env (a := (lines [] (rewriteAbsoluteForm (requestLine header) header)).tail)
    (fun line hline => ?_) []
  · rwa [List.append_nil] at hskip
  · rw [← Bool.not_eq_true, isProxyAuthorization_iff]
    exact hlines.mpr h line hline

/-- An authorization behind a field that ends in a bare line feed. -/
def hiddenAuthorization : List Char :=
  "GET http://a/ HTTP/1.1\r\nX: y\nProxy-Authorization: Basic dTpw\r\n\r\n".toList

/-- It is the line the credentials are read from, and it is sent on. -/
theorem hiddenAuthorization_forwarded :
    "Proxy-Authorization: Basic dTpw".toList ∈ lines [] hiddenAuthorization ∧
      ¬ ∀ line ∈ (lines [] (rewriteAbsoluteForm (requestLine hiddenAuthorization) hiddenAuthorization)).tail,
        ¬ Named proxyAuthorization line := by
  decide

end Rps.Controller.HttpProxy
