import Rps.Controller.HttpRewrite

/-! The target of a request.

The port looks for the target in two places: behind the scheme of the URI, up to the first
slash, and in the first line that begins with `Host:` or `host:`. It does not take an
authority apart; it looks for a colon, and if there is one takes the authority for a target.

`targets_exact` says for which requests that is the target the request names: no user
information, no query without a path, an address in brackets only with a port, no empty
port, and a host line in one of the two spellings. -/
namespace Rps.Controller.HttpProxy
open Base

/-! ### URIs with user information -/

/-- An absolute URI that may have user information in front of the host. -/
structure AbsoluteUri extends Uri where
  userinfo : Option (List Char)
  userinfoChars : ∀ text ∈ userinfo, ∀ c ∈ text, visible c = true ∧ c ∉ "/?#@[]".toList

def AbsoluteUri.userinfoText (u : AbsoluteUri) : List Char :=
  match u.userinfo with
  | none => []
  | some text => text ++ ['@']

def AbsoluteUri.wholeText (u : AbsoluteUri) : List Char :=
  u.spelling ++ "://".toList ++ (u.userinfoText ++ u.rest)

/-- The request goes to the target that the URI names, with the path and the query that it
has. -/
def AbsoluteUri.Served (u : AbsoluteUri) (method version header : List Char) : Prop :=
  httpTarget u.wholeText header = .ok u.target ∧
    rewriteAbsoluteForm ⟨method, u.wholeText, version⟩ header =
      method ++ [' '] ++ u.origin ++ [' '] ++ version ++ crlf ++ stripProxyHeaders ((afterCrlf header).getD crlf)

theorem rewrite_eq_iff (line : RequestLine) (path header : List Char) :
    rewriteAbsoluteForm line header =
        line.method ++ [' '] ++ path ++ [' '] ++ line.version ++ crlf ++
          stripProxyHeaders ((afterCrlf header).getD crlf) ↔
      originPath line.uri = path := by
  rw [rewriteAbsoluteForm, originLine]
  constructor
  · intro h
    simp only [List.append_assoc, List.append_cancel_left_eq] at h
    simp only [← List.append_assoc, List.append_cancel_right_eq] at h
    exact h
  · intro h
    rw [h]

theorem Uri.target_ne_at (u : Uri) : '@' ∉ u.target := by
  rw [Uri.target, List.mem_append, List.mem_cons]
  intro h
  obtain hhost | hcolon | hport := h
  · exact (u.hostChars _ hhost).2 (by decide)
  · exact absurd hcolon (by decide)
  · split at hport
    · rename_i d digits hdigits
      exact absurd (u.portChars _ hdigits _ hport) (by decide)
    · exact portDigits_ne (by decide) u.scheme hport

/-- User information is taken for a part of the host. -/
theorem AbsoluteUri.at_mem (u : AbsoluteUri) {text : List Char} (h : u.userinfo = some text) :
    '@' ∈ (u.userinfoText ++ u.rest).takeWhile (· ≠ '/') := by
  have hall : ∀ c ∈ u.userinfoText, decide (c ≠ '/') = true := by
    intro c hc
    rw [decide_eq_true_iff]
    rintro rfl
    rw [AbsoluteUri.userinfoText, h, List.mem_append] at hc
    rcases hc with hc | hc
    · exact (u.userinfoChars text h _ hc).2 (by decide)
    · exact absurd hc (by decide)
  rw [List.takeWhile_append_of_pos hall, AbsoluteUri.userinfoText, h]
  simp

theorem AbsoluteUri.wholeText_none (u : AbsoluteUri) (h : u.userinfo = none) : u.wholeText = u.text := by
  rw [AbsoluteUri.wholeText, AbsoluteUri.userinfoText, h]
  rfl

theorem AbsoluteUri.served_iff (u : AbsoluteUri) (method version header : List Char) :
    u.Served method version header ↔ u.Plain ∧ u.userinfo = none := by
  rw [AbsoluteUri.Served, rewrite_eq_iff]
  constructor
  · intro h
    obtain ⟨htarget, horigin⟩ := h
    have hspelling : u.spelling = u.scheme.name := by
      by_contra hne
      have hstrip : stripScheme u.wholeText = none := stripScheme_spelling u.spelled hne _
      -- the URI would be its own path, and the path is shorter
      have hpath : HttpProxy.originPath u.wholeText = u.wholeText := by
        rw [HttpProxy.originPath, hstrip]
        simp [AbsoluteUri.wholeText]
      have hlen := congrArg List.length (hpath.symm.trans horigin)
      simp only [AbsoluteUri.wholeText, Uri.origin, Uri.rest, List.length_append] at hlen
      have hsep : "://".toList.length = 3 := rfl
      split at hlen
      · rename_i hempty
        simp only [hsep, hempty, List.length_nil, List.length_singleton] at hlen
        omega
      · omega
    have hstrip : stripScheme u.wholeText = some (u.userinfoText ++ u.rest, u.scheme.port) := by
      rw [AbsoluteUri.wholeText, hspelling]
      exact stripScheme_name u.scheme _
    rw [httpTarget, hstrip] at htarget
    have htarget := Except.ok.inj htarget
    have huser : u.userinfo = none := by
      cases huser : u.userinfo with
      | none => rfl
      | some text =>
        have hmem := mem_withDefaultPort (u.at_mem huser) u.scheme.port
        rw [htarget] at hmem
        exact absurd hmem u.target_ne_at
    rw [AbsoluteUri.userinfoText, huser, List.nil_append] at htarget
    exact ⟨Uri.Plain.of_target hspelling htarget, huser⟩
  · intro h
    obtain ⟨hplain, huser⟩ := h
    rw [u.wholeText_none huser]
    refine ⟨?_, hplain.originPath⟩
    rw [httpTarget, stripScheme_plain u.toUri hplain.spelling]
    exact congrArg Except.ok hplain.target

/-! ### Host fields -/

/-- A header section with one host field, in some spelling, under a request line whose URI is
not absolute. -/
structure HostRequest where
  method : List Char
  uri : List Char
  version : List Char
  before : List (List Char)
  spelling : List Char
  leading : List Char
  host : List Char
  port : Option (List Char)
  trailing : List Char
  after : List (List Char)
  token : ∀ c ∈ method, tokenChar c = true
  relative : ∀ scheme ∈ absolutePrefixes, ¬ scheme <+: uri
  uriChars : '\n' ∉ uri
  versionChars : '\n' ∉ version
  linePlain : ∀ line ∈ before ++ after, '\n' ∉ line
  spelled : eqIgnoreAsciiCase spelling "Host".toList = true
  blank : ∀ c ∈ leading ++ trailing, c = ' ' ∨ c = '\t'
  hostChars : ∀ c ∈ host, visible c = true ∧ c ∉ "/?#@".toList
  hostColon : ':' ∈ host → host.head? = some '[' ∧ host.getLast? = some ']'
  portChars : ∀ digits ∈ port, ∀ c ∈ digits, c.isDigit = true
  only : ∀ line ∈ before ++ after, ¬ Named "Host".toList line

def HostRequest.line (r : HostRequest) : List Char := r.method ++ [' '] ++ r.uri ++ [' '] ++ r.version

/-- The host and the port as they are written. -/
def HostRequest.authority (r : HostRequest) : List Char :=
  r.host ++ match r.port with | none => [] | some digits => ':' :: digits

def HostRequest.field (r : HostRequest) : List Char :=
  r.spelling ++ ':' :: (r.leading ++ r.authority ++ r.trailing)

def HostRequest.text (r : HostRequest) : List Char :=
  crlfLines (r.line :: r.before ++ r.field :: r.after) ++ crlf

/-- The host of the field with its port, or with the port of HTTP. -/
def HostRequest.target (r : HostRequest) : List Char := r.host ++ ':' :: portOr r.port 80

/-- A field that the port understands. -/
structure HostRequest.Plain (r : HostRequest) : Prop where
  spelling : r.spelling = "Host".toList ∨ r.spelling = "host".toList
  colon : ':' ∈ r.host → r.port.isSome
  port : r.port ≠ some []

theorem lines_crlfLines {ls : List (List Char)} (h : ∀ line ∈ ls, '\n' ∉ line) (rest : List Char) :
    lines [] (crlfLines ls ++ rest) = ls ++ lines [] rest := by
  induction ls with
  | nil => rfl
  | cons line ls ih =>
    have hfirst := lines_of_not_mem (h line (List.mem_cons_self ..)) [] (crlfLines ls ++ rest)
    rw [ih fun l hl => h l (List.mem_cons_of_mem line hl)] at hfirst
    simpa [crlfLines] using hfirst

/-- The line is in one of the two spellings, with the value. -/
def IsHostLine (line value : List Char) : Prop := line = "Host:".toList ++ value ∨ line = "host:".toList ++ value

theorem hostLine_cons_none {line : List Char} (h : ∀ value, ¬ IsHostLine line value) (rest : List (List Char)) :
    hostLine (line :: rest) = hostLine rest := by
  have hupper : "Host:".toList.isPrefixOf? line = none := by
    rw [Option.eq_none_iff_forall_ne_some]
    intro value hvalue
    exact h value (.inl (List.isPrefixOf?_eq_some_iff_append_eq.mp hvalue).symm)
  have hlower : "host:".toList.isPrefixOf? line = none := by
    rw [Option.eq_none_iff_forall_ne_some]
    intro value hvalue
    exact h value (.inr (List.isPrefixOf?_eq_some_iff_append_eq.mp hvalue).symm)
  rw [hostLine, hupper, hlower]

theorem hostLine_cons_some {line value : List Char} (h : IsHostLine line value) (rest : List (List Char)) :
    hostLine (line :: rest) = some value := by
  rcases h with rfl | rfl
  · have hupper : "Host:".toList.isPrefixOf? ("Host:".toList ++ value) = some value :=
      List.isPrefixOf?_eq_some_iff_append_eq.mpr rfl
    rw [hostLine, hupper]
  · have hupper : "Host:".toList.isPrefixOf? ("host:".toList ++ value) = none := rfl
    have hlower : "host:".toList.isPrefixOf? ("host:".toList ++ value) = some value :=
      List.isPrefixOf?_eq_some_iff_append_eq.mpr rfl
    rw [hostLine, hupper, hlower]

/-- Lines without a host are passed over. -/
theorem hostLine_skip {before : List (List Char)} (h : ∀ line ∈ before, ∀ value, ¬ IsHostLine line value)
    (rest : List (List Char)) : hostLine (before ++ rest) = hostLine rest := by
  induction before with
  | nil => rfl
  | cons line before ih =>
    rw [List.cons_append, hostLine_cons_none (h line (List.mem_cons_self ..))]
    exact ih fun l hl => h l (List.mem_cons_of_mem line hl)

/-- A host line is a field with the name. -/
theorem IsHostLine.named {line value : List Char} (h : IsHostLine line value) : Named "Host".toList line := by
  rcases h with rfl | rfl
  · exact ⟨"Host".toList, value, rfl, by decide, by decide⟩
  · exact ⟨"host".toList, value, rfl, by decide, by decide⟩

theorem isHostLine_field (spelling value rest : List Char) (hcolon : ':' ∉ spelling) :
    IsHostLine (spelling ++ ':' :: value) rest ↔
      (spelling = "Host".toList ∨ spelling = "host".toList) ∧ value = rest := by
  have hcut : ∀ name : List Char, ':' ∉ name →
      (spelling ++ ':' :: value = name ++ ':' :: rest ↔ spelling = name ∧ value = rest) := by
    intro name hname
    constructor
    · intro heq
      have hsplit := splitOnce_append hcolon value
      rw [heq, splitOnce_append hname] at hsplit
      obtain ⟨rfl, rfl⟩ := Prod.mk.inj (Option.some.inj hsplit)
      exact ⟨rfl, rfl⟩
    · intro h
      obtain ⟨rfl, rfl⟩ := h
      rfl
  have hupper : spelling ++ ':' :: value = "Host:".toList ++ rest ↔ _ := hcut "Host".toList (by decide)
  have hlower : spelling ++ ':' :: value = "host:".toList ++ rest ↔ _ := hcut "host".toList (by decide)
  rw [IsHostLine, hupper, hlower, or_and_right]

section
variable (r : HostRequest)

theorem HostRequest.spelling_ne (r : HostRequest) : ∀ c ∈ r.spelling, c ≠ ':' ∧ c ≠ '\n' := by
  intro c hc
  have hlower : c.toLower ∈ "Host".toList.map Char.toLower := by
    rw [← of_decide_eq_true r.spelled]
    exact List.mem_map_of_mem hc
  constructor
  · rintro rfl
    exact absurd hlower (by decide)
  · rintro rfl
    exact absurd hlower (by decide)

theorem HostRequest.authority_visible : ∀ c ∈ r.authority, visible c = true := by
  intro c hc
  rcases List.mem_append.mp hc with hc | hc
  · exact (r.hostChars c hc).1
  · split at hc
    · cases hc
    · rename_i digits hport
      rcases List.mem_cons.mp hc with rfl | hc
      · decide
      · exact visible_of_isDigit (r.portChars digits hport c hc)

/-- The request line is not taken for a host, since there is a blank behind its method. -/
theorem HostRequest.line_not_host (value : List Char) : ¬ IsHostLine r.line value := by
  intro h
  obtain ⟨name, after, hline, hcolon, hname⟩ := h.named
  have hblank : ' ' ∉ name := by
    intro hmem
    have hlower : ' '.toLower ∈ "Host".toList.map Char.toLower := by
      rw [← of_decide_eq_true hname]
      exact List.mem_map_of_mem hmem
    exact absurd hlower (by decide)
  have hmethod : ':' ∉ r.method := fun hmem => (visible_of_tokenChar (r.token _ hmem)).2 rfl
  have hcut : r.method ++ (' ' :: (r.uri ++ [' '] ++ r.version)) = name ++ ':' :: after := by
    rw [← hline, HostRequest.line]
    simp
  obtain ⟨more, hmore⟩ := cut_behind hcut hblank (by decide)
  exact hmethod (by rw [hmore]; simp)

theorem HostRequest.lines_eq : lines [] r.text = r.line :: r.before ++ r.field :: r.after ++ [[]] := by
  rw [HostRequest.text, lines_crlfLines]
  · rfl
  · intro line hline
    have hblank : ∀ c ∈ r.leading ++ r.trailing, c ≠ '\n' := by
      intro c hc
      rcases r.blank c hc with rfl | rfl <;> decide
    simp only [List.cons_append, List.mem_cons, List.mem_append] at hline
    rcases hline with rfl | hline | rfl | hline
    · have hmethod : '\n' ∉ r.method := fun hmem => absurd (visible_of_tokenChar (r.token _ hmem)).1 (by decide)
      simp [HostRequest.line, hmethod, r.uriChars, r.versionChars]
    · exact r.linePlain line (List.mem_append_left _ hline)
    · have hspelling : '\n' ∉ r.spelling := fun hmem => (r.spelling_ne _ hmem).2 rfl
      have hauthority : '\n' ∉ r.authority := fun hmem => absurd (r.authority_visible _ hmem) (by decide)
      have hleading : '\n' ∉ r.leading := fun hmem => hblank _ (List.mem_append_left _ hmem) rfl
      have htrailing : '\n' ∉ r.trailing := fun hmem => hblank _ (List.mem_append_right _ hmem) rfl
      simp [HostRequest.field, hspelling, hauthority, hleading, htrailing]
    · exact r.linePlain line (List.mem_append_right _ hline)

theorem HostRequest.hostLine_eq :
    hostLine (lines [] r.text) =
      if r.spelling = "Host".toList ∨ r.spelling = "host".toList then some (r.leading ++ r.authority ++ r.trailing)
      else none := by
  have hcolon : ':' ∉ r.spelling := fun hmem => (r.spelling_ne _ hmem).1 rfl
  have hother : ∀ line ∈ r.before ++ r.after, ∀ value, ¬ IsHostLine line value := fun line hline value h =>
    r.only line hline h.named
  have hfront : ∀ line ∈ r.line :: r.before, ∀ value, ¬ IsHostLine line value := by
    intro line hline
    rcases List.mem_cons.mp hline with rfl | hline
    · exact r.line_not_host
    · exact hother line (List.mem_append_left _ hline)
  rw [r.lines_eq, List.append_assoc, hostLine_skip hfront, List.cons_append, HostRequest.field]
  split
  · rename_i hspelling
    exact hostLine_cons_some ((isHostLine_field _ _ _ hcolon).mpr ⟨hspelling, rfl⟩) _
  · rename_i hspelling
    rw [hostLine_cons_none fun value h => hspelling ((isHostLine_field _ _ _ hcolon).mp h).1,
      hostLine_skip fun line hline => hother line (List.mem_append_right _ hline)]
    rfl

theorem stripScheme_relative {uri : List Char} (h : ∀ scheme ∈ absolutePrefixes, ¬ scheme <+: uri) :
    stripScheme uri = none := by
  cases hstrip : stripScheme uri with
  | none => rfl
  | some found =>
    obtain ⟨scheme, hscheme, huri⟩ := stripScheme_some hstrip
    exact absurd ⟨found.1, huri.symm⟩ (h scheme hscheme)

theorem HostRequest.served_iff : httpTarget r.uri r.text = .ok r.target ↔ r.Plain := by
  have hblank : ∀ c ∈ r.leading ++ r.trailing, isWhitespace c = true := by
    intro c hc
    rcases r.blank c hc with rfl | rfl <;> decide
  have htrim : trim (r.leading ++ r.authority ++ r.trailing) = r.authority :=
    trim_blank hblank
      (fun c hc => isWhitespace_of_visible (r.authority_visible c (List.mem_of_mem_head? hc)))
      (fun c hc => isWhitespace_of_visible (r.authority_visible c (List.mem_of_getLast? hc)))
  rw [httpTarget, stripScheme_relative r.relative, r.hostLine_eq]
  by_cases hspelling : r.spelling = "Host".toList ∨ r.spelling = "host".toList
  · simp only [if_pos hspelling, htrim, Except.ok.injEq]
    refine (withDefaultPort_iff r.host r.port 80).trans ⟨?_, ?_⟩
    · intro hboth
      obtain ⟨hcolon, hport⟩ := hboth
      exact ⟨hspelling, hcolon, hport⟩
    · intro h
      exact ⟨h.colon, h.port⟩
  · simp only [if_neg hspelling, reduceCtorEq, false_iff]
    exact fun h => hspelling h.spelling

end

/-! ### Ports -/

/-- Digits that stand for a port number. -/
def IsPort (text : List Char) : Prop :=
  text ≠ [] ∧ (∀ c ∈ text, c.isDigit = true) ∧ text.foldl (fun n c => 10 * n + (c.toNat - 48)) 0 < 65536

/-- Between the two texts a bracket is open. -/
def InBrackets (left right : List Char) : Prop :=
  (∃ a b, left = a ++ '[' :: b ∧ ']' ∉ b) ∧ ∃ a b, right = a ++ ']' :: b ∧ '[' ∉ a

/-- What is behind the last colon outside brackets. -/
def BehindLastColon (text behind : List Char) : Prop :=
  ∃ front, text = front ++ ':' :: behind ∧ ¬ InBrackets front behind ∧
    ∀ a b, behind = a ++ ':' :: b → InBrackets (front ++ ':' :: a) b

def EndsInPort (text : List Char) : Prop := ∃ port, BehindLastColon text port ∧ IsPort port

/-- A port has neither colons nor brackets. -/
theorem endsInPort_iff (text : List Char) : EndsInPort text ↔ ∃ front port, text = front ++ ':' :: port ∧ IsPort port := by
  constructor
  · intro h
    obtain ⟨port, ⟨front, htext, -, -⟩, hport⟩ := h
    exact ⟨front, port, htext, hport⟩
  · intro h
    obtain ⟨front, port, htext, hport⟩ := h
    refine ⟨port, ⟨front, htext, ?_, ?_⟩, hport⟩
    · intro h
      obtain ⟨-, a, b, rfl, -⟩ := h
      exact absurd (hport.2.1 ']' (by simp)) (by decide)
    · rintro a b rfl
      exact absurd (hport.2.1 ':' (by simp)) (by decide)

/-- What the port takes for the authority: the text from the scheme to the first slash, or
the value of the first host line that it knows. -/
inductive Authority (uri header : List Char) : List Char → Prop
  | uri {scheme authority path : List Char} : scheme ∈ absolutePrefixes → '/' ∉ authority →
      (path = [] ∨ path.head? = some '/') → uri = scheme ++ authority ++ path → Authority uri header authority
  | host {before after : List (List Char)} {line value : List Char} :
      (∀ scheme ∈ absolutePrefixes, ¬ scheme <+: uri) → lines [] header = before ++ line :: after →
      (∀ l ∈ before, ∀ v, ¬ IsHostLine l v) → IsHostLine line value → Authority uri header (trim value)

theorem stripScheme_prefix {scheme : List Char} (h : scheme ∈ absolutePrefixes) (rest : List Char) :
    ∃ port, stripScheme (scheme ++ rest) = some (rest, port) ∧ (port = 80 ∨ port = 443) := by
  simp only [absolutePrefixes, List.mem_cons, List.not_mem_nil, or_false] at h
  rcases h with rfl | rfl
  · exact ⟨80, stripScheme_name .http rest, .inl rfl⟩
  · exact ⟨443, stripScheme_name .https rest, .inr rfl⟩

/-- The host line that is found is the first one. -/
theorem hostLine_eq_some {ls : List (List Char)} {value : List Char} (h : hostLine ls = some value) :
    ∃ before line after, ls = before ++ line :: after ∧ (∀ l ∈ before, ∀ v, ¬ IsHostLine l v) ∧
      IsHostLine line value := by
  induction ls with
  | nil => cases h
  | cons line ls ih =>
    by_cases hline : ∃ v, IsHostLine line v
    · obtain ⟨v, hline⟩ := hline
      rw [hostLine_cons_some hline] at h
      cases h
      exact ⟨[], line, ls, rfl, by simp, hline⟩
    · rw [hostLine_cons_none fun v hv => hline ⟨v, hv⟩] at h
      obtain ⟨before, found, after, rfl, hbefore, hfound⟩ := ih h
      refine ⟨line :: before, found, after, rfl, fun l hl v hv => ?_, hfound⟩
      rcases List.mem_cons.mp hl with rfl | hl
      · exact hline ⟨v, hv⟩
      · exact hbefore l hl v hv

/-- A target is the authority, with a port if that has no colon. -/
theorem httpTarget_authority {uri header target : List Char} (h : httpTarget uri header = .ok target) :
    ∃ authority port, Authority uri header authority ∧ (port = 80 ∨ port = 443) ∧
      withDefaultPort authority port = target := by
  cases hstrip : stripScheme uri with
  | some found =>
    obtain ⟨rest, port⟩ := found
    obtain ⟨scheme, hscheme, huri⟩ := stripScheme_some hstrip
    obtain ⟨port', hport', hdefault⟩ := stripScheme_prefix hscheme rest
    rw [← huri, hstrip] at hport'
    obtain ⟨-, rfl⟩ := Prod.mk.inj (Option.some.inj hport')
    rw [httpTarget, hstrip] at h
    refine ⟨rest.takeWhile (· ≠ '/'), port, ?_, hdefault, Except.ok.inj h⟩
    by_cases hslash : '/' ∈ rest
    · obtain ⟨authority, path, rfl, hauthority⟩ := List.eq_append_cons_of_mem hslash
      rw [(takeWhile_ne hauthority path).1]
      exact .uri hscheme hauthority (.inr rfl) (by rw [huri, List.append_assoc])
    · rw [(takeWhile_ne_of_not_mem hslash).1]
      exact .uri hscheme hslash (.inl rfl) (by rw [huri, List.append_nil])
  | none =>
    simp only [httpTarget, hstrip] at h
    cases hhost : hostLine (lines [] header) with
    | none =>
      rw [hhost] at h
      cases h
    | some value =>
      rw [hhost] at h
      obtain ⟨before, line, after, hlines, hbefore, hline⟩ := hostLine_eq_some hhost
      exact ⟨trim value, 80, .host (stripScheme_none hstrip) hlines hbefore hline, .inl rfl, Except.ok.inj h⟩

theorem Authority.httpTarget {uri header authority : List Char} (h : Authority uri header authority) :
    ∃ port, (port = 80 ∨ port = 443) ∧ httpTarget uri header = .ok (withDefaultPort authority port) := by
  cases h with
  | @uri scheme _ path hscheme hauthority hpath huri =>
    obtain ⟨port, hstrip, hport⟩ := stripScheme_prefix hscheme (authority ++ path)
    rw [← List.append_assoc, ← huri] at hstrip
    refine ⟨port, hport, ?_⟩
    rw [HttpProxy.httpTarget, hstrip]
    simp only
    cases path with
    | nil => rw [List.append_nil, (takeWhile_ne_of_not_mem hauthority).1]
    | cons c path =>
      obtain rfl : c = '/' := by simpa using hpath
      rw [(takeWhile_ne hauthority path).1]
  | @host before after line value hrelative hlines hbefore hline =>
    refine ⟨80, .inl rfl, ?_⟩
    rw [HttpProxy.httpTarget, stripScheme_relative hrelative, hlines, hostLine_skip hbefore, hostLine_cons_some hline]

theorem withDefaultPort_endsInPort {port : Nat} (hport : port = 80 ∨ port = 443) (authority : List Char) :
    EndsInPort (withDefaultPort authority port) ↔ (':' ∈ authority → EndsInPort authority) := by
  rw [withDefaultPort]
  split
  · rename_i hcolon
    simp [hcolon]
  · rename_i hcolon
    simp only [hcolon, false_imp_iff, iff_true]
    rw [endsInPort_iff]
    refine ⟨authority, (toString port).toList, by simp, ?_⟩
    rcases hport with rfl | rfl
    · exact ⟨by decide, List.all_eq_true.mp (by decide), by decide⟩
    · exact ⟨by decide, List.all_eq_true.mp (by decide), by decide⟩

/-- Every target that is returned ends in a port, exactly if an authority with a colon does. -/
theorem targets_end_in_port (uri header : List Char) :
    (∀ target, httpTarget uri header = .ok target → EndsInPort target) ↔
      ∀ authority, Authority uri header authority → ':' ∈ authority → EndsInPort authority := by
  constructor
  · intro h authority hauthority
    obtain ⟨port, hport, hok⟩ := hauthority.httpTarget
    exact (withDefaultPort_endsInPort hport authority).mp (h _ hok)
  · intro h target htarget
    obtain ⟨authority, port, hauthority, hport, rfl⟩ := httpTarget_authority htarget
    exact (withDefaultPort_endsInPort hport authority).mpr (h authority hauthority)

/-- **The targets of requests.** A request with an absolute URI goes where its URI says, with
the path and the query it has, exactly if the port understands the URI and there is no user
information in it; one with a host field goes where that says exactly if the port understands
the field; and a target that is returned ends in a port exactly if the authority it is made
from ends in one or has no colon. -/
theorem targets_exact (u : AbsoluteUri) (r : HostRequest) (method version uri header : List Char) :
    (u.Served method version header ↔ u.Plain ∧ u.userinfo = none) ∧
    (httpTarget r.uri r.text = .ok r.target ↔ r.Plain) ∧
    ((∀ target, httpTarget uri header = .ok target → EndsInPort target) ↔
      ∀ authority, Authority uri header authority → ':' ∈ authority → EndsInPort authority) :=
  ⟨u.served_iff method version header, r.served_iff, targets_end_in_port uri header⟩

theorem chars_of_all {text excluded : List Char} (h : text.all (fun c => visible c && !excluded.contains c) = true) :
    ∀ c ∈ text, visible c = true ∧ c ∉ excluded := by
  intro c hc
  simpa using List.all_eq_true.mp h c hc

theorem digits_of_none : ∀ digits ∈ (none : Option (List Char)), ∀ c ∈ digits, c.isDigit = true :=
  fun digits h => absurd h (Option.not_mem_none digits)

theorem http_spelled : eqIgnoreAsciiCase "http".toList (Scheme.name .http) = true := by decide

/-- `http://u@a?q`, and `http://[::1]/` for an address in brackets. -/
def sampleAuthority (bracketed : Bool) : AbsoluteUri where
  scheme := .http
  spelling := "http".toList
  host := if bracketed then "[::1]".toList else "a".toList
  port := none
  path := if bracketed then ['/'] else []
  query := if bracketed then none else some ['q']
  spelled := http_spelled
  hostChars := chars_of_all (by cases bracketed <;> rfl)
  hostColon := by cases bracketed <;> decide
  portChars := digits_of_none
  pathChars := chars_of_all (by cases bracketed <;> rfl)
  pathSlash := by cases bracketed <;> decide
  queryChars := by
    cases bracketed with
    | false =>
      intro q hq c hc
      cases hq
      obtain rfl := List.mem_singleton.mp hc
      decide
    | true => exact fun text h => absurd h (Option.not_mem_none text)
  userinfo := if bracketed then none else some ['u']
  userinfoChars := by
    cases bracketed with
    | false =>
      intro text htext
      cases htext
      exact chars_of_all rfl
    | true => exact fun text h => absurd h (Option.not_mem_none text)

theorem space_blank : ∀ c ∈ [' '] ++ [], c = ' ' ∨ c = '\t' := fun _ h => .inl (List.mem_singleton.mp h)

/-- `HOST: a` under `GET /`. -/
def upperCaseHost : HostRequest where
  method := "GET".toList
  uri := ['/']
  version := "HTTP/1.1".toList
  before := []
  spelling := "HOST".toList
  leading := [' ']
  host := ['a']
  port := none
  trailing := []
  after := []
  token := List.all_eq_true.mp (by decide)
  relative := stripScheme_none rfl
  uriChars := by decide
  versionChars := by decide
  linePlain := fun _ h => absurd h List.not_mem_nil
  spelled := by decide
  blank := space_blank
  hostChars := by
    intro c hc
    obtain rfl := List.mem_singleton.mp hc
    decide
  hostColon := fun h => absurd (List.mem_singleton.mp h) (by decide)
  portChars := digits_of_none
  only := fun _ h => absurd h List.not_mem_nil

/-- User information, an address in brackets, a host field in another spelling, and a host
field that ends in something else than a port. -/
theorem targets_missed :
    ¬ (sampleAuthority false).Served "GET".toList "HTTP/1.1".toList [] ∧
    ¬ (sampleAuthority true).Served "GET".toList "HTTP/1.1".toList [] ∧
    httpTarget upperCaseHost.uri upperCaseHost.text ≠ .ok upperCaseHost.target ∧
    ¬ ∀ target, httpTarget ['/'] "Host: a:b".toList = .ok target → EndsInPort target := by
  refine ⟨fun h => absurd h.1 (by decide), fun h => absurd h.1 (by decide), by decide, fun h => ?_⟩
  obtain ⟨front, port, hcut, hport⟩ := (endsInPort_iff _).mp (h "a:b".toList (by decide))
  match front, hcut with
  | [], hcut => exact absurd (List.cons.inj hcut).1 (by decide)
  | [c], hcut =>
    obtain ⟨-, rfl⟩ : c = 'a' ∧ port = ['b'] := by simpa using hcut.symm
    exact absurd (hport.2.1 'b' (by simp)) (by decide)
  | c :: d :: front, hcut =>
    have hlen : 3 = (c :: d :: front ++ ':' :: port).length := congrArg List.length hcut
    have hpos := List.length_pos_iff.mpr hport.1
    simp only [List.cons_append, List.length_cons, List.length_append] at hlen
    omega

end Rps.Controller.HttpProxy
