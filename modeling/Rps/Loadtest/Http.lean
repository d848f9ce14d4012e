import Rps.Base.Base64
import Rps.Controller.HttpTarget
import Rps.Controller.BasicAuth
import Rps.Loadtest.Socks5

/-! An HTTP client against the HTTP proxy port.

The load test asks the proxy for an absolute URI, with its credentials in a header of its own;
over SOCKS5 it writes the plain request to its target. `http_proxy_agrees`: however the reads
of the port cut the request, the client is let in exactly if its credentials are those of an
account that may be used or the port asks for none, and then the target receives the bytes it
receives over SOCKS5: the path for the URI, and no credentials. -/
namespace Rps.Loadtest
open Base Rps.Controller Rps.Controller.HttpProxy
open Socks5 (utf8)

/-! ### The client -/

/-- The arguments the HTTP client uses. -/
structure HttpArgs extends Args where
  httpProxyUsername : Option String
  httpProxyPassword : Option String
  throughputBytes : Nat

def httpProxyAuthHeader (args : HttpArgs) : Except String String :=
  match args.httpProxyUsername with
  | none =>
    if args.httpProxyPassword.isNone then .ok "" else .error "--http-proxy-password requires --http-proxy-username"
  | some username =>
    match args.httpProxyPassword with
    | none => .error "--http-proxy-username requires --http-proxy-password"
    | some password =>
      let encoded := String.ofList (Base64.encode (utf8 s!"{username}:{password}"))
      .ok s!"Proxy-Authorization: Basic {encoded}\r\n"

/-- What the client writes to the proxy for a path. -/
def proxiedRequest (args : HttpArgs) (path : String) : Except String String := do
  let target := args.target
  let auth ← httpProxyAuthHeader args
  pure s!"GET http://{target}{path} HTTP/1.1\r\nHost: {target}\r\n{auth}Connection: close\r\n\r\n"

/-- What it writes to the target itself. -/
def directRequest (args : HttpArgs) (path : String) : String :=
  let target := args.target
  s!"GET {path} HTTP/1.1\r\nHost: {target}\r\nConnection: close\r\n\r\n"

def throughputPath (args : HttpArgs) : String :=
  let bytes := args.throughputBytes
  s!"/bytes/{bytes}"

def httpProxy (args : HttpArgs) : Except String String := proxiedRequest args "/"

def httpProxyThroughput (args : HttpArgs) : Except String String := proxiedRequest args (throughputPath args)

def socks5Http (args : HttpArgs) : String := directRequest args "/"

def socks5Throughput (args : HttpArgs) : String := directRequest args (throughputPath args)

/-! ### Requests of CRLF lines -/

def getLine (uri : List Char) : List Char := "GET ".toList ++ uri ++ " HTTP/1.1".toList

/-- A `GET` with these fields. -/
def getText (uri : List Char) (fields : List (List Char)) : List Char := crlfLines (getLine uri :: fields) ++ crlf

/-- A URI is one word, and a field is one line. -/
structure OneLine (uri : List Char) (fields : List (List Char)) : Prop where
  word : ∀ c ∈ uri, isWhitespace c = false
  nonempty : uri ≠ []
  fields : ∀ field ∈ fields, field ≠ [] ∧ '\r' ∉ field ∧ '\n' ∉ field

section
variable {uri : List Char} {fields : List (List Char)}

theorem OneLine.getLine (h : OneLine uri fields) : '\r' ∉ getLine uri ∧ '\n' ∉ getLine uri := by
  have hcr : '\r' ∉ uri := fun hmem => absurd (h.word _ hmem) (by decide)
  have hlf : '\n' ∉ uri := fun hmem => absurd (h.word _ hmem) (by decide)
  have hget : '\r' ∉ "GET ".toList ∧ '\n' ∉ "GET ".toList := by decide
  have hversion : '\r' ∉ " HTTP/1.1".toList ∧ '\n' ∉ " HTTP/1.1".toList := by decide
  have hparts {c : Char} (hc : c ∈ Loadtest.getLine uri) :
      c ∈ "GET ".toList ∨ c ∈ uri ∨ c ∈ " HTTP/1.1".toList := by
    rcases List.mem_append.mp hc with hc | hc
    · exact (List.mem_append.mp hc).imp_right .inl
    · exact .inr (.inr hc)
  constructor
  · intro hmem
    rcases hparts hmem with hmem | hmem | hmem
    · exact hget.1 hmem
    · exact hcr hmem
    · exact hversion.1 hmem
  · intro hmem
    rcases hparts hmem with hmem | hmem | hmem
    · exact hget.2 hmem
    · exact hlf hmem
    · exact hversion.2 hmem

theorem isWord {text : List Char} (h : text.any isWhitespace = false) : ∀ c ∈ text, isWhitespace c = false := by
  simpa using h

/-- A word is read to the next white space, whatever its characters. -/
theorem splitWhitespace_chars {a : List Char} (h : ∀ c ∈ a, isWhitespace c = false) (word rest : List Char) :
    splitWhitespace word (a ++ rest) = splitWhitespace (a.reverse ++ word) rest := by
  induction a generalizing word with
  | nil => rfl
  | cons c a ih =>
    rw [List.cons_append, splitWhitespace, h c (List.mem_cons_self ..), if_neg (by simp),
      ih fun d hd => h d (List.mem_cons_of_mem c hd)]
    simp

theorem requestLine_getText (h : OneLine uri fields) :
    requestLine (getText uri fields) = ⟨"GET".toList, uri, "HTTP/1.1".toList⟩ := by
  have hwords : splitWhitespace [] (getLine uri) = ["GET".toList, uri, "HTTP/1.1".toList] := by
    have hline : getLine uri = "GET".toList ++ ' ' :: (uri ++ ' ' :: ("HTTP/1.1".toList ++ [])) := by
      have hget : "GET ".toList = "GET".toList ++ [' '] := by decide
      have hversion : " HTTP/1.1".toList = ' ' :: "HTTP/1.1".toList := by decide
      simp only [getLine, hget, hversion, List.append_assoc, List.cons_append, List.nil_append, List.append_nil]
    rw [hline, splitWhitespace_chars (isWord (by decide)), splitWhitespace_space (by decide),
      splitWhitespace_chars h.word, splitWhitespace_space (by simpa using h.nonempty),
      splitWhitespace_chars (isWord (by decide))]
    simp [splitWhitespace]
  have htext : getText uri fields = getLine uri ++ crlf ++ (crlfLines fields ++ crlf) := by
    simp [getText, crlfLines]
  rw [htext, requestLine_append, requestLine, splitCrlf_of_not_mem h.getLine.1]
  simp only [List.reverse_nil, List.nil_append, List.headD_cons, hwords]
  rfl

/-- What is sent on: the path in the place of the URI, and no authorization. -/
theorem rewrite_getText (h : OneLine uri fields) :
    rewriteAbsoluteForm ⟨"GET".toList, uri, "HTTP/1.1".toList⟩ (getText uri fields) =
      getText (originPath uri) (keptLines fields) := by
  have htext : getText uri fields = getLine uri ++ crlf ++ (crlfLines fields ++ crlf) := by
    simp [getText, crlfLines]
  have hline : originLine ⟨"GET".toList, uri, "HTTP/1.1".toList⟩ = getLine (originPath uri) := by
    have hget : "GET ".toList = "GET".toList ++ [' '] := by decide
    have hversion : " HTTP/1.1".toList = ' ' :: "HTTP/1.1".toList := by decide
    simp only [originLine, getLine, hget, hversion, List.append_assoc, List.cons_append, List.nil_append]
  rw [rewriteAbsoluteForm, htext, afterCrlf_of_not_mem h.getLine.1, Option.getD_some,
    stripProxyHeaders_crlfLines fun line hline => (h.fields line hline).2.1, hline]
  simp [getText, crlfLines]

theorem lines_getText (h : OneLine uri fields) : lines [] (getText uri fields) = getLine uri :: fields ++ [[]] := by
  rw [getText, lines_crlfLines]
  · rfl
  · intro line hline
    rcases List.mem_cons.mp hline with rfl | hline
    · exact h.getLine.2
    · exact (h.fields line hline).2.2

/-- The bytes of a request, up to their first CRLF CRLF. -/
def OneLine.toSection (h : OneLine uri fields) : Section where
  head := encode (getText uri fields)
  ends := by
    have hcrlf : encode crlf = [13, 10] := by decide
    obtain ⟨init, last, hlast⟩ : ∃ init last, Loadtest.getLine uri :: fields = init ++ [last] :=
      ⟨_, _, (List.dropLast_append_getLast (List.cons_ne_nil _ _)).symm⟩
    refine ⟨encode (crlfLines init ++ last), ?_⟩
    rw [getText, hlast]
    simp [crlfLines, hcrlf, headerEnd]
  first := by
    have hcrlf : encode crlf = [13, 10] := by decide
    have hcr : encode ['\r'] = [13] := by decide
    have hbytes : encode (getText uri fields) =
        ((Loadtest.getLine uri :: fields).map encode).flatMap (· ++ [13, 10]) ++ [13, 10] := by
      rw [getText, encode_append, hcrlf, crlfLines]
      congr 1
      induction Loadtest.getLine uri :: fields with
      | nil => rfl
      | cons line lines ih =>
        rw [List.flatMap_cons, encode_append, encode_append, hcrlf, ih]
        rfl
    rw [hbytes, List.dropLast_append_of_ne_nil (by simp)]
    apply hasHeaderEnd_lines
    intro bytes hmem
    obtain ⟨line, hline, rfl⟩ := List.mem_map.mp hmem
    rcases List.mem_cons.mp hline with rfl | hline
    · refine ⟨?_, fun hmem => h.getLine.1 (mem_of_mem_encode hcr (by decide) hmem)⟩
      rw [Ne, encode_eq_nil, Loadtest.getLine]
      simp
    · obtain ⟨hne, hfield, -⟩ := h.fields line hline
      exact ⟨by simpa using hne, fun hmem => hfield (mem_of_mem_encode hcr (by decide) hmem)⟩

end

/-! ### Who is let in -/

def HttpArgs.credentials (args : HttpArgs) : Option (String × String) :=
  match args.httpProxyUsername, args.httpProxyPassword with
  | some username, some password => some (username, password)
  | _, _ => none

/-- Whom the port takes a client with these credentials for, if it lets it in. -/
def httpAdmission (env : AuthEnv) (now : Int) (s : AuthState) (credentials : Option (String × String)) :
    Option HttpProxyAuth :=
  if s.db.hasEnabledProxyAccounts .http = false then some ⟨env.fallback, none⟩
  else
    credentials.bind fun (username, password) =>
      (s.db.findEnabledProxyAccount .http username password).bind fun account =>
        if (s.policy.allowed now (proxyAccountKey account.id)).1 then
          some ⟨⟨"http-proxy:" ++ account.id, account.clientId⟩, some account.id⟩
        else none

section
variable {env : AuthEnv} {now : Int} {s : AuthState}

theorem authenticatedRoute_eq (header : String) :
    (authenticatedRoute env now s header).1 = httpAdmission env now s (parseBasicProxyAuth env header) := by
  unfold authenticatedRoute httpAdmission
  cases s.db.hasEnabledProxyAccounts .http with
  | false => rfl
  | true =>
    cases parseBasicProxyAuth env header with
    | none => rfl
    | some credentials =>
      obtain ⟨username, password⟩ := credentials
      simp only [Bool.not_true, Bool.false_eq_true, if_false, Bool.true_eq_false, Option.bind_some]
      cases s.db.findEnabledProxyAccount .http username password with
      | none => rfl
      | some account =>
        simp only [Option.bind_some]
        cases hallowed : s.policy.allowed now (proxyAccountKey account.id) with
        | mk allowed policy => cases allowed <;> rfl

/-- A line that begins with another letter. -/
theorem not_authorization {c : Char} (hc : c.toLower ≠ 'p') (rest : List Char) :
    isProxyAuthorization (c :: rest) = false := by
  unfold isProxyAuthorization
  cases hsplit : splitOnce ':' (c :: rest) with
  | none => rfl
  | some field =>
    obtain ⟨name, value⟩ := field
    obtain ⟨hline, -⟩ := splitOnce_eq_some.mp hsplit
    cases name with
    | nil =>
      show eqIgnoreAsciiCase [] "Proxy-Authorization".toList = false
      decide
    | cons d name =>
      obtain ⟨rfl, -⟩ := List.cons.inj hline
      have hlower : "Proxy-Authorization".toList.map Char.toLower = 'p' :: "roxy-authorization".toList := by decide
      simp only [eqIgnoreAsciiCase, hlower, List.map_cons, List.cons.injEq, hc, false_and, decide_false]

/-- The credentials that are sent are the ones that are read. -/
theorem basicCredentials_sent (hdecode : ∀ bytes, env.base64Decode (String.ofList (Base64.encode bytes)) = some bytes)
    {username : String} (husername : ':' ∉ username.toList) (password : String) :
    basicCredentials env ([' '] ++ ("Basic ".toList ++ Base64.encode (utf8 s!"{username}:{password}"))) =
      some (username, password) := by
  have htext : (s!"{username}:{password}").toList = username.toList ++ ':' :: password.toList := by
    simp [String.toList_append]
    rfl
  have hne : Base64.encode (utf8 s!"{username}:{password}") ≠ [] := by
    have hbytes : utf8 s!"{username}:{password}" ≠ [] := by
      rw [utf8, Ne, encode_eq_nil, htext]
      simp
    match hmatch : utf8 s!"{username}:{password}" with
    | [] => contradiction
    | [_] | [_, _] | _ :: _ :: _ :: _ => simp [Base64.encode]
  have htrim : trim ([' '] ++ ("Basic ".toList ++ Base64.encode (utf8 s!"{username}:{password}"))) =
      "Basic ".toList ++ Base64.encode (utf8 s!"{username}:{password}") := by
    rw [← List.append_nil ([' '] ++ _)]
    refine trim_blank (List.all_eq_true.mp (by decide)) (by simp [isWhitespace]) fun c hc => ?_
    rw [List.getLast?_append_of_ne_nil _ hne] at hc
    apply isWhitespace_of_visible
    simpa [visible] using Base64.encode_visible _ c (List.mem_of_getLast? hc)
  have hprefix : String.ofList ("Basic ".toList ++ Base64.encode (utf8 s!"{username}:{password}")) =
      "Basic " ++ String.ofList (Base64.encode (utf8 s!"{username}:{password}")) := by
    rw [String.ofList_append, String.ofList_toList]
  have hutf8 : String.fromUTF8? ⟨(utf8 s!"{username}:{password}").toArray⟩ = some s!"{username}:{password}" := by
    rw [fromUTF8_eq_some]
    rfl
  have hsplit : splitOnce ':' (username.toList ++ ':' :: password.toList) = some (username.toList, password.toList) :=
    splitOnce_append husername password.toList
  rw [basicCredentials, htrim, hprefix, stripPrefix_append]
  simp only [Option.bind_eq_bind, Option.bind_some, hdecode, hutf8, htext, hsplit, String.ofList_toList]

/-! ### What the port reads -/

/-- The host is one word of a URI's authority, and the username has no colon. -/
structure HttpArgs.Plain (args : HttpArgs) : Prop where
  host : ∀ c ∈ args.targetHost.toList, isWhitespace c = false ∧ c ≠ '/'
  username : ∀ username ∈ args.httpProxyUsername, ':' ∉ username.toList

/-- The field with the credentials. -/
def HttpArgs.authFields (args : HttpArgs) : List (List Char) :=
  match args.credentials with
  | none => []
  | some (username, password) =>
    ["Proxy-Authorization".toList ++ ':' :: ([' '] ++
      ("Basic ".toList ++ Base64.encode (utf8 s!"{username}:{password}")))]

theorem digit_word {n : Nat} {c : Char} (hc : c ∈ Nat.toDigits 10 n) : isWhitespace c = false ∧ c ≠ '/' := by
  have hdigit := Nat.isDigit_of_mem_toDigits (by omega) (by omega) hc
  refine ⟨isWhitespace_of_visible (visible_of_isDigit hdigit), ?_⟩
  rintro rfl
  exact absurd hdigit (by decide)

theorem target_toList (args : Args) :
    args.target.toList = args.targetHost.toList ++ ':' :: Nat.toDigits 10 args.targetHttpPort.toNat := by
  have htext : args.target = args.targetHost ++ ":" ++ toString args.targetHttpPort.toNat := rfl
  have hcolon : ":".toList = [':'] := by decide
  rw [htext, String.toList_append, String.toList_append, hcolon, Nat.toString_eq_ofList_toDigits,
    String.toList_ofList, List.append_assoc]
  rfl

theorem HttpArgs.Plain.target {args : HttpArgs} (h : args.Plain) :
    ∀ c ∈ args.target.toList, isWhitespace c = false ∧ c ≠ '/' := by
  rw [target_toList]
  intro c hc
  rcases List.mem_append.mp hc with hc | hc
  · exact h.host c hc
  · rcases List.mem_cons.mp hc with rfl | hc
    · decide
    · exact digit_word hc

theorem HttpArgs.Plain.slash {args : HttpArgs} (h : args.Plain) : '/' ∉ args.target.toList :=
  fun hmem => (h.target _ hmem).2 rfl

theorem HttpArgs.Plain.colon {args : HttpArgs} (h : args.Plain) {username password : String}
    (hcredentials : args.credentials = some (username, password)) : ':' ∉ username.toList := by
  apply h.username
  unfold HttpArgs.credentials at hcredentials
  split at hcredentials
  · rename_i name word hname hword
    cases hcredentials
    exact hname
  · cases hcredentials

def HttpArgs.uri (args : HttpArgs) (path : String) : List Char :=
  "http://".toList ++ (args.target.toList ++ path.toList)

def HttpArgs.hostField (args : HttpArgs) : List Char := "Host: ".toList ++ args.target.toList

def closeField : List Char := "Connection: close".toList

def HttpArgs.sentFields (args : HttpArgs) : List (List Char) := args.hostField :: (args.authFields ++ [closeField])

theorem httpProxyAuthHeader_toList {args : HttpArgs} {header : String} (h : httpProxyAuthHeader args = .ok header) :
    header.toList = crlfLines args.authFields := by
  unfold httpProxyAuthHeader at h
  unfold HttpArgs.authFields HttpArgs.credentials
  cases husername : args.httpProxyUsername with
  | none =>
    rw [husername] at h
    cases hpassword : args.httpProxyPassword with
    | none =>
      rw [hpassword] at h
      cases h
      rfl
    | some password =>
      rw [hpassword] at h
      cases h
  | some username =>
    rw [husername] at h
    cases hpassword : args.httpProxyPassword with
    | none =>
      rw [hpassword] at h
      cases h
    | some password =>
      rw [hpassword] at h
      cases h
      have htext (encoded : String) : s!"Proxy-Authorization: Basic {encoded}\r\n" =
          "Proxy-Authorization: Basic " ++ encoded ++ "\r\n" := rfl
      have hname : "Proxy-Authorization: Basic ".toList =
          "Proxy-Authorization".toList ++ ':' :: ([' '] ++ "Basic ".toList) := by decide
      have hend : "\r\n".toList = crlf := by decide
      rw [htext]
      simp only [String.toList_append, String.toList_ofList, hname, hend]
      simp [crlfLines]

theorem proxiedText (target path header : String) :
    (s!"GET http://{target}{path} HTTP/1.1\r\nHost: {target}\r\n{header}Connection: close\r\n\r\n").toList =
      "GET ".toList ++ ("http://".toList ++ (target.toList ++ path.toList)) ++ " HTTP/1.1".toList ++ crlf ++
        ("Host: ".toList ++ target.toList ++ crlf) ++ header.toList ++ (closeField ++ crlf) ++ crlf := by
  have htext : s!"GET http://{target}{path} HTTP/1.1\r\nHost: {target}\r\n{header}Connection: close\r\n\r\n" =
      "GET http://" ++ target ++ path ++ " HTTP/1.1\r\nHost: " ++ target ++ "\r\n" ++ header ++
        "Connection: close\r\n\r\n" := rfl
  have hget : "GET http://".toList = "GET ".toList ++ "http://".toList := by decide
  have hhost : " HTTP/1.1\r\nHost: ".toList = " HTTP/1.1".toList ++ (crlf ++ "Host: ".toList) := by decide
  have hend : "\r\n".toList = crlf := by decide
  have hclose : "Connection: close\r\n\r\n".toList = closeField ++ (crlf ++ crlf) := by decide
  rw [htext]
  simp only [String.toList_append, hget, hhost, hend, hclose, List.append_assoc]

theorem getText_eq (uri host last : List Char) (fields : List (List Char)) :
    getText uri (host :: (fields ++ [last])) =
      "GET ".toList ++ uri ++ " HTTP/1.1".toList ++ crlf ++ (host ++ crlf) ++ crlfLines fields ++ (last ++ crlf) ++
        crlf := by
  simp [getText, getLine, crlfLines]

theorem proxiedRequest_toList {args : HttpArgs} {path request : String} (h : proxiedRequest args path = .ok request) :
    request.toList = getText (args.uri path) args.sentFields := by
  cases hheader : httpProxyAuthHeader args with
  | error error => simp [proxiedRequest, hheader, bind, Except.bind] at h
  | ok header =>
    simp only [proxiedRequest, hheader, bind, Except.bind, pure, Except.pure, Except.ok.injEq] at h
    have htext := proxiedText args.target path header
    have hlines := httpProxyAuthHeader_toList hheader
    rw [h] at htext
    rw [HttpArgs.sentFields, getText_eq, ← hlines]
    exact htext

theorem directText (target path : String) :
    (s!"GET {path} HTTP/1.1\r\nHost: {target}\r\nConnection: close\r\n\r\n").toList =
      "GET ".toList ++ path.toList ++ " HTTP/1.1".toList ++ crlf ++ ("Host: ".toList ++ target.toList ++ crlf) ++
        crlfLines [] ++ (closeField ++ crlf) ++ crlf := by
  have htext : s!"GET {path} HTTP/1.1\r\nHost: {target}\r\nConnection: close\r\n\r\n" =
      "GET " ++ path ++ " HTTP/1.1\r\nHost: " ++ target ++ "\r\nConnection: close\r\n\r\n" := rfl
  have hhost : " HTTP/1.1\r\nHost: ".toList = " HTTP/1.1".toList ++ (crlf ++ "Host: ".toList) := by decide
  have hclose : "\r\nConnection: close\r\n\r\n".toList = crlf ++ (closeField ++ (crlf ++ crlf)) := by decide
  have hnil : crlfLines [] = [] := rfl
  rw [htext, hnil]
  simp only [String.toList_append, hhost, hclose, List.append_assoc, List.nil_append]

theorem directRequest_toList (args : HttpArgs) (path : String) :
    (directRequest args path).toList = getText path.toList [args.hostField, closeField] :=
  (directText args.target path).trans (getText_eq path.toList args.hostField closeField []).symm

/-- A path begins with a slash and is one word. -/
structure IsPath (path : String) : Prop where
  slash : ∃ rest, path.toList = '/' :: rest
  word : ∀ c ∈ path.toList, isWhitespace c = false

theorem isPath_root : IsPath "/" where
  slash := ⟨[], by decide⟩
  word := isWord (by decide)

theorem isPath_throughput (args : HttpArgs) : IsPath (throughputPath args) := by
  have htext : (throughputPath args).toList = '/' :: ("bytes/".toList ++ Nat.toDigits 10 args.throughputBytes) := by
    have hpath : throughputPath args = "/bytes/" ++ toString args.throughputBytes := rfl
    have hbytes : "/bytes/".toList = '/' :: "bytes/".toList := by decide
    rw [hpath]
    simp only [String.toList_append, hbytes, Nat.toString_eq_ofList_toDigits, String.toList_ofList, List.cons_append]
  constructor
  · exact ⟨_, htext⟩
  · rw [htext]
    have hbytes : ∀ c ∈ "bytes/".toList, isWhitespace c = false := isWord (by decide)
    intro c hc
    rcases List.mem_cons.mp hc with rfl | hc
    · decide
    · rcases List.mem_append.mp hc with hc | hc
      · exact hbytes c hc
      · exact (digit_word hc).1

section
variable {args : HttpArgs} {path request : String}

theorem mem_authFields {field : List Char} (h : field ∈ args.authFields) : ∃ username password,
    args.credentials = some (username, password) ∧
    field = "Proxy-Authorization".toList ++ ':' :: ([' '] ++
      ("Basic ".toList ++ Base64.encode (utf8 s!"{username}:{password}"))) := by
  unfold HttpArgs.authFields at h
  cases hcredentials : args.credentials with
  | none =>
    rw [hcredentials] at h
    cases h
  | some credentials =>
    rw [hcredentials] at h
    exact ⟨credentials.1, credentials.2, rfl, List.mem_singleton.mp h⟩

theorem authFields_oneLine {field : List Char} (h : field ∈ args.authFields) :
    field ≠ [] ∧ '\r' ∉ field ∧ '\n' ∉ field := by
  obtain ⟨username, password, -, rfl⟩ := mem_authFields h
  have hencoded {c : Char} (hc : visible c = false) : c ∉ Base64.encode (utf8 s!"{username}:{password}") := by
    intro hmem
    have hvisible : visible c = true := by simpa [visible] using Base64.encode_visible _ c hmem
    rw [hvisible] at hc
    cases hc
  have hname {c : Char} (hc : c = '\r' ∨ c = '\n') :
      c ∉ "Proxy-Authorization".toList ∧ c ≠ ':' ∧ c ∉ [' '] ∧ c ∉ "Basic ".toList ∧ visible c = false := by
    rcases hc with rfl | rfl <;> decide
  have hline {c : Char} (hc : c = '\r' ∨ c = '\n') : c ∉ "Proxy-Authorization".toList ++ ':' :: ([' '] ++
      ("Basic ".toList ++ Base64.encode (utf8 s!"{username}:{password}"))) := by
    obtain ⟨hauth, hcolon, hspace, hbasic, hvisible⟩ := hname hc
    simp only [List.mem_append, List.mem_cons, not_or]
    exact ⟨hauth, hcolon, by simpa using hspace, hbasic, hencoded hvisible⟩
  exact ⟨by simp, hline (.inl rfl), hline (.inr rfl)⟩

theorem HttpArgs.Plain.oneLine (h : args.Plain) (hpath : IsPath path) : OneLine (args.uri path) args.sentFields where
  word := by
    have hscheme : ∀ c ∈ "http://".toList, isWhitespace c = false := isWord (by decide)
    intro c hc
    rcases List.mem_append.mp hc with hc | hc
    · exact hscheme c hc
    rcases List.mem_append.mp hc with hc | hc
    · exact (h.target c hc).1
    · exact hpath.word c hc
  nonempty := by
    have hscheme : "http://".toList ≠ [] := by decide
    exact List.append_ne_nil_of_left_ne_nil hscheme _
  fields := by
    have hcr : isWhitespace '\r' = true := by decide
    have hlf : isWhitespace '\n' = true := by decide
    have hhost : '\r' ∉ "Host: ".toList ∧ '\n' ∉ "Host: ".toList := by decide
    have htarget {c : Char} (hc : isWhitespace c = true) : c ∉ args.target.toList := by
      intro hmem
      rw [(h.target c hmem).1] at hc
      cases hc
    intro field hfield
    rcases List.mem_cons.mp hfield with rfl | hfield
    · refine ⟨List.append_ne_nil_of_left_ne_nil (by decide) _, fun hmem => ?_, fun hmem => ?_⟩
      · exact (List.mem_append.mp hmem).elim hhost.1 (htarget hcr)
      · exact (List.mem_append.mp hmem).elim hhost.2 (htarget hlf)
    rcases List.mem_append.mp hfield with hfield | hfield
    · exact authFields_oneLine hfield
    · rw [List.mem_singleton.mp hfield]
      decide

theorem authorization_name : ':' ∉ "Proxy-Authorization".toList ∧
    eqIgnoreAsciiCase "Proxy-Authorization".toList "Proxy-Authorization".toList = true := by
  decide

theorem isProxyAuthorization_authFields {field : List Char} (h : field ∈ args.authFields) :
    isProxyAuthorization field = true := by
  obtain ⟨username, password, -, rfl⟩ := mem_authFields h
  obtain ⟨hname, hself⟩ := authorization_name
  rw [isProxyAuthorization, splitOnce_append hname]
  exact hself

theorem isProxyAuthorization_sent (args : HttpArgs) :
    isProxyAuthorization args.hostField = false ∧ isProxyAuthorization closeField = false := by
  have hhost (text : List Char) : isProxyAuthorization ("Host: ".toList ++ text) = false := by
    have htext : "Host: ".toList = 'H' :: "ost: ".toList := by decide
    rw [htext]
    exact not_authorization (by decide) _
  constructor
  · exact hhost args.target.toList
  · decide

theorem keptLines_sentFields (args : HttpArgs) : keptLines args.sentFields = [args.hostField, closeField] := by
  have hauth : keptLines args.authFields = [] := by
    rw [keptLines, List.filter_eq_nil_iff]
    intro field hfield
    rw [isProxyAuthorization_authFields hfield]
    simp
  obtain ⟨hhost, hclose⟩ := isProxyAuthorization_sent args
  rw [HttpArgs.sentFields, ← List.singleton_append, keptLines_append, keptLines_append, hauth]
  simp [keptLines, hhost, hclose]

/-- The port reads the credentials that the client was given. -/
theorem parseBasicProxyAuth_sent
    (hdecode : ∀ bytes, env.base64Decode (String.ofList (Base64.encode bytes)) = some bytes) (h : args.Plain)
    (hpath : IsPath path) (hrequest : request.toList = getText (args.uri path) args.sentFields) :
    parseBasicProxyAuth env request = args.credentials := by
  obtain ⟨hhost, hclose⟩ := isProxyAuthorization_sent args
  have hget : isProxyAuthorization (getLine (args.uri path)) = false := by
    have htext : "GET ".toList = 'G' :: "ET ".toList := by decide
    rw [getLine, htext]
    exact not_authorization (by decide) _
  have hlines : getLine (args.uri path) :: args.sentFields ++ [[]] =
      [getLine (args.uri path), args.hostField] ++ (args.authFields ++ [closeField, []]) := by
    simp [HttpArgs.sentFields]
  rw [parseBasicProxyAuth, hrequest, lines_getText (h.oneLine hpath), hlines, proxyAuthLine_skip]
  · unfold HttpArgs.authFields
    cases hcredentials : args.credentials with
    | none =>
      have hnil : isProxyAuthorization [] = false := by decide
      rw [List.nil_append, ← List.append_nil [closeField, []], proxyAuthLine_skip]
      · rfl
      · simp [hclose, hnil]
    | some credentials =>
      obtain ⟨username, password⟩ := credentials
      obtain ⟨hname, hself⟩ := authorization_name
      simp only [List.cons_append, proxyAuthLine, splitOnce_append hname, hself, if_true]
      exact basicCredentials_sent hdecode (h.colon hcredentials) password
  · simp [hget, hhost]

theorem stripScheme_uri (args : HttpArgs) (path : String) :
    stripScheme (args.uri path) = some (args.target.toList ++ path.toList, 80) := by
  have hscheme (rest : List Char) : stripScheme ("http://".toList ++ rest) = some (rest, 80) :=
    stripScheme_name .http rest
  exact hscheme _

theorem httpTarget_sent (h : args.Plain) (hpath : IsPath path) (header : List Char) :
    httpTarget (args.uri path) header = .ok args.target.toList := by
  obtain ⟨rest, hrest⟩ := hpath.slash
  have hcolon : ':' ∈ args.target.toList := by
    rw [target_toList]
    simp
  rw [httpTarget, stripScheme_uri, hrest]
  simp only [(takeWhile_ne h.slash rest).1, withDefaultPort, if_pos hcolon]

theorem originPath_sent (h : args.Plain) (hpath : IsPath path) : originPath (args.uri path) = path.toList := by
  obtain ⟨rest, hrest⟩ := hpath.slash
  rw [originPath, stripScheme_uri, hrest]
  simp only
  rw [(takeWhile_ne h.slash rest).2, if_neg (List.cons_ne_nil _ _)]

variable (now : Int) (s : AuthState)

/-- A client that asks for a path, however its request is read. -/
theorem handleHttpProxy_sent
    (hdecode : ∀ bytes, env.base64Decode (String.ofList (Base64.encode bytes)) = some bytes) (h : args.Plain)
    (hpath : IsPath path) (hrequest : proxiedRequest args path = .ok request)
    (hsize : (utf8 request).length ≤ maxHeader) (reads : Reads (utf8 request)) :
    handleHttpProxy env now s reads.chunks =
      match httpAdmission env now s args.credentials with
      | none => .unauthorized
      | some auth => .opened auth args.target.toList (utf8 (directRequest args path)) := by
  have htext := proxiedRequest_toList hrequest
  have hline := h.oneLine hpath
  have hhead : utf8 request = hline.toSection.head ++ [] := by
    rw [utf8, htext, List.append_nil]
    rfl
  obtain ⟨hlarge, -⟩ | ⟨k, -, hserve⟩ := handleHttpProxy_section env now s hline.toSection hhead reads
  · rw [hhead, List.append_nil] at hsize
    omega
  have hread : fromUtf8 (utf8 request) = .ok request := by
    rw [utf8, fromUtf8_encode, String.ofList_toList]
  have hdirect : rewriteAbsoluteForm ⟨"GET".toList, args.uri path, "HTTP/1.1".toList⟩ request.toList =
      (directRequest args path).toList := by
    rw [htext, rewrite_getText hline, originPath_sent h hpath, keptLines_sentFields, directRequest_toList]
  have hget : eqIgnoreAsciiCase "GET".toList "CONNECT".toList = false := by decide
  rw [hserve, List.take_nil, List.drop_nil, ← hhead, serve, hread]
  simp only [authenticatedRoute_eq, parseBasicProxyAuth_sent hdecode h hpath htext]
  cases httpAdmission env now s args.credentials with
  | none => rfl
  | some auth =>
    simp only [htext, requestLine_getText hline, hget, httpTarget_sent h hpath]
    rw [← htext, hdirect, List.append_nil]
    rfl

end

/-- **The proxy forwards the plain request.** A client with consistent credentials is let in as
the account they are those of, or by a port that asks for none; its target then receives what
the client writes over SOCKS5. -/
theorem http_proxy_agrees (env : AuthEnv) (now : Int) (s : AuthState) (args : HttpArgs)
    (hdecode : ∀ bytes, env.base64Decode (String.ofList (Base64.encode bytes)) = some bytes) (h : args.Plain)
    {request direct : String}
    (hsent : httpProxy args = .ok request ∧ direct = socks5Http args ∨
      httpProxyThroughput args = .ok request ∧ direct = socks5Throughput args)
    (hsize : (utf8 request).length ≤ maxHeader) (reads : Reads (utf8 request)) :
    handleHttpProxy env now s reads.chunks =
      match httpAdmission env now s args.credentials with
      | none => .unauthorized
      | some auth => .opened auth args.target.toList (utf8 direct) := by
  rcases hsent with ⟨hrequest, rfl⟩ | ⟨hrequest, rfl⟩
  · exact handleHttpProxy_sent now s hdecode h isPath_root hrequest hsize reads
  · exact handleHttpProxy_sent now s hdecode h (isPath_throughput args) hrequest hsize reads

/-- A client with the credentials `u:p`, and the account they are those of. -/
def httpClient : HttpArgs where
  host := "127.0.0.1"
  targetHost := "t"
  targetHttpPort := 80
  targetUdpPort := 81
  socks5Username := none
  socks5Password := none
  httpProxyUsername := some "u"
  httpProxyPassword := some "p"
  throughputBytes := 5

def httpAccount : DbProxyAccount :=
  {id := "a", kind := .http, clientId := "client", username := "u", password := "p"}

def httpState : AuthState := ⟨⟨[httpAccount], by decide, by decide⟩, {}⟩

theorem httpClient_plain : httpClient.Plain where
  host := by
    have hhost : httpClient.targetHost.toList = ['t'] := by decide
    rw [hhost, List.forall_mem_singleton]
    decide
  username := by
    intro username husername
    cases husername
    decide

def httpRequest : String :=
  "GET http://t:80/bytes/5 HTTP/1.1\r\nHost: t:80\r\nProxy-Authorization: Basic dTpw\r\nConnection: close\r\n\r\n"

def httpReads : Reads (utf8 httpRequest) where
  chunks := [utf8 httpRequest]
  nonempty := by decide +kernel
  bounded := by decide +kernel
  joined := by simp

theorem http_proxy_agrees_throughput :
    handleHttpProxy decodingEnv 0 httpState httpReads.chunks =
      .opened ⟨⟨"http-proxy:a", "client"⟩, some "a"⟩ "t:80".toList
        (utf8 "GET /bytes/5 HTTP/1.1\r\nHost: t:80\r\nConnection: close\r\n\r\n") := by
  have hsent : httpProxyThroughput httpClient = .ok httpRequest := by decide +kernel
  have hdirect : socks5Throughput httpClient =
      "GET /bytes/5 HTTP/1.1\r\nHost: t:80\r\nConnection: close\r\n\r\n" := by decide +kernel
  have hadmission : httpAdmission decodingEnv 0 httpState httpClient.credentials =
      some ⟨⟨"http-proxy:a", "client"⟩, some "a"⟩ := by decide +kernel
  have htarget : httpClient.target = "t:80" := by decide +kernel
  have hopened := http_proxy_agrees decodingEnv 0 httpState httpClient decodingEnv_decode httpClient_plain
    (.inr ⟨hsent, rfl⟩) (by decide +kernel) httpReads
  rw [hadmission, hdirect, htarget] at hopened
  exact hopened

end

end Rps.Loadtest
