import Rps.Base.Lease
import Rps.Base.Text
import Rps.Controller.ProxyAuth

/-! Sessions of the web console.

A login that names the configured user, and gives a code of the configured secret if
there is one, gets a random token in a cookie. The handlers of the console let a
request in by the token its cookies carry. A session ends by a logout that carries
its token, or by its time: nothing watches the time, but the request that finds a
session over removes it, in a step after the one that read it.

`requireAuth_iff`: along every run of logins, logouts and requests, a request is let
in exactly while its token is one of a login and the session has not ended. -/
namespace Rps.Controller.WebSessions
open Base

structure WebAuthConfig where
  enabled : Bool
  username : String
  password : String
  totpSecret : Option String
  sessionTtlSecs : Nat

inductive StatusCode where
  | badRequest
  | unauthorized
  | internalServerError
  deriving DecidableEq

structure ApiError where
  status : StatusCode
  message : String
  deriving DecidableEq

/-- The value an `i64` has after arithmetic that wraps. -/
def asI64 (n : Int) : Int := n.bmod (2 ^ 64)

def FitsI64 (n : Int) : Prop := -2 ^ 63 ≤ n ∧ n < 2 ^ 63

theorem asI64_of_fits {n : Int} (h : FitsI64 n) : asI64 n = n := by
  obtain ⟨hlo, hhi⟩ := h
  rw [asI64, Int.bmod_eq_of_le] <;> omega

/-! ### Headers and cookies -/

/-- The headers of a message in order, with names in lower case. -/
abbrev HeaderMap := List (String × Bytes)

/-- The first value of a name. -/
def HeaderMap.get (headers : HeaderMap) (name : String) : Option Bytes :=
  (headers.find? fun entry => entry.1 = name).map (·.2)

/-- `HeaderValue::to_str`: printable ASCII and the tab. -/
def toStr (value : Bytes) : Option (List Char) :=
  if value.all fun b => b = 9 || (32 ≤ b && b < 127) then some (ascii value) else none

/-- `HeaderValue::from_str`: no control character but the tab. -/
def headerFromStr (text : List Char) : Except ApiError Bytes :=
  if (encode text).all fun b => b = 9 || (32 ≤ b && b ≠ 127) then .ok (encode text)
  else .error ⟨.internalServerError, "failed to parse header value"⟩

def sessionCookieName : String := "rps_session"

/-- A cookie without `=` ends the search. -/
def findSessionCookie : List (List Char) → Option (List Char)
  | [] => none
  | cookie :: rest =>
    match splitOnce '=' (trim cookie) with
    | none => none
    | some (name, value) => if name = sessionCookieName.toList ∧ value ≠ [] then some value else findSessionCookie rest

def sessionToken (headers : HeaderMap) : Option String := do
  let value ← headers.get "cookie"
  let cookies ← toStr value
  let token ← findSessionCookie (cookies.splitOn ';')
  some (String.ofList token)

def sessionCookie (token : String) (ttlSecs : Nat) : Except ApiError Bytes :=
  headerFromStr (sessionCookieName.toList ++ "=".toList ++ token.toList ++ "; Path=/; Max-Age=".toList ++
    Nat.toDigits 10 ttlSecs ++ "; HttpOnly; SameSite=Lax".toList)

def expiredSessionCookie : Except ApiError Bytes :=
  headerFromStr (sessionCookieName.toList ++ "=; Path=/; Max-Age=0; HttpOnly; SameSite=Lax".toList)

/-- A random id, by its hexadecimal digits. -/
structure Uuid where
  digits : Vector (Fin 16) 32
  deriving DecidableEq

def hexDigits : List Char := "0123456789abcdef".toList

def hexDigit (d : Fin 16) : Char := hexDigits.getD d '0'

def Uuid.hyphenated (u : Uuid) : List Char :=
  let text := u.digits.toList.map hexDigit
  text.take 8 ++ '-' :: (text.drop 8).take 4 ++ '-' :: (text.drop 12).take 4 ++ '-' :: (text.drop 16).take 4 ++
    '-' :: text.drop 20

def Uuid.toString (u : Uuid) : String := String.ofList u.hyphenated

/-! ### Codes -/

/-- The secret without blanks, if anything is left of it. -/
def normalizedTotpSecret (auth : WebAuthConfig) : Option (List Char) :=
  (auth.totpSecret.map fun secret => (trim secret.toList).filter (· ≠ ' ')).filter (· ≠ [])

def invalidTotpSecret : ApiError := ⟨.badRequest, "invalid totp secret"⟩

def base32Value (byte : UInt8) : Option UInt8 :=
  if 65 ≤ byte ∧ byte ≤ 90 then some (byte - 65)
  else if 97 ≤ byte ∧ byte ≤ 122 then some (byte - 97)
  else if 50 ≤ byte ∧ byte ≤ 55 then some (byte - 50 + 26)
  else none

/-- The whole bytes among the low `bitCount` bits, and how many bits are left. Every
turn takes eight bits, so `bitCount` turns are enough. -/
def drainBits (bits : UInt32) : Nat → Nat → Nat × Bytes
  | 0, bitCount => (bitCount, [])
  | turns + 1, bitCount =>
    if 8 ≤ bitCount then
      let (left, out) := drainBits bits turns (bitCount - 8)
      (left, ((bits >>> UInt32.ofNat (bitCount - 8)) &&& 0xff).toUInt8 :: out)
    else (bitCount, [])

def decodeBase32Loop (bits : UInt32) (bitCount : Nat) (out : Bytes) : Bytes → Except ApiError Bytes
  | [] => .ok out
  | byte :: rest =>
    if byte = 61 then .ok out
    else
      match base32Value byte with
      | none => .error invalidTotpSecret
      | some value =>
        let bits := (bits <<< 5) ||| value.toUInt32
        let (left, whole) := drainBits bits (bitCount + 5) (bitCount + 5)
        decodeBase32Loop bits left (out ++ whole) rest

def decodeBase32 (input : List Char) : Except ApiError Bytes :=
  match decodeBase32Loop 0 0 [] (encode input) with
  | .error error => .error error
  | .ok out => if out = [] then .error invalidTotpSecret else .ok out

/-- HMAC-SHA1, of a key of any length and a message. -/
abbrev HmacSha1 := Bytes → Bytes → Vector UInt8 20

def totpDigits : Nat := 6
def totpStepSecs : Int := 30

/-- The code of the time step `step`, with leading zeros. -/
def totpAtStep (hmac : HmacSha1) (secret : Bytes) (step : Nat) : List Char :=
  let digest := (hmac secret (toBe 8 step)).toList
  let byte (i : Nat) : UInt32 := (digest.getD i 0).toUInt32
  let offset := (digest.getD 19 0 &&& 0x0f).toNat
  let value := ((byte offset &&& 0x7f) <<< 24) ||| (byte (offset + 1) <<< 16) ||| (byte (offset + 2) <<< 8) |||
    byte (offset + 3)
  let code := Nat.toDigits 10 (value.toNat % 10 ^ totpDigits)
  List.replicate (totpDigits - code.length) '0' ++ code

def isAsciiDigit (b : UInt8) : Bool := 48 ≤ b && b ≤ 57

/-- A code of the step before the clock's, of its own, or of the step after. -/
def verifyTotp (hmac : HmacSha1) (now : Int) (secret code : List Char) : Except ApiError Bool := do
  let secret ← decodeBase32 secret
  let code := trim code
  if (encode code).length ≠ totpDigits ∨ !(encode code).all isAsciiDigit then .ok false
  else
    let nowStep := now.tdiv totpStepSecs
    .ok ([nowStep - 1, nowStep, nowStep + 1].any fun step => totpAtStep hmac secret (step % 2 ^ 64).toNat = code)

/-! ### Handlers -/

structure WebSession where
  username : String
  expiresAt : Int
  deriving DecidableEq

/-- The sessions by token. -/
abbrev Sessions := Leases String WebSession

structure LoginRequest where
  username : String
  password : String
  otpCode : Option String

structure LoginResponse where
  authenticated : Bool
  requires2fa : Bool
  username : Option String
  securityKeyAvailable : Bool
  deriving DecidableEq

structure AuthStatusResponse where
  authenticated : Bool
  username : Option String
  twoFactorEnabled : Bool
  securityKeyAvailable : Bool
  deriving DecidableEq

/-- The code of the request, if it gives one. -/
def LoginRequest.code (request : LoginRequest) : Option (List Char) :=
  (request.otpCode.map fun code => trim code.toList).filter (· ≠ [])

/-- The second factor of a login: passed, asked for, or refused. -/
def secondFactor (hmac : HmacSha1) (auth : WebAuthConfig) (request : LoginRequest) (now : Int) : Except ApiError Bool :=
  match normalizedTotpSecret auth with
  | none => .ok true
  | some secret =>
    match request.code with
    | none => .ok false
    | some code =>
      match verifyTotp hmac now secret code with
      | .error error => .error error
      | .ok false => .error ⟨.unauthorized, "动态验证码错误"⟩
      | .ok true => .ok true

def WebAuthConfig.ttl (auth : WebAuthConfig) : Nat := max auth.sessionTtlSecs 60

/-- What a login does once it is let in. The session is there before the cookie is made. -/
def openSession (auth : WebAuthConfig) (token : String) (now : Int) (s : Sessions) :
    Except ApiError (HeaderMap × LoginResponse) × Sessions :=
  let s := s.grant token ⟨auth.username, asI64 (now + asI64 auth.ttl)⟩
  match sessionCookie token auth.ttl with
  | .error error => (.error error, s)
  | .ok cookie => (.ok ([("set-cookie", cookie)], ⟨true, false, some auth.username, false⟩), s)

/-- The clock is read twice: for the code, at `verifiedAt`, and for the session. -/
def login (hmac : HmacSha1) (auth : WebAuthConfig) (request : LoginRequest) (verifiedAt : Int) (token : Uuid)
    (now : Int) (s : Sessions) : Except ApiError (HeaderMap × LoginResponse) × Sessions :=
  if !auth.enabled then (.ok ([], ⟨true, false, some auth.username, false⟩), s)
  else if request.username ≠ auth.username ∨ request.password ≠ auth.password then
    (.error ⟨.unauthorized, "用户名或密码错误"⟩, s)
  else
    match secondFactor hmac auth request verifiedAt with
    | .error error => (.error error, s)
    | .ok false => (.ok ([], ⟨false, true, none, false⟩), s)
    | .ok true => openSession auth token.toString now s

def twoFactorEnabled (auth : WebAuthConfig) : Bool := (normalizedTotpSecret auth).isSome

def logout (auth : WebAuthConfig) (headers : HeaderMap) (s : Sessions) :
    Except ApiError (HeaderMap × AuthStatusResponse) × Sessions :=
  let s := match sessionToken headers with
    | none => s
    | some token => s.revoke token
  match expiredSessionCookie with
  | .error error => (.error error, s)
  | .ok cookie => (.ok ([("set-cookie", cookie)], ⟨false, none, twoFactorEnabled auth, false⟩), s)

/-- The removal of a session that is over follows as a step of its own. -/
def authenticatedUsername (headers : HeaderMap) (now : Int) (s : Sessions) : Option String × Sessions :=
  match sessionToken headers with
  | none => (none, s)
  | some token => ((s.find WebSession.expiresAt token now).map (·.username), s.look WebSession.expiresAt token now)

def requireAuth (auth : WebAuthConfig) (headers : HeaderMap) (now : Int) (s : Sessions) :
    Except ApiError Unit × Sessions :=
  if !auth.enabled then (.ok (), s)
  else
    match authenticatedUsername headers now s with
    | (some _, s) => (.ok (), s)
    | (none, s) => (.error ⟨.unauthorized, "unauthorized"⟩, s)

def authStatus (auth : WebAuthConfig) (headers : HeaderMap) (now : Int) (s : Sessions) :
    AuthStatusResponse × Sessions :=
  let (username, s) := authenticatedUsername headers now s
  (⟨username.isSome || !auth.enabled, username, twoFactorEnabled auth, false⟩, s)

/-! ### Cookies of a session -/

/-- Printable ASCII. -/
def Printable (c : Char) : Prop := 32 ≤ c.toNat ∧ c.toNat < 127

instance (c : Char) : Decidable (Printable c) := inferInstanceAs (Decidable (_ ∧ _))

theorem printable_of_all {text : List Char} (h : text.all (fun c => Printable c) = true) :
    ∀ c ∈ text, Printable c := by
  simpa using h

/-- A printable character is one byte, and a header may hold it. -/
theorem all_encode_of_printable {c : Char} (h : Printable c) :
    (String.utf8EncodeChar c).all (fun b => b = 9 || (32 ≤ b && b ≠ 127)) = true := by
  obtain ⟨hlo, hhi⟩ := h
  have hval : c.val.toNat = c.toNat := rfl
  unfold String.utf8EncodeChar
  simp only [hval]
  rw [if_pos (by omega)]
  simp [UInt8.le_iff_toNat_le, ← UInt8.toNat_inj]
  omega

theorem headerFromStr_of_printable {text : List Char} (h : ∀ c ∈ text, Printable c) :
    headerFromStr text = .ok (encode text) := by
  rw [headerFromStr, if_pos]
  rw [encode, List.all_flatMap, List.all_eq_true]
  intro c hc
  exact all_encode_of_printable (h c hc)

theorem printable_hyphenated (u : Uuid) : ∀ c ∈ u.hyphenated, Printable c := by
  have hdigit : ∀ d : Fin 16, Printable (hexDigit d) := by decide
  have htext : ∀ c ∈ u.digits.toList.map hexDigit, Printable c := by
    intro c hc
    obtain ⟨d, -, rfl⟩ := List.mem_map.mp hc
    exact hdigit d
  have hhyphen : Printable '-' := by decide
  intro c hc
  simp only [Uuid.hyphenated, List.mem_append, List.mem_cons, or_assoc] at hc
  rcases hc with h | rfl | h | rfl | h | rfl | h | rfl | h
  · exact htext c (List.mem_of_mem_take h)
  · exact hhyphen
  · exact htext c (List.mem_of_mem_drop (List.mem_of_mem_take h))
  · exact hhyphen
  · exact htext c (List.mem_of_mem_drop (List.mem_of_mem_take h))
  · exact hhyphen
  · exact htext c (List.mem_of_mem_drop (List.mem_of_mem_take h))
  · exact hhyphen
  · exact htext c (List.mem_of_mem_drop h)

theorem printable_digits (n : Nat) : ∀ c ∈ Nat.toDigits 10 n, Printable c := by
  intro c hc
  have hdigit := Nat.isDigit_of_mem_toDigits (by omega) (by omega) hc
  simp only [Char.isDigit, Bool.and_eq_true, decide_eq_true_eq, UInt32.le_iff_toNat_le] at hdigit
  unfold Printable Char.toNat
  have h48 : UInt32.toNat '0'.val = 48 := rfl
  have h57 : UInt32.toNat '9'.val = 57 := rfl
  omega

/-- The cookie of a token is always a header value. -/
theorem sessionCookie_isOk (u : Uuid) (ttlSecs : Nat) : ∃ cookie, sessionCookie u.toString ttlSecs = .ok cookie := by
  refine ⟨_, headerFromStr_of_printable ?_⟩
  have hname : ∀ c ∈ sessionCookieName.toList ++ "=".toList, Printable c := printable_of_all rfl
  have hpath : ∀ c ∈ "; Path=/; Max-Age=".toList, Printable c := printable_of_all rfl
  have hflags : ∀ c ∈ "; HttpOnly; SameSite=Lax".toList, Printable c := printable_of_all rfl
  intro c hc
  simp only [List.mem_append, Uuid.toString, String.toList_ofList] at hc
  rcases hc with (((hc | hc) | hc) | hc) | hc
  · exact hname c (List.mem_append.mpr hc)
  · exact printable_hyphenated u c hc
  · exact hpath c hc
  · exact printable_digits ttlSecs c hc
  · exact hflags c hc

/-! ### Who is let in by a login -/

/-- The login names the user and gives a code if there is a secret. -/
structure Admitted (hmac : HmacSha1) (auth : WebAuthConfig) (request : LoginRequest) (verifiedAt : Int) : Prop where
  username : request.username = auth.username
  password : request.password = auth.password
  code : ∀ secret, normalizedTotpSecret auth = some secret →
    ∃ code, request.code = some code ∧ verifyTotp hmac verifiedAt secret code = .ok true

theorem secondFactor_eq_true {hmac : HmacSha1} {auth : WebAuthConfig} {request : LoginRequest} {verifiedAt : Int} :
    secondFactor hmac auth request verifiedAt = .ok true ↔ ∀ secret, normalizedTotpSecret auth = some secret →
      ∃ code, request.code = some code ∧ verifyTotp hmac verifiedAt secret code = .ok true := by
  unfold secondFactor
  cases normalizedTotpSecret auth with
  | none => simp
  | some secret =>
    cases request.code with
    | none => simp
    | some code =>
      cases hverify : verifyTotp hmac verifiedAt secret code with
      | error error => simp [hverify]
      | ok passed => cases passed <;> simp [hverify]

instance (hmac : HmacSha1) (auth : WebAuthConfig) (request : LoginRequest) (verifiedAt : Int) :
    Decidable (Admitted hmac auth request verifiedAt) :=
  decidable_of_iff (request.username = auth.username ∧ request.password = auth.password ∧
      secondFactor hmac auth request verifiedAt = .ok true)
    ⟨fun h => ⟨h.1, h.2.1, secondFactor_eq_true.mp h.2.2⟩,
      fun h => ⟨h.username, h.password, secondFactor_eq_true.mpr h.code⟩⟩

section
variable (hmac : HmacSha1) (auth : WebAuthConfig)

/-- The token that `response` gives out. -/
def Returns (response : Except ApiError (HeaderMap × LoginResponse)) (token : String) : Prop :=
  ∃ cookie, sessionCookie token auth.ttl = .ok cookie ∧
    response = .ok ([("set-cookie", cookie)], ⟨true, false, some auth.username, false⟩)

/-- The session a login at `now` opens. -/
def session (now : Int) : WebSession := ⟨auth.username, asI64 (now + asI64 auth.ttl)⟩

variable {hmac auth} {request : LoginRequest} {verifiedAt now : Int} {token : Uuid} (s : Sessions)

theorem session_expiresAt (h : FitsI64 (now + auth.ttl)) : (session auth now).expiresAt = now + auth.ttl := by
  have hadd : asI64 (now + asI64 auth.ttl) = asI64 (now + auth.ttl) := Int.add_bmod_bmod
  exact hadd.trans (asI64_of_fits h)

theorem login_of_admitted (henabled : auth.enabled = true) (h : Admitted hmac auth request verifiedAt) :
    Returns auth (login hmac auth request verifiedAt token now s).1 token.toString ∧
      (login hmac auth request verifiedAt token now s).2 = s.grant token.toString (session auth now) := by
  have hsecond := secondFactor_eq_true.mpr h.code
  obtain ⟨cookie, hcookie⟩ := sessionCookie_isOk token auth.ttl
  have hlogin : login hmac auth request verifiedAt token now s =
      (.ok ([("set-cookie", cookie)], ⟨true, false, some auth.username, false⟩),
        s.grant token.toString (session auth now)) := by
    simp [login, henabled, h.username, h.password, hsecond, openSession, hcookie, session]
  rw [hlogin]
  exact ⟨⟨cookie, hcookie, rfl⟩, rfl⟩

theorem login_of_not_admitted (henabled : auth.enabled = true) (h : ¬ Admitted hmac auth request verifiedAt) :
    (login hmac auth request verifiedAt token now s).2 = s := by
  unfold login
  rw [if_neg (by simp [henabled])]
  split
  · rfl
  · rename_i hnamed
    rw [not_or, not_not, not_not] at hnamed
    split
    · rfl
    · rfl
    · rename_i hsecond
      exact absurd ⟨hnamed.1, hnamed.2, secondFactor_eq_true.mp hsecond⟩ h

end

/-! ### Runs -/

/-- What happens to the sessions. A handler that guards itself by `require_auth` is a
`guarded` request; a `drop` finishes a request that found its session over. -/
inductive Action where
  | login (request : LoginRequest) (verifiedAt : Int) (token : Uuid) (now : Int)
  | logout (headers : HeaderMap)
  | guarded (headers : HeaderMap) (now : Int)
  | authStatus (headers : HeaderMap) (now : Int)
  | drop (i : Nat)

section
variable (hmac : HmacSha1) (auth : WebAuthConfig)

def step (s : Sessions) : Action → Sessions
  | .login request verifiedAt token now => (login hmac auth request verifiedAt token now s).2
  | .logout headers => (logout auth headers s).2
  | .guarded headers now => (requireAuth auth headers now s).2
  | .authStatus headers now => (authStatus auth headers now s).2
  | .drop i => s.drop i

def run (past : List Action) : Sessions := past.foldl (step hmac auth) Leases.empty

/-- What an action is to the leases of the sessions, if anything. -/
def event : Action → Option (Leases.Event String WebSession Int)
  | .login request verifiedAt token now =>
    if Admitted hmac auth request verifiedAt then some (.grant token.toString (session auth now)) else none
  | .logout headers => (sessionToken headers).map .revoke
  | .guarded headers now => (sessionToken headers).map (.look · now)
  | .authStatus headers now => (sessionToken headers).map (.look · now)
  | .drop i => some (.drop i)

variable {hmac auth}

theorem authenticatedUsername_snd (headers : HeaderMap) (now : Int) (s : Sessions) :
    (authenticatedUsername headers now s).2 =
      (((sessionToken headers).map (.look · now)).toList : List (Leases.Event String WebSession Int)).foldl
        (Leases.step WebSession.expiresAt) s := by
  unfold authenticatedUsername
  cases sessionToken headers <;> rfl

theorem requireAuth_snd (henabled : auth.enabled = true) (headers : HeaderMap) (now : Int) (s : Sessions) :
    (requireAuth auth headers now s).2 = (authenticatedUsername headers now s).2 := by
  unfold requireAuth
  rw [if_neg (by simp [henabled])]
  split
  · rename_i h
    rw [h]
  · rename_i h
    rw [h]

/-- The session is gone whatever becomes of the cookie. -/
theorem logout_snd (headers : HeaderMap) (s : Sessions) :
    (logout auth headers s).2 =
      (((sessionToken headers).map .revoke).toList : List (Leases.Event String WebSession Int)).foldl
        (Leases.step WebSession.expiresAt) s := by
  delta logout
  generalize expiredSessionCookie = cookie
  cases cookie <;> cases sessionToken headers <;> rfl

/-- The handlers treat the sessions as leases. -/
theorem step_eq (henabled : auth.enabled = true) (s : Sessions) (a : Action) :
    step hmac auth s a = (event hmac auth a).toList.foldl (Leases.step WebSession.expiresAt) s := by
  cases a with
  | login request verifiedAt token now =>
    by_cases h : Admitted hmac auth request verifiedAt
    · simp only [step, event, if_pos h]
      exact (login_of_admitted s henabled h).2
    · simp only [step, event, if_neg h]
      exact login_of_not_admitted s henabled h
  | logout headers => exact logout_snd headers s
  | guarded headers now =>
    rw [step, requireAuth_snd henabled]
    exact authenticatedUsername_snd headers now s
  | authStatus headers now => exact authenticatedUsername_snd headers now s
  | drop i => rfl

theorem run_eq (henabled : auth.enabled = true) (past : List Action) :
    run hmac auth past = Leases.run WebSession.expiresAt (past.filterMap (event hmac auth)) := by
  induction past using List.reverseRecOn with
  | nil => rfl
  | append_singleton past a ih =>
    have hstep : run hmac auth (past ++ [a]) = step hmac auth (run hmac auth past) a := by simp [run]
    rw [hstep, step_eq henabled, ih, List.filterMap_append]
    cases h : event hmac auth a <;> simp [Leases.run, h]

variable (hmac auth)

/-- The token a login gives out. -/
def Action.issued : Action → Option String
  | .login request verifiedAt token _ => if Admitted hmac auth request verifiedAt then some token.toString else none
  | _ => none

/-- The clock a request sees. -/
def Action.clock : Action → Option Int
  | .guarded _ now => some now
  | .authStatus _ now => some now
  | _ => none

/-- Tokens are not given out twice, the end of a session is an `i64`, and the clock
does not go back from one request to the next, the one at `now` last. -/
structure Legal (past : List Action) (now : Int) : Prop where
  tokens : (past.filterMap (Action.issued hmac auth)).Nodup
  fits : ∀ request verifiedAt token time, Action.login request verifiedAt token time ∈ past → FitsI64 (time + auth.ttl)
  clocks : (past.filterMap Action.clock ++ [now]).Pairwise (· ≤ ·)

/-- A login gave the token out, no logout carried it since, and its time is not over. -/
def Live (past : List Action) (token : String) (now : Int) : Prop :=
  ∃ before request verifiedAt uuid time after,
    past = before ++ .login request verifiedAt uuid time :: after ∧
    Admitted hmac auth request verifiedAt ∧
    Returns auth (login hmac auth request verifiedAt uuid time (run hmac auth before)).1 token ∧
    token = uuid.toString ∧
    (∀ headers, .logout headers ∈ after → sessionToken headers ≠ some token) ∧
    now ≤ time + auth.ttl

variable {hmac auth}

theorem keys_events (past : List Action) :
    Leases.keys (past.filterMap (event hmac auth)) = past.filterMap (Action.issued hmac auth) := by
  rw [Leases.keys, List.filterMap_filterMap]
  congr 1
  funext a
  cases a with
  | login request verifiedAt token now =>
    simp only [event, Action.issued]
    split <;> rfl
  | logout headers => cases h : sessionToken headers <;> simp [event, Action.issued, Leases.Event.granted, h]
  | guarded headers now => cases h : sessionToken headers <;> simp [event, Action.issued, Leases.Event.granted, h]
  | authStatus headers now => cases h : sessionToken headers <;> simp [event, Action.issued, Leases.Event.granted, h]
  | drop i => rfl

/-- A request without a token does not look at the clock. -/
theorem clock_event {a : Action} {now : Int} (h : (event hmac auth a).bind Leases.Event.clock = some now) :
    a.clock = some now := by
  cases a with
  | login request verifiedAt token time =>
    simp only [event] at h
    split at h <;> simp [Leases.Event.clock] at h
  | logout headers => cases htoken : sessionToken headers <;> simp [event, Leases.Event.clock, htoken] at h
  | guarded headers time =>
    cases htoken : sessionToken headers with
    | none => simp [event, htoken] at h
    | some token => simpa [event, Leases.Event.clock, Action.clock, htoken] using h
  | authStatus headers time =>
    cases htoken : sessionToken headers with
    | none => simp [event, htoken] at h
    | some token => simpa [event, Leases.Event.clock, Action.clock, htoken] using h
  | drop i => simp [event, Leases.Event.clock] at h

theorem clocks_events (past : List Action) :
    (Leases.clocks (past.filterMap (event hmac auth))).Sublist (past.filterMap Action.clock) := by
  rw [Leases.clocks, List.filterMap_filterMap]
  induction past with
  | nil => exact List.Sublist.refl _
  | cons a past ih =>
    rw [List.filterMap_cons]
    split
    · exact ih.trans ((List.sublist_cons_self a past).filterMap _)
    · rename_i now hnow
      rw [List.filterMap_cons_some (clock_event hnow)]
      exact ih.cons_cons now

theorem requireAuth_fst (henabled : auth.enabled = true) (headers : HeaderMap) (now : Int) (s : Sessions) :
    (requireAuth auth headers now s).1 = .ok () ↔
      ∃ token session, sessionToken headers = some token ∧ s.find WebSession.expiresAt token now = some session := by
  unfold requireAuth authenticatedUsername
  rw [if_neg (by simp [henabled])]
  cases sessionToken headers with
  | none => simp
  | some token => cases h : s.find WebSession.expiresAt token now <;> simp [h]

theorem event_eq_grant {a : Action} {token : String} {lease : WebSession}
    (h : event hmac auth a = some (.grant token lease)) : ∃ request verifiedAt uuid time,
      a = .login request verifiedAt uuid time ∧ Admitted hmac auth request verifiedAt ∧ token = uuid.toString ∧
        lease = session auth time := by
  cases a with
  | login request verifiedAt uuid time =>
    simp only [event] at h
    split at h
    · rename_i hadmitted
      cases h
      exact ⟨request, verifiedAt, uuid, time, rfl, hadmitted, rfl, rfl⟩
    · cases h
  | logout headers => simp [event] at h
  | guarded headers now => simp [event] at h
  | authStatus headers now => simp [event] at h
  | drop i => simp [event] at h

theorem revoke_mem_events {past : List Action} {token : String} :
    .revoke token ∈ past.filterMap (event hmac auth) ↔
      ∃ headers, .logout headers ∈ past ∧ sessionToken headers = some token := by
  rw [List.mem_filterMap]
  constructor
  · rintro ⟨a, ha, hevent⟩
    cases a with
    | login request verifiedAt uuid time =>
      simp only [event] at hevent
      split at hevent <;> simp at hevent
    | logout headers => exact ⟨headers, ha, by simpa [event] using hevent⟩
    | guarded headers now => simp [event] at hevent
    | authStatus headers now => simp [event] at hevent
    | drop i => simp [event] at hevent
  · rintro ⟨headers, hmem, htoken⟩
    exact ⟨_, hmem, by simp [event, htoken]⟩

/-- The logins of the run are the grants of its leases. -/
theorem granted_iff_live (henabled : auth.enabled = true) {past : List Action} {now : Int}
    (hlegal : Legal hmac auth past now) (token : String) :
    (∃ session, Leases.Granted (past.filterMap (event hmac auth)) token session ∧ now ≤ session.expiresAt) ↔
      Live hmac auth past token now := by
  constructor
  · rintro ⟨lease, ⟨before, after, heq, hafter⟩, hnow⟩
    obtain ⟨before', rest, rfl, -, hrest⟩ := List.filterMap_eq_append_iff.mp heq
    obtain ⟨skipped, a, after', rfl, -, ha, rfl⟩ := List.filterMap_eq_cons_iff.mp hrest
    obtain ⟨request, verifiedAt, uuid, time, rfl, hadmitted, rfl, rfl⟩ := event_eq_grant ha
    rw [session_expiresAt (hlegal.fits request verifiedAt uuid time (by simp))] at hnow
    refine ⟨before' ++ skipped, request, verifiedAt, uuid, time, after', by simp, hadmitted,
      (login_of_admitted _ henabled hadmitted).1, rfl, fun headers hlogout htoken => ?_, hnow⟩
    exact hafter (revoke_mem_events.mpr ⟨headers, hlogout, htoken⟩)
  · rintro ⟨before, request, verifiedAt, uuid, time, after, rfl, hadmitted, -, rfl, hafter, hnow⟩
    refine ⟨session auth time, ⟨before.filterMap (event hmac auth), after.filterMap (event hmac auth), ?_, ?_⟩, ?_⟩
    · have hevent : event hmac auth (.login request verifiedAt uuid time) =
          some (.grant uuid.toString (session auth time)) := by
        simp [event, hadmitted]
      rw [List.filterMap_append, List.filterMap_cons_some hevent]
    · intro hrevoke
      obtain ⟨headers, hlogout, htoken⟩ := revoke_mem_events.mp hrevoke
      exact hafter headers hlogout htoken
    · rw [session_expiresAt (hlegal.fits request verifiedAt uuid time (by simp))]
      exact hnow

/-- **A request is let in exactly while its token is one of a login, was not logged out
and is not over**, and a drop of a session that is over removes no other session. -/
theorem requireAuth_iff (henabled : auth.enabled = true) {past : List Action} {now : Int}
    (hlegal : Legal hmac auth past now) :
    (∀ headers, (requireAuth auth headers now (run hmac auth past)).1 = .ok () ↔
      ∃ token, sessionToken headers = some token ∧ Live hmac auth past token now) ∧
    ∀ i token, (run hmac auth past).late[i]? = some token →
      (∀ lease, (run hmac auth past).held.lookup token = some lease → lease.expiresAt < now) ∧
      ∀ other, other ≠ token →
        ((run hmac auth past).drop i).held.lookup other = (run hmac auth past).held.lookup other := by
  have hkeys : (Leases.keys (past.filterMap (event hmac auth))).Nodup := by
    rw [keys_events]
    exact hlegal.tokens
  have hclocks := hlegal.clocks.sublist ((@clocks_events hmac auth past).append_right [now])
  constructor
  · intro headers
    rw [requireAuth_fst henabled, run_eq henabled]
    refine exists_congr fun token => ?_
    rw [← granted_iff_live henabled hlegal token]
    simp only [Leases.find_eq_some WebSession.expiresAt hkeys hclocks, exists_and_left]
  · intro i token hi
    refine ⟨fun lease hlookup => ?_, fun other hother => ?_⟩
    · rw [run_eq henabled] at hi hlookup
      exact Leases.drop_over WebSession.expiresAt hkeys hclocks hi hlookup
    · rw [Leases.lookup_drop, if_neg]
      rw [hi]
      exact fun h => hother (Option.some.inj h).symm


/-- HMAC-SHA1 of the first three counters under the key `12345678901234567890`. -/
def shortHmac : HmacSha1 := fun _ counter =>
  if counter = toBe 8 0 then
    #v[0xcc, 0x93, 0xcf, 0x18, 0x50, 0x8d, 0x94, 0x93, 0x4c, 0x64, 0xb6, 0x5d, 0x8b, 0xa7, 0x66, 0x7f, 0xb7, 0xcd, 0xe4, 0xb0]
  else if counter = toBe 8 1 then
    #v[0x75, 0xa4, 0x8a, 0x19, 0xd4, 0xcb, 0xe1, 0x00, 0x64, 0x4e, 0x8a, 0xc1, 0x39, 0x7e, 0xea, 0x74, 0x7a, 0x2d, 0x33, 0xab]
  else
    #v[0x0b, 0xac, 0xb7, 0xfa, 0x08, 0x2f, 0xef, 0x30, 0x78, 0x22, 0x11, 0x93, 0x8b, 0xc1, 0xc5, 0xe7, 0x04, 0x16, 0xff, 0x44]

def console : WebAuthConfig := ⟨true, "admin", "admin", some "GEZDGNBVGY3TQOJQ GEZDGNBVGY3TQOJQ", 3600⟩

def firstToken : Uuid := ⟨Vector.replicate 32 1⟩

def cookies : HeaderMap := [("cookie", encode ("theme=dark; rps_session=".toList ++ firstToken.hyphenated))]

/-- A login without its code, the login with it, and a request. -/
def consoleRun : List Action :=
  [.login ⟨"admin", "admin", none⟩ 59 firstToken 59, .login ⟨"admin", "admin", some "287082"⟩ 59 firstToken 59,
    .guarded cookies 100]

theorem legal_consoleRun : Legal shortHmac console consoleRun 3659 where
  tokens := by decide +kernel
  fits := by
    intro request verifiedAt token time hmem
    obtain rfl : time = 59 := by
      simp only [consoleRun, List.mem_cons, Action.login.injEq, reduceCtorEq, List.not_mem_nil, or_false] at hmem
      rcases hmem with h | h
      · exact h.2.2.2
      · exact h.2.2.2
    exact ⟨by decide, by decide⟩
  clocks := by decide

/-- In the last second of the session the request is let in. -/
theorem requireAuth_iff_consoleRun :
    (requireAuth console cookies 3659 (run shortHmac console consoleRun)).1 = .ok () ∧
      ∃ token, sessionToken cookies = some token ∧ Live shortHmac console consoleRun token 3659 := by
  have hok : (requireAuth console cookies 3659 (run shortHmac console consoleRun)).1 = .ok () := by decide +kernel
  exact ⟨hok, ((requireAuth_iff rfl legal_consoleRun).1 cookies).mp hok⟩

end

end Rps.Controller.WebSessions
