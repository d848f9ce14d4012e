import Rps.Base.Bytes
import Rps.Controller.Db

/-! Who is let in at the two proxy ports.

Both ports ask the database whether any enabled account of their kind exists. If
none does they are open: the SOCKS5 port takes a client that offers no
authentication, the HTTP port takes every request. Otherwise the client must name
an enabled account whose policy allows it. The open mode is what the console
announces for a port without accounts, so taking the last account away opens the
port; `takeAway_rejects` says that nothing else does. -/
namespace Rps.Controller
open Base

structure StreamRoute where
  tunnelId : String
  clientId : String
  deriving DecidableEq

/-- What the two ports read: the accounts and the policies. -/
structure AuthState where
  db : ProxyAccounts
  policy : PolicyEnforcer

/-- The configured client of the SOCKS5 port, the configured route of the HTTP
port, and the decoder of the `base64` crate. -/
structure AuthEnv where
  clientId : String
  fallback : StreamRoute
  base64Decode : String → Option Bytes

def fromUtf8 (bytes : Bytes) : Except String String :=
  match String.fromUTF8? ⟨bytes.toArray⟩ with
  | some s => .ok s
  | none => .error "invalid utf-8 sequence"

/-! ### SOCKS5 -/

def socksVersion : UInt8 := 5
def methodNoAuth : UInt8 := 0
def methodUsernamePassword : UInt8 := 2

structure SocksAuthContext where
  clientId : String
  accountId : Option String
  deriving DecidableEq

def readU8 : Reader UInt8 := do
  let bytes ← Reader.readExact 1
  pure (bytes.headD 0)

def readUsernamePassword : Reader (String × String) := do
  let version ← readU8
  if version ≠ 1 then Reader.fail s!"unsupported socks5 auth version {version}"
  else do
    let usernameLen ← readU8
    let username ← Reader.readExact usernameLen.toNat
    let passwordLen ← readU8
    let password ← Reader.readExact passwordLen.toNat
    let username ← Reader.ofExcept (fromUtf8 username)
    let password ← Reader.ofExcept (fromUtf8 password)
    pure (username, password)

/-- What the SOCKS5 port answers, and the policies after the check. -/
structure SocksReply where
  written : Bytes
  result : Except String SocksAuthContext
  policy : PolicyEnforcer

/-- The exchange with a client that offered `methods` and sends `input` after. -/
def authenticate (env : AuthEnv) (now : Int) (s : AuthState) (methods input : Bytes) : SocksReply :=
  if s.db.hasEnabledProxyAccounts .socks5 then
    if !methods.contains methodUsernamePassword then
      ⟨[socksVersion, 0xff], .error "socks5 username/password method is not offered", s.policy⟩
    else
      let hello := [socksVersion, methodUsernamePassword]
      match readUsernamePassword input with
      | .more => ⟨hello, .error "early eof", s.policy⟩
      | .invalid error => ⟨hello, .error error, s.policy⟩
      | .done (username, password) _ =>
        match s.db.findEnabledProxyAccount .socks5 username password with
        | none => ⟨hello ++ [1, 1], .error "socks5 username/password authentication failed", s.policy⟩
        | some account =>
          match s.policy.allowed now (proxyAccountKey account.id) with
          | (false, policy) => ⟨hello ++ [1, 1], .error "socks5 account disabled by policy", policy⟩
          | (true, policy) => ⟨hello ++ [1, 0], .ok ⟨account.clientId, some account.id⟩, policy⟩
  else if !methods.contains methodNoAuth then
    ⟨[socksVersion, 0xff], .error "socks5 no-auth method is not offered", s.policy⟩
  else ⟨[socksVersion, methodNoAuth], .ok ⟨env.clientId, none⟩, s.policy⟩

/-! ### HTTP -/

/-- The `White_Space` characters, which `str::trim` removes. -/
def isWhitespace (c : Char) : Bool :=
  let n := c.toNat
  (0x9 ≤ n && n ≤ 0xd) || n = 0x20 || n = 0x85 || n = 0xa0 || n = 0x1680 || (0x2000 ≤ n && n ≤ 0x200a) ||
    n = 0x2028 || n = 0x2029 || n = 0x202f || n = 0x205f || n = 0x3000

def trim (s : List Char) : List Char :=
  ((s.dropWhile isWhitespace).reverse.dropWhile isWhitespace).reverse

theorem dropWhile_of_head {s : List Char} (h : ∀ c ∈ s.head?, isWhitespace c = false) :
    s.dropWhile isWhitespace = s := by
  cases s with
  | nil => rfl
  | cons c s => simp [h c rfl]

theorem trim_eq_self {s : List Char} (hfirst : ∀ c ∈ s.head?, isWhitespace c = false)
    (hlast : ∀ c ∈ s.getLast?, isWhitespace c = false) : trim s = s := by
  rw [trim, dropWhile_of_head hfirst, dropWhile_of_head (by rwa [List.head?_reverse]), List.reverse_reverse]

theorem trim_blank {leading text trailing : List Char} (hblank : ∀ c ∈ leading ++ trailing, isWhitespace c = true)
    (hfirst : ∀ c ∈ text.head?, isWhitespace c = false) (hlast : ∀ c ∈ text.getLast?, isWhitespace c = false) :
    trim (leading ++ text ++ trailing) = text := by
  have hlead : ∀ c ∈ leading, isWhitespace c = true := fun c hc => hblank c (List.mem_append_left _ hc)
  have htrail : ∀ c ∈ trailing.reverse, isWhitespace c = true := fun c hc =>
    hblank c (List.mem_append_right _ (List.mem_reverse.mp hc))
  rw [trim, List.append_assoc, List.dropWhile_append_of_pos hlead]
  cases text with
  | nil =>
    have hnil : (trailing ++ []).dropWhile isWhitespace = [] :=
      List.dropWhile_append_of_pos fun c hc => htrail c (List.mem_reverse.mpr hc)
    rw [List.nil_append, ← List.append_nil trailing, hnil]
    rfl
  | cons c text =>
    have hstart : (c :: text ++ trailing).dropWhile isWhitespace = c :: text ++ trailing :=
      dropWhile_of_head (by simpa using hfirst)
    rw [hstart, List.reverse_append, List.dropWhile_append_of_pos htrail,
      dropWhile_of_head (by rwa [List.head?_reverse]), List.reverse_reverse]

/-- What is trimmed begins and ends with something else than white space. -/
theorem trim_ends (s : List Char) :
    (∀ c ∈ (trim s).head?, isWhitespace c = false) ∧ ∀ c ∈ (trim s).getLast?, isWhitespace c = false := by
  have hhead : ∀ t : List Char, ∀ c ∈ (t.dropWhile isWhitespace).head?, isWhitespace c = false := by
    intro t c hc
    have := List.head?_dropWhile_not isWhitespace t
    rw [Option.mem_def.mp hc] at this
    exact this
  have hsuffix : (trim s) <+: s.dropWhile isWhitespace := by
    have := List.dropWhile_suffix (l := (s.dropWhile isWhitespace).reverse) isWhitespace
    rw [← List.reverse_prefix, List.reverse_reverse] at this
    exact this
  constructor
  · intro c hc
    obtain ⟨rest, hrest⟩ := hsuffix
    refine hhead s c ?_
    rw [← hrest, List.head?_append, Option.mem_def.mp hc]
    rfl
  · intro c hc
    rw [trim, List.getLast?_reverse] at hc
    exact hhead _ c hc

/-- `str::lines`: the line being read is kept reversed, and a carriage return is
dropped only before the line feed that ends the line. -/
def lines (line : List Char) : List Char → List (List Char)
  | [] => if line = [] then [] else [line.reverse]
  | c :: rest =>
    if c = '\n' then (if line.head? = some '\r' then line.tail else line).reverse :: lines [] rest
    else lines (c :: line) rest

/-- `str::split_once`. -/
def splitOnce (c : Char) (s : List Char) : Option (List Char × List Char) :=
  match s.span (· ≠ c) with
  | (_, []) => none
  | (before, _ :: after) => some (before, after)

def eqIgnoreAsciiCase (a b : List Char) : Bool := a.map Char.toLower = b.map Char.toLower

/-- The credentials in the value of a `Proxy-Authorization` header. -/
def basicCredentials (env : AuthEnv) (value : List Char) : Option (String × String) := do
  let encoded ← stripPrefix "Basic " (String.ofList (trim value))
  let decoded ← env.base64Decode encoded
  let decoded ← String.fromUTF8? ⟨decoded.toArray⟩
  let (username, password) ← splitOnce ':' decoded.toList
  some (String.ofList username, String.ofList password)

/-- The first `Proxy-Authorization` line decides, also when it is malformed. -/
def proxyAuthLine (env : AuthEnv) : List (List Char) → Option (String × String)
  | [] => none
  | line :: rest =>
    match splitOnce ':' line with
    | none => proxyAuthLine env rest
    | some (name, value) =>
      if eqIgnoreAsciiCase name "Proxy-Authorization".toList then basicCredentials env value
      else proxyAuthLine env rest

def parseBasicProxyAuth (env : AuthEnv) (header : String) : Option (String × String) :=
  proxyAuthLine env (lines [] header.toList)

structure HttpProxyAuth where
  route : StreamRoute
  accountId : Option String
  deriving DecidableEq

def authenticatedRoute (env : AuthEnv) (now : Int) (s : AuthState) (header : String) :
    Option HttpProxyAuth × PolicyEnforcer :=
  if !s.db.hasEnabledProxyAccounts .http then (some ⟨env.fallback, none⟩, s.policy)
  else
    match parseBasicProxyAuth env header with
    | none => (none, s.policy)
    | some (username, password) =>
      match s.db.findEnabledProxyAccount .http username password with
      | none => (none, s.policy)
      | some account =>
        match s.policy.allowed now (proxyAccountKey account.id) with
        | (false, policy) => (none, policy)
        | (true, policy) =>
          (some ⟨⟨"http-proxy:" ++ account.id, account.clientId⟩, some account.id⟩, policy)

/-! ### Attempts, and taking an account away -/

/-- A SOCKS5 client's methods and what it sends after, or an HTTP header block. -/
inductive Attempt where
  | socks5 (methods input : Bytes)
  | http (header : String)

def Attempt.kind : Attempt → ProxyKind
  | .socks5 _ _ => .socks5
  | .http _ => .http

/-- An attempt the open mode of its port takes. -/
def Attempt.open : Attempt → Bool
  | .socks5 methods _ => methods.contains methodNoAuth
  | .http _ => true

def accepts (env : AuthEnv) (now : Int) (s : AuthState) : Attempt → Bool
  | .socks5 methods input => (authenticate env now s methods input).result.isOk
  | .http header => (authenticatedRoute env now s header).1.isSome

/-- The ways an account is taken away: a policy revoke, an update that disables it,
a deletion. `finished` tells whether the handler has removed the policy too, which
it does after the row and only if the row was there. -/
inductive TakeAway where
  | disable (reason : RevokeReason)
  | update (input : UpdateProxyAccount) (finished : Bool)
  | delete (finished : Bool)

def AuthState.removePolicy (s : AuthState) (id : String) (finished : Bool) : AuthState :=
  if finished then {s with policy := s.policy.remove (proxyAccountKey id)} else s

def takeAway (op : TakeAway) (id : String) (s : AuthState) : AuthState :=
  match op with
  | .disable reason => {s with db := s.db.disableProxyAccount id reason.asStr}
  | .update input finished =>
    match s.db.updateProxyAccount id {input with enabled := false} with
    | .ok (some (db, _)) => AuthState.removePolicy {s with db := db} id finished
    | _ => s
  | .delete finished =>
    match s.db.deleteProxyAccount id with
    | (db, true) => AuthState.removePolicy {s with db := db} id finished
    | (_, false) => s

/-! ### What taking an account away can do -/

/-- A row that is enabled after `f` has disabled the rows of `id` was there before,
under another id. -/
theorem ProxyAccounts.mem_of_setRows {f : DbProxyAccount → DbProxyAccount} (hf : ∀ a, (f a).enabled = false)
    {id : String} {rows : List DbProxyAccount} {a : DbProxyAccount}
    (ha : a ∈ ProxyAccounts.setRows f id rows) (hen : a.enabled = true) : a ∈ rows ∧ a.id ≠ id := by
  obtain ⟨b, hb, rfl⟩ := List.mem_map.mp ha
  by_cases hid : b.id = id
  · rw [if_pos hid, hf] at hen
    cases hen
  · rw [if_neg hid]
    exact ⟨hb, hid⟩

theorem removePolicy_db (s : AuthState) (id : String) (finished : Bool) :
    (s.removePolicy id finished).db = s.db := by
  cases finished <;> rfl

theorem updateProxyAccount_rows {t t' : ProxyAccounts} {id : String} {input : UpdateProxyAccount}
    {a : DbProxyAccount} (h : t.updateProxyAccount id input = .ok (some (t', a))) :
    t'.rows = ProxyAccounts.setRows input.row id t.rows := by
  unfold ProxyAccounts.updateProxyAccount at h
  split at h
  · cases h
  · split at h
    · simp only [Except.ok.injEq, Option.some.injEq, Prod.mk.injEq] at h
      rw [← h.1]
    · cases h

/-- Either nothing is done, or the accounts that are enabled afterwards are others
than the one taken away and were there before. -/
theorem takeAway_cases (op : TakeAway) (id : String) (s : AuthState) :
    takeAway op id s = s ∨ ∃ db finished, takeAway op id s = AuthState.removePolicy {s with db := db} id finished ∧
      ∀ a ∈ db.rows, a.enabled = true → a ∈ s.db.rows ∧ a.id ≠ id := by
  cases op with
  | disable reason =>
    refine .inr ⟨_, false, rfl, fun a ha hen => ?_⟩
    exact ProxyAccounts.mem_of_setRows (fun _ => rfl) ha hen
  | update input finished =>
    cases hu : s.db.updateProxyAccount id {input with enabled := false} with
    | error e => exact .inl (by simp only [takeAway, hu])
    | ok r =>
      match r with
      | none => exact .inl (by simp only [takeAway, hu])
      | some (db, a) =>
        refine .inr ⟨db, finished, by simp only [takeAway, hu], fun a ha hen => ?_⟩
        rw [updateProxyAccount_rows hu] at ha
        exact ProxyAccounts.mem_of_setRows (fun _ => rfl) ha hen
  | delete finished =>
    cases hd : (s.db.deleteProxyAccount id).2 with
    | false =>
      left
      unfold takeAway
      rw [← Prod.eta (s.db.deleteProxyAccount id), hd]
    | true =>
      refine .inr ⟨(s.db.deleteProxyAccount id).1, finished, ?_, fun a ha hen => ?_⟩
      · unfold takeAway
        rw [← Prod.eta (s.db.deleteProxyAccount id), hd]
      · obtain ⟨hmem, hid⟩ := List.mem_filter.mp ha
        exact ⟨hmem, by simpa using hid⟩

theorem lookup_removePolicy (s : AuthState) (id : String) (finished : Bool) {key : ResourceKey}
    (hkey : key ≠ proxyAccountKey id) :
    (s.removePolicy id finished).policy.policies.lookup key = s.policy.policies.lookup key := by
  cases finished with
  | false => rfl
  | true =>
    show (s.policy.policies.erase _).lookup key = _
    rw [Table.lookup_erase, if_neg hkey]

/-- Whether a policy allows its key depends on that policy alone. -/
theorem allowed_congr (now : Int) {p q : PolicyEnforcer} {key : ResourceKey}
    (h : p.policies.lookup key = q.policies.lookup key) : (p.allowed now key).1 = (q.allowed now key).1 := by
  unfold PolicyEnforcer.allowed
  rw [h]
  cases q.policies.lookup key with
  | none => rfl
  | some policy =>
    simp only
    split <;> [rfl; (split <;> [rfl; (split <;> rfl)])]

/-- Credentials that open the port after an account was taken away opened it before. -/
theorem takeAway_credentials (op : TakeAway) (id : String) (s : AuthState) (now : Int) {kind : ProxyKind}
    {username password : String} {a : DbProxyAccount}
    (hfind : (takeAway op id s).db.findEnabledProxyAccount kind username password = some a)
    (hallowed : ((takeAway op id s).policy.allowed now (proxyAccountKey a.id)).1 = true) :
    s.db.findEnabledProxyAccount kind username password = some a ∧
      s.db.hasEnabledProxyAccounts kind = true ∧ (s.policy.allowed now (proxyAccountKey a.id)).1 = true := by
  obtain ⟨hmem, hkind, hname, hpass, hen⟩ := ProxyAccounts.findEnabledProxyAccount_eq_some.mp hfind
  obtain hsame | ⟨db, finished, heq, hrows⟩ := takeAway_cases op id s
  · rw [hsame] at hfind hmem hallowed
    exact ⟨hfind, ProxyAccounts.hasEnabledProxyAccounts_eq_true.mpr ⟨a, hmem, hkind, hen⟩, hallowed⟩
  · rw [heq, removePolicy_db] at hmem
    obtain ⟨hbefore, hid⟩ := hrows a hmem hen
    have hkey : proxyAccountKey a.id ≠ proxyAccountKey id := fun h => hid (congrArg ResourceKey.id h)
    refine ⟨ProxyAccounts.findEnabledProxyAccount_eq_some.mpr ⟨hbefore, hkind, hname, hpass, hen⟩,
      ProxyAccounts.hasEnabledProxyAccounts_eq_true.mpr ⟨a, hbefore, hkind, hen⟩, ?_⟩
    rw [← hallowed, heq]
    exact (allowed_congr now (lookup_removePolicy {s with db := db} id finished hkey)).symm

/-! ### Acceptance -/

/-- What a port in its closed mode asks for: credentials in the attempt, an enabled
account under them, and a policy that allows it. -/
def credentials (env : AuthEnv) : Attempt → Option (String × String)
  | .socks5 methods input =>
    if methods.contains methodUsernamePassword then
      match readUsernamePassword input with
      | .done credentials _ => some credentials
      | _ => none
    else none
  | .http header => parseBasicProxyAuth env header

theorem accepts_closed (env : AuthEnv) (now : Int) (s : AuthState) (attempt : Attempt)
    (h : s.db.hasEnabledProxyAccounts attempt.kind = true) :
    accepts env now s attempt = true ↔ ∃ c a, credentials env attempt = some c ∧
      s.db.findEnabledProxyAccount attempt.kind c.1 c.2 = some a ∧
      (s.policy.allowed now (proxyAccountKey a.id)).1 = true := by
  cases attempt with
  | socks5 methods input =>
    simp only [Attempt.kind] at h ⊢
    simp only [accepts, authenticate, credentials, h, if_true]
    cases hm : methods.contains methodUsernamePassword with
    | false => simp [Except.isOk, Except.toBool]
    | true =>
      simp only [Bool.not_true, Bool.false_eq_true, if_false, if_true]
      cases hread : readUsernamePassword input with
      | more => simp [Except.isOk, Except.toBool]
      | invalid error => simp [Except.isOk, Except.toBool]
      | done c rest =>
        cases hfind : s.db.findEnabledProxyAccount .socks5 c.1 c.2 with
        | none => simp [hfind, Except.isOk, Except.toBool]
        | some a =>
          cases hallowed : s.policy.allowed now (proxyAccountKey a.id) with
          | mk ok policy => cases ok <;> simp [hfind, hallowed, Except.isOk, Except.toBool]
  | http header =>
    simp only [Attempt.kind] at h ⊢
    simp only [accepts, authenticatedRoute, credentials, h, Bool.not_true, Bool.false_eq_true, if_false]
    cases hparse : parseBasicProxyAuth env header with
    | none => simp
    | some c =>
      cases hfind : s.db.findEnabledProxyAccount .http c.1 c.2 with
      | none => simp [hfind]
      | some a =>
        cases hallowed : s.policy.allowed now (proxyAccountKey a.id) with
        | mk ok policy => cases ok <;> simp [hfind, hallowed]

theorem accepts_open (env : AuthEnv) (now : Int) (s : AuthState) (attempt : Attempt)
    (h : s.db.hasEnabledProxyAccounts attempt.kind = false) :
    accepts env now s attempt = attempt.open := by
  cases attempt with
  | socks5 methods input =>
    simp only [Attempt.kind] at h
    simp only [accepts, authenticate, h, Bool.false_eq_true, if_false, Attempt.open]
    cases methods.contains methodNoAuth <;> rfl
  | http header =>
    simp only [Attempt.kind] at h
    simp only [accepts, authenticatedRoute, h]
    rfl

/-- **Taking an account away grants nothing while the port stays closed.** An
attempt that is rejected is still rejected afterwards if an enabled account of the
kind remains. With no account of the kind left the port is in its open mode, and
takes what that mode takes. -/
theorem takeAway_rejects (env : AuthEnv) (now : Int) (s : AuthState) (op : TakeAway) (id : String)
    (attempt : Attempt) :
    ((takeAway op id s).db.hasEnabledProxyAccounts attempt.kind = true →
      accepts env now s attempt = false → accepts env now (takeAway op id s) attempt = false) ∧
    ((∀ a ∈ (takeAway op id s).db.rows, a.kind ≠ attempt.kind) →
      accepts env now (takeAway op id s) attempt = attempt.open) := by
  constructor
  · intro hclosed hrejected
    by_contra haccepted
    rw [Bool.not_eq_false, accepts_closed env now _ attempt hclosed] at haccepted
    obtain ⟨c, a, hc, hfind, hallowed⟩ := haccepted
    obtain ⟨hfind', hclosed', hallowed'⟩ := takeAway_credentials op id s now hfind hallowed
    have hbefore := (accepts_closed env now s attempt hclosed').mpr ⟨c, a, hc, hfind', hallowed'⟩
    rw [hrejected] at hbefore
    cases hbefore
  · intro hnone
    refine accepts_open env now _ attempt ?_
    rw [← Bool.not_eq_true, ProxyAccounts.hasEnabledProxyAccounts_eq_true]
    rintro ⟨a, ha, hkind, -⟩
    exact hnone a ha hkind

/-! ### The last account -/

def sampleAccount (id : String) : DbProxyAccount :=
  {id := id, kind := .socks5, clientId := "client", username := id, password := "secret"}

def sampleAccounts (ids : List String) (h : ids.Nodup) : ProxyAccounts where
  rows := ids.map sampleAccount
  ids := by
    rw [List.map_map]
    exact h.map fun _ _ hab => hab
  names := by
    rw [List.map_map]
    exact h.map fun _ _ hab => congrArg Prod.snd hab

def sampleEnv : AuthEnv := ⟨"default", ⟨"http-proxy", "default"⟩, fun _ => none⟩

/-- The theorem where a client without credentials is rejected by two accounts, and
one of them is deleted. -/
theorem takeAway_rejects_two :
    accepts sampleEnv 0 ⟨sampleAccounts ["a", "b"] (by decide), {}⟩ (.socks5 [0] []) = false ∧
    accepts sampleEnv 0 (takeAway (.delete true) "a" ⟨sampleAccounts ["a", "b"] (by decide), {}⟩)
      (.socks5 [0] []) = false := by
  have hbefore : accepts sampleEnv 0 ⟨sampleAccounts ["a", "b"] (by decide), {}⟩ (.socks5 [0] []) = false := by
    decide +kernel
  exact ⟨hbefore, (takeAway_rejects sampleEnv 0 _ (.delete true) "a" (.socks5 [0] [])).1 (by decide +kernel) hbefore⟩

/-- A client without credentials is rejected by the only account of the port and
let in once that account is deleted. -/
theorem takeAway_last_account :
    ¬ ∀ (env : AuthEnv) (now : Int) (s : AuthState) (op : TakeAway) (id : String) (attempt : Attempt),
      accepts env now s attempt = false → accepts env now (takeAway op id s) attempt = false := by
  intro h
  have hafter := h sampleEnv 0 ⟨sampleAccounts ["a"] (by decide), {}⟩ (.delete true) "a" (.socks5 [0] [])
    (by decide +kernel)
  exact absurd hafter (by decide +kernel)

end Rps.Controller
