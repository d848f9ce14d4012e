import Mathlib.Data.List.Infix
import Rps.Base.Dialog
import Rps.Base.Text
import Rps.Controller.ProxyAuth

/-! The SOCKS5 handshake.

A connection on the SOCKS5 port goes through four stages before it is served: the
greeting with the offered methods, the login if the port has accounts, the request
header, and the address. Every stage asks for as many bytes as the one before it
announced, and the relay takes over at the byte behind the address.

`handleConn_exact` says that the stages together accept the grammar of a handshake
(`Handshake`) and stop exactly behind it, whatever the accounts and the policy
answer. -/
namespace Rps.Controller.Socks5
open Base

def cmdConnect : UInt8 := 1
def cmdBind : UInt8 := 2
def cmdUdpAssociate : UInt8 := 3

def atypIpv4 : UInt8 := 1
def atypDomain : UInt8 := 3
def atypIpv6 : UInt8 := 4

def repGeneralFailure : UInt8 := 1
def repCommandNotSupported : UInt8 := 7
def repAddrTypeNotSupported : UInt8 := 8

/-! ### Addresses -/

structure SocksAddr where
  host : String
  port : UInt16
  atyp : UInt8
  deriving DecidableEq

def SocksAddr.target (addr : SocksAddr) : String :=
  if addr.atyp = atypIpv6 then s!"[{addr.host}]:{addr.port}" else s!"{addr.host}:{addr.port}"

/-- `Ipv4Addr::to_string`. -/
def ipv4ToString (octets : Bytes) : String := ".".intercalate (octets.map toString)

def segments : Bytes → List Nat
  | high :: low :: rest => ofBe [high, low] :: segments rest
  | _ => []

structure Span where
  start : Nat := 0
  len : Nat := 0

/-- The first of the longest runs of zero segments. -/
def zeroes (segments : List Nat) : Span :=
  let (longest, _) := segments.zipIdx.foldl (fun (longest, current) (segment, i) =>
    if segment = 0 then
      let current : Span := ⟨if current.len = 0 then i else current.start, current.len + 1⟩
      (if current.len > longest.len then current else longest, current)
    else (longest, {})) (({} : Span), ({} : Span))
  longest

/-- Segments in hexadecimal between colons. -/
def fmtSubslice (chunk : List Nat) : String :=
  ":".intercalate (chunk.map fun segment => String.ofList (Nat.toDigits 16 segment))

/-- `Ipv6Addr::to_string`: a mapped IPv4 address is written as one, and the longest run
of at least two zero segments is left out. -/
def ipv6ToString (octets : Bytes) : String :=
  if octets.take 12 = List.replicate 10 0 ++ [0xff, 0xff] then "::ffff:" ++ ipv4ToString (octets.drop 12)
  else
    let segments := segments octets
    let span := zeroes segments
    if span.len > 1 then
      fmtSubslice (segments.take span.start) ++ "::" ++ fmtSubslice (segments.drop (span.start + span.len))
    else fmtSubslice segments

def readU16 : Reader UInt16 := do
  let bytes ← Reader.readExact 2
  pure (UInt16.ofNat (ofBe bytes))

def readHost (atyp : UInt8) : Reader String :=
  if atyp = atypIpv4 then do
    let raw ← Reader.readExact 4
    pure (ipv4ToString raw)
  else if atyp = atypIpv6 then do
    let raw ← Reader.readExact 16
    pure (ipv6ToString raw)
  else if atyp = atypDomain then do
    let len ← readU8
    let raw ← Reader.readExact len.toNat
    Reader.ofExcept (fromUtf8 raw)
  else Reader.fail s!"unsupported socks address type {atyp}"

def readSocksAddr (atyp : UInt8) : Reader SocksAddr := do
  let host ← readHost atyp
  let port ← readU16
  pure ⟨host, port, atyp⟩

/-! ### The connection -/

/-- What the database and the policy answer during one handshake. -/
structure Answers where
  hasEnabledProxyAccounts : Except String Bool
  findEnabledProxyAccount : (username password : String) → Except String (Option DbProxyAccount)
  allowed : ResourceKey → Bool

/-- Behind the context the credentials that were checked are kept. -/
def authenticate (answers : Answers) (clientId : String) (methods : Bytes) :
    Dialog (SocksAuthContext × Option (String × String)) := do
  let enabled ← Dialog.ofExcept answers.hasEnabledProxyAccounts
  if enabled then
    if methodUsernamePassword ∉ methods then do
      Dialog.write [socksVersion, 0xff]
      Dialog.fail "socks5 username/password method is not offered"
    else do
      Dialog.write [socksVersion, methodUsernamePassword]
      let (username, password) ← Dialog.ofReader readUsernamePassword
      let account ← Dialog.ofExcept (answers.findEnabledProxyAccount username password)
      match account with
      | none => do
        Dialog.write [1, 1]
        Dialog.fail "socks5 username/password authentication failed"
      | some account =>
        if answers.allowed (proxyAccountKey account.id) = false then do
          Dialog.write [1, 1]
          Dialog.fail "socks5 account disabled by policy"
        else do
          Dialog.write [1, 0]
          pure (⟨account.clientId, some account.id⟩, some (username, password))
  else if methodNoAuth ∉ methods then do
    Dialog.write [socksVersion, 0xff]
    Dialog.fail "socks5 no-auth method is not offered"
  else do
    Dialog.write [socksVersion, methodNoAuth]
    pure (⟨clientId, none⟩, none)

/-- `send_reply` without a bound address. -/
def sendReply (rep : UInt8) : Bytes := [socksVersion, rep, 0, atypIpv4, 0, 0, 0, 0, 0, 0]

def isAddrTypeError (err : String) : Bool :=
  decide ("unsupported socks address type".toList <:+: err.toList)

/-- How `handle_connect` and `handle_udp_associate` read the address. -/
def requestedAddr (atyp : UInt8) : Dialog SocksAddr :=
  (Dialog.ofReader (readSocksAddr atyp)).onError fun err =>
    sendReply (if isAddrTypeError err then repAddrTypeNotSupported else repGeneralFailure)

inductive Command where
  | connect
  | udpAssociate
  deriving DecidableEq

def Command.code : Command → UInt8
  | .connect => cmdConnect
  | .udpAssociate => cmdUdpAssociate

theorem Command.code_injective : Function.Injective Command.code := by
  intro a b h
  cases a <;> cases b <;> first | rfl | exact absurd h (by decide)

/-- What a connection is served with once its address has been read. -/
structure Accepted where
  methods : Bytes
  credentials : Option (String × String)
  auth : SocksAuthContext
  command : Command
  addr : SocksAddr

/-- `handle_conn` behind the login: what the request asks for. A BIND request ends
without an error and is not served. -/
def request (methods : Bytes) (auth : SocksAuthContext) (credentials : Option (String × String)) :
    Dialog (Option Accepted) := do
  let header ← Dialog.ofReader (Reader.readExact 4)
  if header.getD 0 0 ≠ socksVersion then Dialog.fail s!"invalid request version {header.getD 0 0}"
  else if header.getD 2 0 ≠ 0 then Dialog.fail s!"invalid reserved byte {header.getD 2 0}"
  else if header.getD 1 0 = cmdConnect then do
    let addr ← requestedAddr (header.getD 3 0)
    pure (some ⟨methods, credentials, auth, .connect, addr⟩)
  else if header.getD 1 0 = cmdUdpAssociate then do
    let addr ← requestedAddr (header.getD 3 0)
    pure (some ⟨methods, credentials, auth, .udpAssociate, addr⟩)
  else if header.getD 1 0 = cmdBind then do
    Dialog.write (sendReply repCommandNotSupported)
    pure none
  else do
    Dialog.write (sendReply repCommandNotSupported)
    Dialog.fail s!"unsupported socks5 command {header.getD 1 0}"

/-- The handshake up to the point where the connection is served. -/
def handleConn (answers : Answers) (clientId : String) : Dialog (Option Accepted) := do
  let hello ← Dialog.ofReader (Reader.readExact 2)
  if hello.getD 0 0 ≠ socksVersion then Dialog.fail s!"unsupported socks version {hello.getD 0 0}"
  else do
    let methods ← Dialog.ofReader (Reader.readExact (hello.getD 1 0).toNat)
    let (auth, credentials) ← authenticate answers clientId methods
    request methods auth credentials

/-! ### The grammar -/

def utf8 (text : String) : Bytes := encode text.toList

/-- A field behind its length byte. -/
def field (raw : Bytes) : Bytes := UInt8.ofNat raw.length :: raw

def greeting (methods : Bytes) : Bytes := socksVersion :: field methods

def loginMessage (username password : String) : Bytes := 1 :: (field (utf8 username) ++ field (utf8 password))

/-- What a client that reaches the port under `answers` says to be let in, and as whom. -/
inductive Login (answers : Answers) (clientId : String) (methods : Bytes) :
    Grammar (SocksAuthContext × Option (String × String))
  | noAuth : answers.hasEnabledProxyAccounts = .ok false → methodNoAuth ∈ methods →
    Login answers clientId methods (⟨clientId, none⟩, none) []
  | account (username password : String) (account : DbProxyAccount) :
    answers.hasEnabledProxyAccounts = .ok true → methodUsernamePassword ∈ methods →
    (utf8 username).length < 256 → (utf8 password).length < 256 →
    answers.findEnabledProxyAccount username password = .ok (some account) →
    answers.allowed (proxyAccountKey account.id) = true →
    Login answers clientId methods (⟨account.clientId, some account.id⟩, some (username, password))
      (loginMessage username password)

/-- The bytes of a host of each address type. -/
inductive HostWord : UInt8 → Grammar String
  | ipv4 (octets : Bytes) : octets.length = 4 → HostWord atypIpv4 (ipv4ToString octets) octets
  | ipv6 (octets : Bytes) : octets.length = 16 → HostWord atypIpv6 (ipv6ToString octets) octets
  | domain (host : String) : (utf8 host).length < 256 → HostWord atypDomain host (field (utf8 host))

/-- The header of a request and its address. -/
def RequestWord (command : Command) : Grammar SocksAddr := fun addr word =>
  ∃ host, HostWord addr.atyp addr.host host ∧
    word = [socksVersion, command.code, 0, addr.atyp] ++ (host ++ toBe 2 addr.port.toNat)

/-- A complete handshake: the greeting with the methods, the login, and the request. -/
def Handshake (answers : Answers) (clientId : String) : Grammar Accepted := fun a word =>
  a.methods.length < 256 ∧ ∃ login request,
    Login answers clientId a.methods (a.auth, a.credentials) login ∧ RequestWord a.command a.addr request ∧
      word = greeting a.methods ++ (login ++ request)

/-! ### Each stage accepts its part -/

theorem fromUtf8_eq_ok {raw : Bytes} {text : String} : fromUtf8 raw = .ok text ↔ raw = utf8 text := by
  unfold fromUtf8 utf8
  rw [← fromUTF8_eq_some]
  cases String.fromUTF8? ⟨raw.toArray⟩ <;> simp

theorem readU8_exact : readU8.Exact fun b word => word = [b] := by
  refine ((Reader.Exact.readExact 1).bind fun bytes => .pure (bytes.headD 0)).congr ?_
  intro b word
  constructor
  · intro h
    obtain ⟨bytes, first, second, ⟨rfl, hlen⟩, ⟨rfl, rfl⟩, rfl⟩ := h
    obtain ⟨c, rfl⟩ := List.length_eq_one_iff.mp hlen
    rfl
  · rintro rfl
    exact ⟨[b], [b], [], ⟨rfl, rfl⟩, ⟨rfl, rfl⟩, rfl⟩

theorem readU16_exact : readU16.Exact fun port word => word = toBe 2 port.toNat := by
  refine ((Reader.Exact.readExact 2).bind fun bytes => .pure (UInt16.ofNat (ofBe bytes))).congr ?_
  intro port word
  constructor
  · intro h
    obtain ⟨bytes, first, second, ⟨rfl, hlen⟩, ⟨rfl, rfl⟩, rfl⟩ := h
    have hlt : ofBe bytes < UInt16.size := by simpa [hlen] using ofBe_lt bytes
    rw [UInt16.toNat_ofNat_of_lt' hlt, toBe_ofBe hlen, List.append_nil]
  · rintro rfl
    refine ⟨_, _, [], ⟨rfl, length_toBe ..⟩, ⟨?_, rfl⟩, (List.append_nil _).symm⟩
    rw [ofBe_toBe _ _ port.toNat_lt, UInt16.ofNat_toNat]

/-- A length byte, the field, and what is read next. -/
theorem field_exact {α : Type} {f : Bytes → Reader α} {L : Bytes → Grammar α}
    (hf : ∀ raw, (f raw).Exact (L raw)) :
    (do
      let len ← readU8
      let raw ← Reader.readExact len.toNat
      f raw : Reader α).Exact fun a word => ∃ raw rest, raw.length < 256 ∧ L raw a rest ∧ word = field raw ++ rest := by
  refine (readU8_exact.bind fun len => (Reader.Exact.readExact len.toNat).bind hf).congr ?_
  intro a word
  constructor
  · rintro ⟨len, first, second, rfl, ⟨raw, first, rest, ⟨rfl, hlen⟩, hrest, rfl⟩, rfl⟩
    refine ⟨raw, rest, hlen ▸ len.toNat_lt, hrest, ?_⟩
    rw [field, hlen, UInt8.ofNat_toNat]
    rfl
  · intro h
    obtain ⟨raw, rest, hlen, hrest, rfl⟩ := h
    refine ⟨UInt8.ofNat raw.length, _, raw ++ rest, rfl, ⟨raw, raw, rest, ⟨rfl, ?_⟩, hrest, rfl⟩, rfl⟩
    exact (UInt8.toNat_ofNat_of_lt' hlen).symm

/-- The texts of a login, once both fields have been read. -/
theorem texts_exact (username password : Bytes) :
    (do
      let username ← Reader.ofExcept (fromUtf8 username)
      let password ← Reader.ofExcept (fromUtf8 password)
      pure (username, password) : Reader (String × String)).Exact
      fun c word => username = utf8 c.1 ∧ password = utf8 c.2 ∧ word = [] := by
  refine ((Reader.Exact.ofExcept _).bind fun u => (Reader.Exact.ofExcept _).bind fun p => .pure (u, p)).congr ?_
  intro c word
  simp only [fromUtf8_eq_ok]
  constructor
  · rintro ⟨u, first, second, ⟨hu, rfl⟩, ⟨p, first, second, ⟨hp, rfl⟩, ⟨rfl, rfl⟩, rfl⟩, rfl⟩
    exact ⟨hu, hp, rfl⟩
  · intro h
    obtain ⟨hu, hp, rfl⟩ := h
    exact ⟨c.1, [], [], ⟨hu, rfl⟩, ⟨c.2, [], [], ⟨hp, rfl⟩, ⟨rfl, rfl⟩, rfl⟩, rfl⟩

theorem readUsernamePassword_exact : readUsernamePassword.Exact fun c word =>
    (utf8 c.1).length < 256 ∧ (utf8 c.2).length < 256 ∧ word = loginMessage c.1 c.2 := by
  refine (readU8_exact.bind fun version => Reader.Exact.guarded _
    (field_exact fun username => field_exact fun password => texts_exact username password)).congr ?_
  intro c word
  constructor
  · rintro ⟨version, first, second, rfl, ⟨hversion, username, rest, hulen, ⟨password, rest, hplen, ⟨rfl, rfl, rfl⟩,
      rfl⟩, rfl⟩, rfl⟩
    refine ⟨hulen, hplen, ?_⟩
    rw [Decidable.not_not.mp hversion, List.append_nil]
    rfl
  · intro h
    obtain ⟨hulen, hplen, rfl⟩ := h
    refine ⟨1, [1], _, rfl, ⟨by decide, utf8 c.1, _, hulen, ⟨utf8 c.2, [], hplen, ⟨rfl, rfl, rfl⟩, rfl⟩, rfl⟩, ?_⟩
    rw [List.append_nil]
    rfl

/-- An address of as many octets. -/
theorem octets_exact (n : Nat) (toText : Bytes → String) {L : Grammar String}
    (h : ∀ host word, L host word ↔ word.length = n ∧ host = toText word) :
    Reader.Exact (do
      let raw ← Reader.readExact n
      pure (toText raw)) L := by
  refine ((Reader.Exact.readExact n).bind fun raw => .pure (toText raw)).congr ?_
  intro host word
  rw [h]
  constructor
  · intro hboth
    obtain ⟨raw, first, second, ⟨rfl, hlen⟩, ⟨rfl, rfl⟩, rfl⟩ := hboth
    rw [List.append_nil]
    exact ⟨hlen, rfl⟩
  · intro hboth
    obtain ⟨hlen, rfl⟩ := hboth
    exact ⟨word, word, [], ⟨rfl, hlen⟩, ⟨rfl, rfl⟩, (List.append_nil _).symm⟩

theorem hostWord_ipv4 (host : String) (word : Bytes) :
    HostWord atypIpv4 host word ↔ word.length = 4 ∧ host = ipv4ToString word := by
  constructor
  · intro h
    cases h with
    | ipv4 octets hlen => exact ⟨hlen, rfl⟩
  · intro hboth
    obtain ⟨hlen, rfl⟩ := hboth
    exact .ipv4 word hlen

theorem hostWord_ipv6 (host : String) (word : Bytes) :
    HostWord atypIpv6 host word ↔ word.length = 16 ∧ host = ipv6ToString word := by
  constructor
  · intro h
    cases h with
    | ipv6 octets hlen => exact ⟨hlen, rfl⟩
  · intro hboth
    obtain ⟨hlen, rfl⟩ := hboth
    exact .ipv6 word hlen

theorem readHost_exact (atyp : UInt8) : (readHost atyp).Exact (HostWord atyp) := by
  unfold readHost
  by_cases h4 : atyp = atypIpv4
  · subst h4
    rw [if_pos rfl]
    exact octets_exact 4 ipv4ToString hostWord_ipv4
  rw [if_neg h4]
  by_cases h6 : atyp = atypIpv6
  · subst h6
    rw [if_pos rfl]
    exact octets_exact 16 ipv6ToString hostWord_ipv6
  rw [if_neg h6]
  by_cases hd : atyp = atypDomain
  · subst hd
    rw [if_pos rfl]
    refine (field_exact fun raw => Reader.Exact.ofExcept (fromUtf8 raw)).congr ?_
    intro host word
    simp only [fromUtf8_eq_ok]
    constructor
    · intro h
      obtain ⟨raw, rest, hlen, ⟨rfl, rfl⟩, rfl⟩ := h
      rw [List.append_nil]
      exact .domain host hlen
    · intro hword
      cases hword with
      | domain _ hlen => exact ⟨utf8 host, [], hlen, ⟨rfl, rfl⟩, (List.append_nil _).symm⟩
  rw [if_neg hd]
  refine (Reader.Exact.fail _).congr fun host word => ⟨False.elim, fun hword => ?_⟩
  cases hword with
  | ipv4 => exact h4 rfl
  | ipv6 => exact h6 rfl
  | domain => exact hd rfl

theorem readSocksAddr_exact (atyp : UInt8) : (readSocksAddr atyp).Exact fun addr word =>
    addr.atyp = atyp ∧ ∃ host, HostWord addr.atyp addr.host host ∧ word = host ++ toBe 2 addr.port.toNat := by
  refine ((readHost_exact atyp).bind fun host => readU16_exact.bind fun port =>
    .pure (⟨host, port, atyp⟩ : SocksAddr)).congr ?_
  intro addr word
  constructor
  · rintro ⟨host, first, second, hhost, ⟨port, first, second, rfl, ⟨rfl, rfl⟩, rfl⟩, rfl⟩
    exact ⟨rfl, _, hhost, by rw [List.append_nil]⟩
  · intro h
    obtain ⟨rfl, host, hhost, rfl⟩ := h
    exact ⟨addr.host, host, _, hhost, ⟨addr.port, _, [], rfl, ⟨rfl, rfl⟩, (List.append_nil _).symm⟩, rfl⟩

theorem requestedAddr_exact (atyp : UInt8) : (requestedAddr atyp).Exact fun addr word =>
    addr.atyp = atyp ∧ ∃ host, HostWord addr.atyp addr.host host ∧ word = host ++ toBe 2 addr.port.toNat :=
  (Dialog.Exact.ofReader (readSocksAddr_exact atyp)).onError

/-- The login on a port with accounts. -/
theorem account_exact (answers : Answers) (username password : String) :
    (do
      let account ← Dialog.ofExcept (answers.findEnabledProxyAccount username password)
      match account with
      | none => do
        Dialog.write [1, 1]
        Dialog.fail "socks5 username/password authentication failed"
      | some account =>
        if answers.allowed (proxyAccountKey account.id) = false then do
          Dialog.write [1, 1]
          Dialog.fail "socks5 account disabled by policy"
        else do
          Dialog.write [1, 0]
          pure (⟨account.clientId, some account.id⟩, some (username, password)) :
      Dialog (SocksAuthContext × Option (String × String))).Exact fun a word =>
      word = [] ∧ ∃ account, answers.findEnabledProxyAccount username password = .ok (some account) ∧
        answers.allowed (proxyAccountKey account.id) = true ∧
        a = (⟨account.clientId, some account.id⟩, some (username, password)) := by
  refine ((Dialog.Exact.ofExcept _).bind (M := fun found a word => word = [] ∧ ∃ account, found = some account ∧
    answers.allowed (proxyAccountKey account.id) = true ∧
    a = (⟨account.clientId, some account.id⟩, some (username, password))) ?_).congr ?_
  · intro found
    cases found with
    | none =>
      refine (Dialog.Exact.refused _ _).congr fun a word => ?_
      simp
    | some account =>
      refine (Dialog.Exact.guarded (.answered _ _) (.refused _ _)).congr fun a word => ?_
      simp only [Bool.not_eq_false, Option.some.injEq, exists_eq_left']
      constructor
      · intro h
        obtain ⟨hallowed, rfl, rfl⟩ := h
        exact ⟨rfl, hallowed, rfl⟩
      · intro h
        obtain ⟨rfl, hallowed, rfl⟩ := h
        exact ⟨hallowed, rfl, rfl⟩
  · intro a word
    constructor
    · intro h
      obtain ⟨found, first, second, ⟨hfound, rfl⟩, ⟨rfl, account, rfl, hallowed, rfl⟩, rfl⟩ := h
      exact ⟨rfl, account, hfound, hallowed, rfl⟩
    · intro h
      obtain ⟨rfl, account, hfound, hallowed, rfl⟩ := h
      exact ⟨some account, [], [], ⟨hfound, rfl⟩, ⟨rfl, account, rfl, hallowed, rfl⟩, rfl⟩

theorem authenticate_exact (answers : Answers) (clientId : String) (methods : Bytes) :
    (authenticate answers clientId methods).Exact (Login answers clientId methods) := by
  refine ((Dialog.Exact.ofExcept _).bind (M := fun enabled a word =>
    if enabled then methodUsernamePassword ∈ methods ∧ ∃ c : String × String,
      (utf8 c.1).length < 256 ∧ (utf8 c.2).length < 256 ∧ word = loginMessage c.1 c.2 ∧
      ∃ account, answers.findEnabledProxyAccount c.1 c.2 = .ok (some account) ∧
        answers.allowed (proxyAccountKey account.id) = true ∧
        a = (⟨account.clientId, some account.id⟩, some (c.1, c.2))
    else methodNoAuth ∈ methods ∧ a = (⟨clientId, none⟩, none) ∧ word = []) ?_).congr ?_
  · intro enabled
    cases enabled with
    | true =>
      refine (Dialog.Exact.guarded (.write_then ((Dialog.Exact.ofReader readUsernamePassword_exact).bind
        fun c => account_exact answers c.1 c.2)) (.refused _ _)).congr fun a word => ?_
      rw [Decidable.not_not, if_pos rfl]
      refine and_congr_right fun _ => ?_
      constructor
      · intro h
        obtain ⟨c, first, second, ⟨hu, hp, rfl⟩, ⟨rfl, haccount⟩, rfl⟩ := h
        exact ⟨c, hu, hp, List.append_nil _, haccount⟩
      · intro h
        obtain ⟨c, hu, hp, rfl, haccount⟩ := h
        exact ⟨c, _, [], ⟨hu, hp, rfl⟩, ⟨rfl, haccount⟩, (List.append_nil _).symm⟩
    | false =>
      refine (Dialog.Exact.guarded (.answered _ _) (.refused _ _)).congr fun a word => ?_
      rw [Decidable.not_not]
      exact Iff.rfl
  · intro a word
    constructor
    · intro h
      obtain ⟨enabled, first, second, ⟨henabled, rfl⟩, hlogin, rfl⟩ := h
      cases enabled with
      | true =>
        obtain ⟨hmethod, c, hu, hp, rfl, account, hfind, hallowed, rfl⟩ := hlogin
        exact .account c.1 c.2 account henabled hmethod hu hp hfind hallowed
      | false =>
        obtain ⟨hmethod, rfl, rfl⟩ := hlogin
        exact .noAuth henabled hmethod
    · intro hlogin
      cases hlogin with
      | noAuth henabled hmethod => exact ⟨false, [], [], ⟨henabled, rfl⟩, ⟨hmethod, rfl, rfl⟩, rfl⟩
      | account username password account henabled hmethod hu hp hfind hallowed =>
        exact ⟨true, [], _, ⟨henabled, rfl⟩, ⟨hmethod, (username, password), hu, hp, rfl, account, hfind, hallowed, rfl⟩,
          rfl⟩

/-- What is behind the header of a served request, or of a BIND. -/
def Served (methods : Bytes) (auth : SocksAuthContext) (credentials : Option (String × String))
    (command atyp : UInt8) : Grammar (Option Accepted)
  | none, word => command = cmdBind ∧ word = []
  | some a, word => a.methods = methods ∧ a.auth = auth ∧ a.credentials = credentials ∧
    command = a.command.code ∧ a.addr.atyp = atyp ∧
    ∃ host, HostWord a.addr.atyp a.addr.host host ∧ word = host ++ toBe 2 a.addr.port.toNat

theorem served_exact (methods : Bytes) (auth : SocksAuthContext) (credentials : Option (String × String))
    (command : Command) (atyp : UInt8) :
    (do
      let addr ← requestedAddr atyp
      pure (some ⟨methods, credentials, auth, command, addr⟩) : Dialog (Option Accepted)).Exact
      (Served methods auth credentials command.code atyp) := by
  refine ((requestedAddr_exact atyp).bind fun addr => .pure _).congr fun a word => ?_
  constructor
  · intro h
    obtain ⟨addr, first, second, ⟨hatyp, host, hhost, rfl⟩, ⟨rfl, rfl⟩, rfl⟩ := h
    exact ⟨rfl, rfl, rfl, rfl, hatyp, host, hhost, List.append_nil _⟩
  · intro hserved
    match a, hserved with
    | none, ⟨hbind, _⟩ =>
      cases command with
      | connect => exact absurd hbind (by decide)
      | udpAssociate => exact absurd hbind (by decide)
    | some ⟨_, _, _, command', addr⟩, ⟨rfl, rfl, rfl, hcommand, hatyp, hhost⟩ =>
      obtain rfl : command = command' := Command.code_injective hcommand
      exact ⟨addr, word, [], ⟨hatyp, hhost⟩, ⟨rfl, rfl⟩, (List.append_nil _).symm⟩

/-- A header with the version and the zero byte, and what the command asks for. -/
theorem request_exact (methods : Bytes) (auth : SocksAuthContext) (credentials : Option (String × String)) :
    (request methods auth credentials).Exact fun a word => ∃ command atyp rest,
      Served methods auth credentials command atyp a rest ∧
        word = [socksVersion, command, 0, atyp] ++ rest := by
  refine ((Dialog.Exact.ofReader (.readExact 4)).bind (M := fun header a word =>
    ¬ header.getD 0 0 ≠ socksVersion ∧ ¬ header.getD 2 0 ≠ 0 ∧
      Served methods auth credentials (header.getD 1 0) (header.getD 3 0) a word) ?_).congr ?_
  · intro header
    refine Dialog.Exact.guarded (.guarded ?_ (.fail _)) (.fail _)
    by_cases hconnect : header.getD 1 0 = cmdConnect
    · rw [if_pos hconnect, hconnect]
      exact served_exact methods auth credentials .connect _
    rw [if_neg hconnect]
    by_cases hudp : header.getD 1 0 = cmdUdpAssociate
    · rw [if_pos hudp, hudp]
      exact served_exact methods auth credentials .udpAssociate _
    rw [if_neg hudp]
    -- what is left is answered and not served
    generalize header.getD 1 0 = command at hconnect hudp ⊢
    generalize header.getD 3 0 = atyp
    have hcode : ∀ c : Command, command ≠ c.code := by
      intro c
      cases c with
      | connect => exact hconnect
      | udpAssociate => exact hudp
    by_cases hbind : command = cmdBind
    · rw [if_pos hbind]
      refine (Dialog.Exact.answered _ _).congr fun a word => ?_
      cases a with
      | none => simp [Served, hbind]
      | some a => simp [Served, hcode]
    · rw [if_neg hbind]
      refine (Dialog.Exact.refused _ _).congr fun a word => ?_
      cases a with
      | none => simp only [Served, hbind, false_and]
      | some a => simp [Served, hcode]
  · intro a word
    constructor
    · intro h
      obtain ⟨header, first, rest, ⟨rfl, hlen⟩, ⟨hversion, hreserved, hserved⟩, rfl⟩ := h
      match header, hlen with
      | [version, command, reserved, atyp], _ =>
        obtain rfl : version = socksVersion := Decidable.not_not.mp hversion
        obtain rfl : reserved = 0 := Decidable.not_not.mp hreserved
        exact ⟨command, atyp, rest, hserved, rfl⟩
    · intro h
      obtain ⟨command, atyp, rest, hserved, rfl⟩ := h
      exact ⟨[socksVersion, command, 0, atyp], _, rest, ⟨rfl, rfl⟩, ⟨by simp, by simp, hserved⟩, rfl⟩

/-- Greeting, login and request, served or not. -/
def Connection (answers : Answers) (clientId : String) : Grammar (Option Accepted) := fun a word =>
  ∃ methods : Bytes, methods.length < 256 ∧
    ∃ auth credentials login request, Login answers clientId methods (auth, credentials) login ∧
      (∃ command atyp rest, Served methods auth credentials command atyp a rest ∧
        request = [socksVersion, command, 0, atyp] ++ rest) ∧
      word = greeting methods ++ (login ++ request)

theorem connection_exact (answers : Answers) (clientId : String) :
    (handleConn answers clientId).Exact (Connection answers clientId) := by
  refine ((Dialog.Exact.ofReader (.readExact 2)).bind fun hello => .guarded
    ((Dialog.Exact.ofReader (.readExact (hello.getD 1 0).toNat)).bind fun methods =>
      (authenticate_exact answers clientId methods).bind fun login =>
        request_exact methods login.1 login.2) (.fail _)).congr ?_
  intro a word
  constructor
  · rintro ⟨hello, first, second, ⟨rfl, hlen⟩, ⟨hversion, methods, first, second, ⟨rfl, hmethods⟩, ⟨login, first,
      second, hlogin, hrequest, rfl⟩, rfl⟩, rfl⟩
    match hello, hlen with
    | [version, n], _ =>
      obtain rfl : version = socksVersion := Decidable.not_not.mp hversion
      have hn : methods.length = n.toNat := hmethods
      refine ⟨methods, hn ▸ n.toNat_lt, login.1, login.2, first, second, hlogin, hrequest, ?_⟩
      rw [greeting, field, hn, UInt8.ofNat_toNat]
      rfl
  · intro h
    obtain ⟨methods, hlen, auth, credentials, login, request, hlogin, hrequest, rfl⟩ := h
    refine ⟨[socksVersion, UInt8.ofNat methods.length], _, methods ++ (login ++ request), ⟨rfl, rfl⟩,
      ⟨by simp, methods, methods, login ++ request, ⟨rfl, ?_⟩, ⟨(auth, credentials), login, request, hlogin, hrequest,
        rfl⟩, rfl⟩, rfl⟩
    exact (UInt8.toNat_ofNat_of_lt' hlen).symm

/-- **The handshake.** Whatever the accounts and the policy answer, a connection is
served as `a` exactly if its stream starts with a handshake of `a`, and then what is
left on the stream is what follows the handshake. -/
theorem handleConn_exact (answers : Answers) (clientId : String) (ended : Bool) (stream rest : Bytes)
    (a : Accepted) :
    (handleConn answers clientId ended stream).read = .done (some a) rest ↔
      ∃ handshake, Handshake answers clientId a handshake ∧ stream = handshake ++ rest := by
  refine (connection_exact answers clientId ended stream (some a) rest).trans ?_
  refine exists_congr fun word => and_congr_left fun _ => ?_
  constructor
  · intro h
    obtain ⟨methods, hlen, auth, credentials, login, request, hlogin, ⟨command, atyp, rest, hserved, rfl⟩, rfl⟩ := h
    obtain ⟨rfl, rfl, rfl, rfl, rfl, host, hhost, rfl⟩ := hserved
    exact ⟨hlen, login, _, hlogin, ⟨host, hhost, rfl⟩, rfl⟩
  · intro h
    obtain ⟨hlen, login, request, hlogin, ⟨host, hhost, rfl⟩, rfl⟩ := h
    exact ⟨a.methods, hlen, a.auth, a.credentials, login, _, hlogin, ⟨a.command.code, a.addr.atyp, _,
      ⟨rfl, rfl, rfl, rfl, rfl, host, hhost, rfl⟩, rfl⟩, rfl⟩

/-! ### The login against the accounts -/

/-- What the accounts and policies of a state answer. -/
def answersOf (now : Int) (s : AuthState) : Answers where
  hasEnabledProxyAccounts := .ok (s.db.hasEnabledProxyAccounts .socks5)
  findEnabledProxyAccount username password := .ok (s.db.findEnabledProxyAccount .socks5 username password)
  allowed key := (s.policy.allowed now key).1

/-- The login of a client that sends `input` and no more is the exchange of
`ProxyAuth`, with the same answers and the same outcome. -/
theorem authenticate_answersOf (env : AuthEnv) (now : Int) (s : AuthState) (methods input : Bytes) :
    (authenticate (answersOf now s) env.clientId methods true input).written =
        (Controller.authenticate env now s methods input).written ∧
      (match (authenticate (answersOf now s) env.clientId methods true input).read with
        | .more => .error "early eof"
        | .invalid error => .error error
        | .done (auth, _) _ => .ok auth) = (Controller.authenticate env now s methods input).result := by
  unfold authenticate Controller.authenticate
  have hhas : (answersOf now s).hasEnabledProxyAccounts = .ok (s.db.hasEnabledProxyAccounts .socks5) := rfl
  have hfind : ∀ username password, (answersOf now s).findEnabledProxyAccount username password =
    .ok (s.db.findEnabledProxyAccount .socks5 username password) := fun _ _ => rfl
  simp only [hhas, hfind, Dialog.ofExcept_ok_bind]
  cases s.db.hasEnabledProxyAccounts .socks5 with
  | false =>
    simp only [Bool.false_eq_true, if_false]
    by_cases hmethod : methodNoAuth ∈ methods
    · rw [if_neg (not_not.mpr hmethod), if_neg (by simpa using hmethod)]
      exact ⟨rfl, rfl⟩
    · rw [if_pos hmethod, if_pos (by simpa using hmethod)]
      exact ⟨rfl, rfl⟩
  | true =>
    simp only [if_true]
    by_cases hmethod : methodUsernamePassword ∈ methods
    · rw [if_neg (not_not.mpr hmethod), if_neg (by simpa using hmethod)]
      simp only [Dialog.write_bind, Dialog.ofReader_bind]
      cases readUsernamePassword input with
      | more => exact ⟨rfl, rfl⟩
      | invalid error => exact ⟨rfl, rfl⟩
      | done c rest =>
        simp only
        cases s.db.findEnabledProxyAccount .socks5 c.1 c.2 with
        | none => exact ⟨rfl, rfl⟩
        | some account =>
          cases hallowed : s.policy.allowed now (proxyAccountKey account.id) with
          | mk ok policy =>
            have hok : (answersOf now s).allowed (proxyAccountKey account.id) = ok :=
              congrArg Prod.fst hallowed
            cases ok with
            | false =>
              simp only
              rw [if_pos hok, hallowed]
              exact ⟨rfl, rfl⟩
            | true =>
              simp only
              rw [if_neg (by rw [hok]; decide), hallowed]
              exact ⟨rfl, rfl⟩
    · rw [if_pos hmethod, if_pos (by simpa using hmethod)]
      exact ⟨rfl, rfl⟩

end Rps.Controller.Socks5
