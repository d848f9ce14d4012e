import Rps.Base.Duet
import Rps.Controller.Socks5Udp
import Rps.Controller.UdpSessions

/-! A SOCKS5 client against the SOCKS5 port.

The load test's client and the controller's `handle_conn` are two ends of one connection.
The client greets, logs in if the port asks for it, sends one request and reads the
reply up to the last byte of the bound address; the port reads each of these, and
answers. Pool streams and the account tables are parameters (`Serving`, `Answers`).

`socks5_connect_agrees`: in whatever pieces the connection delivers the bytes, both ends
come to the same conclusion. They succeed exactly if the client is let in, its host can be
sent and the stream is opened; the stream is then the one to the client's own target, and
neither end has left a byte unread. Otherwise both fail.
`socks5_udp_agrees` is the same of UDP ASSOCIATE and of the datagrams that follow. -/
namespace Rps.Controller

/-! ### What the port serves -/

def IpAddr.octets : IpAddr → Base.Bytes
  | .v4 addr => Base.toBe 4 addr.toNat
  | .v6 addr => Base.toBe 16 addr.toNat

def IpAddr.isUnspecified : IpAddr → Bool
  | .v4 addr => addr = 0
  | .v6 addr => addr = 0

/-- `IpAddr::to_string`. -/
def IpAddr.text : IpAddr → String
  | .v4 addr => Socks5.ipv4ToString (IpAddr.v4 addr).octets
  | .v6 addr => Socks5.ipv6ToString (IpAddr.v6 addr).octets

namespace Socks5
open Base

def repSucceeded : UInt8 := 0

/-- The address a reply names: an unspecified IPv6 address is named as the IPv4 one. -/
def namedIp : IpAddr → IpAddr
  | .v4 addr => .v4 addr
  | .v6 addr => if addr = 0 then .v4 0 else .v6 addr

def atypOf : IpAddr → UInt8
  | .v4 _ => atypIpv4
  | .v6 _ => atypIpv6

/-- `send_reply`. -/
def replyWith (rep : UInt8) (bindAddr : Option SocketAddr) : Bytes :=
  let bindAddr := bindAddr.getD ⟨.v4 0, 0⟩
  let ip := namedIp bindAddr.ip
  [socksVersion, rep, 0, atypOf ip] ++ (ip.octets ++ toBe 2 bindAddr.port.toNat)

/-- The reply of a request that is not served names no address. -/
theorem replyWith_none (rep : UInt8) : replyWith rep none = sendReply rep := rfl

/-- What the rest of the controller answers while a connection is served. -/
structure Serving where
  openPoolStream : StreamRoute → (target : String) → Except String Unit
  localAddr : Option SocketAddr
  udpAddr : SocketAddr

/-- What a connection is from the reply on: a relay to a stream, or the control connection
of an association. -/
inductive ServedConn where
  | connected (route : StreamRoute) (target : String)
  | associated (auth : SocksAuthContext)
  deriving DecidableEq

def streamRoute (auth : SocksAuthContext) : StreamRoute where
  tunnelId :=
    match auth.accountId with
    | some id => "socks5:" ++ id
    | none => "socks5"
  clientId := auth.clientId

/-- `handle_connect` behind the address. -/
def handleConnect (serving : Serving) (auth : SocksAuthContext) (target : String) : Dialog (Option ServedConn) :=
  match serving.openPoolStream (streamRoute auth) target with
  | .error err => do
    Dialog.write (sendReply repGeneralFailure)
    Dialog.fail err
  | .ok () => do
    Dialog.write (replyWith repSucceeded serving.localAddr)
    pure (some (.connected (streamRoute auth) target))

/-- `handle_udp_associate` behind the address, up to its loop. -/
def handleUdpAssociate (serving : Serving) (auth : SocksAuthContext) : Dialog (Option ServedConn) := do
  Dialog.write (replyWith repSucceeded (some serving.udpAddr))
  pure (some (.associated auth))

def serve (serving : Serving) : Option Accepted → Dialog (Option ServedConn)
  | none => pure none
  | some accepted =>
    match accepted.command with
    | .connect => handleConnect serving accepted.auth accepted.addr.target
    | .udpAssociate => handleUdpAssociate serving accepted.auth

/-- `handle_conn` up to the point where bytes are relayed. -/
def serveConn (answers : Answers) (serving : Serving) (clientId : String) : Dialog (Option ServedConn) := do
  let accepted ← handleConn answers clientId
  serve serving accepted

end Socks5

end Rps.Controller

namespace Rps.Loadtest
open Base Rps.Controller Rps.Controller.Socks5

/-! ### The client -/

/-- The arguments the SOCKS5 client uses. -/
structure Args where
  host : String
  targetHost : String
  targetHttpPort : UInt16
  targetUdpPort : UInt16
  socks5Username : Option String
  socks5Password : Option String
  deriving DecidableEq

/-- The target of `socks5_http`. -/
def Args.target (args : Args) : String := s!"{args.targetHost}:{args.targetHttpPort}"

def Args.hasAuth (args : Args) : Bool := args.socks5Username.isSome || args.socks5Password.isSome

/-- The login, once the port has asked for one. -/
def socks5Login (args : Args) : Dialog Unit :=
  match args.socks5Username with
  | none => Dialog.fail "socks5 server requires username/password authentication"
  | some username =>
    match args.socks5Password with
    | none => Dialog.fail "--socks5-username requires --socks5-password"
    | some password =>
      if (utf8 username).length > 255 then Dialog.fail "socks5 username too long"
      else if (utf8 password).length > 255 then Dialog.fail "socks5 password too long"
      else do
        Dialog.write ([1, UInt8.ofNat (utf8 username).length] ++ utf8 username ++
          [UInt8.ofNat (utf8 password).length] ++ utf8 password)
        let response ← Dialog.ofReader (Reader.readExact 2)
        if response ≠ [1, 0] then Dialog.fail "socks5 username/password authentication failed" else pure ()

def socks5Authenticate (args : Args) : Dialog Unit := do
  Dialog.write (if args.hasAuth then [5, 2, 0, 2] else [5, 1, 0])
  let handshake ← Dialog.ofReader (Reader.readExact 2)
  if handshake.getD 0 0 ≠ 5 then Dialog.fail "bad socks5 auth version"
  else if handshake.getD 1 0 = 0 then pure ()
  else if handshake.getD 1 0 = 2 then socks5Login args
  else if handshake.getD 1 0 = 0xff then Dialog.fail "socks5 auth negotiation failed"
  else Dialog.fail s!"unsupported socks5 auth method {handshake.getD 1 0}"

def readBoundHost (atyp : UInt8) : Reader String :=
  if atyp = 1 then do
    let raw ← Reader.readExact 4
    pure (ipv4ToString raw)
  else if atyp = 3 then do
    let len ← Reader.readExact 1
    let raw ← Reader.readExact (len.getD 0 0).toNat
    Reader.ofExcept (fromUtf8 raw)
  else if atyp = 4 then do
    let raw ← Reader.readExact 16
    pure (ipv6ToString raw)
  else Reader.fail s!"unsupported socks5 bind address type {atyp}"

def readSocksBoundAddr (atyp : UInt8) : Reader (String × UInt16) := do
  let host ← readBoundHost atyp
  let port ← Reader.readExact 2
  pure (host, UInt16.ofNat (ofBe port))

/-- Both requests end with reading the reply. -/
def readReply (error : String) : Dialog (String × UInt16) := do
  let header ← Dialog.ofReader (Reader.readExact 4)
  if ¬ (header.getD 0 0 = 5 ∧ header.getD 1 0 = 0) then Dialog.fail error
  else Dialog.ofReader (readSocksBoundAddr (header.getD 3 0))

def socks5Connect (args : Args) : Dialog Unit := do
  socks5Authenticate args
  if (utf8 args.targetHost).length > 255 then Dialog.fail "target host too long"
  else do
    Dialog.write ([5, 1, 0, 3, UInt8.ofNat (utf8 args.targetHost).length] ++ utf8 args.targetHost ++
      toBe 2 args.targetHttpPort.toNat)
    let _ ← readReply "socks5 connect failed"
    pure ()

/-- The address the client sends its datagrams to. -/
def socks5UdpAssociate (args : Args) : Dialog (String × UInt16) := do
  socks5Authenticate args
  Dialog.write [5, 3, 0, 1, 0, 0, 0, 0, 0, 0]
  let (relayHost, relayPort) ← readReply "socks5 udp associate failed"
  pure (if relayHost = "0.0.0.0" ∨ relayHost = "::" then args.host else relayHost, relayPort)

def buildSocksUdpPacket (args : Args) (payload : Bytes) : Except String Bytes :=
  if (utf8 args.targetHost).length > 255 then .error "target host too long"
  else .ok ([0, 0, 0, 3, UInt8.ofNat (utf8 args.targetHost).length] ++ utf8 args.targetHost ++
    toBe 2 args.targetUdpPort.toNat ++ payload)

/-- Where the port stands in a datagram, behind the address type. -/
def udpPortOffset (packet : Bytes) (atyp : UInt8) (cursor : Nat) : Checked Nat :=
  if atyp = 1 then pure (cursor + 4)
  else if atyp = 3 then do
    .ensure (packet.length > cursor) "missing socks5 udp domain length"
    let len ← .index packet cursor
    pure (cursor + (1 + len.toNat))
  else if atyp = 4 then pure (cursor + 16)
  else .failed s!"unsupported socks5 udp address type {atyp}"

def parseSocksUdpPayload (packet : Bytes) : Checked Bytes := do
  .ensure (packet.length ≥ 4) "socks5 udp packet too short"
  let first ← .index packet 0
  let second ← .index packet 1
  let third ← .index packet 2
  .ensure (first = 0 ∧ second = 0 ∧ third = 0) "bad socks5 udp header"
  let atyp ← .index packet 3
  let cursor ← udpPortOffset packet atyp 4
  .ensure (packet.length ≥ cursor + 2) "truncated socks5 udp packet"
  .slice packet (cursor + 2) packet.length

/-! ### Who is let in -/

/-- Whom the port takes a client with these credentials for, if it lets it in. -/
def loginAs (answers : Answers) (credentials : String × String) : Option SocksAuthContext :=
  match answers.findEnabledProxyAccount credentials.1 credentials.2 with
  | .ok (some account) =>
    if answers.allowed (proxyAccountKey account.id) then some ⟨account.clientId, some account.id⟩ else none
  | _ => none

/-- The credentials the client can send. -/
def sentCredentials (args : Args) : Option (String × String) :=
  match args.socks5Username, args.socks5Password with
  | some username, some password =>
    if (utf8 username).length ≤ 255 ∧ (utf8 password).length ≤ 255 then some (username, password) else none
  | _, _ => none

/-- Whom the port takes the client for, if it lets it in. -/
def admission (answers : Answers) (clientId : String) (args : Args) : Option SocksAuthContext :=
  match answers.hasEnabledProxyAccounts with
  | .ok false => some ⟨clientId, none⟩
  | .ok true => (sentCredentials args).bind (loginAs answers)
  | .error _ => none

section Causal
open Dialog (Causal)
open Reader (Stable)

theorem readU8_stable : Stable readU8 := .bind (.readExact 1) fun _ => .pure _

theorem readUsernamePassword_stable : Stable readUsernamePassword := by
  refine .bind readU8_stable fun version => .ite (.fail _) ?_
  refine .bind readU8_stable fun _ => .bind (.readExact _) fun _ => ?_
  refine .bind readU8_stable fun _ => .bind (.readExact _) fun _ => ?_
  exact .bind (.ofExcept _) fun _ => .bind (.ofExcept _) fun _ => .pure _

theorem readHost_stable (atyp : UInt8) : Stable (readHost atyp) := by
  refine .ite ?_ (.ite ?_ (.ite ?_ (.fail _)))
  · exact .bind (.readExact 4) fun _ => .pure _
  · exact .bind (.readExact 16) fun _ => .pure _
  · exact .bind readU8_stable fun _ => .bind (.readExact _) fun _ => .ofExcept _

theorem readSocksAddr_stable (atyp : UInt8) : Stable (readSocksAddr atyp) :=
  .bind (readHost_stable atyp) fun _ => .bind (.bind (.readExact 2) fun _ => .pure _) fun _ => .pure _

theorem authenticate_causal (answers : Answers) (clientId : String) (methods : Bytes) :
    Causal (authenticate answers clientId methods) := by
  refine .bind (.ofExcept _) fun enabled => .ite (.ite ?_ ?_) (.ite ?_ ?_)
  · exact .bind (.write _) fun _ => .fail _
  · refine .bind (.write _) fun _ => .bind (.ofReader readUsernamePassword_stable) fun credentials => ?_
    refine .bind (.ofExcept _) fun account => ?_
    cases account with
    | none => exact .bind (.write _) fun _ => .fail _
    | some account => exact .ite (.bind (.write _) fun _ => .fail _) (.bind (.write _) fun _ => .pure _)
  · exact .bind (.write _) fun _ => .fail _
  · exact .bind (.write _) fun _ => .pure _

theorem request_causal (methods : Bytes) (auth : SocksAuthContext) (credentials : Option (String × String)) :
    Causal (request methods auth credentials) := by
  have haddr (atyp : UInt8) : Causal (requestedAddr atyp) := (Causal.ofReader (readSocksAddr_stable atyp)).onError _
  refine .bind (.ofReader (.readExact 4)) fun header => .ite (.fail _) (.ite (.fail _) (.ite ?_ (.ite ?_ (.ite ?_ ?_))))
  · exact .bind (haddr _) fun _ => .pure _
  · exact .bind (haddr _) fun _ => .pure _
  · exact .bind (.write _) fun _ => .pure _
  · exact .bind (.write _) fun _ => .fail _

theorem serve_causal (serving : Serving) (accepted : Option Accepted) : Causal (serve serving accepted) := by
  unfold serve
  split
  · exact .pure none
  split
  · unfold handleConnect
    split
    · exact .bind (.write _) fun _ => .fail _
    · exact .bind (.write _) fun _ => .pure _
  · exact .bind (.write _) fun _ => .pure _

theorem serveConn_causal (answers : Answers) (serving : Serving) (clientId : String) :
    Causal (serveConn answers serving clientId) := by
  refine .bind (.bind (.ofReader (.readExact 2)) fun hello => .ite (.fail _) ?_) (serve_causal serving)
  refine .bind (.ofReader (.readExact _)) fun methods => .bind (authenticate_causal answers clientId methods) fun auth => ?_
  exact request_causal methods auth.1 auth.2

theorem socks5Authenticate_causal (args : Args) : Causal (socks5Authenticate args) := by
  refine .bind (.write _) fun _ => .bind (.ofReader (.readExact 2)) fun handshake => ?_
  refine .ite (.fail _) (.ite (.pure _) (.ite ?_ (.ite (.fail _) (.fail _))))
  unfold socks5Login
  split
  · exact .fail _
  split
  · exact .fail _
  refine .ite (.fail _) (.ite (.fail _) (.bind (.write _) fun _ => ?_))
  exact .bind (.ofReader (.readExact 2)) fun response => .ite (.fail _) (.pure _)

theorem readReply_causal (error : String) : Causal (readReply error) := by
  refine .bind (.ofReader (.readExact 4)) fun header => .ite (.fail _) (.ofReader ?_)
  refine .bind ?_ fun host => .bind (.readExact 2) fun port => .pure _
  refine .ite ?_ (.ite ?_ (.ite ?_ (.fail _)))
  · exact .bind (.readExact 4) fun _ => .pure _
  · exact .bind (.readExact 1) fun _ => .bind (.readExact _) fun _ => .ofExcept _
  · exact .bind (.readExact 16) fun _ => .pure _

theorem socks5Connect_causal (args : Args) : Causal (socks5Connect args) := by
  refine .bind (socks5Authenticate_causal args) fun _ => .ite (.fail _) ?_
  exact .bind (.write _) fun _ => .bind (readReply_causal _) fun _ => .pure _

theorem socks5UdpAssociate_causal (args : Args) : Causal (socks5UdpAssociate args) := by
  refine .bind (socks5Authenticate_causal args) fun _ => .bind (.write _) fun _ => ?_
  exact .bind (readReply_causal _) fun _ => .pure _

end Causal

/-! ### The login -/

def offered (args : Args) : Bytes := if args.hasAuth then [0, 2] else [0]

section Login
variable {answers : Answers} {serving : Serving} {clientId : String} {args : Args} {α : Type}
  {P : Read α → Read (Option ServedConn) → Prop}

/-- The port behind the login, with what the client was taken for. -/
def behindLogin (serving : Serving) (methods : Bytes) (auth : SocksAuthContext × Option (String × String)) :
    Dialog (Option ServedConn) :=
  request methods auth.1 auth.2 >>= serve serving

/-- The port behind the greeting. -/
theorem serveConn_greeting (ended : Bool) (bs : Bytes) :
    serveConn answers serving clientId ended ((if args.hasAuth then [5, 2, 0, 2] else [5, 1, 0]) ++ bs) =
      (authenticate answers clientId (offered args) >>= behindLogin serving (offered args)) ended bs := by
  have hread (methods : Bytes) (hlen : methods.length < 256) :
      serveConn answers serving clientId ended ([5, UInt8.ofNat methods.length] ++ (methods ++ bs)) =
        (authenticate answers clientId methods >>= behindLogin serving methods) ended bs := by
    have hmethods : methods.length = ([5, UInt8.ofNat methods.length].getD 1 0).toNat :=
      (UInt8.toNat_ofNat_of_lt' hlen).symm
    rw [serveConn, handleConn, Dialog.bind_bind, Dialog.readExact_bind (n := 2) rfl,
      if_neg (by simp [socksVersion]), Dialog.bind_bind]
    rw [Dialog.readExact_bind hmethods, Dialog.bind_bind]
    rfl
  cases h : args.hasAuth with
  | true => simpa [offered, h] using hread [0, 2] (by decide)
  | false => simpa [offered, h] using hread [0] (by decide)

/-- What the port does with the credentials: it answers, or stops without an answer. -/
def checkLogin (answers : Answers) (credentials : String × String) :
    Dialog (SocksAuthContext × Option (String × String)) := do
  let account ← Dialog.ofExcept (answers.findEnabledProxyAccount credentials.1 credentials.2)
  match account with
  | none => do
    Dialog.write [1, 1]
    Dialog.fail "socks5 username/password authentication failed"
  | some account =>
    if answers.allowed (proxyAccountKey account.id) = false then do
      Dialog.write [1, 1]
      Dialog.fail "socks5 account disabled by policy"
    else do
      Dialog.write [1, 0]
      pure (⟨account.clientId, some account.id⟩, some credentials)

theorem authenticate_accounts (h : answers.hasEnabledProxyAccounts = .ok true) (methods : Bytes) :
    Socks5.authenticate answers clientId methods =
      if methodUsernamePassword ∉ methods then
        Dialog.write [5, 0xff] >>= fun _ => Dialog.fail "socks5 username/password method is not offered"
      else Dialog.write [5, 2] >>= fun _ => Dialog.ofReader readUsernamePassword >>= checkLogin answers := by
  rw [Socks5.authenticate, h, Dialog.ofExcept_ok_bind, if_pos rfl]
  rfl

theorem checkLogin_cases (answers : Answers) (credentials : String × String) :
    (∃ auth, loginAs answers credentials = some auth ∧
        checkLogin answers credentials = (Dialog.write [1, 0] >>= fun _ => pure (auth, some credentials))) ∨
      (loginAs answers credentials = none ∧ ∃ e, checkLogin answers credentials = Dialog.fail e ∨
        checkLogin answers credentials = (Dialog.write [1, 1] >>= fun _ => Dialog.fail e)) := by
  unfold checkLogin loginAs
  cases hfind : answers.findEnabledProxyAccount credentials.1 credentials.2 with
  | error e => exact .inr ⟨rfl, e, .inl (Dialog.fail_bind e _)⟩
  | ok found =>
    rw [Dialog.ofExcept_ok_bind]
    cases found with
    | none => exact .inr ⟨rfl, _, .inr rfl⟩
    | some account =>
      cases hallowed : answers.allowed (proxyAccountKey account.id) with
      | false =>
        refine .inr ⟨by simp [hallowed], "socks5 account disabled by policy", .inr ?_⟩
        simp only [hallowed, if_true]
      | true =>
        refine .inl ⟨⟨account.clientId, some account.id⟩, by simp [hallowed], ?_⟩
        simp only [hallowed, Bool.true_eq_false, if_false]

theorem login_finishes {k : Unit → Dialog α} {credentials : String × String} {methods : Bytes}
    (hu : (utf8 credentials.1).length ≤ 255) (hp : (utf8 credentials.2).length ≤ 255)
    (hin : ∀ auth, loginAs answers credentials = some auth →
      Talk.Finishes (k ()) (behindLogin serving methods (auth, some credentials)) P)
    (hout : loginAs answers credentials = none → ∀ x y, Read.Failed x → Read.Failed y → P x y) :
    Talk.Finishes
      (Dialog.write (loginMessage credentials.1 credentials.2) >>= fun _ =>
        Dialog.ofReader (Reader.readExact 2) >>= fun response =>
          (if response ≠ [1, 0] then Dialog.fail "socks5 username/password authentication failed" else pure ()) >>= k)
      (Dialog.ofReader readUsernamePassword >>= fun credentials =>
        checkLogin answers credentials >>= behindLogin serving methods) P := by
  have hread (bs : Bytes) :
      readUsernamePassword (loginMessage credentials.1 credentials.2 ++ bs) = .done credentials bs :=
    (readUsernamePassword_exact _ credentials bs).mpr
      ⟨_, ⟨Nat.lt_succ_of_le hu, Nat.lt_succ_of_le hp, rfl⟩, rfl⟩
  have hanswer (b : UInt8) (bs : Bytes) : Reader.readExact 2 ([1, b] ++ bs) = .done [1, b] bs :=
    Reader.readExact_of_length rfl bs
  refine .say hread ?_
  rcases checkLogin_cases answers credentials with ⟨auth, hauth, hcheck⟩ | ⟨hnone, e, hcheck | hcheck⟩
  · rw [hcheck, Dialog.bind_bind]
    refine .hear (hanswer 0) ?_
    rw [if_neg (by decide)]
    exact hin auth hauth
  · rw [hcheck, Dialog.fail_bind]
    exact .right_failed rfl (hout hnone _ _ ⟨_, rfl⟩ ⟨_, rfl⟩)
  · rw [hcheck, Dialog.bind_bind]
    refine .hear (hanswer 1) ?_
    rw [if_pos (by decide), Dialog.fail_bind, Dialog.fail_bind]
    exact .failed (hout hnone _ _ ⟨_, rfl⟩ ⟨_, rfl⟩)

/-- What the client does when asked to log in: it stops, or sends its credentials. -/
theorem socks5Login_cases (args : Args) :
    (sentCredentials args = none ∧ ∃ e, socks5Login args = Dialog.fail e) ∨
      ∃ credentials, sentCredentials args = some credentials ∧ args.hasAuth = true ∧
        (utf8 credentials.1).length ≤ 255 ∧ (utf8 credentials.2).length ≤ 255 ∧
        socks5Login args = (Dialog.write (loginMessage credentials.1 credentials.2) >>= fun _ =>
          Dialog.ofReader (Reader.readExact 2) >>= fun response =>
            if response ≠ [1, 0] then Dialog.fail "socks5 username/password authentication failed" else pure ()) := by
  unfold socks5Login sentCredentials
  cases husername : args.socks5Username with
  | none => exact .inl ⟨rfl, _, rfl⟩
  | some username =>
    cases hpassword : args.socks5Password with
    | none => exact .inl ⟨rfl, _, rfl⟩
    | some password =>
      by_cases hu : (utf8 username).length ≤ 255
      · by_cases hp : (utf8 password).length ≤ 255
        · refine .inr ⟨(username, password), if_pos ⟨hu, hp⟩, by simp [Args.hasAuth, husername], hu, hp, ?_⟩
          simp only [if_neg (Nat.not_lt.mpr hu), if_neg (Nat.not_lt.mpr hp)]
          simp [loginMessage, field]
        · exact .inl ⟨if_neg fun h => hp h.2, "socks5 password too long", by simp [hu, Nat.not_le.mp hp]⟩
      · exact .inl ⟨if_neg fun h => hu h.1, "socks5 username too long", by simp [Nat.not_le.mp hu]⟩

/-- Both ends of the login, whatever they go on with. -/
theorem authenticate_finishes {k : Unit → Dialog α}
    (hin : ∀ auth credentials, admission answers clientId args = some auth →
      Talk.Finishes (k ()) (behindLogin serving (offered args) (auth, credentials)) P)
    (hout : admission answers clientId args = none → ∀ x y, Read.Failed x → Read.Failed y → P x y) :
    Talk.Finishes (socks5Authenticate args >>= k) (serveConn answers serving clientId) P := by
  have hanswer (b : UInt8) (bs : Bytes) : Reader.readExact 2 ([5, b] ++ bs) = .done [5, b] bs :=
    Reader.readExact_of_length rfl bs
  rw [socks5Authenticate, Dialog.bind_bind]
  refine .behind serveConn_greeting ?_
  rw [Dialog.bind_bind]
  cases henabled : answers.hasEnabledProxyAccounts with
  | error e =>
    rw [Socks5.authenticate, henabled, show (Dialog.ofExcept (.error e) : Dialog Bool) = Dialog.fail e from rfl,
      Dialog.fail_bind, Dialog.fail_bind]
    exact .right_failed rfl (hout (by simp [admission, henabled]) _ _ ⟨_, rfl⟩ ⟨_, rfl⟩)
  | ok enabled =>
    cases enabled with
    | false =>
      have hoffered : ¬ methodNoAuth ∉ offered args := by
        cases h : args.hasAuth <;> simp [offered, h, methodNoAuth]
      rw [Socks5.authenticate, henabled, Dialog.ofExcept_ok_bind, if_neg (by simp), if_neg hoffered, Dialog.bind_bind]
      refine .hear (hanswer 0) ?_
      rw [if_neg (by decide), if_pos (by decide)]
      exact hin _ none (by simp [admission, henabled])
    | true =>
      rw [authenticate_accounts henabled]
      rcases socks5Login_cases args with ⟨hnone, e, hclient⟩ | ⟨credentials, hsome, hauth, hu, hp, hclient⟩
      · have hadmission : admission answers clientId args = none := by simp [admission, henabled, hnone]
        by_cases hoffered : methodUsernamePassword ∉ offered args
        · rw [if_pos hoffered, Dialog.bind_bind]
          refine .hear (hanswer 0xff) ?_
          rw [if_neg (by decide), if_neg (by decide), if_neg (by decide), if_pos (by decide), Dialog.fail_bind,
            Dialog.fail_bind]
          exact .failed (hout hadmission _ _ ⟨_, rfl⟩ ⟨_, rfl⟩)
        · rw [if_neg hoffered, Dialog.bind_bind]
          refine .hear (hanswer 2) ?_
          rw [if_neg (by decide), if_neg (by decide), if_pos (by decide), hclient, Dialog.fail_bind, Dialog.bind_bind]
          exact .left_failed rfl (hout hadmission _ _ ⟨_, rfl⟩ ⟨_, rfl⟩)
      · have hoffered : ¬ methodUsernamePassword ∉ offered args := by simp [offered, hauth, methodUsernamePassword]
        rw [if_neg hoffered, Dialog.bind_bind]
        refine .hear (hanswer 2) ?_
        rw [if_neg (by decide), if_neg (by decide), if_pos (by decide), hclient, Dialog.bind_bind, Dialog.bind_bind]
        simp only [Dialog.bind_bind]
        refine login_finishes hu hp (fun auth hlogin => ?_) fun hnone => ?_
        · exact hin auth _ (by simp [admission, henabled, hsome, hlogin])
        · exact hout (by simp [admission, henabled, hsome, hnone])

end Login

/-! ### The request and the reply -/

theorem requestedAddr_bind {β : Type} {atyp : UInt8} {addr : SocksAddr} {bs rest : Bytes}
    (h : readSocksAddr atyp bs = .done addr rest) (f : SocksAddr → Dialog β) (ended : Bool) :
    (requestedAddr atyp >>= f) ended bs = f addr ended rest := by
  have hread : Dialog.ofReader (readSocksAddr atyp) ended bs = ⟨[], .done addr rest⟩ := by
    cases ended with
    | false => exact congrArg (Turn.mk []) h
    | true => exact congrArg (Turn.mk []) (Reader.closed_eq_done.mpr h)
  have hturn : requestedAddr atyp ended bs = ⟨[], .done addr rest⟩ := by
    rw [requestedAddr, Dialog.onError_of_not_invalid (by simp [hread]), hread]
  rw [Dialog.bind_done (congrArg Turn.read hturn), hturn]
  rfl

/-- The port behind a request. -/
theorem behindLogin_request (serving : Serving) (methods : Bytes)
    (auth : SocksAuthContext × Option (String × String)) (command : Command) {addr : SocksAddr} {word : Bytes}
    (hread : ∀ bs, readSocksAddr addr.atyp (word ++ bs) = .done addr bs) (ended : Bool) (bs : Bytes) :
    behindLogin serving methods auth ended ([5, command.code, 0, addr.atyp] ++ word ++ bs) =
      serve serving (some ⟨methods, auth.2, auth.1, command, addr⟩) ended bs := by
  rw [behindLogin, request, Dialog.bind_bind, List.append_assoc, Dialog.readExact_bind (n := 4) rfl,
    if_neg (by simp [socksVersion]), if_neg (by simp)]
  cases command with
  | connect =>
    have hcommand : [5, Command.connect.code, 0, addr.atyp].getD 1 0 = cmdConnect := rfl
    rw [if_pos hcommand, Dialog.bind_bind]
    exact requestedAddr_bind (hread bs) _ _
  | udpAssociate =>
    have hcommand : [5, Command.udpAssociate.code, 0, addr.atyp].getD 1 0 = cmdUdpAssociate := rfl
    rw [if_neg (by rw [hcommand]; decide), if_pos hcommand, Dialog.bind_bind]
    exact requestedAddr_bind (hread bs) _ _

theorem behindLogin_eq (serving : Serving) (methods : Bytes) (auth : SocksAuthContext × Option (String × String)) :
    ∃ g, behindLogin serving methods auth = (Dialog.ofReader (Reader.readExact 4) >>= g) :=
  ⟨_, Dialog.bind_bind _ _ _⟩

/-- A bound address, as the client reads it back. -/
def boundAddr (bindAddr : Option SocketAddr) : String × UInt16 :=
  let bindAddr := bindAddr.getD ⟨.v4 0, 0⟩
  ((namedIp bindAddr.ip).text, bindAddr.port)

theorem readBoundHost_octets (ip : IpAddr) (bs : Bytes) :
    readBoundHost (atypOf ip) (ip.octets ++ bs) = .done ip.text bs := by
  cases ip with
  | v4 addr =>
    exact Reader.bind_of_done (Reader.readExact_of_length (length_toBe 4 _) bs)
  | v6 addr =>
    exact Reader.bind_of_done (Reader.readExact_of_length (length_toBe 16 _) bs)

theorem readSocksBoundAddr_reply (bindAddr : SocketAddr) (bs : Bytes) :
    readSocksBoundAddr (atypOf (namedIp bindAddr.ip))
      ((namedIp bindAddr.ip).octets ++ toBe 2 bindAddr.port.toNat ++ bs) =
      .done ((namedIp bindAddr.ip).text, bindAddr.port) bs := by
  rw [readSocksBoundAddr, List.append_assoc, Reader.bind_of_done (readBoundHost_octets _ _),
    Reader.bind_of_done (Reader.readExact_of_length (length_toBe 2 _) bs), ofBe_toBe _ _ bindAddr.port.toNat_lt,
    UInt16.ofNat_toNat]
  rfl

/-- The client behind the reply to a request that was served. -/
theorem readReply_succeeded {β : Type} (error : String) (bindAddr : Option SocketAddr) (f : String × UInt16 → Dialog β)
    (ended : Bool) (bs : Bytes) :
    (readReply error >>= f) ended (replyWith repSucceeded bindAddr ++ bs) = f (boundAddr bindAddr) ended bs := by
  rw [readReply, Dialog.bind_bind, replyWith, List.append_assoc, Dialog.readExact_bind (n := 4) rfl,
    if_neg (by simp [socksVersion, repSucceeded])]
  exact Dialog.ofReader_bind_done (readSocksBoundAddr_reply _ bs) ended

/-- The client behind the reply to a request that was not. -/
theorem readReply_refused {β : Type} (error : String) (f : String × UInt16 → Dialog β) (ended : Bool) (bs : Bytes) :
    (readReply error >>= f) ended (sendReply repGeneralFailure ++ bs) = (Dialog.fail error : Dialog β) ended bs := by
  rw [readReply, Dialog.bind_bind, sendReply,
    show [socksVersion, repGeneralFailure, 0, atypIpv4, 0, 0, 0, 0, 0, 0] ++ bs =
      [socksVersion, repGeneralFailure, 0, atypIpv4] ++ ([0, 0, 0, 0, 0, 0] ++ bs) from rfl,
    Dialog.readExact_bind (n := 4) rfl, if_pos (by decide), Dialog.fail_bind]
  cases ended <;> rfl

/-! ### Two ends of one connection -/

section Agreement
variable {answers : Answers} {serving : Serving} {clientId : String} {args : Args}

/-- The address of the client's request. -/
def Args.addr (args : Args) : SocksAddr := ⟨args.targetHost, args.targetHttpPort, atypDomain⟩

theorem Args.addr_target (args : Args) : args.addr.target = args.target := by
  have hatyp : ¬ args.addr.atyp = atypIpv6 := by
    show ¬ atypDomain = atypIpv6
    decide
  exact if_neg hatyp

/-- The request, as the port reads it. -/
theorem request_word (args : Args) :
    [5, 1, 0, 3, UInt8.ofNat (utf8 args.targetHost).length] ++ utf8 args.targetHost ++ toBe 2 args.targetHttpPort.toNat =
      [5, Command.connect.code, 0, args.addr.atyp] ++
        (field (utf8 args.targetHost) ++ toBe 2 args.targetHttpPort.toNat) := by
  simp [field, Command.code, cmdConnect, Args.addr, atypDomain]

/-- The domain name and port of a request or a datagram. -/
theorem readSocksAddr_domain {host : String} (h : (utf8 host).length ≤ 255) (port : UInt16) (bs : Bytes) :
    readSocksAddr atypDomain (field (utf8 host) ++ toBe 2 port.toNat ++ bs) = .done ⟨host, port, atypDomain⟩ bs :=
  (readSocksAddr_exact atypDomain _ ⟨host, port, atypDomain⟩ bs).mpr
    ⟨_, ⟨rfl, _, .domain host (Nat.lt_succ_of_le h), rfl⟩, rfl⟩

/-- The client is let in as `auth`, its host can be sent, and the stream to its target is opened. -/
def Reaches (answers : Answers) (serving : Serving) (clientId : String) (args : Args) (auth : SocksAuthContext) : Prop :=
  admission answers clientId args = some auth ∧ (utf8 args.targetHost).length ≤ 255 ∧
    serving.openPoolStream (streamRoute auth) args.target = .ok ()

/-- **Agreement on CONNECT.** Every order in which the connection delivers the bytes of the
two ends, in pieces of any size, ends both. If the client is let in, can send its host and
the stream is opened, both succeed: the port relays to the client's own target on the
route of the account it logged in with, and neither has a byte of the handshake left.
Otherwise both fail. -/
theorem socks5_connect_agrees (answers : Answers) (serving : Serving) (clientId : String) (args : Args) :
    Talk.EndsIn (socks5Connect args) (serveConn answers serving clientId) fun client server =>
      (∃ auth, Reaches answers serving clientId args auth ∧ client = .done () [] ∧
          server = .done (some (.connected (streamRoute auth) args.target)) []) ∨
        ((∀ auth, ¬ Reaches answers serving clientId args auth) ∧ client.Failed ∧ server.Failed) := by
  refine Talk.Finishes.endsIn ?_ (socks5Connect_causal args) (serveConn_causal answers serving clientId)
  rw [socks5Connect]
  refine authenticate_finishes (fun auth credentials hauth => ?_) fun hnone client server hclient hserver => ?_
  · by_cases hhost : (utf8 args.targetHost).length ≤ 255
    · rw [if_neg (Nat.not_lt.mpr hhost)]
      rw [request_word]
      refine .behind (behindLogin_request serving _ _ .connect (readSocksAddr_domain hhost args.targetHttpPort)) ?_
      show Talk.Finishes _ (handleConnect serving auth args.addr.target) _
      rw [args.addr_target, handleConnect]
      cases hopen : serving.openPoolStream (streamRoute auth) args.target with
      | error err =>
        have hnot : ∀ auth, ¬ Reaches answers serving clientId args auth := by
          intro auth' h
          obtain rfl : auth = auth' := Option.some.inj (hauth.symm.trans h.1)
          simpa [hopen] using h.2.2
        refine .told (readReply_refused _ _) (.failed (.inr ⟨hnot, ⟨_, rfl⟩, ⟨_, rfl⟩⟩))
      | ok _ =>
        refine .told (readReply_succeeded _ _ _) (.done (.inl ⟨auth, ⟨hauth, hhost, hopen⟩, rfl, rfl⟩))
    · rw [if_pos (Nat.not_le.mp hhost)]
      obtain ⟨g, hg⟩ := behindLogin_eq serving (offered args) (auth, credentials)
      rw [hg]
      exact .left_failed rfl (.inr ⟨fun _ h => hhost h.2.1, ⟨_, rfl⟩, ⟨_, rfl⟩⟩)
  · exact .inr ⟨fun auth h => by simpa [hnone] using h.1, hclient, hserver⟩

/-! ### UDP -/

/-- The address the client sends its datagrams to, when the port's is `udpAddr`. -/
def relayAddr (args : Args) (udpAddr : SocketAddr) : String × UInt16 :=
  (if udpAddr.ip.isUnspecified then args.host else udpAddr.ip.text, udpAddr.port)

theorem ipv4_unspecified (addr : BitVec 32) :
    ((IpAddr.v4 addr).text = "0.0.0.0" ∨ (IpAddr.v4 addr).text = "::") ↔ addr = 0 := by
  have hlen : (IpAddr.v4 addr).octets.length = 4 := length_toBe 4 _
  have hread : readIpv4 (IpAddr.v4 addr).text.toList = (IpAddr.v4 addr).octets :=
    readIpv4_ipv4ToString (by rw [← List.length_pos_iff, hlen]; omega)
  constructor
  · intro h
    rcases h with h | h
    · have hzero : (IpAddr.v4 addr).octets = List.replicate 4 0 := by
        rw [← hread, h]
        decide +kernel
      have hvalue : addr.toNat = 0 := by
        rw [← ofBe_toBe 4 addr.toNat addr.isLt]
        exact congrArg ofBe hzero
      exact BitVec.eq_of_toNat_eq hvalue
    · rw [h] at hread
      rw [← hread] at hlen
      exact absurd hlen (by decide +kernel)
  · rintro rfl
    exact .inl (by decide +kernel)

theorem ipv6_unspecified {addr : BitVec 128} (h : (IpAddr.v6 addr).text = "0.0.0.0" ∨ (IpAddr.v6 addr).text = "::") :
    addr = 0 := by
  have hlen : (IpAddr.v6 addr).octets.length = 16 := length_toBe 16 _
  have hread : readIpv6 (IpAddr.v6 addr).text.toList = (IpAddr.v6 addr).octets := readIpv6_ipv6ToString hlen
  rcases h with h | h
  · rw [h] at hread
    rw [← hread] at hlen
    exact absurd hlen (by decide +kernel)
  · have hzero : (IpAddr.v6 addr).octets = List.replicate 16 0 := by
      rw [← hread, h]
      decide +kernel
    have hvalue : addr.toNat = 0 := by
      rw [← ofBe_toBe 16 addr.toNat addr.isLt]
      exact congrArg ofBe hzero
    exact BitVec.eq_of_toNat_eq hvalue

/-- The client falls back on the port's own host exactly if the port has no address to name. -/
theorem boundAddr_relay (args : Args) (udpAddr : SocketAddr) :
    (if (boundAddr (some udpAddr)).1 = "0.0.0.0" ∨ (boundAddr (some udpAddr)).1 = "::" then args.host
      else (boundAddr (some udpAddr)).1, (boundAddr (some udpAddr)).2) = relayAddr args udpAddr := by
  have hport : (boundAddr (some udpAddr)).2 = udpAddr.port := rfl
  have hhost : (boundAddr (some udpAddr)).1 = (namedIp udpAddr.ip).text := rfl
  rw [hport, hhost, relayAddr]
  cases hip : udpAddr.ip with
  | v4 addr => simp only [namedIp, ipv4_unspecified, IpAddr.isUnspecified, decide_eq_true_eq]
  | v6 addr =>
    by_cases hzero : addr = 0
    · have hnamed : namedIp (.v6 addr) = .v4 0 := if_pos hzero
      rw [hnamed, if_pos ((ipv4_unspecified 0).mpr rfl), if_pos (by simp [IpAddr.isUnspecified, hzero])]
    · have hnamed : namedIp (.v6 addr) = .v6 addr := if_neg hzero
      rw [hnamed, if_neg fun h => hzero (ipv6_unspecified h), if_neg (by simpa [IpAddr.isUnspecified] using hzero)]

theorem udpPortOffset_host {atyp : UInt8} {text : String} {host : Bytes} (h : HostWord atyp text host) (rest : Bytes) :
    udpPortOffset ([0, 0, 0, atyp] ++ (host ++ rest)) atyp 4 = .ok (4 + host.length) := by
  cases h with
  | ipv4 octets hlen => rw [udpPortOffset, if_pos (by decide), hlen, Checked.pure_eq]
  | ipv6 octets hlen => rw [udpPortOffset, if_neg (by decide), if_neg (by decide), if_pos (by decide), hlen, Checked.pure_eq]
  | domain _ hlen =>
    have hlength : (UInt8.ofNat (utf8 text).length).toNat = (utf8 text).length := UInt8.toNat_ofNat_of_lt' hlen
    rw [udpPortOffset, if_neg (by decide), if_pos (by decide), Checked.ensure_bind (by simp [field]), Checked.index_eq rfl,
      Checked.ok_bind, hlength, Checked.pure_eq, field, List.length_cons, Nat.add_comm 1]

/-- The client takes the payload of every datagram the port parses. -/
theorem parseSocksUdpPayload_datagram {addr : SocksAddr} {payload packet : Bytes} (h : Datagram addr payload packet) :
    parseSocksUdpPayload packet = .ok payload := by
  obtain ⟨host, hhost, rfl⟩ := h
  have hoffset := udpPortOffset_host hhost (toBe 2 addr.port.toNat ++ payload)
  have hport : (toBe 2 addr.port.toNat).length = 2 := length_toBe 2 _
  have hdrop : ([0, 0, 0, addr.atyp] ++ (host ++ (toBe 2 addr.port.toNat ++ payload))).drop (4 + host.length + 2) =
      payload := by
    rw [← List.append_assoc, ← List.append_assoc]
    exact List.drop_left' (by simp [hport]; omega)
  rw [List.append_assoc, List.append_assoc, parseSocksUdpPayload, Checked.ensure_bind (by simp), Checked.index_eq rfl,
    Checked.ok_bind, Checked.index_eq rfl, Checked.ok_bind, Checked.index_eq rfl, Checked.ok_bind,
    Checked.ensure_bind ⟨rfl, rfl, rfl⟩, Checked.index_eq rfl, Checked.ok_bind, hoffset, Checked.ok_bind,
    Checked.ensure_bind (by simp [hport]; omega), Checked.slice, if_pos ⟨by simp [hport]; omega, le_rfl⟩,
    ← List.length_drop, List.take_length, hdrop]

/-- The address in the client's request for an association. -/
def anyAddr : SocksAddr := ⟨ipv4ToString [0, 0, 0, 0], 0, atypIpv4⟩

/-- **Agreement on UDP ASSOCIATE.** Both ends end with the client admitted and the client
sending to the port's UDP address, or to the port's host if that address is unspecified;
if the client is not admitted both fail. What the client then sends is parsed as its
target and its payload, and from every answer the client takes the payload it was
given. -/
theorem socks5_udp_agrees (ip : IpText) (hip : ip.ParsesBack) (answers : Answers) (serving : Serving)
    (clientId : String) (args : Args) :
    (Talk.EndsIn (socks5UdpAssociate args) (serveConn answers serving clientId) fun client server =>
      (∃ auth, admission answers clientId args = some auth ∧ client = .done (relayAddr args serving.udpAddr) [] ∧
          server = .done (some (.associated auth)) []) ∨
        (admission answers clientId args = none ∧ client.Failed ∧ server.Failed)) ∧
    (∀ payload packet, buildSocksUdpPacket args payload = .ok packet →
      parseUdpPacket packet = .ok (⟨args.targetHost, args.targetUdpPort, atypDomain⟩, payload)) ∧
    ∀ addr, Obtainable addr → ∀ payload, ∃ packet, addr.encodeUdpResponse ip payload = .ok packet ∧
      parseSocksUdpPayload packet = .ok payload := by
  refine ⟨?_, ?_, ?_⟩
  · refine Talk.Finishes.endsIn ?_ (socks5UdpAssociate_causal args) (serveConn_causal answers serving clientId)
    rw [socks5UdpAssociate]
    refine authenticate_finishes (fun auth credentials hauth => ?_) fun hnone client server hclient hserver => ?_
    · have hread (bs : Bytes) : readSocksAddr anyAddr.atyp ([0, 0, 0, 0, 0, 0] ++ bs) = .done anyAddr bs :=
        (readSocksAddr_exact atypIpv4 _ anyAddr bs).mpr ⟨_, ⟨rfl, _, .ipv4 [0, 0, 0, 0] rfl, rfl⟩, rfl⟩
      have hword : [5, 3, 0, 1, 0, 0, 0, 0, 0, 0] =
          [5, Command.udpAssociate.code, 0, anyAddr.atyp] ++ [0, 0, 0, 0, 0, 0] := rfl
      rw [hword]
      refine .behind (behindLogin_request serving _ _ .udpAssociate hread) ?_
      refine .told (readReply_succeeded _ _ _) (.done (.inl ⟨auth, hauth, ?_, rfl⟩))
      exact congrArg (Read.done · []) (boundAddr_relay args serving.udpAddr)
    · exact .inr ⟨hnone, hclient, hserver⟩
  · intro payload packet hbuild
    unfold buildSocksUdpPacket at hbuild
    split at hbuild
    · cases hbuild
    · next hlen =>
      obtain rfl := Except.ok.inj hbuild
      refine parseUdpPacket_eq_ok.mpr ⟨_, .domain args.targetHost (by omega), ?_⟩
      simp [field, atypDomain]
  · intro addr haddr payload
    obtain ⟨host, hhost⟩ := haddr.hostWord
    have hdatagram : Datagram addr payload _ := ⟨host, hhost, rfl⟩
    exact ⟨_, encodeUdpResponse_eq hip hdatagram, parseSocksUdpPayload_datagram hdatagram⟩

/-- A port without accounts that listens on every address: the client is admitted and sends
its datagrams to the host it connected to. -/
theorem socks5_udp_agrees_open :
    Talk.EndsIn (socks5UdpAssociate ⟨"h", "a", 80, 53, none, none⟩)
      (serveConn ⟨.ok false, fun _ _ => .ok none, fun _ => true⟩ ⟨fun _ _ => .ok (), none, ⟨.v6 0, 1080⟩⟩ "c")
      (fun client server => client = .done ("h", 1080) [] ∧ server = .done (some (.associated ⟨"c", none⟩)) []) ∧
    ∃ packet, (⟨"a", 53, atypDomain⟩ : SocksAddr).encodeUdpResponse .canonical [7] = .ok packet ∧
      parseSocksUdpPayload packet = .ok [7] := by
  obtain ⟨hends, -, hanswers⟩ := socks5_udp_agrees .canonical IpText.canonical_parsesBack
    ⟨.ok false, fun _ _ => .ok none, fun _ => true⟩ ⟨fun _ _ => .ok (), none, ⟨.v6 0, 1080⟩⟩ "c"
    ⟨"h", "a", 80, 53, none, none⟩
  refine ⟨hends.mono fun client server h => ?_, hanswers _ (.inl ⟨[3, 1, 0x61, 0, 53], 0, 5, by decide⟩) [7]⟩
  rcases h with ⟨auth, hauth, hclient, hserver⟩ | h
  · obtain rfl := Option.some.inj hauth
    exact ⟨hclient, hserver⟩
  · cases h.1

end Agreement

end Rps.Loadtest
