import Rps.Base.Duet
import Rps.Core.Protocol
import Rps.Core.Psk
import Rps.Core.Transport
import Rps.Controller.Bridge

/-! How an agent and the controller agree on a connection.

`connect_role` and `handle_conn` talk twice. On the plain connection the agent names its
client and both run the Noise handshake under the client's key; on the encrypted stream
that follows the agent says its role and waits for the acknowledgement. `snow` and
`serde_json` are parameters (`NoiseNN`, `Texts`).

`connect_role_agrees`: whatever the pieces the link delivers and whenever it delivers them,
both talks come to an end; either the controller knows the client and both have the same
key, and then both go on with the same transport keys, the agent's client and the agent's
role, with nothing of the handshake left unread, or both give the connection up. -/
namespace Rps.Controller.Handshake
open Base Rps.Core

def magic : String := "RPS1"
def version : String := "0.1.0"

structure NoisePrelude where
  magic : String
  clientId : String
  version : String
  deriving DecidableEq

def NoisePrelude.new (clientId : String) : NoisePrelude := ⟨Handshake.magic, clientId, Handshake.version⟩

structure Hello where
  magic : String
  role : HelloRole
  clientId : String
  version : String
  deriving DecidableEq

def Hello.new (role : HelloRole) (clientId : String) : Hello := ⟨Handshake.magic, role, clientId, Handshake.version⟩

structure HelloAck where
  ok : Bool
  error : Option String
  serverVersion : String
  deriving DecidableEq

/-- `HelloAck::ok`. -/
def HelloAck.success : HelloAck := ⟨true, none, version⟩

def HelloAck.err (error : String) : HelloAck := ⟨false, some error, version⟩

/-- `serde_json` at the three messages. -/
structure Texts where
  prelude : Codec NoisePrelude
  hello : Codec Hello
  ack : Codec HelloAck

structure AgentConfig where
  clientId : String
  psk : String
  deriving DecidableEq

/-- `serde_json` reads the messages of a handshake back, and the acknowledgement's text is
a short one. -/
structure Texts.Documented (J : Texts) (config : AgentConfig) (role : HelloRole) : Prop where
  prelude : J.prelude.Decodes (.new config.clientId)
  hello : J.hello.Decodes (.new role config.clientId)
  ack : J.ack.Decodes .success
  short : (J.ack.toVec .success).length ≤ maxJsonMessageLen

/-- `snow` with `Noise_NNpsk0` in one handshake, the ephemeral keys of both ends drawn:
the initiator's message, the responder's answer to a message, and the initiator's reading
of the answer. `K` are the transport keys. -/
structure NoiseNN (K : Type) where
  initiate : (psk : Bytes) → Bytes
  respond : (psk message : Bytes) → Option (Bytes × K)
  finish : (psk message : Bytes) → Option K

/-- What the Noise framework documents of the pattern: under one key of 32 bytes both ends
derive the same transport keys, and the first message is authenticated by the key. -/
structure NoiseNN.Documented {K : Type} (S : NoiseNN K) : Prop where
  fits : ∀ psk, psk.length = pskLen → (S.initiate psk).length ≤ maxNoiseMessageLen
  agree : ∀ psk, psk.length = pskLen → ∃ message keys, S.respond psk (S.initiate psk) = some (message, keys) ∧
    message.length ≤ maxNoiseMessageLen ∧ S.finish psk message = some keys
  rejects : ∀ psk psk', psk.length = pskLen → psk'.length = pskLen → psk ≠ psk' →
    S.respond psk' (S.initiate psk) = none

/-- A computation that fails ends the task; so does one that panics. -/
def ofChecked {α : Type} : Checked α → Dialog α
  | .ok a => pure a
  | .failed error => Dialog.fail error
  | .panicked => Dialog.fail "panicked"

/-- `write_json` on the connection. -/
def sendJson {α : Type} (C : Codec α) (a : α) : Dialog Unit := do
  let bytes ← Dialog.ofExcept (C.writeJson a)
  Dialog.write bytes

def sendNoise (message : Bytes) : Dialog Unit := do
  let bytes ← Dialog.ofExcept (writeNoiseMessage message)
  Dialog.write bytes

section Dialogs
variable {K : Type} (S : NoiseNN K) (J : Texts)

/-- What `snow` returns, or its error. -/
def opened {α : Type} : Option α → Dialog α
  | some a => pure a
  | none => Dialog.fail "decrypt error"

/-- `noise::connect`. -/
def connect (psk : String) : Dialog K := do
  let key ← ofChecked (decodePsk psk)
  sendNoise (S.initiate key)
  let message ← Dialog.ofReader readNoiseMessage
  opened (S.finish key message)

/-- `noise::accept`. -/
def accept (psk : String) : Dialog K := do
  let key ← ofChecked (decodePsk psk)
  let message ← Dialog.ofReader readNoiseMessage
  let (answer, keys) ← opened (S.respond key message)
  sendNoise answer
  pure keys

/-- `connect_role` on the plain connection. -/
def connectPlain (config : AgentConfig) : Dialog K := do
  sendJson J.prelude (NoisePrelude.new config.clientId)
  connect S config.psk

/-- The end of `connect_role`. -/
def readAck : Dialog Unit := do
  let ack ← Dialog.ofReader J.ack.readJson
  let error := ack.error.getD "unknown error"
  if ack.ok = false then Dialog.fail s!"controller rejected handshake: {error}" else pure ()

/-- `connect_role` on the encrypted stream. -/
def connectRole (config : AgentConfig) (role : HelloRole) : Dialog Unit := do
  sendJson J.hello (Hello.new role config.clientId)
  readAck J

/-- `handle_conn` with the client's id. `find` is what `find_enabled_client_by_id` answers:
the key of the enabled client with that id. -/
def admitClient (find : String → Except String (Option String)) (clientId : String) : Dialog (String × K) := do
  let client ← Dialog.ofExcept (find clientId)
  match client with
  | none => Dialog.fail "invalid client id"
  | some psk => do
    let keys ← accept S psk
    pure (clientId, keys)

/-- `handle_conn` on the plain connection. -/
def handlePlain (find : String → Except String (Option String)) : Dialog (String × K) := do
  let prelude ← Dialog.ofReader J.prelude.readJson
  if prelude.magic ≠ magic then Dialog.fail "bad magic" else admitClient S find prelude.clientId

/-- `handle_conn` on the encrypted stream, up to the role it goes on with. -/
def handleHello (clientId : String) : Dialog (Option HelloRole) := do
  let hello ← Dialog.ofReader J.hello.readJson
  if hello.magic ≠ magic then do
    sendJson J.ack (.err "bad magic")
    pure none
  else if hello.clientId ≠ clientId then do
    sendJson J.ack (.err "client id mismatch")
    pure none
  else do
    sendJson J.ack .success
    pure (some hello.role)

end Dialogs

/-- The controller knows the client, and both ends have one key. -/
def SameKey (find : String → Except String (Option String)) (config : AgentConfig) : Prop :=
  ∃ psk key, find config.clientId = .ok (some psk) ∧ decodePsk psk = .ok key ∧ decodePsk config.psk = .ok key

/-- `write_json` takes the message. -/
def Fits {α : Type} (C : Codec α) (a : α) : Prop := (C.toVec a).length ≤ maxJsonMessageLen

theorem decodePsk_length {psk : String} {key : Bytes} (h : decodePsk psk = .ok key) : key.length = pskLen := by
  obtain ⟨hlen, hdecode⟩ := decodePsk_eq_ok.mp h
  have hdigits := (Hex.decode_eq_some hdecode).1
  rw [hlen, pskHexLen] at hdigits
  omega

/-! ### The parts -/

theorem sendJson_of_fits {α : Type} {C : Codec α} {a : α} (h : Fits C a) :
    sendJson C a = Dialog.write (withPrefix (C.toVec a)) := by
  rw [sendJson, Codec.writeJson_of_le h, Dialog.ofExcept_ok_bind]

theorem sendJson_of_not_fits {α : Type} {C : Codec α} {a : α} (h : ¬ Fits C a) :
    sendJson C a = Dialog.fail "json message too large" := by
  rw [sendJson, Codec.writeJson, if_pos (Nat.not_le.mp h)]
  exact Dialog.fail_bind _ _

theorem sendNoise_of_le {message : Bytes} (h : message.length ≤ maxNoiseMessageLen) :
    sendNoise message = Dialog.write (withPrefix message) := by
  rw [sendNoise, writeNoiseMessage, if_neg (Nat.not_lt.mpr h), Dialog.ofExcept_ok_bind]

theorem readNoiseMessage_withPrefix {message : Bytes} (h : message.length ≤ maxNoiseMessageLen) (rest : Bytes) :
    readNoiseMessage (withPrefix message ++ rest) = .done message rest :=
  (Reader.prefixed_delimits (by decide) _).read message rest h

theorem ofChecked_not_ok {α β : Type} {c : Checked α} (h : ∀ a, c ≠ .ok a) (f : α → Dialog β) :
    ∃ error, (ofChecked c >>= f) = Dialog.fail error := by
  cases c with
  | ok a => exact absurd rfl (h a)
  | failed error => exact ⟨error, Dialog.fail_bind _ _⟩
  | panicked => exact ⟨"panicked", Dialog.fail_bind _ _⟩

section Causal
open Dialog (Causal)
variable {K : Type} (S : NoiseNN K) (J : Texts)

theorem sendJson_causal {α : Type} (C : Codec α) (a : α) : Causal (sendJson C a) :=
  .bind (.ofExcept _) fun bytes => .write bytes

theorem sendNoise_causal (message : Bytes) : Causal (sendNoise message) :=
  .bind (.ofExcept _) fun bytes => .write bytes

theorem ofChecked_causal {α : Type} (c : Checked α) : Causal (ofChecked c) := by
  cases c with
  | ok a => exact .pure a
  | failed error => exact .fail error
  | panicked => exact .fail _

theorem opened_causal {α : Type} (o : Option α) : Causal (opened o) := by
  cases o with
  | some a => exact .pure a
  | none => exact .fail _

theorem readNoise_causal : Causal (Dialog.ofReader readNoiseMessage) := .ofReader (Reader.prefixed_stable _ _)

theorem accept_causal (psk : String) : Causal (accept S psk) := by
  refine .bind (ofChecked_causal _) fun key => .bind readNoise_causal fun message => ?_
  exact .bind (opened_causal _) fun answer => .bind (sendNoise_causal _) fun _ => .pure _

theorem connectPlain_causal (config : AgentConfig) : Causal (connectPlain S J config) := by
  refine .bind (sendJson_causal _ _) fun _ => .bind (ofChecked_causal _) fun key => ?_
  exact .bind (sendNoise_causal _) fun _ => .bind readNoise_causal fun message => opened_causal _

theorem handlePlain_causal (find : String → Except String (Option String)) : Causal (handlePlain S J find) := by
  refine .bind (.ofReader Codec.readJson_stable) fun prelude => .ite (.fail _) ?_
  refine .bind (.ofExcept _) fun client => ?_
  cases client with
  | none => exact .fail _
  | some psk => exact .bind (accept_causal S psk) fun keys => .pure _

theorem connectRole_causal (config : AgentConfig) (role : HelloRole) : Causal (connectRole J config role) := by
  refine .bind (sendJson_causal _ _) fun _ => .bind (.ofReader Codec.readJson_stable) fun ack => ?_
  exact .ite (.fail _) (.pure _)

theorem handleHello_causal (clientId : String) : Causal (handleHello J clientId) := by
  refine .bind (.ofReader Codec.readJson_stable) fun hello => .ite ?_ (.ite ?_ ?_)
  · exact .bind (sendJson_causal _ _) fun _ => .pure _
  · exact .bind (sendJson_causal _ _) fun _ => .pure _
  · exact .bind (sendJson_causal _ _) fun _ => .pure _

end Causal

/-! ### On the plain connection -/

section Plain
variable {K : Type} {S : NoiseNN K} {J : Texts} {find : String → Except String (Option String)} {config : AgentConfig}
  {role : HelloRole}

/-- What the agent does behind its prelude: it stops, or sends a Noise message under its key and waits. -/
theorem connect_cases (hS : S.Documented) (psk : String) :
    ((∀ key, decodePsk psk ≠ .ok key) ∧ ∃ error, connect S psk = Dialog.fail error) ∨
      ∃ key, decodePsk psk = .ok key ∧ connect S psk = (Dialog.write (withPrefix (S.initiate key)) >>= fun _ =>
        Dialog.ofReader readNoiseMessage >>= fun message => opened (S.finish key message)) := by
  by_cases hkey : ∃ key, decodePsk psk = .ok key
  · obtain ⟨key, hkey⟩ := hkey
    refine .inr ⟨key, hkey, ?_⟩
    rw [connect, hkey, ofChecked, Dialog.pure_bind_eq, sendNoise_of_le (hS.fits key (decodePsk_length hkey))]
  · exact .inl ⟨not_exists.mp hkey, ofChecked_not_ok (not_exists.mp hkey) _⟩

/-- What the controller does with the client's id: it stops, or waits for a Noise message under the stored key. -/
theorem admitClient_cases (find : String → Except String (Option String)) (clientId : String) :
    ((∀ psk key, find clientId = .ok (some psk) → decodePsk psk ≠ .ok key) ∧
        ∃ error, admitClient S find clientId = Dialog.fail error) ∨
      ∃ psk key, find clientId = .ok (some psk) ∧ decodePsk psk = .ok key ∧ admitClient S find clientId =
        (Dialog.ofReader readNoiseMessage >>= fun message => opened (S.respond key message) >>= fun answer =>
          sendNoise answer.1 >>= fun _ => pure (clientId, answer.2)) := by
  cases hfind : find clientId with
  | error error =>
    refine .inl ⟨by simp, error, ?_⟩
    rw [admitClient, hfind]
    exact Dialog.fail_bind _ _
  | ok client =>
    cases client with
    | none =>
      refine .inl ⟨by simp, "invalid client id", ?_⟩
      rw [admitClient, hfind, Dialog.ofExcept_ok_bind]
    | some psk =>
      have hadm : admitClient S find clientId = (accept S psk >>= fun keys => pure (clientId, keys)) := by
        rw [admitClient, hfind, Dialog.ofExcept_ok_bind]
      by_cases hkey : ∃ key, decodePsk psk = .ok key
      · obtain ⟨key, hkey⟩ := hkey
        refine .inr ⟨psk, key, rfl, hkey, ?_⟩
        rw [hadm, accept, hkey, ofChecked, Dialog.pure_bind_eq, Dialog.bind_bind]
        congr 1
        funext message
        rw [Dialog.bind_bind]
        congr 1
        funext answer
        rw [Dialog.bind_bind]
        rfl
      · obtain ⟨error, herror⟩ := ofChecked_not_ok (not_exists.mp hkey) fun key =>
          (Dialog.ofReader readNoiseMessage >>= fun message => opened (S.respond key message) >>= fun answer =>
            sendNoise answer.1 >>= fun _ => (pure answer.2 : Dialog K))
        refine .inl ⟨fun psk' key hpsk => ?_, error, ?_⟩
        · obtain rfl : psk = psk' := by simpa using hpsk
          exact fun h => hkey ⟨key, h⟩
        · rw [hadm, show accept S psk = Dialog.fail error from herror]
          exact Dialog.fail_bind _ _

theorem readNoiseMessage_nil : readNoiseMessage [] = .more := rfl

/-- The two ends behind the prelude. -/
theorem noise_finishes (hS : S.Documented) (find : String → Except String (Option String)) (config : AgentConfig) :
    Talk.Finishes (connect S config.psk) (admitClient S find config.clientId) fun agent controller =>
      (SameKey find config ∧ ∃ keys, agent = .done keys [] ∧ controller = .done (config.clientId, keys) []) ∨
        (¬ SameKey find config ∧ agent.Failed ∧ controller.Failed) := by
  rcases connect_cases hS config.psk with ⟨hkey, error, hconnect⟩ | ⟨key, hkey, hconnect⟩
  · have hnot : ¬ SameKey find config := fun ⟨_, key, _, _, h⟩ => hkey key h
    rw [hconnect]
    rcases admitClient_cases (S := S) find config.clientId with ⟨-, error', hadm⟩ | ⟨psk, key, -, -, hadm⟩
    · rw [hadm]
      exact .failed (.inr ⟨hnot, ⟨error, rfl⟩, ⟨error', rfl⟩⟩)
    · rw [hadm]
      exact .left_failed readNoiseMessage_nil (.inr ⟨hnot, ⟨error, rfl⟩, ⟨_, rfl⟩⟩)
  · rw [hconnect]
    rcases admitClient_cases (S := S) find config.clientId with ⟨hnone, error, hadm⟩ | ⟨psk, key', hfind, hkey', hadm⟩
    · have hnot : ¬ SameKey find config := fun ⟨psk, key, hfind, hkey, _⟩ => hnone psk key hfind hkey
      rw [hadm]
      exact .unheard (.right_failed readNoiseMessage_nil (.inr ⟨hnot, ⟨_, rfl⟩, ⟨error, rfl⟩⟩))
    · rw [hadm]
      refine .say (readNoiseMessage_withPrefix (hS.fits key (decodePsk_length hkey))) ?_
      by_cases hsame : key = key'
      · subst hsame
        obtain ⟨message, keys, hrespond, hle, hfinish⟩ := hS.agree key (decodePsk_length hkey)
        rw [hrespond, opened, Dialog.pure_bind_eq, sendNoise_of_le hle]
        refine .hear (readNoiseMessage_withPrefix hle) ?_
        rw [hfinish, opened]
        exact .done (.inl ⟨⟨psk, key, hfind, hkey', hkey⟩, keys, rfl, rfl⟩)
      · have hnot : ¬ SameKey find config := by
          rintro ⟨psk₁, key₁, hfind₁, hkey₁, hkey₂⟩
          obtain rfl : psk = psk₁ := by simpa using hfind.symm.trans hfind₁
          obtain rfl : key' = key₁ := by simpa using hkey'.symm.trans hkey₁
          exact hsame (by simpa using hkey.symm.trans hkey₂)
        rw [hS.rejects key key' (decodePsk_length hkey) (decodePsk_length hkey') hsame, opened, Dialog.fail_bind]
        exact .right_failed readNoiseMessage_nil (.inr ⟨hnot, ⟨_, rfl⟩, ⟨_, rfl⟩⟩)

/-- An end whose first message is too long to be sent. -/
theorem unsent_finishes {α β γ δ : Type} {C : Codec α} {D : Codec β} {a : α} (h : ¬ Fits C a) {f : Unit → Dialog γ}
    {g : β → Dialog δ} : Talk.Finishes (sendJson C a >>= f) (Dialog.ofReader D.readJson >>= g) fun x y =>
      x.Failed ∧ y.Failed := by
  rw [sendJson_of_not_fits h, Dialog.fail_bind]
  exact .left_failed Codec.readJson_nil ⟨⟨_, rfl⟩, ⟨_, rfl⟩⟩

theorem plain_finishes (hS : S.Documented) (hJ : J.Documented config role)
    (hfits : Fits J.prelude (.new config.clientId)) :
    Talk.Finishes (connectPlain S J config) (handlePlain S J find) fun agent controller =>
      (SameKey find config ∧ ∃ keys, agent = .done keys [] ∧ controller = .done (config.clientId, keys) []) ∨
        (¬ SameKey find config ∧ agent.Failed ∧ controller.Failed) := by
  rw [connectPlain, sendJson_of_fits hfits, handlePlain]
  refine .say (Codec.readJson_withPrefix hJ.prelude hfits) ?_
  rw [if_neg (by simp [NoisePrelude.new])]
  exact noise_finishes hS find config

end Plain

/-! ### On the encrypted stream -/

theorem hello_finishes {J : Texts} {config : AgentConfig} {role : HelloRole} (hJ : J.Documented config role)
    (hfits : Fits J.hello (.new role config.clientId)) :
    Talk.Finishes (connectRole J config role) (handleHello J config.clientId) fun agent controller =>
      agent = .done () [] ∧ controller = .done (some role) [] := by
  rw [connectRole, sendJson_of_fits hfits, handleHello]
  refine .say (Codec.readJson_withPrefix hJ.hello hfits) ?_
  rw [if_neg (by simp [Hello.new]), if_neg (by simp [Hello.new]), sendJson_of_fits hJ.short, readAck]
  refine .hear (Codec.readJson_withPrefix hJ.ack hJ.short) ?_
  rw [if_neg (by simp [HelloAck.success])]
  exact .done ⟨rfl, rfl⟩

/-- **Agreement.** Every order in which the link delivers the bytes of the two ends, in
pieces of any size, ends both talks. If the client's name can be sent, the controller
knows the client and both have one key, both leave the plain connection with the same
transport keys and the agent's client id; otherwise both give up. On the encrypted stream
both then end with the role the agent asked for, unless the Hello cannot be sent and
both give up. -/
theorem connect_role_agrees {K : Type} {S : NoiseNN K} (hS : S.Documented) {J : Texts} {config : AgentConfig}
    {role : HelloRole} (hJ : J.Documented config role) (find : String → Except String (Option String)) :
    Talk.EndsIn (connectPlain S J config) (handlePlain S J find) (fun agent controller =>
      (Fits J.prelude (.new config.clientId) ∧ SameKey find config ∧
          ∃ keys, agent = .done keys [] ∧ controller = .done (config.clientId, keys) []) ∨
        (¬ (Fits J.prelude (.new config.clientId) ∧ SameKey find config) ∧ agent.Failed ∧ controller.Failed)) ∧
    Talk.EndsIn (connectRole J config role) (handleHello J config.clientId) (fun agent controller =>
      (Fits J.hello (.new role config.clientId) ∧ agent = .done () [] ∧ controller = .done (some role) []) ∨
        (¬ Fits J.hello (.new role config.clientId) ∧ agent.Failed ∧ controller.Failed)) := by
  constructor
  · have hl := connectPlain_causal S J config
    have hr := handlePlain_causal S J find
    by_cases hfits : Fits J.prelude (.new config.clientId)
    · refine ((plain_finishes hS hJ hfits).endsIn hl hr).mono fun agent controller h => ?_
      rcases h with ⟨hsame, h⟩ | ⟨hnot, h⟩
      · exact .inl ⟨hfits, hsame, h⟩
      · exact .inr ⟨fun hboth => hnot hboth.2, h⟩
    · exact ((unsent_finishes hfits).endsIn hl hr).mono fun _ _ h => .inr ⟨fun hboth => hfits hboth.1, h⟩
  · have hl := connectRole_causal J config role
    have hr := handleHello_causal J config.clientId
    by_cases hfits : Fits J.hello (.new role config.clientId)
    · exact ((hello_finishes hJ hfits).endsIn hl hr).mono fun _ _ h => .inl ⟨hfits, h⟩
    · exact ((unsent_finishes hfits).endsIn hl hr).mono fun _ _ h => .inr ⟨hfits, h⟩

/-- A codec whose only text is that of one value. -/
def onlyText {α : Type} (a : α) (text : String) : Codec α where
  toVec _ := encode text.toList
  fromSlice bytes := if bytes = encode text.toList then .ok a else .error "expected value"

theorem onlyText_decodes {α : Type} (a : α) (text : String) : (onlyText a text).Decodes a := by
  simp [Codec.Decodes, onlyText]

/-- The texts of the handshake of client `c` for its data connection. -/
def dataTexts : Texts where
  prelude := onlyText (.new "c") "\x7b\"magic\":\"RPS1\",\"client_id\":\"c\",\"version\":\"0.1.0\"\x7d"
  hello := onlyText (.new .data "c")
    "\x7b\"magic\":\"RPS1\",\"role\":\"data\",\"client_id\":\"c\",\"version\":\"0.1.0\"\x7d"
  ack := onlyText .success "\x7b\"ok\":true,\"error\":null,\"server_version\":\"0.1.0\"\x7d"

/-- A handshake whose messages are of the length `snow`'s are: the first shows the key, the
second is the same for all. -/
def openHandshake : NoiseNN Bytes where
  initiate psk := psk ++ List.replicate 16 0
  respond psk message := if message = psk ++ List.replicate 16 0 then some (List.replicate 48 1, psk) else none
  finish psk message := if message = List.replicate 48 1 then some psk else none

theorem openHandshake_documented : openHandshake.Documented where
  fits := by
    intro psk hlen
    simp [openHandshake, hlen, pskLen, maxNoiseMessageLen]
  agree := by
    intro psk hlen
    exact ⟨List.replicate 48 1, psk, by simp [openHandshake], by simp [maxNoiseMessageLen], by simp [openHandshake]⟩
  rejects := by
    intro psk psk' _ _ hne
    simp [openHandshake, hne]

def exampleKey : String := String.ofList (List.replicate 64 'a')

/-- The controller knows client `c`, and the agent has its key. -/
theorem connect_role_agrees_data :
    Talk.EndsIn (connectPlain openHandshake dataTexts ⟨"c", exampleKey⟩)
      (handlePlain openHandshake dataTexts fun id => .ok (if id = "c" then some exampleKey else none))
      (fun agent controller => ∃ keys, agent = .done keys [] ∧ controller = .done ("c", keys) []) ∧
    Talk.EndsIn (connectRole dataTexts ⟨"c", exampleKey⟩ .data) (handleHello dataTexts "c")
      (fun agent controller => agent = .done () [] ∧ controller = .done (some .data) []) := by
  have hJ : dataTexts.Documented ⟨"c", exampleKey⟩ .data :=
    ⟨onlyText_decodes _ _, onlyText_decodes _ _, onlyText_decodes _ _, by decide +kernel⟩
  have hprelude : Fits dataTexts.prelude (.new "c") := by
    show (encode _).length ≤ _
    decide +kernel
  have hhello : Fits dataTexts.hello (.new .data "c") := by
    show (encode _).length ≤ _
    decide +kernel
  have hkey : decodePsk exampleKey = .ok (List.replicate 32 0xaa) := by decide +kernel
  obtain ⟨hplain, hrole⟩ := connect_role_agrees openHandshake_documented hJ
    fun id => .ok (if id = "c" then some exampleKey else none)
  refine ⟨hplain.mono fun agent controller h => ?_, hrole.mono fun agent controller h => ?_⟩
  · rcases h with h | h
    · exact h.2.2
    · exact absurd ⟨hprelude, exampleKey, _, rfl, hkey, hkey⟩ h.1
  · rcases h with h | h
    · exact h.2
    · exact absurd hhello h.1

end Rps.Controller.Handshake
