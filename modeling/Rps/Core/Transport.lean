import Rps.Base.Bytes
import Rps.Base.System
import Rps.Base.Table
import Mathlib.Data.List.Infix

/-! The encrypted transport, one direction.

`spawn_transport` runs two tasks at each end. The outbound task reads chunks of at
most 16 KiB off the application stream, seals each under the next nonce and writes
the ciphertext behind its length. The inbound task of the other end reads a length
and a ciphertext, opens it under the next nonce and writes the plaintext to its
application stream. Both stop at the first failure. The two directions share
nothing but a lock: each has its own nonce.

The bytes the inbound task reads are whatever the link hands it (`deliver`), which
need not be what the outbound task put on the wire. `delivered_isPrefix`: what
reaches the application is a prefix of what was written, in every state, as long
as nothing is opened but the peer's next ciphertext; on an unmodified link all of
it arrives; and no ciphertext is ever too large to write. -/
namespace Rps.Core
open Base
open Base.Reader (encodeAll encodeAll_cons encodeAll_append)

def maxNoiseMessageLen : Nat := 65535
def maxTransportPlaintextLen : Nat := 16 * 1024
def duplexBufferLen : Nat := 256 * 1024

def readNoiseMessage : Reader Bytes := Reader.prefixed maxNoiseMessageLen "noise message too large"

def writeNoiseMessage (message : Bytes) : Except String Bytes :=
  if message.length > maxNoiseMessageLen then .error "noise message too large"
  else .ok (withPrefix message)

/-- The `snow` transport cipher in one direction, under the nonce of its counter. -/
structure Snow where
  writeMessage : Nat → Bytes → Option Bytes
  readMessage : Nat → Bytes → Option Bytes

/-- What `snow` documents: a ciphertext is 16 bytes longer than its plaintext, a
message that fits is sealed until the counter is exhausted, and a ciphertext opens
to its plaintext under its own nonce. -/
structure Snow.Documented (S : Snow) : Prop where
  length : ∀ n plain cipher, S.writeMessage n plain = some cipher → cipher.length = plain.length + 16
  seals : ∀ n plain, n < 2 ^ 64 - 1 → plain.length + 16 ≤ maxNoiseMessageLen →
    (S.writeMessage n plain).isSome
  opens : ∀ n plain cipher, S.writeMessage n plain = some cipher → S.readMessage n cipher = some plain

/-- Why the outbound task ended. -/
inductive OutboundEnd where
  | plainEnd
  | sealFailed
  | tooLarge
  | writeFailed
  deriving DecidableEq

inductive Outbound where
  | reading
  | writing (rest : Bytes)
  | stopped (why : OutboundEnd)
  deriving DecidableEq

inductive Inbound where
  | reading
  | writing (rest : Bytes)
  | stopped
  deriving DecidableEq

/-- `written` is everything the application has written, `sent` each sealed
plaintext with its ciphertext, `onWire` what the outbound task put on the link,
`arrived` what the link handed to the inbound task, `inbox` the part of it not yet
consumed, and `received` the inbound nonce. -/
structure Transport where
  written : Bytes := []
  plainQueue : Bytes := []
  outbound : Outbound := .reading
  sent : List (Bytes × Bytes) := []
  onWire : Bytes := []
  arrived : Bytes := []
  inbox : Bytes := []
  inbound : Inbound := .reading
  received : Nat := 0
  delivered : Bytes := []
  deriving DecidableEq

namespace Transport

inductive Action where
  | write (data : Bytes)
  | plainRead (n : Nat)
  | plainEnd
  | emit (n : Nat)
  | emitFail
  | deliver (bytes : Bytes)
  | readMessage
  | linkEnd
  | plainWrite (n : Nat)
  | plainWriteFail
  deriving DecidableEq

variable (S : Snow)

/-- The outbound task with a chunk it has read. -/
def sealChunk (t : Transport) (chunk : Bytes) : Transport :=
  match S.writeMessage t.sent.length chunk with
  | none => {t with outbound := .stopped .sealFailed}
  | some cipher =>
    let t := {t with sent := t.sent ++ [(chunk, cipher)]}
    match writeNoiseMessage cipher with
    | .error _ => {t with outbound := .stopped .tooLarge}
    | .ok bytes => {t with outbound := .writing bytes}

/-- The inbound task with a message it has read. -/
def openMessage (t : Transport) (message : Bytes) : Transport :=
  match S.readMessage t.received message with
  | none => {t with inbound := .stopped}
  | some plain => {t with received := t.received + 1, inbound := .writing plain}

def step (a : Action) (t : Transport) : Option Transport :=
  match a with
  | .write data =>
    if t.plainQueue.length + data.length ≤ duplexBufferLen then
      some {t with written := t.written ++ data, plainQueue := t.plainQueue ++ data}
    else none
  | .plainRead n =>
    if t.outbound = .reading ∧ 0 < n ∧ n ≤ t.plainQueue.length ∧ n ≤ maxTransportPlaintextLen then
      some (sealChunk S {t with plainQueue := t.plainQueue.drop n} (t.plainQueue.take n))
    else none
  | .plainEnd => if t.outbound = .reading then some {t with outbound := .stopped .plainEnd} else none
  | .emit n =>
    match t.outbound with
    | .writing rest =>
      if n ≤ rest.length then
        some {t with
          onWire := t.onWire ++ rest.take n
          outbound := if n = rest.length then .reading else .writing (rest.drop n)}
      else none
    | _ => none
  | .emitFail =>
    match t.outbound with
    | .writing _ => some {t with outbound := .stopped .writeFailed}
    | _ => none
  | .deliver bytes => some {t with arrived := t.arrived ++ bytes, inbox := t.inbox ++ bytes}
  | .readMessage =>
    if t.inbound = .reading then
      match readNoiseMessage t.inbox with
      | .more => none
      | .invalid _ => some {t with inbound := .stopped}
      | .done message rest => some (openMessage S {t with inbox := rest} message)
    else none
  | .linkEnd => if t.inbound = .reading then some {t with inbound := .stopped} else none
  | .plainWrite n =>
    match t.inbound with
    | .writing rest =>
      if n ≤ rest.length then
        some {t with
          delivered := t.delivered ++ rest.take n
          inbound := if n = rest.length then .reading else .writing (rest.drop n)}
      else none
    | _ => none
  | .plainWriteFail =>
    match t.inbound with
    | .writing _ => some {t with inbound := .stopped}
    | _ => none

def system : System Transport Action where
  init := {}
  step := step S

/-- The plaintext the inbound task would accept now, and the message it opens. -/
def opening (t : Transport) : Option (Bytes × Bytes) :=
  match readNoiseMessage t.inbox with
  | .done message _ => (S.readMessage t.received message).map (·, message)
  | _ => none

/-- The cipher's promise to the receiver, at one step: what opens is the peer's
next ciphertext, and it opens to that ciphertext's plaintext. -/
def Authentic (a : Action) (t : Transport) : Prop :=
  a = .readMessage → ∀ x ∈ opening S t, t.sent[t.received]? = some x

instance (a : Action) (t : Transport) : Decidable (Authentic S a t) :=
  inferInstanceAs (Decidable (_ → _))

/-- A link that hands over what was put on it, in order, and does not fail; and a
counter that is not exhausted. -/
def Unmodified (a : Action) (t : Transport) : Prop :=
  match a with
  | .deliver bytes => t.arrived ++ bytes <+: t.onWire
  | .plainRead _ => t.sent.length < 2 ^ 64 - 1
  | .emitFail | .linkEnd | .plainWriteFail => False
  | _ => True

instance (a : Action) (t : Transport) : Decidable (Unmodified a t) := by
  unfold Unmodified
  split <;> infer_instance

/-- Everything written was read and sealed, everything sealed is on the wire, all
of the wire has arrived and is consumed, and no plaintext is left to write. -/
def Processed (t : Transport) : Prop :=
  t.plainQueue = [] ∧ (∀ rest, t.outbound ≠ .writing rest) ∧ t.arrived = t.onWire ∧ t.inbox = [] ∧
    ∀ rest, t.inbound ≠ .writing rest

/-! ### What is delivered -/

def plains (l : List (Bytes × Bytes)) : Bytes := l.flatMap (·.1)

/-- What is delivered of the plaintexts opened so far. -/
def Owes (inbound : Inbound) (delivered opened : Bytes) : Prop :=
  match inbound with
  | .reading => delivered = opened
  | .writing rest => delivered ++ rest = opened
  | .stopped => delivered <+: opened

theorem Owes.isPrefix {inbound : Inbound} {delivered opened : Bytes} (h : Owes inbound delivered opened) :
    delivered <+: opened := by
  cases inbound with
  | reading => exact ⟨[], by rw [List.append_nil]; exact h⟩
  | writing rest => exact ⟨rest, h⟩
  | stopped => exact h

/-- The chunks sealed so far and the queue are what was written, but for a chunk
that could not be sealed; the plaintexts opened so far are those of the first
`received` chunks. -/
structure Inv (t : Transport) : Prop where
  sealed : ∃ lost, plains t.sent ++ lost ++ t.plainQueue = t.written ∧
    (t.outbound ≠ .stopped .sealFailed → lost = [])
  opened : Owes t.inbound t.delivered (plains (t.sent.take t.received))
  received : t.received ≤ t.sent.length

variable {S}

/-- A chunk of the read buffer's size either fails to be sealed or gives a message
within the limit. -/
theorem sealChunk_cases (hS : S.Documented) (t : Transport) (chunk : Bytes)
    (hlen : chunk.length ≤ maxTransportPlaintextLen) :
    (S.writeMessage t.sent.length chunk = none ∧
      sealChunk S t chunk = {t with outbound := .stopped .sealFailed}) ∨
    ∃ cipher, S.writeMessage t.sent.length chunk = some cipher ∧ cipher.length ≤ maxNoiseMessageLen ∧
      sealChunk S t chunk =
        {t with sent := t.sent ++ [(chunk, cipher)], outbound := .writing (withPrefix cipher)} := by
  cases hc : S.writeMessage t.sent.length chunk with
  | none =>
    left
    simp [sealChunk, hc]
  | some cipher =>
    right
    have hcipher : cipher.length ≤ maxNoiseMessageLen := by
      rw [hS.length _ _ _ hc]
      unfold maxTransportPlaintextLen at hlen
      unfold maxNoiseMessageLen
      omega
    refine ⟨cipher, rfl, hcipher, ?_⟩
    simp [sealChunk, hc, writeNoiseMessage, Nat.not_lt.mpr hcipher]

theorem plains_append (l : List (Bytes × Bytes)) (p : Bytes × Bytes) : plains (l ++ [p]) = plains l ++ p.1 := by
  simp [plains]

theorem take_append_of_le {α : Type} {l : List α} {n : Nat} (h : n ≤ l.length) (a : α) :
    (l ++ [a]).take n = l.take n := by
  rw [List.take_append_of_le_length h]

theorem inv_init : Inv {} where
  sealed := ⟨[], rfl, fun _ => rfl⟩
  opened := rfl
  received := Nat.le_refl 0

theorem inv_plainRead (hS : S.Documented) {t : Transport} (h : Inv t) {n : Nat} (hout : t.outbound = .reading)
    (hn : n ≤ maxTransportPlaintextLen) :
    Inv (sealChunk S {t with plainQueue := t.plainQueue.drop n} (t.plainQueue.take n)) := by
  obtain ⟨lost, hsealed, hlost⟩ := h.sealed
  obtain rfl : lost = [] := hlost (by rw [hout]; simp)
  rw [List.append_nil] at hsealed
  have hlen : (t.plainQueue.take n).length ≤ maxTransportPlaintextLen := by
    rw [List.length_take]
    omega
  obtain ⟨-, heq⟩ | ⟨cipher, -, -, heq⟩ :=
    sealChunk_cases hS {t with plainQueue := t.plainQueue.drop n} (t.plainQueue.take n) hlen
  · rw [heq]
    refine {h with sealed := ⟨t.plainQueue.take n, ?_, fun hne => absurd rfl hne⟩}
    rw [List.append_assoc, List.take_append_drop, hsealed]
  · rw [heq]
    refine ⟨⟨[], ?_, fun _ => rfl⟩, ?_, ?_⟩
    · show plains (t.sent ++ [_]) ++ [] ++ _ = _
      rw [plains_append, List.append_nil, List.append_assoc, List.take_append_drop, hsealed]
    · show Owes t.inbound t.delivered (plains ((t.sent ++ [_]).take t.received))
      rw [take_append_of_le h.received]
      exact h.opened
    · show t.received ≤ (t.sent ++ [_]).length
      have := h.received
      rw [List.length_append]
      omega

/-- What opens is the peer's next ciphertext, so one more plaintext is owed. -/
theorem inv_openMessage {t : Transport} (h : Inv t) (hin : t.inbound = .reading) {message : Bytes} (rest : Bytes)
    (hauth : ∀ plain, S.readMessage t.received message = some plain →
      t.sent[t.received]? = some (plain, message)) :
    Inv (openMessage S {t with inbox := rest} message) := by
  have hopened := h.opened
  rw [hin] at hopened
  cases hm : S.readMessage t.received message with
  | none =>
    simp only [openMessage, hm]
    exact {h with opened := by rw [show t.delivered = _ from hopened]; exact List.prefix_rfl}
  | some plain =>
    have hget := hauth plain hm
    simp only [openMessage, hm]
    refine {h with opened := ?_, received := ?_}
    · show t.delivered ++ plain = plains (t.sent.take (t.received + 1))
      rw [List.take_add_one, hget, Option.toList_some, plains_append, ← show t.delivered = _ from hopened]
    · show t.received + 1 ≤ t.sent.length
      have hlt := (List.getElem?_eq_some_iff.mp hget).1
      omega

theorem inv_step (hS : S.Documented) {a : Action} {t u : Transport} (h : Inv t) (hauth : Authentic S a t)
    (hstep : step S a t = some u) : Inv u := by
  cases a with
  | write data =>
    simp only [step, Option.ite_none_right_eq_some, Option.some.injEq] at hstep
    obtain ⟨-, rfl⟩ := hstep
    obtain ⟨lost, hsealed, hlost⟩ := h.sealed
    exact {h with sealed := ⟨lost, by rw [← hsealed, List.append_assoc _ t.plainQueue], hlost⟩}
  | plainRead n =>
    simp only [step, Option.ite_none_right_eq_some, Option.some.injEq] at hstep
    obtain ⟨⟨hout, -, -, hn⟩, rfl⟩ := hstep
    exact inv_plainRead hS h hout hn
  | plainEnd =>
    simp only [step, Option.ite_none_right_eq_some, Option.some.injEq] at hstep
    obtain ⟨hout, rfl⟩ := hstep
    obtain ⟨lost, hsealed, hlost⟩ := h.sealed
    exact {h with sealed := ⟨lost, hsealed, fun _ => hlost (by rw [hout]; simp)⟩}
  | emit n =>
    cases hout : t.outbound with
    | writing rest =>
      simp only [step, hout, Option.ite_none_right_eq_some, Option.some.injEq] at hstep
      obtain ⟨-, rfl⟩ := hstep
      obtain ⟨lost, hsealed, hlost⟩ := h.sealed
      exact {h with sealed := ⟨lost, hsealed, fun _ => hlost (by rw [hout]; simp)⟩}
    | _ => simp [step, hout] at hstep
  | emitFail =>
    cases hout : t.outbound with
    | writing rest =>
      simp only [step, hout, Option.some.injEq] at hstep
      subst hstep
      obtain ⟨lost, hsealed, hlost⟩ := h.sealed
      exact {h with sealed := ⟨lost, hsealed, fun _ => hlost (by rw [hout]; simp)⟩}
    | _ => simp [step, hout] at hstep
  | deliver bytes =>
    simp only [step, Option.some.injEq] at hstep
    subst hstep
    exact {h with}
  | readMessage =>
    simp only [step, Option.ite_none_right_eq_some] at hstep
    obtain ⟨hin, hstep⟩ := hstep
    cases hread : readNoiseMessage t.inbox with
    | more => simp [hread] at hstep
    | invalid error =>
      simp only [hread, Option.some.injEq] at hstep
      subst hstep
      exact {h with opened := h.opened.isPrefix}
    | done message rest =>
      simp only [hread, Option.some.injEq] at hstep
      subst hstep
      refine inv_openMessage h hin rest fun plain hplain => ?_
      exact hauth rfl (plain, message) (by simp [opening, hread, hplain])
  | linkEnd =>
    simp only [step, Option.ite_none_right_eq_some, Option.some.injEq] at hstep
    obtain ⟨-, rfl⟩ := hstep
    exact {h with opened := h.opened.isPrefix}
  | plainWrite n =>
    cases hin : t.inbound with
    | writing rest =>
      simp only [step, hin, Option.ite_none_right_eq_some, Option.some.injEq] at hstep
      obtain ⟨hn, rfl⟩ := hstep
      have hopened := h.opened
      rw [hin] at hopened
      refine {h with opened := ?_}
      show Owes (if n = rest.length then .reading else .writing (rest.drop n)) (t.delivered ++ rest.take n) _
      split
      · rename_i hall
        subst hall
        rw [List.take_length]
        exact hopened
      · show t.delivered ++ rest.take n ++ rest.drop n = _
        rw [List.append_assoc, List.take_append_drop]
        exact hopened
    | _ => simp [step, hin] at hstep
  | plainWriteFail =>
    cases hin : t.inbound with
    | writing rest =>
      simp only [step, hin, Option.some.injEq] at hstep
      subst hstep
      exact {h with opened := h.opened.isPrefix}
    | _ => simp [step, hin] at hstep

theorem delivered_of_inv {t : Transport} (h : Inv t) : t.delivered <+: t.written := by
  obtain ⟨lost, hsealed, -⟩ := h.sealed
  have htake : plains (t.sent.take t.received) <+: plains t.sent := by
    refine ⟨plains (t.sent.drop t.received), ?_⟩
    rw [plains, plains, ← List.flatMap_append, List.take_append_drop]
    rfl
  have hwritten : plains t.sent <+: t.written := ⟨lost ++ t.plainQueue, by rw [← List.append_assoc, hsealed]⟩
  exact h.opened.isPrefix.trans (htake.trans hwritten)

/-! ### The too-large branch -/

theorem not_tooLarge_step (hS : S.Documented) {a : Action} {t u : Transport}
    (h : t.outbound ≠ .stopped .tooLarge) (hstep : step S a t = some u) :
    u.outbound ≠ .stopped .tooLarge := by
  cases a with
  | plainRead n =>
    simp only [step, Option.ite_none_right_eq_some, Option.some.injEq] at hstep
    obtain ⟨⟨-, -, -, hn⟩, rfl⟩ := hstep
    have hlen : (t.plainQueue.take n).length ≤ maxTransportPlaintextLen := by
      rw [List.length_take]
      omega
    obtain ⟨-, heq⟩ | ⟨cipher, -, -, heq⟩ :=
      sealChunk_cases hS {t with plainQueue := t.plainQueue.drop n} (t.plainQueue.take n) hlen
    · rw [heq]
      simp
    · rw [heq]
      simp
  | _ => grind [step, openMessage]

/-! ### An unmodified link -/

def ciphers (l : List (Bytes × Bytes)) : List Bytes := l.map (·.2)

/-- The bytes of the message being written that are not on the wire. -/
def unwritten : Outbound → Bytes
  | .writing rest => rest
  | _ => []

/-- The wire carries the ciphertexts in order, each sealed under its own index; the
inbound task has consumed the first `received` of them. -/
structure Intact (S : Snow) (t : Transport) : Prop where
  sealed : ∀ (n : Nat) (x : Bytes × Bytes), t.sent[n]? = some x → S.writeMessage n x.1 = some x.2
  fits : ∀ c ∈ ciphers t.sent, c.length ≤ maxNoiseMessageLen
  wire : t.onWire ++ unwritten t.outbound = encodeAll withPrefix (ciphers t.sent)
  arrived : t.arrived <+: t.onWire
  consumed : t.arrived = encodeAll withPrefix ((ciphers t.sent).take t.received) ++ t.inbox
  received : t.received ≤ t.sent.length
  outbound : t.outbound ≠ .stopped .sealFailed
  inbound : t.inbound ≠ .stopped

theorem messages_delimit :
    Reader.Delimits (fun m : Bytes => m.length ≤ maxNoiseMessageLen) withPrefix readNoiseMessage :=
  Reader.prefixed_delimits (by decide) _

theorem intact_init : Intact S {} where
  sealed := by simp
  fits := by simp [ciphers]
  wire := rfl
  arrived := List.prefix_rfl
  consumed := rfl
  received := Nat.le_refl 0
  outbound := by simp
  inbound := by simp

/-- What is on its way to the inbound task: the ciphertexts it has not consumed. -/
theorem Intact.pending {t : Transport} (h : Intact S t) :
    ∃ later, t.inbox ++ later = encodeAll withPrefix ((ciphers t.sent).drop t.received) := by
  obtain ⟨later, hlater⟩ := h.arrived
  refine ⟨later ++ unwritten t.outbound, ?_⟩
  have hall : encodeAll withPrefix ((ciphers t.sent).take t.received) ++ (t.inbox ++ (later ++ unwritten t.outbound)) =
      encodeAll withPrefix ((ciphers t.sent).take t.received) ++
        encodeAll withPrefix ((ciphers t.sent).drop t.received) := by
    rw [← encodeAll_append, List.take_append_drop, ← h.wire, ← hlater, h.consumed]
    simp only [List.append_assoc]
  exact List.append_cancel_left hall

/-- A message the inbound task reads is the next ciphertext, it opens to the next
plaintext, and nothing behind it is taken. -/
theorem Intact.read_done (hS : S.Documented) {t : Transport} (h : Intact S t) {message rest : Bytes}
    (hread : readNoiseMessage t.inbox = .done message rest) :
    ∃ plain, t.sent[t.received]? = some (plain, message) ∧ S.readMessage t.received message = some plain ∧
      t.inbox = withPrefix message ++ rest := by
  obtain ⟨later, hlater⟩ := h.pending
  have hfits : ∀ c ∈ (ciphers t.sent).drop t.received, c.length ≤ maxNoiseMessageLen :=
    fun c hc => h.fits c (List.mem_of_mem_drop hc)
  obtain ⟨tail, htail, hrest⟩ := messages_delimit.head_of_done hfits hlater hread
  have hget : (ciphers t.sent)[t.received]? = some message := by
    rw [← Nat.add_zero t.received, ← List.getElem?_drop, htail]
    rfl
  rw [ciphers, List.getElem?_map, Option.map_eq_some_iff] at hget
  obtain ⟨x, hx, rfl⟩ := hget
  refine ⟨x.1, hx, hS.opens _ _ _ (h.sealed _ _ hx), ?_⟩
  have hall : t.inbox ++ later = withPrefix x.2 ++ rest ++ later := by
    rw [hlater, htail, encodeAll_cons, List.append_assoc, hrest]
  exact List.append_cancel_right hall

theorem Intact.authentic (hS : S.Documented) {t : Transport} (h : Intact S t) (a : Action) :
    Authentic S a t := by
  intro _ x hx
  cases hread : readNoiseMessage t.inbox with
  | done message rest =>
    obtain ⟨plain, hget, hopen, -⟩ := h.read_done hS hread
    simp only [opening, hread, hopen, Option.map_some, Option.mem_some_iff] at hx
    rw [hget, hx]
  | _ => simp [opening, hread] at hx

theorem intact_plainRead (hS : S.Documented) {t : Transport} (h : Intact S t) {n : Nat}
    (hout : t.outbound = .reading) (hn : n ≤ maxTransportPlaintextLen) (hcount : t.sent.length < 2 ^ 64 - 1) :
    Intact S (sealChunk S {t with plainQueue := t.plainQueue.drop n} (t.plainQueue.take n)) := by
  have hlen : (t.plainQueue.take n).length ≤ maxTransportPlaintextLen := by
    rw [List.length_take]
    omega
  obtain ⟨hnone, -⟩ | ⟨cipher, hcipher, hfits, heq⟩ :=
    sealChunk_cases hS {t with plainQueue := t.plainQueue.drop n} (t.plainQueue.take n) hlen
  · have hsome := hS.seals t.sent.length (t.plainQueue.take n) hcount (by
      unfold maxTransportPlaintextLen at hlen
      unfold maxNoiseMessageLen
      omega)
    rw [hnone] at hsome
    cases hsome
  · rw [heq]
    have hwire := h.wire
    rw [hout, show unwritten .reading = [] from rfl, List.append_nil] at hwire
    have hreceived : t.received ≤ (ciphers t.sent).length := by
      rw [ciphers, List.length_map]
      exact h.received
    have hciphers : ciphers (t.sent ++ [(t.plainQueue.take n, cipher)]) = ciphers t.sent ++ [cipher] := by
      simp [ciphers]
    refine {h with sealed := ?_, fits := ?_, wire := ?_, consumed := ?_, received := ?_, outbound := by simp}
    · intro m x hx
      rw [Heap.get_push] at hx
      split at hx
      · rename_i hm
        rw [hm, ← Option.some.inj hx]
        exact hcipher
      · exact h.sealed m x hx
    · show ∀ c ∈ ciphers (t.sent ++ [_]), c.length ≤ maxNoiseMessageLen
      rw [hciphers]
      intro c hc
      rcases List.mem_append.mp hc with hc | hc
      · exact h.fits c hc
      · rw [List.mem_singleton.mp hc]
        exact hfits
    · show t.onWire ++ withPrefix cipher = encodeAll withPrefix (ciphers (t.sent ++ [_]))
      rw [hciphers, encodeAll_append, hwire]
      simp
    · show t.arrived = encodeAll withPrefix ((ciphers (t.sent ++ [_])).take t.received) ++ t.inbox
      rw [hciphers, take_append_of_le hreceived]
      exact h.consumed
    · show t.received ≤ (t.sent ++ [_]).length
      have := h.received
      rw [List.length_append]
      omega

theorem intact_readMessage (hS : S.Documented) {t u : Transport} (h : Intact S t)
    (hstep : step S .readMessage t = some u) : Intact S u := by
  simp only [step, Option.ite_none_right_eq_some] at hstep
  obtain ⟨-, hstep⟩ := hstep
  cases hread : readNoiseMessage t.inbox with
  | more => simp [hread] at hstep
  | invalid error =>
    obtain ⟨later, hlater⟩ := h.pending
    have hfits : ∀ c ∈ (ciphers t.sent).drop t.received, c.length ≤ maxNoiseMessageLen :=
      fun c hc => h.fits c (List.mem_of_mem_drop hc)
    exact absurd hread (messages_delimit.not_invalid hfits hlater)
  | done message rest =>
    obtain ⟨plain, hget, hopen, hinbox⟩ := h.read_done hS hread
    simp only [hread, openMessage, hopen, Option.some.injEq] at hstep
    subst hstep
    refine {h with consumed := ?_, received := ?_, inbound := by simp}
    · show t.arrived = encodeAll withPrefix ((ciphers t.sent).take (t.received + 1)) ++ rest
      have hciphers : (ciphers t.sent)[t.received]? = some message := by simp [ciphers, hget]
      rw [List.take_add_one, hciphers, h.consumed, hinbox]
      simp
    · show t.received + 1 ≤ t.sent.length
      have hlt := (List.getElem?_eq_some_iff.mp hget).1
      omega

theorem intact_step (hS : S.Documented) {a : Action} {t u : Transport} (h : Intact S t)
    (hlink : Unmodified a t) (hstep : step S a t = some u) : Intact S u := by
  cases a with
  | write data =>
    simp only [step, Option.ite_none_right_eq_some, Option.some.injEq] at hstep
    obtain ⟨-, rfl⟩ := hstep
    exact {h with}
  | plainRead n =>
    simp only [step, Option.ite_none_right_eq_some, Option.some.injEq] at hstep
    obtain ⟨⟨hout, -, -, hn⟩, rfl⟩ := hstep
    exact intact_plainRead hS h hout hn hlink
  | plainEnd =>
    simp only [step, Option.ite_none_right_eq_some, Option.some.injEq] at hstep
    obtain ⟨hout, rfl⟩ := hstep
    have hwire := h.wire
    rw [hout] at hwire
    exact {h with wire := hwire, outbound := by simp}
  | emit n =>
    cases hout : t.outbound with
    | writing rest =>
      simp only [step, hout, Option.ite_none_right_eq_some, Option.some.injEq] at hstep
      obtain ⟨-, rfl⟩ := hstep
      have hwire := h.wire
      rw [hout, unwritten] at hwire
      refine {h with wire := ?_, arrived := h.arrived.trans (List.prefix_append ..), outbound := ?_}
      · rw [← hwire]
        by_cases hall : n = rest.length
        · simp [hall, unwritten]
        · simp [hall, unwritten]
      · show (if n = rest.length then Outbound.reading else .writing (rest.drop n)) ≠ _
        split <;> simp
    | _ => simp [step, hout] at hstep
  | deliver bytes =>
    simp only [step, Option.some.injEq] at hstep
    subst hstep
    refine {h with arrived := hlink, consumed := ?_}
    show t.arrived ++ bytes = _ ++ (t.inbox ++ bytes)
    rw [h.consumed, List.append_assoc]
  | readMessage => exact intact_readMessage hS h hstep
  | plainWrite n =>
    cases hin : t.inbound with
    | writing rest =>
      simp only [step, hin, Option.ite_none_right_eq_some, Option.some.injEq] at hstep
      obtain ⟨-, rfl⟩ := hstep
      refine {h with inbound := ?_}
      show (if n = rest.length then Inbound.reading else .writing (rest.drop n)) ≠ _
      split <;> simp
    | _ => simp [step, hin] at hstep
  | emitFail => exact hlink.elim
  | linkEnd => exact hlink.elim
  | plainWriteFail => exact hlink.elim

theorem encodeAll_withPrefix_eq_nil {l : List Bytes} (h : encodeAll withPrefix l = []) : l = [] := by
  cases l with
  | nil => rfl
  | cons c rest =>
    rw [encodeAll_cons, List.append_eq_nil_iff] at h
    exact absurd h.1 (withPrefix_ne_nil c)

/-- Everything processed means everything delivered. -/
theorem Intact.delivered_eq {t : Transport} (h : Intact S t) (hinv : Inv t) (hdone : t.Processed) :
    t.delivered = t.written := by
  obtain ⟨hqueue, hout, harrived, hinbox, hin⟩ := hdone
  obtain ⟨lost, hsealed, hlost⟩ := hinv.sealed
  have hreceived : t.sent.take t.received = t.sent := by
    obtain ⟨later, hlater⟩ := h.pending
    have hunwritten : unwritten t.outbound = [] := by
      cases ho : t.outbound with
      | writing rest => exact absurd ho (hout rest)
      | _ => rfl
    have hwire := h.wire
    rw [hunwritten, List.append_nil, ← harrived, h.consumed, hinbox, List.append_nil] at hwire
    have hdrop : encodeAll withPrefix ((ciphers t.sent).drop t.received) = [] := by
      rw [← List.take_append_drop t.received (ciphers t.sent), encodeAll_append] at hwire
      simpa using hwire.symm
    have hnil := encodeAll_withPrefix_eq_nil hdrop
    rw [List.drop_eq_nil_iff, ciphers, List.length_map] at hnil
    exact List.take_of_length_le hnil
  have hdelivered : t.delivered = plains t.sent := by
    have hopened := hinv.opened
    rw [hreceived] at hopened
    cases hi : t.inbound with
    | reading =>
      rw [hi] at hopened
      exact hopened
    | writing rest => exact absurd hi (hin rest)
    | stopped => exact absurd hi h.inbound
  rw [hdelivered, ← hsealed, hlost h.outbound, hqueue, List.append_nil, List.append_nil]

/-- **The transport delivers a prefix.** Whatever the link does, what the inbound
task writes to the application is a prefix of what was written at the other end;
on an unmodified link it does not stop, and once everything is processed all of it
is there. No ciphertext is too large to write. -/
theorem delivered_isPrefix (S : Snow) (hS : S.Documented) :
    (∀ t, (system S).Reach (Authentic S) t → t.delivered <+: t.written) ∧
    (∀ t, (system S).Reach Unmodified t →
      t.inbound ≠ .stopped ∧ (t.Processed → t.delivered = t.written)) ∧
    (∀ t, (system S).Reachable t → t.outbound ≠ .stopped .tooLarge) := by
  refine ⟨fun t ht => ?_, fun t ht => ?_, fun t ht => ?_⟩
  · exact delivered_of_inv (ht.invariant inv_init fun _ _ _ h hc hs => inv_step hS h hc hs)
  · have h : Intact S t ∧ Inv t :=
      ht.invariant (I := fun t => Intact S t ∧ Inv t) ⟨intact_init, inv_init⟩ fun a _ _ h hc hs =>
        ⟨intact_step hS h.1 hc hs, inv_step hS h.2 (h.1.authentic hS a) hs⟩
    exact ⟨h.1.inbound, h.1.delivered_eq h.2⟩
  · exact ht.invariant (I := fun t => t.outbound ≠ .stopped .tooLarge) (by simp [system])
      fun _ _ _ h _ hs => not_tooLarge_step hS h hs

/-- A cipher that appends the nonce sixteen times, and checks it. -/
def tagCipher : Snow where
  writeMessage n plain :=
    if n < 2 ^ 64 - 1 ∧ plain.length + 16 ≤ maxNoiseMessageLen then
      some (plain ++ List.replicate 16 (UInt8.ofNat n))
    else none
  readMessage n cipher :=
    if cipher.drop (cipher.length - 16) = List.replicate 16 (UInt8.ofNat n) then
      some (cipher.take (cipher.length - 16))
    else none

theorem tagCipher_documented : tagCipher.Documented where
  length := by
    intro n plain cipher h
    simp only [tagCipher, Option.ite_none_right_eq_some, Option.some.injEq] at h
    rw [← h.2]
    simp
  seals := by
    intro n plain hn hlen
    simp only [tagCipher]
    rw [if_pos ⟨hn, hlen⟩]
    rfl
  opens := by
    intro n plain cipher h
    simp only [tagCipher, Option.ite_none_right_eq_some, Option.some.injEq] at h
    rw [← h.2]
    simp [tagCipher]

/-- Two chunks are sent; the link delivers the first twice, and the inbound task
stops at the repeated message. -/
def replayRun : List Action :=
  let first : Bytes := withPrefix ([1, 2] ++ List.replicate 16 0)
  [.write [1, 2, 3], .plainRead 2, .emit 22, .plainRead 1, .emit 21,
    .deliver first, .readMessage, .plainWrite 2, .deliver first, .readMessage]

/-- Two chunks sent over an unmodified link, delivered in pieces. -/
def cleanRun : List Action :=
  [.write [1, 2, 3], .plainRead 2, .emit 7, .emit 15, .plainRead 1, .emit 21,
    .deliver (withPrefix ([1, 2] ++ List.replicate 16 0) ++ [0, 0]), .readMessage, .plainWrite 1, .plainWrite 1,
    .deliver ([0, 17] ++ [3] ++ List.replicate 16 1), .readMessage, .plainWrite 1]

/-- The theorem at the replayed and at the clean run: two bytes are delivered and
the task stops, and three bytes are delivered. -/
theorem delivered_isPrefix_tagCipher :
    (∃ t, (system tagCipher).Reach (Authentic tagCipher) t ∧ t.inbound = .stopped ∧
      t.delivered = [1, 2] ∧ t.delivered <+: t.written) ∧
    (∃ t, (system tagCipher).Reach Unmodified t ∧ t.Processed ∧ t.delivered = t.written ∧
      t.written = [1, 2, 3]) := by
  obtain ⟨hpre, hequal, -⟩ := delivered_isPrefix tagCipher tagCipher_documented
  constructor
  · obtain ⟨t, ht, hp⟩ := System.reach_of_run (S := system tagCipher) (C := Authentic tagCipher) replayRun
      (fun t => t.inbound = .stopped ∧ t.delivered = [1, 2]) (by decide +kernel)
    simp only [decide_eq_true_eq] at hp
    exact ⟨t, ht, hp.1, hp.2, hpre t ht⟩
  · obtain ⟨t, ht, hp⟩ := System.reach_of_run (S := system tagCipher) (C := Unmodified) cleanRun
      (fun t => t.plainQueue = [] ∧ t.outbound = .reading ∧ t.arrived = t.onWire ∧ t.inbox = [] ∧
        t.inbound = .reading ∧ t.written = [1, 2, 3]) (by decide +kernel)
    simp only [decide_eq_true_eq] at hp
    obtain ⟨hqueue, hout, harrived, hinbox, hin, hwritten⟩ := hp
    have hdone : t.Processed := ⟨hqueue, by simp [hout], harrived, hinbox, by simp [hin]⟩
    exact ⟨t, ht, hdone, (hequal t ht).2 hdone, hwritten⟩

end Transport

end Rps.Core
