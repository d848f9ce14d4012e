import Rps.Core.Transport
import Rps.Mux.Progress

/-! The mux over the encrypted transport.

`noise::connect` and `noise::accept` end in `spawn_transport`, and `Mux::new` runs on
the stream that returns. So the bytes a writer task writes wait in a duplex buffer, are
sealed in chunks that know nothing of frames, cross a link that may do anything to
them, and what opens at the other end is what that end's reader task reads its frames
from. Each end writes into one `Transport` and reads from the other.

`Mux.system` has a wire that keeps every byte in order. The bytes the peer has
been handed and not read, and behind them those written and not handed over, are such
a wire (`pair`), so the mux invariant carries over. `sealed_delivery`: whatever the
link does, each stream's receiver gets a prefix of what its peer sent and no
message of another stream; on unmodified links no reader task stops, and where
nothing is under way nothing is missing.

A writer task whose own end of the transport is gone altogether stops at a write
error; here it waits. Either way what it has not written does not arrive. -/
namespace Rps.Mux
open Base
open Rps.Core (Snow Transport)

/-- Two ends, the transport each writes into, and the bytes of each that the transport
has handed to the peer and the peer's reader task has not read. -/
structure Sealed where
  ends : Side → Endpoint
  links : Side → Transport
  unread : Side → Bytes

inductive SealedLabel where
  | act (s : Side) (a : Action)
  | link (s : Side) (a : Transport.Action)
  | readEnd (s : Side)
  deriving DecidableEq

namespace Sealed

def step (S : Side → Snow) : SealedLabel → Sealed → Option Sealed
  | .act s (.writeBytes n), q =>
    let e := q.ends s
    if 0 < n ∧ n ≤ e.writing.length then
      (Transport.step (S s) (.write (e.writing.take n)) (q.links s)).map fun t =>
        {q with
          ends := Function.update q.ends s {e with writing := e.writing.drop n}
          links := Function.update q.links s t}
    else none
  | .act s .readFrame, q =>
    let e := q.ends s
    if e.reader = .reading then
      match readFrame (q.unread s.peer) with
      | .more => none
      | .invalid _ => some {q with ends := Function.update q.ends s {e with reader := .stopped}}
      | .done f rest =>
        some {q with
          ends := Function.update q.ends s (e.onFrame f)
          unread := Function.update q.unread s.peer rest}
    else none
  | .act s a, q => ((q.ends s).act a).map fun e' => {q with ends := Function.update q.ends s e'}
  -- Only the writer task writes to the transport.
  | .link _ (.write _), _ => none
  | .link s a, q =>
    (Transport.step (S s) a (q.links s)).map fun t =>
      {q with
        links := Function.update q.links s t
        unread := Function.update q.unread s (q.unread s ++ t.delivered.drop (q.links s).delivered.length)}
  -- The transport has shut its stream down, and what is left of it is no whole frame.
  | .readEnd s, q =>
    let e := q.ends s
    match e.reader, readFrame (q.unread s.peer), (q.links s.peer).inbound with
    | .reading, .more, .stopped => some {q with ends := Function.update q.ends s {e with reader := .stopped}}
    | _, _, _ => none

def system (S : Side → Snow) : System Sealed SealedLabel where
  init := ⟨fun _ => {}, fun _ => {}, fun _ => []⟩
  step := step S

/-- The bytes an end has written that the transport has not handed to its peer. -/
def ahead (q : Sealed) (s : Side) : Bytes := (q.links s).written.drop (q.links s).delivered.length

/-- The two ends as `Mux.system` has them: the wire is all that was written and not read. -/
def pair (q : Sealed) : Pair := ⟨q.ends, fun s => q.unread s ++ q.ahead s⟩

/-- `Mux.Allowed`, and nothing opens but the peer's next ciphertext. -/
def Allowed (S : Side → Snow) (o : Side) : SealedLabel → Sealed → Prop
  | .act s a, q => Mux.Allowed o (s, a) q.pair
  | .link s a, q => Transport.Authentic (S s) a (q.links s)
  | .readEnd _, _ => True

/-- `Mux.Allowed`, over links that hand over what was put on them. -/
def Unmodified (o : Side) : SealedLabel → Sealed → Prop
  | .act s a, q => Mux.Allowed o (s, a) q.pair
  | .link s a, q => Transport.Unmodified a (q.links s)
  | .readEnd _, _ => True

instance (S : Side → Snow) (o : Side) (label : SealedLabel) (q : Sealed) : Decidable (Allowed S o label q) := by
  cases label with
  | act s a => exact inferInstanceAs (Decidable (Mux.Allowed o (s, a) q.pair))
  | link s a => exact inferInstanceAs (Decidable (Transport.Authentic (S s) a (q.links s)))
  | readEnd s => exact .isTrue trivial

instance (o : Side) (label : SealedLabel) (q : Sealed) : Decidable (Unmodified o label q) := by
  cases label with
  | act s a => exact inferInstanceAs (Decidable (Mux.Allowed o (s, a) q.pair))
  | link s a => exact inferInstanceAs (Decidable (Transport.Unmodified a (q.links s)))
  | readEnd s => exact .isTrue trivial

/-- Nothing is under way: the writer tasks have nothing left, the transports have
processed everything, and the reader tasks wait for more. -/
structure Quiet (q : Sealed) : Prop where
  writers : ∀ s, (q.ends s).writerQueue = [] ∧ (q.ends s).writing = []
  links : ∀ s, (q.links s).Processed
  readers : ∀ s, readFrame (q.unread s) = .more

variable {S : Side → Snow}

/-! ### The transport as a wire -/

/-- A step of the transport's own tasks or of the link hands over some of what was
written, and writes nothing. -/
theorem transport_hands {C : Snow} {a : Transport.Action} {t u : Transport} (hstep : Transport.step C a t = some u)
    (ha : ∀ data, a ≠ .write data) : u.written = t.written ∧ t.delivered <+: u.delivered := by
  cases a with
  | write data => exact absurd rfl (ha data)
  | _ => grind [Transport.step, Transport.sealChunk, Transport.openMessage]

/-- What is handed over moves from one part of the wire to the other. -/
theorem hand_over {t u : Transport} (hwritten : u.written = t.written) (hgrows : t.delivered <+: u.delivered)
    (hbegun : u.delivered <+: u.written) :
    u.delivered.drop t.delivered.length ++ u.written.drop u.delivered.length =
      t.written.drop t.delivered.length := by
  obtain ⟨more, hmore⟩ := hgrows
  obtain ⟨rest, hrest⟩ := hbegun
  rw [← hwritten, ← hrest, ← hmore]
  simp

/-- A step of a transport's tasks or of its link: the writer task is not one of them. -/
theorem link_step {s : Side} {a : Transport.Action} {q r : Sealed} (h : step S (.link s a) q = some r) :
    (∀ data, a ≠ .write data) ∧ ∃ t, Transport.step (S s) a (q.links s) = some t ∧ r = {q with
      links := Function.update q.links s t
      unread := Function.update q.unread s (q.unread s ++ t.delivered.drop (q.links s).delivered.length)} := by
  cases a with
  | write data => cases h
  | _ =>
    simp only [step] at h
    obtain ⟨t, ht, rfl⟩ := Option.map_eq_some_iff.mp h
    exact ⟨nofun, t, ht, rfl⟩

/-- The wire after one transport has moved. -/
theorem wire_update (q : Sealed) (s : Side) (t : Transport) (more : Bytes) :
    (fun u => Function.update q.unread s more u ++ ahead {q with links := Function.update q.links s t} u) =
      Function.update q.pair.wire s (more ++ t.written.drop t.delivered.length) := by
  funext u
  by_cases hu : u = s
  · subst hu
    simp [ahead]
  · simp [ahead, pair, Function.update_of_ne hu]

/-- A step of the stack is a step of `Mux.system`, or leaves the pair of ends as it
was, or ends a reader task. -/
theorem pair_step {label : SealedLabel} {q r : Sealed} (h : step S label q = some r)
    (hbegun : ∀ s, (q.links s).delivered <+: (q.links s).written)
    (hbegun' : ∀ s, (r.links s).delivered <+: (r.links s).written) :
    (∃ s a, label = .act s a ∧ Mux.step (s, a) q.pair = some r.pair) ∨
      (∃ s a, label = .link s a ∧ r.pair = q.pair) ∨
      ∃ s, label = .readEnd s ∧ (q.ends s).reader = .reading ∧ (q.links s.peer).inbound = .stopped ∧
        r = {q with ends := Function.update q.ends s {q.ends s with reader := .stopped}} := by
  cases label with
  | act s a =>
    refine .inl ⟨s, a, rfl, ?_⟩
    cases a with
    | writeBytes n =>
      simp only [step] at h
      split at h
      · next hn =>
        obtain ⟨t, ht, rfl⟩ := Option.map_eq_some_iff.mp h
        simp only [Transport.step, Option.ite_none_right_eq_some, Option.some.injEq] at ht
        obtain ⟨-, rfl⟩ := ht
        have hwire := wire_update q s {q.links s with
          written := (q.links s).written ++ (q.ends s).writing.take n
          plainQueue := (q.links s).plainQueue ++ (q.ends s).writing.take n} (q.unread s)
        rw [Function.update_eq_self, List.drop_append_of_le_length (hbegun s).length_le, ← List.append_assoc] at hwire
        refine (if_pos hn).trans (congrArg some ?_)
        exact congrArg (Pair.mk _) hwire.symm
      · cases h
    | readFrame =>
      simp only [step] at h
      split at h
      · next hr =>
        cases hread : readFrame (q.unread s.peer) with
        | more => simp [hread] at h
        | invalid error =>
          simp only [hread] at h
          obtain rfl := Option.some.inj h
          simp only [Mux.step, pair, hr, if_true, readFrame_stable.invalid _ (q.ahead s.peer) error hread]
          rfl
        | done f rest =>
          simp only [hread] at h
          obtain rfl := Option.some.inj h
          have hwire := Linked.append_update q.unread q.ahead s.peer rest (q.ahead s.peer)
          rw [Function.update_eq_self] at hwire
          simp only [Mux.step, pair, hr, if_true, readFrame_stable.done _ (q.ahead s.peer) f rest hread, ← hwire]
          rfl
      · cases h
    | _ =>
      simp only [step] at h
      obtain ⟨e', ha, rfl⟩ := Option.map_eq_some_iff.mp h
      simp only [Mux.step, pair, ha, Option.map_some]
      rfl
  | link s a =>
    refine .inr (.inl ⟨s, a, rfl, ?_⟩)
    obtain ⟨hwrite, t, ht, rfl⟩ := link_step h
    obtain ⟨hwritten, hgrows⟩ := transport_hands ht hwrite
    have hmoved := hand_over hwritten hgrows (by simpa using hbegun' s)
    have hwire := wire_update q s t (q.unread s ++ t.delivered.drop (q.links s).delivered.length)
    rw [List.append_assoc, hmoved] at hwire
    have hsame : Function.update q.pair.wire s (q.unread s ++ q.ahead s) = q.pair.wire :=
      Function.update_eq_self s q.pair.wire
    exact congrArg (Pair.mk q.ends) (hwire.trans hsame)
  | readEnd s =>
    refine .inr (.inr ⟨s, rfl, ?_⟩)
    simp only [step] at h
    split at h
    · next hr _ hend => exact ⟨hr, hend, (Option.some.inj h).symm⟩
    · cases h

/-! ### The invariant of the stack -/

/-- The mux invariant over the wire the transports make. -/
structure Live (o : Side) (q : Sealed) : Prop where
  inv : Inv o q.pair
  links : ∀ s, (q.links s).Inv

theorem Live.handed {o : Side} {q : Sealed} (h : Live o q) (s : Side) :
    (q.links s).delivered <+: (q.links s).written := Transport.delivered_of_inv (h.links s)

/-- A reader task that stops while it waits for a frame holds nothing. -/
theorem inv_stopped {o s : Side} {p : Pair} (h : Inv o p) (hr : (p.ends s).reader = .reading) :
    Inv o {p with ends := Function.update p.ends s {p.ends s with reader := .stopped}} := by
  have hflow : Flows (p.ends s.peer) (p.wire s.peer) (p.ends s).consumed := by simpa using h.flows s.peer
  refine h.replace (fun ho => ?_) (fun ho => ?_) ?_ (h.receives s) {h.flows s with} hflow
  · subst ho
    exact {h.opens with quiet := ⟨h.opens.quiet.1, .inr rfl⟩}
  · subst ho
    exact {h.accepts with reply := nofun}
  · have hknown := h.known s
    simpa [Known, Endpoint.known, hr] using hknown

/-- A transport moves by its own steps, and by what its writer task writes. -/
theorem links_step {label : SealedLabel} {q r : Sealed} (h : step S label q = some r) (t : Side) :
    r.links t = q.links t ∨ ∃ a, Transport.step (S t) a (q.links t) = some (r.links t) ∧
      (label = .link t a ∨ ∃ data, a = .write data) := by
  have hmoved : ∀ {s : Side} {a : Transport.Action} {u : Transport} {r : Sealed},
      Transport.step (S s) a (q.links s) = some u → r.links = Function.update q.links s u →
      (label = .link s a ∨ ∃ data, a = .write data) →
      r.links t = q.links t ∨ ∃ a, Transport.step (S t) a (q.links t) = some (r.links t) ∧
        (label = .link t a ∨ ∃ data, a = .write data) := by
    intro s a u r hu hlinks hlabel
    rw [hlinks]
    by_cases hts : t = s
    · subst hts
      exact .inr ⟨a, by simpa using hu, hlabel⟩
    · exact .inl (Function.update_of_ne hts ..)
  cases label with
  | act s a =>
    cases a with
    | writeBytes n =>
      simp only [step] at h
      split at h
      · obtain ⟨u, hu, rfl⟩ := Option.map_eq_some_iff.mp h
        exact hmoved hu rfl (.inr ⟨_, rfl⟩)
      · cases h
    | readFrame =>
      simp only [step] at h
      split at h
      · split at h
        · cases h
        · obtain rfl := Option.some.inj h
          exact .inl rfl
        · obtain rfl := Option.some.inj h
          exact .inl rfl
      · cases h
    | _ =>
      simp only [step] at h
      obtain ⟨e', -, rfl⟩ := Option.map_eq_some_iff.mp h
      exact .inl rfl
  | link s a =>
    obtain ⟨-, u, hu, rfl⟩ := link_step h
    exact hmoved hu rfl (.inl rfl)
  | readEnd s =>
    simp only [step] at h
    split at h
    · obtain rfl := Option.some.inj h
      exact .inl rfl
    · cases h

theorem Live.step {o : Side} (hS : ∀ s, (S s).Documented) {label : SealedLabel} {q r : Sealed} (h : Live o q)
    (hc : Allowed S o label q) (hs : Sealed.step S label q = some r) : Live o r := by
  have hlinks : ∀ s, (r.links s).Inv := by
    intro s
    rcases links_step hs s with heq | ⟨a, ha, hlabel⟩
    · rw [heq]
      exact h.links s
    · refine Transport.inv_step (hS s) (h.links s) ?_ ha
      rcases hlabel with rfl | ⟨data, rfl⟩
      · exact hc
      · exact nofun
  refine ⟨?_, hlinks⟩
  rcases pair_step hs h.handed (fun s => Transport.delivered_of_inv (hlinks s)) with
    ⟨s, a, rfl, hstep⟩ | ⟨s, a, -, hpair⟩ | ⟨s, -, hr, -, rfl⟩
  · exact inv_step h.inv hc hstep
  · rw [hpair]
    exact h.inv
  · exact inv_stopped h.inv hr

theorem live_init (o : Side) : Live o (system S).init := ⟨inv_init o, fun _ => Transport.inv_init⟩

/-- What the mux invariant gives for a stream: its id is its own, and what was returned
on it is what the peer sent, as far as it goes. -/
theorem delivers {o s : Side} {p : Pair} (h : Inv o p) {stream : MuxStream} (hs : stream ∈ (p.ends s).held) :
    (∀ other ∈ (p.ends s).held, other.id = stream.id → other = stream) ∧
      (p.ends s).returned stream <+: messages stream.id (p.ends s.peer).enqueued ∧
      (Closed stream.id (p.ends s).consumed → (p.ends s).atEnd stream →
        (p.ends s).returned stream = messages stream.id (p.ends s.peer).enqueued) := by
  obtain ⟨ch, hget, hid⟩ := h.known s stream (by simp [Endpoint.known, hs])
  obtain ⟨later, hlater⟩ := (h.flows s.peer).consumed_isPrefix
  rw [Side.peer_peer] at hlater
  have hreturned : (p.ends s).returned stream = ch.returned := by simp [Endpoint.returned, hget]
  have hcarried : ch.returned ++ ch.queue = messages stream.id (p.ends s).consumed := by
    rw [← hid]
    exact (h.receives s).carried _ ch hget
  rw [hreturned, hlater]
  refine ⟨fun other ho hoid => h.stream_unique ho hs hoid, ?_, fun hclosed hend => ?_⟩
  · calc ch.returned
      _ <+: ch.returned ++ ch.queue := List.prefix_append _ _
      _ = messages stream.id (p.ends s).consumed := hcarried
      _ <+: _ := messages_isPrefix _ _ later
  · obtain ⟨ch', hget', hempty⟩ := hend.1
    obtain rfl := Option.some.inj (hget.symm.trans hget')
    rw [hempty, List.append_nil] at hcarried
    rw [messages_append_closed _ _ _ hclosed, hcarried]

/-- The bytes handed to a reader task begin a stream of frames within the limit. -/
theorem Live.not_refused {o : Side} {q : Sealed} (h : Live o q) (s : Side) (error : String) :
    readFrame (q.unread s) ≠ .invalid error := by
  obtain ⟨frames, hwire, heq⟩ := (h.inv.flows s).inFlight
  have hok : ∀ f ∈ frames, f.payload.length ≤ maxPayloadLen := fun f hf =>
    (h.inv.flows s).bounded f (by rw [heq]; simp [hf])
  have hbegins : q.unread s ++ (q.ahead s ++ (q.ends s).writing) = Reader.encodeAll Frame.encode frames := by
    rw [← List.append_assoc]
    exact hwire
  exact frames_delimit.not_invalid hok hbegins

/-! ### Unmodified links -/

/-- Over unmodified links, besides: the transports are intact and no reader task has stopped. -/
structure Intact (S : Side → Snow) (o : Side) (q : Sealed) : Prop where
  live : Live o q
  links : ∀ s, (q.links s).Intact (S s)
  running : ∀ s, (q.ends s).reader ≠ .stopped

/-- A step of the mux on its own stops no reader task. -/
theorem running_step {o s : Side} {a : Action} {p p' : Pair} (h : Inv o p) (hs : Mux.step (s, a) p = some p')
    (hr : ∀ t, (p.ends t).reader ≠ .stopped) (t : Side) : (p'.ends t).reader ≠ .stopped := by
  cases h.moves hs with
  | write _ =>
    apply Linked.running_update hr
    exact hr s
  | read _ _ => exact Linked.running_update hr (Linked.onFrame_running (hr s)) t
  | act ha => exact Linked.running_update hr (Linked.acts_running ha (hr s)) t

theorem Intact.allowed {o : Side} (hS : ∀ s, (S s).Documented) {label : SealedLabel} {q : Sealed}
    (h : Intact S o q) (hc : Unmodified o label q) : Allowed S o label q := by
  cases label with
  | act s a => exact hc
  | link s a => exact (h.links s).authentic (hS s) a
  | readEnd s => trivial

theorem Intact.step {o : Side} (hS : ∀ s, (S s).Documented) {label : SealedLabel} {q r : Sealed}
    (h : Intact S o q) (hc : Unmodified o label q) (hs : Sealed.step S label q = some r) : Intact S o r where
  live := h.live.step hS (h.allowed hS hc) hs
  links := by
    intro s
    rcases links_step hs s with heq | ⟨a, ha, hlabel⟩
    · rw [heq]
      exact h.links s
    · refine Transport.intact_step (hS s) (h.links s) ?_ ha
      rcases hlabel with rfl | ⟨data, rfl⟩
      · exact hc
      · trivial
  running := by
    have hlive := h.live.step hS (h.allowed hS hc) hs
    rcases pair_step hs h.live.handed hlive.handed with
      ⟨s, a, rfl, hstep⟩ | ⟨s, a, -, hpair⟩ | ⟨s, -, -, hend, -⟩
    · exact running_step h.live.inv hstep h.running
    · have hends : r.ends = q.ends := congrArg Pair.ends hpair
      rw [hends]
      exact h.running
    · -- The transport of an unmodified link does not end.
      exact absurd hend (h.links s.peer).inbound

theorem intact_init (o : Side) : Intact S o (system S).init where
  live := live_init o
  links := fun _ => Transport.intact_init
  running := by simp [system]

/-- Where nothing is under way, every frame that was enqueued is consumed. -/
theorem Intact.consumed {o : Side} {q : Sealed} (h : Intact S o q) (hquiet : q.Quiet) (s : Side) :
    (q.ends s.peer).consumed = (q.ends s).enqueued := by
  obtain ⟨hqueue, hwriting⟩ := hquiet.writers s
  obtain ⟨frames, hwire, heq⟩ := (h.live.inv.flows s).inFlight
  have hdelivered := (h.links s).delivered_eq (h.live.links s) (hquiet.links s)
  have hahead : q.ahead s = [] := by simp [ahead, hdelivered]
  have hunread : q.unread s = Reader.encodeAll Frame.encode frames := by
    simpa [pair, hahead, hwriting] using hwire
  have hframes : frames = [] := by
    cases frames with
    | nil => rfl
    | cons f tail =>
      have hf : f.payload.length ≤ maxPayloadLen := (h.live.inv.flows s).bounded f (by rw [heq]; simp)
      have hmore := hquiet.readers s
      rw [hunread, Reader.encodeAll_cons, readFrame_encode f _ hf] at hmore
      cases hmore
  simpa [pair, hframes, hqueue] using heq.symm

/-- A stream is opened and two frames are sent in one chunk, behind them a message in a
chunk of its own. -/
def sealedRun : List SealedLabel :=
  [.act .left (.openStream []), .act .left (.insertStream 0), .act .left (.sendOpen 0),
   .act .left (.sendData 0 [7, 7]), .act .left .takeFrame, .act .left (.writeBytes 9), .act .left .takeFrame,
   .act .left (.writeBytes 11), .link .left (.plainRead 20), .link .left (.emit 40)]

/-- What `sealedRun` put on the link. -/
def sealedMessage : Bytes :=
  withPrefix (Frame.encode ⟨.open, 1, []⟩ ++ Frame.encode ⟨.data, 1, [7, 7]⟩ ++ List.replicate 16 0)

/-- The link delivers the message twice; a second message of the stream is lost with it. -/
def replayedRun : List SealedLabel :=
  sealedRun ++ [.act .left (.sendData 0 [8]), .link .left (.deliver sealedMessage), .link .left .readMessage,
    .link .left (.plainWrite 20), .act .right .readFrame, .act .right .handStream, .act .right .reply,
    .act .right .accept, .act .right .readFrame, .act .right (.recvData 0), .link .left (.deliver sealedMessage),
    .link .left .readMessage, .readEnd .right]

/-- The link delivers the message in two parts, and the acknowledgement comes back. -/
def quietRun : List SealedLabel :=
  sealedRun ++ [.link .left (.deliver (sealedMessage.take 7)), .link .left (.deliver (sealedMessage.drop 7)),
    .link .left .readMessage, .link .left (.plainWrite 12), .act .right .readFrame, .link .left (.plainWrite 8),
    .act .right .handStream, .act .right .reply, .act .right .accept, .act .right .readFrame,
    .act .right .takeFrame, .act .right (.writeBytes 9), .link .right (.plainRead 9), .link .right (.emit 29),
    .link .right (.deliver (withPrefix (Frame.encode ⟨.openAck, 1, []⟩ ++ List.replicate 16 0))),
    .link .right .readMessage, .link .right (.plainWrite 9), .act .left .readFrame]

/-- Nothing of `s` is under way, field by field. -/
def idleAt (q : Sealed) (s : Side) : Bool :=
  decide ((q.ends s).writerQueue = [] ∧ (q.ends s).writing = [] ∧ (q.links s).plainQueue = [] ∧
    (q.links s).outbound = .reading ∧ (q.links s).arrived = (q.links s).onWire ∧ (q.links s).inbox = [] ∧
    (q.links s).inbound = .reading ∧ readFrame (q.unread s) = .more)

theorem quiet_of_idleAt {q : Sealed} (h : ∀ s, idleAt q s = true) : q.Quiet := by
  simp only [idleAt, decide_eq_true_eq] at h
  refine ⟨fun s => ⟨(h s).1, (h s).2.1⟩, fun s => ?_, fun s => (h s).2.2.2.2.2.2.2⟩
  obtain ⟨-, -, hqueue, hout, harrived, hinbox, hin, -⟩ := h s
  exact ⟨hqueue, by simp [hout], harrived, hinbox, by simp [hin]⟩

end Sealed

end Rps.Mux
