import Rps.Base.Progress
import Rps.Mux.Delivery

/-! The mux over a link of bounded capacity.

`Mux::new` takes any byte stream, and a real one holds only so many bytes: a writer
task waits in `write_all` while the link is full, a reader task waits in `read_exact`
while it is empty, and a reader task that waits in a send takes no bytes at all. Here
the link from each end holds at most `capacity` bytes, and what a waiting
`read_exact` has already taken is no longer on it.

Forgetting the capacity gives a run of `Mux.system` (`pair_simulation`), so what is
delivered is unchanged. What a bounded link can add is a standstill: both queues of
an end are bounded, its reader waits for its writer and its writer for the peer's
reader. `drains` excludes it where one end opens the streams: the opener's
reader never waits in a send, so its peer's writer always gets through, and then the
peer's reader does. -/
namespace Rps.Mux
open Base

/-- Two ends, the bytes of each that the peer's waiting `read_exact` has taken, and
the bytes of each that are on the link. -/
structure Linked where
  ends : Side → Endpoint
  arrived : Side → Bytes
  transit : Side → Bytes

inductive LinkLabel where
  | act (s : Side) (a : Action)
  | fill (s : Side)
  deriving DecidableEq

namespace Linked

/-- Where the link's bytes are makes no difference to the ends. -/
def pair (q : Linked) : Pair := ⟨q.ends, fun s => q.arrived s ++ q.transit s⟩

def step (capacity : Nat) : LinkLabel → Linked → Option Linked
  -- The `read_exact` in which the reader task of `s` waits takes the next byte.
  | .fill s, q =>
    match (q.ends s).reader, readFrame (q.arrived s.peer), q.transit s.peer with
    | .reading, .more, b :: rest =>
      some {q with
        arrived := Function.update q.arrived s.peer (q.arrived s.peer ++ [b])
        transit := Function.update q.transit s.peer rest}
    | _, _, _ => none
  | .act s (.writeBytes n), q =>
    let e := q.ends s
    if 0 < n ∧ n ≤ e.writing.length ∧ (q.transit s).length + n ≤ capacity then
      some {q with
        ends := Function.update q.ends s {e with writing := e.writing.drop n}
        transit := Function.update q.transit s (q.transit s ++ e.writing.take n)}
    else none
  | .act s .readFrame, q =>
    let e := q.ends s
    if e.reader = .reading then
      match readFrame (q.arrived s.peer) with
      | .more => none
      | .invalid _ => some {q with ends := Function.update q.ends s {e with reader := .stopped}}
      | .done f rest =>
        some {q with
          ends := Function.update q.ends s (e.onFrame f)
          arrived := Function.update q.arrived s.peer rest}
    else none
  | .act s a, q => ((q.ends s).act a).map fun e' => {q with ends := Function.update q.ends s e'}

def system (capacity : Nat) : System Linked LinkLabel where
  init := ⟨fun _ => {}, fun _ => [], fun _ => []⟩
  step := step capacity

/-- `Mux.Allowed`, whatever the link does. -/
def Allowed (o : Side) : LinkLabel → Linked → Prop
  | .act s a, q => Mux.Allowed o (s, a) q.pair
  | .fill _, _ => True

instance (o : Side) (label : LinkLabel) (q : Linked) : Decidable (Allowed o label q) := by
  cases label with
  | act s a => exact inferInstanceAs (Decidable (Mux.Allowed o (s, a) q.pair))
  | fill s => exact .isTrue trivial

/-! ### Forgetting the capacity -/

theorem append_update (a b : Side → Bytes) (s : Side) (x y : Bytes) :
    (fun t => Function.update a s x t ++ Function.update b s y t) =
      Function.update (fun t => a t ++ b t) s (x ++ y) := by
  funext t
  by_cases ht : t = s
  · subst ht
    simp
  · simp [Function.update_of_ne ht]

/-- A step of the bounded link is a step of `Mux.system`, or moves a byte to the reader. -/
theorem pair_step {capacity : Nat} {label : LinkLabel} {q r : Linked} (h : step capacity label q = some r) :
    (∃ s a, label = .act s a ∧ Mux.step (s, a) q.pair = some r.pair) ∨
      (∃ s, label = .fill s ∧ r.pair = q.pair) := by
  cases label with
  | fill s =>
    refine .inr ⟨s, rfl, ?_⟩
    simp only [step] at h
    split at h
    · next b rest _ _ ht =>
      obtain rfl := Option.some.inj h
      simp only [pair, append_update, List.append_assoc, List.singleton_append, ← ht, Function.update_eq_self]
    · cases h
  | act s a =>
    refine .inl ⟨s, a, rfl, ?_⟩
    cases a with
    | writeBytes n =>
      simp only [step] at h
      split at h
      · next hn =>
        obtain rfl := Option.some.inj h
        have hwire := append_update q.arrived q.transit s (q.arrived s) (q.transit s ++ (q.ends s).writing.take n)
        rw [Function.update_eq_self] at hwire
        simp only [Mux.step, pair, if_pos (And.intro hn.1 hn.2.1), hwire, List.append_assoc]
      · cases h
    | readFrame =>
      simp only [step] at h
      split at h
      · next hr =>
        cases hread : readFrame (q.arrived s.peer) with
        | more => simp [hread] at h
        | invalid error =>
          simp only [hread] at h
          obtain rfl := Option.some.inj h
          simp only [Mux.step, pair, hr, if_true, readFrame_stable.invalid _ (q.transit s.peer) error hread]
        | done f rest =>
          simp only [hread] at h
          obtain rfl := Option.some.inj h
          have hwire := append_update q.arrived q.transit s.peer rest (q.transit s.peer)
          rw [Function.update_eq_self] at hwire
          simp only [Mux.step, pair, hr, if_true, readFrame_stable.done _ (q.transit s.peer) f rest hread, hwire]
      · cases h
    | _ =>
      simp only [step] at h
      obtain ⟨e', ha, rfl⟩ := Option.map_eq_some_iff.mp h
      simp only [Mux.step, pair, ha, Option.map_some]

theorem pair_simulation (capacity : Nat) (o : Side) :
    System.Simulation (system capacity) (Allowed o) Mux.system (Mux.Allowed o) fun q p => p = q.pair where
  init := rfl
  step := by
    intro label q r p _ _ hp hc hs
    subst hp
    rcases pair_step hs with ⟨s, a, rfl, hstep⟩ | ⟨s, rfl, heq⟩
    · exact ⟨r.pair, .step .refl hc hstep, rfl⟩
    · exact ⟨q.pair, .refl, heq.symm⟩

/-! ### What one step does -/

/-- The tasks of both ends are running. -/
structure Live (o : Side) (q : Linked) : Prop where
  inv : Inv o q.pair
  running : ∀ s, (q.ends s).reader ≠ .stopped

/-- Every step from a live state. -/
inductive Moves (q : Linked) : LinkLabel → Linked → Prop where
  | fill {s : Side} {b : UInt8} {rest : Bytes} : q.transit s.peer = b :: rest → Moves q (.fill s) {q with
      arrived := Function.update q.arrived s.peer (q.arrived s.peer ++ [b])
      transit := Function.update q.transit s.peer rest}
  | write {s : Side} {n : Nat} : 0 < n → n ≤ (q.ends s).writing.length → Moves q (.act s (.writeBytes n)) {q with
      ends := Function.update q.ends s {q.ends s with writing := (q.ends s).writing.drop n}
      transit := Function.update q.transit s (q.transit s ++ (q.ends s).writing.take n)}
  | read {s : Side} {f : Frame} {rest : Bytes} : (q.ends s).reader = .reading →
      readFrame (q.arrived s.peer) = .done f rest → Moves q (.act s .readFrame) {q with
      ends := Function.update q.ends s ((q.ends s).onFrame f)
      arrived := Function.update q.arrived s.peer rest}
  | act {s : Side} {a : Action} {e' : Endpoint} : Acts (q.ends s) a e' → Moves q (.act s a) {q with
      ends := Function.update q.ends s e'}

/-- The bytes a reader has taken begin a stream of frames within the limit. -/
theorem Live.frames {o : Side} {q : Linked} (h : Live o q) (s : Side) :
    ∃ frames, q.arrived s ++ (q.transit s ++ (q.ends s).writing) = Reader.encodeAll Frame.encode frames ∧
      (q.ends s).enqueued = (q.ends s.peer).consumed ++ frames ++ (q.ends s).writerQueue ∧
      ∀ f ∈ frames, f.payload.length ≤ maxPayloadLen := by
  have hflows := h.inv.flows s
  obtain ⟨frames, hwire, heq⟩ := hflows.inFlight
  refine ⟨frames, by rw [← List.append_assoc]; exact hwire, heq, fun f hf => ?_⟩
  apply hflows.bounded
  rw [heq]
  simp [hf]

theorem Live.moves {o : Side} {capacity : Nat} {label : LinkLabel} {q r : Linked} (h : Live o q)
    (hs : step capacity label q = some r) : Moves q label r := by
  cases label with
  | fill s =>
    simp only [step] at hs
    split at hs
    · next ht =>
      obtain rfl := Option.some.inj hs
      exact .fill ht
    · cases hs
  | act s a =>
    have hact : ∀ {e' : Endpoint}, (q.ends s).act a = some e' →
        Moves q (.act s a) {q with ends := Function.update q.ends s e'} := by
      intro e' ha
      refine .act (acts_of_act ha (h.inv.flows s).live fun f hf => (h.inv.flows s).bounded f ?_)
      obtain ⟨frames, -, heq, -⟩ := h.frames s
      show f ∈ (q.ends s).enqueued
      rw [heq]
      simp [hf]
    cases a with
    | writeBytes n =>
      simp only [step] at hs
      split at hs
      · next hn =>
        obtain rfl := Option.some.inj hs
        exact .write hn.1 hn.2.1
      · cases hs
    | readFrame =>
      simp only [step] at hs
      split at hs
      · next hr =>
        cases hread : readFrame (q.arrived s.peer) with
        | more => simp [hread] at hs
        | invalid error =>
          obtain ⟨frames, hwire, -, hok⟩ := h.frames s.peer
          exact absurd hread (frames_delimit.not_invalid hok hwire)
        | done f rest =>
          simp only [hread] at hs
          obtain rfl := Option.some.inj hs
          exact .read hr hread
      · cases hs
    | _ =>
      simp only [step] at hs
      obtain ⟨e', ha, rfl⟩ := Option.map_eq_some_iff.mp hs
      exact hact ha

theorem onFrame_running {e : Endpoint} {f : Frame} (h : e.reader ≠ .stopped) : (e.onFrame f).reader ≠ .stopped := by
  cases ht : f.frameType with
  | data => cases hl : e.streams.lookup f.streamId <;> simpa [Endpoint.onFrame, ht, hl] using h
  | «open» => simp [Endpoint.onFrame, ht]
  | ping => simp [Endpoint.onFrame, ht]
  | _ => simpa [Endpoint.onFrame, ht] using h

theorem acts_running {e e' : Endpoint} {a : Action} (ha : Acts e a e') (h : e.reader ≠ .stopped) :
    e'.reader ≠ .stopped := by
  cases ha with
  | handStream _ => simp
  | reply _ => simp
  | _ => exact h

theorem running_update {ends : Side → Endpoint} {s : Side} {e' : Endpoint} (h : ∀ t, (ends t).reader ≠ .stopped)
    (he : e'.reader ≠ .stopped) (t : Side) : (Function.update ends s e' t).reader ≠ .stopped := by
  by_cases ht : t = s
  · subst ht
    simpa using he
  · simpa [Function.update_of_ne ht] using h t

theorem Live.step {o : Side} {capacity : Nat} {label : LinkLabel} {q r : Linked} (h : Live o q)
    (hc : Allowed o label q) (hs : Linked.step capacity label q = some r) : Live o r where
  inv := by
    rcases pair_step hs with ⟨s, a, rfl, hstep⟩ | ⟨s, rfl, heq⟩
    · exact inv_step h.inv hc hstep
    · rw [heq]
      exact h.inv
  running := by
    cases h.moves hs with
    | fill _ => exact h.running
    | @write s n _ _ =>
      apply running_update h.running
      exact h.running s
    | @read s f rest _ _ =>
      apply running_update h.running
      exact onFrame_running (h.running s)
    | @act s a e' ha =>
      apply running_update h.running
      exact acts_running ha (h.running s)

theorem live_of_reach {capacity : Nat} {o : Side} {q : Linked} (h : (system capacity).Reach (Allowed o) q) :
    Live o q := by
  refine h.invariant ⟨inv_init o, fun s => ?_⟩ fun _ _ _ hi hc hs => hi.step hc hs
  simp [system]

/-! ### How much work is left -/

/-- The steps of the mux itself: its writer and reader tasks, the link, and the
accepting side's loop around `accept`. -/
def Own : LinkLabel → Prop
  | .fill _ => True
  | .act _ a => match a with
    | .accept | .handStream | .reply | .takeFrame | .writeBytes _ | .readFrame => True
    | .openStream _ | .insertStream _ | .sendOpen _ | .sendData _ _ | .close _ | .recvData _ => False

end Linked

/-- Steps from the writer queue through the peer's reader: the frame is taken, each of
its bytes is written and taken off the link, and the frame is read. -/
def Frame.carry (f : Frame) : Nat := 2 + 2 * f.encode.length

/-- Steps that reading the frame leaves to do: an `Open` hands over its stream, which
is accepted, and sends an `OpenAck`; a `Ping` sends a `Pong`. -/
def Frame.answer (f : Frame) : Nat :=
  match f.frameType with
  | .open => 3 + Frame.carry ⟨.openAck, f.streamId, []⟩
  | .ping => 1 + Frame.carry ⟨.pong, f.streamId, f.payload⟩
  | _ => 0

def ReaderState.load : ReaderState → Nat
  | .handing stream => 3 + Frame.carry ⟨.openAck, stream.id, []⟩
  | .replying f => 1 + f.carry + f.answer
  | .reading | .stopped => 0

/-- Steps left for what an end has in its queues and in its reader's hands. -/
def Endpoint.load (e : Endpoint) : Nat :=
  (e.writerQueue.map fun f => 1 + 2 * f.encode.length).sum + 2 * e.writing.length + e.reader.load +
    e.incoming.length

/-- Reads, and what they leave to do, of the frames that were enqueued and not consumed. -/
def unread (enqueued consumed : List Frame) : Nat :=
  ((enqueued.drop consumed.length).map fun f => 1 + f.answer).sum

theorem unread_push {enqueued consumed : List Frame} (h : consumed.length ≤ enqueued.length) (f : Frame) :
    unread (enqueued ++ [f]) consumed = unread enqueued consumed + (1 + f.answer) := by
  rw [unread, List.drop_append_of_le_length h, List.map_append, List.sum_append, unread]
  simp

theorem unread_read {enqueued consumed later : List Frame} {f : Frame} (h : enqueued = consumed ++ f :: later) :
    unread enqueued consumed = unread enqueued (consumed ++ [f]) + (1 + f.answer) := by
  subst h
  have hnext : (consumed ++ f :: later).drop (consumed ++ [f]).length = later := by
    rw [show consumed ++ f :: later = (consumed ++ [f]) ++ later by simp, List.drop_left]
  rw [unread, unread, hnext, List.drop_left, List.map_cons, List.sum_cons, Nat.add_comm]

/-- An end's own step leaves it less to do. -/
theorem acts_load {s : Side} {e e' : Endpoint} {a : Action} {consumed : List Frame} (ha : Acts e a e')
    (hown : Linked.Own (.act s a)) (hle : consumed.length ≤ e.enqueued.length) :
    e'.load + unread e'.enqueued consumed < e.load + unread e.enqueued consumed := by
  cases ha with
  | accept hi =>
    simp only [Endpoint.load, hi, List.length_cons]
    omega
  | handStream hr =>
    simp only [Endpoint.load, hr, ReaderState.load, Frame.answer, List.length_append, List.length_singleton]
    omega
  | reply hr =>
    rw [unread_push hle]
    simp only [Endpoint.load, hr, ReaderState.load, Frame.carry, List.map_append, List.map_singleton,
      List.sum_append, List.sum_singleton]
    omega
  | takeFrame hw hq _ =>
    simp only [Endpoint.load, hw, hq, List.map_cons, List.sum_cons, List.length_nil]
    omega
  | openStream _ | insertStream _ _ | sendOpen _ _ | sendData _ _ | close _ | recvData _ _ _ => exact hown.elim

/-- A frame leaves the reader what it was counted for. -/
theorem onFrame_load {e : Endpoint} (f : Frame) (hr : e.reader = .reading) :
    (e.onFrame f).load = e.load + f.answer := by
  obtain ⟨_, _, hqueue, hwriting, _, _, _, _, hincoming⟩ := onFrame_frame e f
  have hreader : (e.onFrame f).reader.load = f.answer := by
    cases ht : f.frameType with
    | «open» => simp [Endpoint.onFrame, Frame.answer, ReaderState.load, ht]
    | ping => simp [Endpoint.onFrame, Frame.answer, ReaderState.load, ht]
    | _ =>
      rw [onFrame_reader (by simp [ht]), hr]
      simp [Frame.answer, ReaderState.load, ht]
  have hbefore : e.reader.load = 0 := by rw [hr, ReaderState.load]
  simp only [Endpoint.load, hqueue, hwriting, hincoming, hreader, hbefore]
  omega

namespace Linked

def load (q : Linked) (s : Side) : Nat :=
  (q.ends s).load + unread (q.ends s).enqueued (q.ends s.peer).consumed + (q.transit s).length

/-- The steps the mux can still take by itself, at most. -/
def work (q : Linked) : Nat := q.load .left + q.load .right

theorem work_eq (q : Linked) (s : Side) : q.work = q.load s + q.load s.peer := by
  cases s with
  | left => rfl
  | right => exact Nat.add_comm _ _

theorem Live.consumed_le {o : Side} {q : Linked} (h : Live o q) (s : Side) :
    (q.ends s.peer).consumed.length ≤ (q.ends s).enqueued.length := by
  obtain ⟨frames, -, heq, -⟩ := h.frames s
  rw [heq]
  simp only [List.length_append]
  omega

/-- Every step of the mux itself leaves less to do. -/
theorem Live.work_lt {o : Side} {label : LinkLabel} {q r : Linked} (h : Live o q) (hm : Moves q label r)
    (hown : Own label) : r.work < q.work := by
  cases hm with
  | @fill s b rest ht =>
    rw [work_eq _ s, work_eq q s]
    simp [load, ht, Function.update_of_ne (Side.peer_ne s).symm]
  | @write s n hn hle =>
    rw [work_eq _ s, work_eq q s]
    simp [load, Endpoint.load, Function.update_of_ne (Side.peer_ne s)]
    omega
  | @read s f rest hr hread =>
    obtain ⟨hcons, henq, _⟩ := onFrame_frame (q.ends s) f
    obtain ⟨frames, hwire, heq, hok⟩ := h.frames s.peer
    obtain ⟨tail, rfl, -⟩ := frames_delimit.head_of_done hok hwire hread
    rw [Side.peer_peer] at heq
    have hnext : (q.ends s.peer).enqueued =
        (q.ends s).consumed ++ f :: (tail ++ (q.ends s.peer).writerQueue) := by
      rw [heq]
      simp
    have hunread := unread_read hnext
    rw [work_eq _ s, work_eq q s]
    simp [load, Function.update_of_ne (Side.peer_ne s), onFrame_load f hr, hcons, henq, hunread]
    omega
  | @act s a e' ha =>
    have hlt := acts_load ha hown (h.consumed_le s)
    have hcons : e'.consumed = (q.ends s).consumed := by cases ha <;> rfl
    rw [work_eq _ s, work_eq q s]
    simp [load, Function.update_of_ne (Side.peer_ne s), hcons]
    omega

/-! ### Where nothing is left to do -/

/-- Nothing is under way: every frame that was enqueued is consumed, and both tasks
of both ends wait for something new. -/
structure Settled (q : Linked) : Prop where
  delivered : ∀ s, (q.ends s.peer).consumed = (q.ends s).enqueued
  queues : ∀ s, (q.ends s).writerQueue = [] ∧ (q.ends s).writing = [] ∧ (q.ends s).incoming = []
  link : ∀ s, q.arrived s = [] ∧ q.transit s = []
  readers : ∀ s, (q.ends s).reader = .reading

/-- Towards a reader that is reading, everything gets through. -/
theorem Live.through {o : Side} {capacity : Nat} {q : Linked} (h : Live o q) (hcap : 0 < capacity)
    (hidle : (system capacity).Idle Own q) {s : Side} (hr : (q.ends s.peer).reader = .reading) :
    (q.ends s.peer).consumed = (q.ends s).enqueued ∧ (q.ends s).writerQueue = [] ∧ (q.ends s).writing = [] ∧
      q.arrived s = [] ∧ q.transit s = [] := by
  obtain ⟨frames, hwire, heq, hok⟩ := h.frames s
  have hmore : readFrame (q.arrived s) = .more := by
    have hread := hidle (.act s.peer .readFrame) trivial
    simp only [system, Linked.step, hr, if_true, Side.peer_peer] at hread
    cases hf : readFrame (q.arrived s) with
    | more => rfl
    | invalid error => simp [hf] at hread
    | done f rest => simp [hf] at hread
  have htransit : q.transit s = [] := by
    have hfill := hidle (.fill s.peer) trivial
    simp only [system, Linked.step, hr, Side.peer_peer, hmore] at hfill
    cases ht : q.transit s with
    | nil => rfl
    | cons b rest => simp [ht] at hfill
  have hwriting : (q.ends s).writing = [] := by
    have hwrite := hidle (.act s (.writeBytes 1)) trivial
    simp only [system, Linked.step, htransit, List.length_nil, Nat.zero_add] at hwrite
    cases hw : (q.ends s).writing with
    | nil => rfl
    | cons b rest => simp [hw, Nat.succ_le_of_lt hcap] at hwrite
  have hqueue : (q.ends s).writerQueue = [] := by
    have htake := hidle (.act s .takeFrame) trivial
    have hlive : (q.ends s).writerStopped = false := (h.inv.flows s).live
    cases hq : (q.ends s).writerQueue with
    | nil => rfl
    | cons f queue =>
      simp only [system, Linked.step, Endpoint.act, hlive, hwriting, hq] at htake
      cases hf : writeFrame f <;> simp [hf] at htake
  have hframes : frames = [] := by
    cases frames with
    | nil => rfl
    | cons f tail =>
      rw [htransit, hwriting, List.append_nil, List.append_nil] at hwire
      rw [hwire, Reader.encodeAll_cons, readFrame_encode f _ (hok f (List.mem_cons_self ..))] at hmore
      cases hmore
  subst hframes
  rw [htransit, hwriting] at hwire
  refine ⟨?_, hqueue, hwriting, by simpa using hwire, htransit⟩
  simpa [hqueue] using heq.symm

/-- The accepting end's reader gets through its sends once its writer has got through. -/
theorem Live.accepter_reading {o : Side} {capacity : Nat} {q : Linked} (h : Live o q)
    (hidle : (system capacity).Idle Own q) (hqueue : (q.ends o.peer).writerQueue = []) :
    (q.ends o.peer).incoming = [] ∧ (q.ends o.peer).reader = .reading := by
  have hincoming : (q.ends o.peer).incoming = [] := by
    have haccept := hidle (.act o.peer .accept) trivial
    cases hi : (q.ends o.peer).incoming with
    | nil => rfl
    | cons stream rest => simp [system, Linked.step, Endpoint.act, hi] at haccept
  refine ⟨hincoming, ?_⟩
  have hlive : (q.ends o.peer).writerStopped = false := (h.inv.flows o.peer).live
  cases hr : (q.ends o.peer).reader with
  | reading => rfl
  | handing stream =>
    have hhand := hidle (.act o.peer .handStream) trivial
    simp [system, Linked.step, Endpoint.act, hr, hincoming, channelCapacity] at hhand
  | replying f =>
    have hreply := hidle (.act o.peer .reply) trivial
    simp [system, Linked.step, Endpoint.act, Endpoint.enqueue, hr, hlive, hqueue, channelCapacity] at hreply
  | stopped => exact absurd hr (h.running o.peer)

theorem Live.settled {o : Side} {capacity : Nat} {q : Linked} (h : Live o q) (hcap : 0 < capacity)
    (hidle : (system capacity).Idle Own q) : Settled q := by
  obtain ⟨hquiet, hreader⟩ := h.inv.opens.quiet
  have hopener : (q.ends o).reader = .reading := hreader.resolve_right (h.running o)
  -- The opener's reader is reading, so its peer's frames get through, then the peer's
  -- reader is reading and the opener's frames get through.
  obtain ⟨hback, hqueue, hwriting, harrived, htransit⟩ := h.through hcap hidle (s := o.peer) (by simpa using hopener)
  obtain ⟨hincoming, haccepter⟩ := h.accepter_reading hidle hqueue
  obtain ⟨hforth, hqueue', hwriting', harrived', htransit'⟩ := h.through hcap hidle haccepter
  have both : ∀ {P : Side → Prop}, P o → P o.peer → ∀ s, P s := by
    intro P ho hp s
    rcases Side.eq_or_peer o s with rfl | rfl
    · exact ho
    · exact hp
  exact ⟨both hforth hback, both ⟨hqueue', hwriting', hquiet⟩ ⟨hqueue, hwriting, hincoming⟩,
    both ⟨harrived', htransit'⟩ ⟨harrived, htransit⟩, both hopener haccepter⟩

theorem own_allowed (o : Side) (label : LinkLabel) (q : Linked) (h : Own label) : Allowed o label q := by
  cases label with
  | fill s => trivial
  | act s a =>
    cases a with
    | openStream payload => exact h.elim
    | sendData j data => exact h.elim
    | _ => trivial

/-- Once everything is consumed, each stream's channel has all that its peer sent. -/
theorem Live.carried {o : Side} {q : Linked} (h : Live o q) (hs : Settled q) {s : Side} {c : Nat} {ch : Channel}
    (hget : (q.ends s).channels[c]? = some ch) :
    ch.returned ++ ch.queue = messages ch.streamId (q.ends s.peer).enqueued := by
  rw [← hs.delivered s.peer, Side.peer_peer]
  exact (h.inv.receives s).carried c ch hget

/-- **No standstill.** Over links of any capacity at all, one end opening the streams:
from every reachable state the mux's own steps run out after at most `work` of them,
in whatever order they are taken; and where they have run out, everything that was
enqueued has been consumed in both directions, no task waits in a send, and every stream's
channel has had every message its peer sent before its first close. -/
theorem drains (o : Side) {capacity : Nat} (hcap : 0 < capacity) {q : Linked}
    (h : (system capacity).Reach (Allowed o) q) :
    (∀ n r, (system capacity).Work Own q n r → n ≤ q.work) ∧
      (∃ n r, (system capacity).Work Own q n r ∧ (system capacity).Idle Own r) ∧
      ∀ n r, (system capacity).Work Own q n r → (system capacity).Idle Own r → Settled r ∧
        ∀ (s : Side) (c : Nat) (ch : Channel), (r.ends s).channels[c]? = some ch →
          ch.returned ++ ch.queue = messages ch.streamId (r.ends s.peer).enqueued := by
  have hstep : ∀ a s t, Live o s → Own a → (system capacity).step a s = some t → Live o t ∧ t.work < s.work := by
    intro a s t hlive hown hs
    exact ⟨hlive.step (own_allowed o a s hown) hs, hlive.work_lt (hlive.moves hs) hown⟩
  have hlive := live_of_reach h
  refine ⟨fun n r hw => ?_, System.exists_idle hstep hlive, fun n r hw hidle => ?_⟩
  · have hle := (hw.bounded hstep hlive).2
    omega
  · have hlive' := (hw.bounded hstep hlive).1
    have hsettled := hlive'.settled hcap hidle
    exact ⟨hsettled, fun s c ch hget => hlive'.carried hsettled hget⟩

/-- A link of four bytes that is full, with the rest of the frame and a second one behind it. -/
def fullLinkRun : List LinkLabel :=
  [.act .left (.openStream [1]), .act .left (.insertStream 0), .act .left (.sendOpen 0),
   .act .left (.sendData 0 [7, 7]), .act .left .takeFrame, .act .left (.writeBytes 4)]

theorem drains_fullLink : ∃ q, (system 4).Reach (Allowed .left) q ∧ (q.transit .left).length = 4 ∧
    (q.ends .left).writing.length = 6 ∧ ∃ n r, n ≤ q.work ∧ (system 4).Work Own q n r ∧ Settled r := by
  obtain ⟨q, hq, hb⟩ := System.reach_of_run (S := system 4) (C := Allowed .left) fullLinkRun
    (fun q => decide ((q.transit .left).length = 4) && decide ((q.ends .left).writing.length = 6)) (by decide +kernel)
  simp only [Bool.and_eq_true, decide_eq_true_eq] at hb
  obtain ⟨hbound, ⟨n, r, hw, hidle⟩, hend⟩ := drains .left (by decide) hq
  exact ⟨q, hq, hb.1, hb.2, n, r, hbound n r hw, hw, (hend n r hw hidle).1⟩

end Linked

end Rps.Mux
