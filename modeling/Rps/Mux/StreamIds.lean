import Rps.Mux.Delivery

/-! Stream ids.

Every `Mux` counts its ids from one in steps of two, whichever end of the connection
it is. The design document gives the odd ids to the controller and the even ones to
the agent; as it is, both ends draw the same ids, and the counter comes back to an id
after 2^31 calls.

`ids_fresh`: an id is new to the table it is inserted in, in every run in which one end
only opens streams and opens at most 2^31 of them, whatever is sent, closed and
delivered meanwhile, and also once a payload above the limit has stopped a writer. When
both ends open, the reader replaces the sender of a live stream (`ids_collide`). -/
namespace Rps.Mux
open Base

/-! ### What a step does to ids, tables and queues -/

/-- Ids, calls, table and consumed frames are untouched, and the reader task is not
about to send an `Open`. -/
structure Untouched (e e' : Endpoint) : Prop where
  nextId : e'.nextId = e.nextId
  opening : e'.opening = e.opening
  streams : e'.streams = e.streams
  consumed : e'.consumed = e.consumed
  reply : ∀ f, e'.reader = .replying f → f.frameType ≠ .open

/-- The writer's part of an end. -/
def Endpoint.writerPart (e : Endpoint) : List Frame × List Frame × Bytes × Bool :=
  (e.writerQueue, e.enqueued, e.writing, e.writerStopped)

inductive Effect (e : Endpoint) : Action → Endpoint → Prop where
  | taken (payload : Bytes) : Effect e (.openStream payload)
      {e with nextId := e.nextId + 2, opening := e.opening ++ [⟨e.nextId, payload, .taken⟩]}
  | inserted {a : Action} {k : Nat} {call : OpenCall} : e.opening[k]? = some call → call.phase = .taken →
      Effect e a {e.newStream call.id [] with
        opening := e.opening.set k {call with phase := .inserted e.channels.length}}
  | sent {a : Action} {k inbound : Nat} {call : OpenCall} : e.opening[k]? = some call → call.phase = .inserted inbound →
      e.writerStopped = false → Effect e a {e with
        writerQueue := e.writerQueue ++ [⟨.open, call.id, call.payload⟩]
        enqueued := e.enqueued ++ [⟨.open, call.id, call.payload⟩]
        opening := e.opening.set k {call with phase := .sent}
        held := e.held ++ [⟨call.id, inbound⟩]}
  | failed {a : Action} {k inbound : Nat} {call : OpenCall} : e.opening[k]? = some call → call.phase = .inserted inbound →
      Effect e a {e with
        streams := e.streams.erase call.id, opening := e.opening.set k {call with phase := .failed}}
  | enqueued {a : Action} {e' : Endpoint} (f : Frame) : f.frameType ≠ .open → Untouched e e' → e.writerStopped = false →
      e'.writerPart = (e.writerQueue ++ [f], e.enqueued ++ [f], e.writing, false) → Effect e a e'
  | started {a : Action} {e' : Endpoint} {f : Frame} (queue : List Frame) : f.payload.length ≤ maxPayloadLen → Untouched e e' →
      e.writerPart = (f :: queue, e.enqueued, [], false) →
      e'.writerPart = (queue, e.enqueued, f.encode, false) → Effect e a e'
  | stopped {a : Action} {e' : Endpoint} (queue : List Frame) : Untouched e e' →
      e'.writerPart = (queue, e.enqueued, e.writing, true) → Effect e a e'
  | quiet {a : Action} {e' : Endpoint} : Untouched e e' → e'.writerPart = e.writerPart → Effect e a e'

/-- **What a step that touches no wire can do.** -/
theorem effect_of_act {e e' : Endpoint} {a : Action} (h : e.act a = some e')
    (hreply : ∀ f, e.reader = .replying f → f.frameType ≠ .open) : Effect e a e' := by
  have hself : Untouched e e := ⟨rfl, rfl, rfl, rfl, hreply⟩
  have hsend {f : Frame} (hf : f.frameType ≠ .open)
      (hq : (if e.writerStopped then some e else e.enqueue f) = some e') : Effect e a e' := by
    cases hlive : e.writerStopped with
    | true =>
      rw [hlive] at hq
      obtain rfl := Option.some.inj hq
      exact .quiet hself rfl
    | false =>
      rw [hlive] at hq
      rw [enqueue_eq hq]
      exact .enqueued f hf ⟨rfl, rfl, rfl, rfl, hreply⟩ hlive (by simp [Endpoint.writerPart, hlive])
  cases a with
  | openStream payload =>
    obtain rfl := Option.some.inj h
    exact .taken payload
  | insertStream k =>
    simp only [Endpoint.act, Option.bind_eq_bind, Option.bind_eq_some_iff, guard, Option.pure_def] at h
    obtain ⟨call, hget, _, hphase, h⟩ := h
    obtain rfl := Option.some.inj h
    refine .inserted hget ?_
    by_contra hne
    simp [hne] at hphase
  | sendOpen k =>
    simp only [Endpoint.act, Option.bind_eq_bind, Option.bind_eq_some_iff, Option.pure_def] at h
    obtain ⟨call, hget, h⟩ := h
    cases hphase : call.phase with
    | inserted inbound =>
      simp only [hphase] at h
      split at h
      · obtain rfl := Option.some.inj h
        exact .failed hget hphase
      · rename_i hlive
        obtain ⟨e'', hq, h⟩ := Option.bind_eq_some_iff.mp h
        obtain rfl := Option.some.inj h
        rw [enqueue_eq hq]
        exact .sent hget hphase (by simpa using hlive)
    | _ => simp [hphase] at h
  | sendData j data =>
    simp only [Endpoint.act, Option.bind_eq_bind, Option.bind_eq_some_iff, Option.pure_def] at h
    obtain ⟨stream, -, h⟩ := h
    exact hsend (by simp) h
  | close j =>
    simp only [Endpoint.act, Option.bind_eq_bind, Option.bind_eq_some_iff, Option.pure_def] at h
    obtain ⟨stream, -, h⟩ := h
    exact hsend (by simp) h
  | recvData j =>
    simp only [Endpoint.act, Option.bind_eq_bind, Option.bind_eq_some_iff] at h
    obtain ⟨stream, -, ch, -, h⟩ := h
    cases hq : ch.queue with
    | nil => simp [hq] at h
    | cons m queue =>
      simp only [hq, Option.pure_def] at h
      obtain rfl := Option.some.inj h
      exact .quiet ⟨rfl, rfl, rfl, rfl, hreply⟩ rfl
  | accept =>
    cases hi : e.incoming with
    | nil => simp [Endpoint.act, hi] at h
    | cons stream incoming =>
      simp only [Endpoint.act, hi] at h
      obtain rfl := Option.some.inj h
      exact .quiet ⟨rfl, rfl, rfl, rfl, hreply⟩ rfl
  | handStream =>
    cases hr : e.reader with
    | handing stream =>
      simp only [Endpoint.act, hr] at h
      split at h
      · obtain rfl := Option.some.inj h
        refine .quiet ⟨rfl, rfl, rfl, rfl, fun f hf => ?_⟩ rfl
        obtain rfl := ReaderState.replying.inj hf
        simp
      · cases h
    | _ => simp [Endpoint.act, hr] at h
  | reply =>
    cases hr : e.reader with
    | replying f =>
      simp only [Endpoint.act, hr] at h
      split at h
      · obtain rfl := Option.some.inj h
        exact .quiet ⟨rfl, rfl, rfl, rfl, fun f hf => by cases hf⟩ rfl
      · rename_i hlive
        have hlive : e.writerStopped = false := by simpa using hlive
        obtain ⟨e'', hq, rfl⟩ := Option.map_eq_some_iff.mp h
        rw [enqueue_eq hq]
        exact .enqueued f (hreply f hr) ⟨rfl, rfl, rfl, rfl, fun f hf => by cases hf⟩ hlive
          (by simp [Endpoint.writerPart, hlive])
    | _ => simp [Endpoint.act, hr] at h
  | takeFrame =>
    cases hs : e.writerStopped with
    | true => simp [Endpoint.act, hs] at h
    | false =>
      cases hw : e.writing with
      | cons b rest => simp [Endpoint.act, hs, hw] at h
      | nil =>
        cases hq : e.writerQueue with
        | nil => simp [Endpoint.act, hs, hw, hq] at h
        | cons f queue =>
          simp only [Endpoint.act, hs, hw, hq] at h
          by_cases hf : f.payload.length ≤ maxPayloadLen
          · rw [writeFrame_of_le hf] at h
            obtain rfl := Option.some.inj h
            exact .started queue hf ⟨rfl, rfl, rfl, rfl, hreply⟩ (by simp [Endpoint.writerPart, hs, hw, hq])
              (by simp [Endpoint.writerPart])
          · rw [writeFrame, if_pos (Nat.lt_of_not_le hf)] at h
            obtain rfl := Option.some.inj h
            exact .stopped queue ⟨rfl, rfl, rfl, rfl, hreply⟩ (by simp [Endpoint.writerPart, hw])
  | writeBytes n => cases h
  | readFrame => cases h

/-! ### The ids of one end -/

/-- No stream is opened twice. -/
def OpenOnce (frames : List Frame) : Prop :=
  ∀ a f b, frames = a ++ f :: b → f.frameType = .open → ¬ Opened f.streamId a

theorem OpenOnce.push {frames : List Frame} (h : OpenOnce frames) {f : Frame}
    (hf : f.frameType = .open → ¬ Opened f.streamId frames) : OpenOnce (frames ++ [f]) := by
  intro a x b heq hx
  rcases split_push heq with ⟨rfl, rfl⟩ | ⟨b', rfl⟩
  · exact hf hx
  · exact h a x b' rfl hx

/-- Ids are taken in order; a stream in the table was inserted by a call or by an `Open`
that was consumed; an `Open` was sent by a call, which sends no second one. -/
structure Ids (e : Endpoint) : Prop where
  nextId : e.nextId = callId e.opening.length
  ids : ∀ (k : Nat) (call : OpenCall), e.opening[k]? = some call → call.id = callId k
  few : e.opening.length ≤ 2 ^ 31
  table : ∀ i c, e.streams.lookup i = some c → CallIn e.opening i (· ≠ .taken) ∨ Opened i e.consumed
  sent : ∀ f ∈ e.enqueued, f.frameType = .open → CallIn e.opening f.streamId (· = .sent)
  once : OpenOnce e.enqueued
  reply : ∀ f, e.reader = .replying f → f.frameType ≠ .open

theorem Ids.call_unique {e : Endpoint} (h : Ids e) {j k : Nat} {c d : OpenCall}
    (hj : e.opening[j]? = some c) (hk : e.opening[k]? = some d) (hid : c.id = d.id) : c = d := by
  have hjlt := (List.getElem?_eq_some_iff.mp hj).1
  have hklt := (List.getElem?_eq_some_iff.mp hk).1
  have hfew := h.few
  obtain rfl : j = k := by
    refine callId_inj (by omega) (by omega) ?_
    rw [← h.ids j c hj, ← h.ids k d hk, hid]
  exact Option.some.inj (hj.symm.trans hk)

/-- A call that has not got far enough has the id of none that has. -/
theorem Ids.not_callIn {e : Endpoint} (h : Ids e) {k : Nat} {call : OpenCall} {P : OpenPhase → Prop}
    (hget : e.opening[k]? = some call) (hp : ¬ P call.phase) : ¬ CallIn e.opening call.id P := by
  rintro ⟨j, c, hj, hid, hc⟩
  rw [h.call_unique hj hget hid] at hc
  exact hp hc

/-- A call changes its phase, and nothing of its id. -/
theorem Ids.ids_set {e : Endpoint} (h : Ids e) {k : Nat} {call : OpenCall} {phase : OpenPhase}
    (hget : e.opening[k]? = some call) (j : Nat) (c : OpenCall)
    (hj : (e.opening.set k {call with phase := phase})[j]? = some c) : c.id = callId j := by
  by_cases hkj : k = j
  · subst hkj
    rw [List.getElem?_set_self (List.getElem?_eq_some_iff.mp hget).1] at hj
    rw [← Option.some.inj hj]
    exact h.ids k call hget
  · rw [List.getElem?_set_ne hkj] at hj
    exact h.ids j c hj

/-- The step changes no id and no table; a frame that is enqueued is no `Open`. -/
theorem Ids.untouched {e e' : Endpoint} (h : Ids e) (hu : Untouched e e')
    (henq : e'.enqueued = e.enqueued ∨ ∃ f, f.frameType ≠ .open ∧ e'.enqueued = e.enqueued ++ [f]) :
    Ids e' where
  nextId := by rw [hu.nextId, hu.opening, h.nextId]
  ids := by rw [hu.opening]; exact h.ids
  few := by rw [hu.opening]; exact h.few
  table := by rw [hu.streams, hu.opening, hu.consumed]; exact h.table
  sent := by
    rw [hu.opening]
    rcases henq with henq | ⟨g, hg, henq⟩
    · rw [henq]
      exact h.sent
    · intro f hf ht
      rw [henq] at hf
      rcases List.mem_append.mp hf with hf | hf
      · exact h.sent f hf ht
      · rw [List.mem_singleton.mp hf] at ht
        exact absurd ht hg
  once := by
    rcases henq with henq | ⟨g, hg, henq⟩
    · rw [henq]
      exact h.once
    · rw [henq]
      exact h.once.push fun ht => absurd ht hg
  reply := hu.reply

theorem Ids.effect {e e' : Endpoint} {a : Action} (h : Ids e) (he : Effect e a e') (hfew : e'.opening.length ≤ 2 ^ 31) : Ids e' := by
  cases he with
  | taken payload =>
    refine ⟨?_, fun k call hk => ?_, hfew, fun i c hl => ?_, fun f hf ht => ?_, h.once, h.reply⟩
    · show e.nextId + 2 = _
      rw [h.nextId, callId_succ, List.length_append, List.length_singleton]
    · rw [Heap.get_push] at hk
      split at hk
      · rename_i hlast
        rw [← Option.some.inj hk, hlast]
        exact h.nextId
      · exact h.ids k call hk
    · exact (h.table i c hl).imp_left fun hc => hc.push _
    · exact (h.sent f hf ht).push _
  | @inserted _ k call hget hphase =>
    refine ⟨?_, h.ids_set hget, hfew, fun i c hl => ?_, fun f hf ht => ?_, h.once, h.reply⟩
    · simpa [Endpoint.newStream] using h.nextId
    · rw [show (e.newStream call.id []).streams = e.streams.insert call.id e.channels.length from rfl,
        Table.lookup_insert] at hl
      split at hl
      · rename_i hi
        rw [hi]
        exact .inl (.of_set hget (by simp))
      · exact (h.table i c hl).imp_left fun hc => hc.set hget (by simp)
    · exact (h.sent f hf ht).set hget (by simp [hphase])
  | @sent _ k inbound call hget hphase hlive =>
    refine ⟨?_, h.ids_set hget, hfew, fun i c hl => ?_, fun f hf ht => ?_, h.once.push fun _ => ?_, h.reply⟩
    · simpa using h.nextId
    · exact (h.table i c hl).imp_left fun hc => hc.set hget (by simp)
    · rcases List.mem_append.mp hf with hf | hf
      · exact (h.sent f hf ht).set hget (by simp)
      · rw [List.mem_singleton.mp hf]
        exact .of_set hget rfl
    · rintro ⟨f, hf, ht, hid⟩
      have hcall := h.sent f hf ht
      rw [hid] at hcall
      exact h.not_callIn hget (by simp [hphase]) hcall
  | @failed _ k inbound call hget hphase =>
    refine ⟨?_, h.ids_set hget, hfew, fun i c hl => ?_, fun f hf ht => ?_, h.once, h.reply⟩
    · simpa using h.nextId
    · rw [Table.lookup_erase] at hl
      split at hl
      · cases hl
      · exact (h.table i c hl).imp_left fun hc => hc.set hget (by simp)
    · exact (h.sent f hf ht).set hget (by simp [hphase])
  | enqueued f hf hu hlive hw =>
    exact h.untouched hu (.inr ⟨f, hf, congrArg (fun w => w.2.1) hw⟩)
  | started queue hf hu hw hw' => exact h.untouched hu (.inl (congrArg (fun w => w.2.1) hw'))
  | stopped queue hu hw => exact h.untouched hu (.inl (congrArg (fun w => w.2.1) hw))
  | quiet hu hw => exact h.untouched hu (.inl (congrArg (fun w => w.2.1) hw))

/-- What consuming a frame leaves in the table was there, or is the stream it opens. -/
theorem onFrame_table {e : Endpoint} {f : Frame} {i : UInt32} {c : Nat}
    (h : (e.onFrame f).streams.lookup i = some c) :
    e.streams.lookup i = some c ∨ (f.frameType = .open ∧ f.streamId = i) := by
  cases ht : f.frameType with
  | «open» =>
    simp only [Endpoint.onFrame, ht, Endpoint.newStream, Table.lookup_insert] at h
    split at h
    · rename_i hi
      exact .inr ⟨rfl, hi.symm⟩
    · exact .inl h
  | data =>
    cases hl : e.streams.lookup f.streamId with
    | none => exact .inl (by simpa [Endpoint.onFrame, ht, hl] using h)
    | some d => exact .inl (by simpa [Endpoint.onFrame, ht, hl] using h)
  | close =>
    simp only [Endpoint.onFrame, ht, Table.lookup_erase] at h
    split at h
    · cases h
    · exact .inl h
  | error =>
    simp only [Endpoint.onFrame, ht, Table.lookup_erase] at h
    split at h
    · cases h
    · exact .inl h
  | openAck => exact .inl (by simpa [Endpoint.onFrame, ht] using h)
  | ping => exact .inl (by simpa [Endpoint.onFrame, ht] using h)
  | pong => exact .inl (by simpa [Endpoint.onFrame, ht] using h)

theorem onFrame_reply {e : Endpoint} {f g : Frame} (hr : e.reader = .reading)
    (h : (e.onFrame f).reader = .replying g) : g.frameType ≠ .open := by
  by_cases hf : f.frameType ≠ .open ∧ f.frameType ≠ .ping
  · rw [onFrame_reader hf, hr] at h
    cases h
  · cases ht : f.frameType with
    | «open» => simp [Endpoint.onFrame, ht] at h
    | ping =>
      simp only [Endpoint.onFrame, ht, ReaderState.replying.injEq] at h
      simp [← h]
    | _ => simp [ht] at hf

theorem Ids.onFrame {e : Endpoint} (h : Ids e) (f : Frame) (hr : e.reader = .reading) : Ids (e.onFrame f) := by
  obtain ⟨hconsumed, henq, _, _, _, hopening, hnext, _, _⟩ := onFrame_frame e f
  refine ⟨by rw [hnext, hopening]; exact h.nextId, by rw [hopening]; exact h.ids, by rw [hopening]; exact h.few,
    fun i c hl => ?_, by rw [henq, hopening]; exact h.sent, by rw [henq]; exact h.once, fun g hg => onFrame_reply hr hg⟩
  rw [hopening, hconsumed]
  rcases onFrame_table hl with hl | ⟨ht, rfl⟩
  · exact (h.table i c hl).imp_right Opened.append
  · exact .inr ⟨f, by simp, ht, rfl⟩

/-! ### The frames between the ends -/

/-- From one end to the other: frames consumed, then frames on the wire or being written,
then frames not written yet, which are lost if the writer has stopped. -/
def Transit (sender : Endpoint) (wire : Bytes) (consumed : List Frame) : Prop :=
  ∃ frames later, wire ++ sender.writing = Reader.encodeAll Frame.encode frames ∧
    (∀ f ∈ frames, f.payload.length ≤ maxPayloadLen) ∧ sender.enqueued = consumed ++ frames ++ later ∧
    (sender.writerStopped = false → later = sender.writerQueue)

theorem Transit.effect {e e' : Endpoint} {a : Action} {wire : Bytes} {consumed : List Frame}
    (h : Transit e wire consumed) (he : Effect e a e') : Transit e' wire consumed := by
  obtain ⟨frames, later, hwire, hok, henq, hlater⟩ := h
  cases he with
  | taken payload => exact ⟨frames, later, hwire, hok, henq, hlater⟩
  | inserted hget hphase => exact ⟨frames, later, hwire, hok, henq, hlater⟩
  | @sent _ k inbound call hget hphase hlive =>
    refine ⟨frames, later ++ [⟨.open, call.id, call.payload⟩], hwire, hok, ?_, fun _ => ?_⟩
    · show e.enqueued ++ _ = _
      rw [henq, List.append_assoc _ later]
    · show _ = e.writerQueue ++ _
      rw [hlater hlive]
  | failed hget hphase => exact ⟨frames, later, hwire, hok, henq, hlater⟩
  | enqueued f hf hu hlive hw =>
    simp only [Endpoint.writerPart, Prod.mk.injEq] at hw
    refine ⟨frames, later ++ [f], by rw [hw.2.2.1]; exact hwire, hok, ?_, fun _ => ?_⟩
    · rw [hw.2.1, henq, List.append_assoc _ later]
    · rw [hw.1, hlater hlive]
  | @started _ _ f queue hf hu hw hw' =>
    simp only [Endpoint.writerPart, Prod.mk.injEq, true_and] at hw hw'
    have hqueue : later = f :: queue := (hlater hw.2.2).trans hw.1
    refine ⟨frames ++ [f], queue, ?_, fun g hg => ?_, ?_, fun _ => hw'.1.symm⟩
    · rw [hw.2.1, List.append_nil] at hwire
      rw [hw'.2.2.1, hwire, Reader.encodeAll_append, Reader.encodeAll_cons, Reader.encodeAll_nil, List.append_nil]
    · rcases List.mem_append.mp hg with hg | hg
      · exact hok g hg
      · rw [List.mem_singleton.mp hg]
        exact hf
    · rw [hw'.2.1, henq, hqueue]
      simp
  | stopped queue hu hw =>
    simp only [Endpoint.writerPart, Prod.mk.injEq] at hw
    refine ⟨frames, later, by rw [hw.2.2.1]; exact hwire, hok, by rw [hw.2.1]; exact henq, fun hlive => ?_⟩
    rw [hw.2.2.2] at hlive
    cases hlive
  | quiet hu hw =>
    simp only [Endpoint.writerPart, Prod.mk.injEq] at hw
    refine ⟨frames, later, by rw [hw.2.2.1]; exact hwire, hok, by rw [hw.2.1]; exact henq, fun hlive => ?_⟩
    rw [hw.1]
    exact hlater (hw.2.2.2 ▸ hlive)

theorem Transit.write {e : Endpoint} {wire : Bytes} {consumed : List Frame} (h : Transit e wire consumed)
    (n : Nat) : Transit {e with writing := e.writing.drop n} (wire ++ e.writing.take n) consumed := by
  obtain ⟨frames, later, hwire, hok, henq, hlater⟩ := h
  refine ⟨frames, later, ?_, hok, henq, hlater⟩
  rw [List.append_assoc]
  show wire ++ (e.writing.take n ++ e.writing.drop n) = _
  rw [List.take_append_drop]
  exact hwire

/-- What is taken off the wire is the next frame that was enqueued. -/
theorem Transit.read {e : Endpoint} {wire rest : Bytes} {consumed : List Frame} (h : Transit e wire consumed)
    {f : Frame} (hr : readFrame wire = .done f rest) :
    Transit e rest (consumed ++ [f]) ∧ ∃ later, e.enqueued = consumed ++ f :: later := by
  obtain ⟨frames, later, hwire, hok, henq, hlater⟩ := h
  obtain ⟨tail, rfl, htail⟩ := frames_delimit.head_of_done hok hwire hr
  refine ⟨⟨tail, later, htail, fun g hg => hok g (List.mem_cons_of_mem f hg), ?_, hlater⟩, tail ++ later, ?_⟩
  · rw [henq]
    simp
  · rw [henq]
    simp

/-! ### Both ends -/

structure IdsInv (p : Pair) : Prop where
  ids : ∀ s, Ids (p.ends s)
  transit : ∀ s, Transit (p.ends s) (p.wire s) (p.ends s.peer).consumed
  one : ∀ s, (p.ends s).opening = [] ∨ (p.ends s.peer).opening = []

/-- An end whose peer opens no stream consumes no `Open`. -/
theorem IdsInv.not_opened {p : Pair} (h : IdsInv p) {s : Side} (hnone : (p.ends s.peer).opening = []) (i : UInt32) :
    ¬ Opened i (p.ends s).consumed := by
  rintro ⟨f, hf, ht, -⟩
  obtain ⟨frames, later, -, -, henq, -⟩ := h.transit s.peer
  rw [Side.peer_peer] at henq
  obtain ⟨k, call, hget, -⟩ := (h.ids s.peer).sent f (by rw [henq]; simp [hf]) ht
  rw [hnone] at hget
  cases hget

/-- One end opens streams, at most 2^31 of them. -/
def OneOpener (label : Side × Action) (p : Pair) : Prop :=
  match label.2 with
  | .openStream _ => (p.ends label.1.peer).opening = [] ∧ (p.ends label.1).opening.length < 2 ^ 31
  | _ => True

instance (label : Side × Action) (p : Pair) : Decidable (OneOpener label p) :=
  decidable_of_iff
    ((match label.2 with
      | .openStream _ => (p.ends label.1.peer).opening.isEmpty && decide ((p.ends label.1).opening.length < 2 ^ 31)
      | _ => true) = true)
    (by
      unfold OneOpener
      cases label.2 <;> simp)

/-- The id this step takes, inserts, or accepts from an `Open` is not in the table. -/
def Fresh (label : Side × Action) (p : Pair) : Prop :=
  let e := p.ends label.1
  match label.2 with
  | .openStream _ => e.streams.lookup e.nextId = none
  | .insertStream k => ∀ call, e.opening[k]? = some call → call.phase = .taken → e.streams.lookup call.id = none
  | .readFrame => ∀ f rest, e.reader = .reading → readFrame (p.wire label.1.peer) = .done f rest →
    f.frameType = .open → e.streams.lookup f.streamId = none
  | _ => True

theorem IdsInv.fresh {p : Pair} (h : IdsInv p) {label : Side × Action} (hc : OneOpener label p) : Fresh label p := by
  obtain ⟨s, a⟩ := label
  cases a with
  | openStream payload =>
    obtain ⟨hnone, hfew⟩ := hc
    refine Option.eq_none_iff_forall_ne_some.mpr fun c hl => ?_
    rcases (h.ids s).table _ c hl with ⟨k, call, hget, hid, -⟩ | hopened
    · -- the next id is that of no call before the counter wraps
      have hlt := (List.getElem?_eq_some_iff.mp hget).1
      rw [(h.ids s).ids k call hget, (h.ids s).nextId] at hid
      exact absurd (callId_inj (hlt.trans hfew) hfew hid) (Nat.ne_of_lt hlt)
    · exact h.not_opened hnone _ hopened
  | insertStream k =>
    intro call hget hphase
    have hnone : (p.ends s.peer).opening = [] := by
      refine (h.one s).resolve_left fun hempty => ?_
      simp [hempty] at hget
    refine Option.eq_none_iff_forall_ne_some.mpr fun c hl => ?_
    rcases (h.ids s).table _ c hl with hcall | hopened
    · exact (h.ids s).not_callIn hget (by simp [hphase]) hcall
    · exact h.not_opened hnone _ hopened
  | readFrame =>
    intro f rest _ hread ht
    obtain ⟨-, later, henq⟩ := (h.transit s.peer).read hread
    rw [Side.peer_peer] at henq
    obtain ⟨k, call, hget, -⟩ := (h.ids s.peer).sent f (by rw [henq]; simp) ht
    have hnone : (p.ends s).opening = [] := by
      refine (h.one s).resolve_right fun hempty => ?_
      simp [hempty] at hget
    refine Option.eq_none_iff_forall_ne_some.mpr fun c hl => ?_
    rcases (h.ids s).table _ c hl with ⟨j, call', hget', -⟩ | hopened
    · simp [hnone] at hget'
    · exact (h.ids s.peer).once _ f later henq ht hopened
  | _ => trivial

/-- Replacing one end, and what the two wires hold. -/
theorem IdsInv.replace {p : Pair} (h : IdsInv p) {s : Side} {e' : Endpoint} {wire : Side → Bytes} (hids : Ids e')
    (hout : Transit e' (wire s) (p.ends s.peer).consumed)
    (hin : Transit (p.ends s.peer) (wire s.peer) e'.consumed)
    (hone : e'.opening = [] ∨ (p.ends s.peer).opening = []) : IdsInv ⟨Function.update p.ends s e', wire⟩ where
  ids := by
    intro t
    rcases Side.eq_or_peer s t with rfl | rfl
    · simpa using hids
    · simpa [Function.update_of_ne (Side.peer_ne s)] using h.ids s.peer
  transit := by
    intro t
    rcases Side.eq_or_peer s t with rfl | rfl
    · simpa [Function.update_of_ne (Side.peer_ne t)] using hout
    · simpa [Function.update_of_ne (Side.peer_ne s)] using hin
  one := by
    intro t
    rcases Side.eq_or_peer s t with rfl | rfl
    · simpa [Function.update_of_ne (Side.peer_ne t)] using hone
    · simpa [Function.update_of_ne (Side.peer_ne s)] using hone.symm

/-- Only `open_stream` adds a call. -/
theorem Effect.opening_length {e e' : Endpoint} {a : Action} (h : Effect e a e') :
    e'.opening.length = e.opening.length ∨
      ∃ payload, a = .openStream payload ∧ e'.opening.length = e.opening.length + 1 := by
  cases h with
  | taken payload => exact .inr ⟨payload, rfl, by simp⟩
  | inserted => exact .inl (by simp)
  | sent => exact .inl (by simp)
  | failed => exact .inl (by simp)
  | enqueued f hf hu => exact .inl (by rw [hu.opening])
  | started queue hf hu => exact .inl (by rw [hu.opening])
  | stopped queue hu => exact .inl (by rw [hu.opening])
  | quiet hu => exact .inl (by rw [hu.opening])

theorem Effect.consumed {e e' : Endpoint} {a : Action} (h : Effect e a e') : e'.consumed = e.consumed := by
  cases h with
  | enqueued f hf hu => exact hu.consumed
  | started queue hf hu => exact hu.consumed
  | stopped queue hu => exact hu.consumed
  | quiet hu => exact hu.consumed
  | _ => rfl

theorem IdsInv.effect {p : Pair} (h : IdsInv p) {s : Side} {a : Action} {e' : Endpoint}
    (he : Effect (p.ends s) a e') (hc : OneOpener (s, a) p) :
    IdsInv {p with ends := Function.update p.ends s e'} := by
  have hfew : e'.opening.length ≤ 2 ^ 31 ∧ (e'.opening = [] ∨ (p.ends s.peer).opening = []) := by
    rcases he.opening_length with hlen | ⟨payload, rfl, hlen⟩
    · refine ⟨hlen ▸ (h.ids s).few, (h.one s).imp_left fun hempty => ?_⟩
      rw [← List.length_eq_zero_iff, hlen, hempty]
      rfl
    · have hlt : (p.ends s).opening.length < 2 ^ 31 := hc.2
      exact ⟨by omega, .inr hc.1⟩
  refine h.replace ((h.ids s).effect he hfew.1) ((h.transit s).effect he) ?_ hfew.2
  rw [he.consumed]
  simpa using h.transit s.peer

theorem IdsInv.read {p : Pair} (h : IdsInv p) {s : Side} {f : Frame} {rest : Bytes}
    (hr : (p.ends s).reader = .reading) (hread : readFrame (p.wire s.peer) = .done f rest) :
    IdsInv ⟨Function.update p.ends s ((p.ends s).onFrame f), Function.update p.wire s.peer rest⟩ := by
  obtain ⟨hconsumed, henq, hqueue, hwriting, hstopped, hopening, _, _, _⟩ := onFrame_frame (p.ends s) f
  have hin := ((h.transit s.peer).read hread).1
  rw [Side.peer_peer] at hin
  refine h.replace ((h.ids s).onFrame f hr) ?_ ?_ (by rw [hopening]; exact h.one s)
  · rw [Function.update_of_ne (Side.peer_ne s).symm]
    obtain ⟨frames, later, hwire, hok, henq', hlater⟩ := h.transit s
    exact ⟨frames, later, by rw [hwriting]; exact hwire, hok, by rw [henq]; exact henq',
      by rw [hstopped, hqueue]; exact hlater⟩
  · rw [Function.update_self, hconsumed]
    exact hin

theorem idsInv_init : IdsInv system.init where
  ids := fun s => {
    nextId := rfl
    ids := by simp [system]
    few := by simp [system]
    table := by
      intro i c hl
      cases hl
    sent := by simp [system]
    once := by simp [OpenOnce, system]
    reply := by simp [system] }
  transit := fun s => ⟨[], [], rfl, by simp, rfl, fun _ => rfl⟩
  one := fun s => .inl rfl

theorem idsInv_step {label : Side × Action} {p q : Pair} (h : IdsInv p) (hc : OneOpener label p)
    (hs : step label p = some q) : IdsInv q := by
  obtain ⟨s, a⟩ := label
  have hact : ∀ {e' : Endpoint}, (p.ends s).act a = some e' →
      IdsInv {p with ends := Function.update p.ends s e'} := fun ha =>
    h.effect (effect_of_act ha (h.ids s).reply) hc
  cases a with
  | writeBytes n =>
    simp only [step] at hs
    split at hs
    · obtain rfl := Option.some.inj hs
      refine h.replace {h.ids s with} ?_ ?_ (h.one s)
      · rw [Function.update_self]
        exact (h.transit s).write n
      · rw [Function.update_of_ne (Side.peer_ne s)]
        simpa using h.transit s.peer
    · cases hs
  | readFrame =>
    simp only [step] at hs
    split at hs
    · rename_i hr
      cases hread : readFrame (p.wire s.peer) with
      | more => simp [hread] at hs
      | invalid error =>
        simp only [hread] at hs
        obtain rfl := Option.some.inj hs
        refine h.replace {h.ids s with reply := fun f hf => by cases hf} (h.transit s) ?_ (h.one s)
        simpa using h.transit s.peer
      | done f rest =>
        simp only [hread] at hs
        obtain rfl := Option.some.inj hs
        exact h.read hr hread
    · cases hs
  | _ =>
    simp only [step] at hs
    obtain ⟨e', ha, rfl⟩ := Option.map_eq_some_iff.mp hs
    exact hact ha

/-- **Ids are new where they are inserted**, in every state of a run in which one end opens
streams and opens at most 2^31 of them: the id `open_stream` takes and inserts, and the id
the reader task accepts from an `Open`, are not in the table of that end. -/
theorem ids_fresh {p : Pair} (h : system.Reach OneOpener p) {label : Side × Action} (hc : OneOpener label p) :
    Fresh label p :=
  (h.invariant idsInv_init fun _ _ _ hi hc hs => idsInv_step hi hc hs).fresh hc

/-- Both ends open a stream, and one of them reads the other's `Open`. -/
def bothOpenRun : List (Side × Action) :=
  [(.left, .openStream []), (.left, .insertStream 0), (.left, .sendOpen 0), (.left, .takeFrame),
   (.left, .writeBytes 9), (.right, .openStream []), (.right, .insertStream 0)]

/-- The theorem at an end that accepts a stream while its peer opens the next. -/
theorem ids_fresh_accepting : ∃ p, system.Reach OneOpener p ∧ Fresh (.right, .readFrame) p ∧
    (readFrame (p.wire .left)) = .done ⟨.open, 1, []⟩ [] := by
  obtain ⟨p, hp, hb⟩ := System.reach_of_run (S := system) (C := OneOpener) (bothOpenRun.take 5)
    (fun p => decide (readFrame (p.wire .left) = .done ⟨.open, 1, []⟩ [])) (by decide +kernel)
  exact ⟨p, hp, ids_fresh hp trivial, of_decide_eq_true hb⟩

/-- With streams opened by both ends, the reader task is about to replace the sender of a
live stream by the one of the `Open` it reads. -/
theorem ids_collide : ¬ ∀ p, system.Reachable p → ∀ label, (step label p).isSome = true → Fresh label p := by
  intro h
  obtain ⟨p, hp, hb⟩ := System.reach_of_run (S := system) (C := fun _ _ => True) bothOpenRun
    (fun p => (step (.right, .readFrame) p).isSome && decide ((p.ends .right).reader = .reading) &&
      decide (readFrame (p.wire .left) = .done ⟨.open, 1, []⟩ []) &&
      ((p.ends .right).streams.lookup 1).isSome) (by decide +kernel)
  simp only [Bool.and_eq_true, decide_eq_true_eq] at hb
  obtain ⟨⟨⟨henabled, hreading⟩, hread⟩, hlive⟩ := hb
  have hfresh := h p hp (.right, .readFrame) henabled ⟨.open, 1, []⟩ [] hreading hread rfl
  rw [hfresh] at hlive
  cases hlive

end Rps.Mux
