import Rps.Mux.Session

/-! Mux delivery.

Ids separate the streams, so what one endpoint receives on a stream is a function
of the frames it has consumed (`messages`). `Receives` says that its channels and
its table hold exactly that; `Flows` says that the frames one end has enqueued are
those the other has consumed, then those on the wire, then those queued. The ids
are the only delicate part: `Opens` (the end that opens) and `Accepts` (the other)
say that an id is used only after its `Open`, and that no id is opened twice while
fewer than 2^31 streams are opened.

`recv_data_isPrefix`: on every stream, in each direction, in every reachable state,
the messages `recv_data` has returned are a prefix of those the peer sent on that
stream before its first close, and all of them once the close is processed and
`recv_data` returns `None`. -/
namespace Rps.Mux
open Base

/-! ### What a list of frames carries on a stream -/

/-- The messages on stream `i`: the payload of its `Open` unless empty, then the
payloads of its `Data` frames, empty ones included, up to its first `Close`. -/
def messages (i : UInt32) : List Frame → List Bytes
  | [] => []
  | f :: rest =>
    if f.streamId = i then
      match f.frameType with
      | .open => if f.payload.isEmpty then messages i rest else f.payload :: messages i rest
      | .data => f.payload :: messages i rest
      | .close | .error => []
      | .openAck | .ping | .pong => messages i rest
    else messages i rest

/-- A frame that ends stream `i`. -/
def Ends (i : UInt32) (f : Frame) : Prop :=
  f.streamId = i ∧ (f.frameType = .close ∨ f.frameType = .error)

/-- The frames close stream `i`. -/
def Closed (i : UInt32) (frames : List Frame) : Prop := ∃ f ∈ frames, Ends i f

theorem Closed.append {i : UInt32} {a b : List Frame} (h : Closed i a) : Closed i (a ++ b) := by
  obtain ⟨f, hf, he⟩ := h
  exact ⟨f, List.mem_append_left b hf, he⟩

theorem closed_append {i : UInt32} {a b : List Frame} :
    Closed i (a ++ b) ↔ Closed i a ∨ Closed i b := by
  simp only [Closed, List.mem_append, or_and_right, exists_or]

theorem closed_singleton {i : UInt32} {f : Frame} : Closed i [f] ↔ Ends i f := by
  simp [Closed]

/-- Nothing counts after a close. -/
theorem messages_append_closed (i : UInt32) (a b : List Frame) (h : Closed i a) :
    messages i (a ++ b) = messages i a := by
  induction a with
  | nil => simp [Closed] at h
  | cons f rest ih =>
    by_cases hf : Ends i f
    · obtain ⟨hi, ht | ht⟩ := hf <;> simp [messages, hi, ht]
    · have hrest : Closed i rest := by
        obtain ⟨g, hg, he⟩ := h
        rcases List.mem_cons.mp hg with rfl | hg
        · exact absurd he hf
        · exact ⟨g, hg, he⟩
      simp only [List.cons_append, messages, ih hrest]

theorem messages_append_open (i : UInt32) (a b : List Frame) (h : ¬ Closed i a) :
    messages i (a ++ b) = messages i a ++ messages i b := by
  induction a with
  | nil => rfl
  | cons f rest ih =>
    have hrest : ¬ Closed i rest := by
      intro hboth
      obtain ⟨g, hg, he⟩ := hboth
      exact h ⟨g, List.mem_cons_of_mem f hg, he⟩
    have hf : ¬ Ends i f := fun he => h ⟨f, List.mem_cons_self .., he⟩
    by_cases hi : f.streamId = i
    · have hclose : f.frameType ≠ .close := fun ht => hf ⟨hi, .inl ht⟩
      have herror : f.frameType ≠ .error := fun ht => hf ⟨hi, .inr ht⟩
      simp only [List.cons_append, messages, hi, if_true, ih hrest]
      cases ht : f.frameType with
      | close => exact absurd ht hclose
      | error => exact absurd ht herror
      | «open» => cases hp : f.payload.isEmpty <;> simp
      | _ => rfl
    · simp only [List.cons_append, messages, hi, if_false, ih hrest]

/-- More frames only extend the list. -/
theorem messages_isPrefix (i : UInt32) (a b : List Frame) : messages i a <+: messages i (a ++ b) := by
  by_cases h : Closed i a
  · refine ⟨[], ?_⟩
    rw [List.append_nil, messages_append_closed i a b h]
  · rw [messages_append_open i a b h]
    exact List.prefix_append _ _

theorem messages_of_absent (i : UInt32) (frames : List Frame) (h : ∀ f ∈ frames, f.streamId ≠ i) :
    messages i frames = [] := by
  induction frames with
  | nil => rfl
  | cons f rest ih =>
    simp only [messages, h f (List.mem_cons_self ..), if_false]
    exact ih fun g hg => h g (List.mem_cons_of_mem f hg)

theorem not_closed_of_absent (i : UInt32) (frames : List Frame) (h : ∀ f ∈ frames, f.streamId ≠ i) :
    ¬ Closed i frames := by
  intro hboth
  obtain ⟨f, hf, hi, _⟩ := hboth
  exact h f hf hi

/-- A frame of another stream changes nothing. -/
theorem messages_other (i : UInt32) (frames : List Frame) (f : Frame) (h : f.streamId ≠ i) :
    messages i (frames ++ [f]) = messages i frames := by
  by_cases hc : Closed i frames
  · exact messages_append_closed i _ _ hc
  · rw [messages_append_open i _ _ hc, messages_of_absent i [f] (by simpa using h), List.append_nil]

/-- An acknowledgement or a ping carries no message. -/
theorem messages_silent (i : UInt32) (frames : List Frame) (f : Frame)
    (h : f.frameType = .openAck ∨ f.frameType = .ping ∨ f.frameType = .pong ∨ f.frameType = .close ∨
      f.frameType = .error) : messages i (frames ++ [f]) = messages i frames := by
  by_cases hc : Closed i frames
  · exact messages_append_closed i _ _ hc
  · rw [messages_append_open i _ _ hc]
    rcases h with h | h | h | h | h <;> simp [messages, h]

theorem messages_data (i : UInt32) (frames : List Frame) (f : Frame) (hi : f.streamId = i)
    (ht : f.frameType = .data) (hc : ¬ Closed i frames) :
    messages i (frames ++ [f]) = messages i frames ++ [f.payload] := by
  rw [messages_append_open i _ _ hc]
  simp [messages, hi, ht]

/-! ### What an endpoint holds of the frames it consumed -/

/-- The channels hold, between them, exactly the messages of the consumed frames:
each channel what its stream carried, returned or still queued; the table the
sender of every stream that is not closed. -/
structure Receives (channels : List Channel) (streams : Table UInt32 Nat) (consumed : List Frame) :
    Prop where
  carried : ∀ (c : Nat) (ch : Channel), channels[c]? = some ch → ch.returned ++ ch.queue = messages ch.streamId consumed
  table : ∀ i c, streams.lookup i = some c →
    ¬ Closed i consumed ∧ ∃ ch, channels[c]? = some ch ∧ ch.streamId = i
  dropped : ∀ (c : Nat) (ch : Channel), channels[c]? = some ch → streams.lookup ch.streamId ≠ some c →
    Closed ch.streamId consumed
  ids : (channels.map Channel.streamId).Nodup

section Receives
variable {channels : List Channel} {streams : Table UInt32 Nat} {consumed : List Frame}

/-- Changing a channel's contents leaves the ids distinct. -/
theorem ids_modify {c : Nat} {g : Channel → Channel} (hg : ∀ ch, (g ch).streamId = ch.streamId)
    (h : (channels.map Channel.streamId).Nodup) :
    ((channels.modify c g).map Channel.streamId).Nodup := by
  have hmap : (channels.modify c g).map Channel.streamId = channels.map Channel.streamId := by
    apply List.ext_getElem?
    intro d
    rw [List.getElem?_map, List.getElem?_map, List.getElem?_modify]
    cases channels[d]? with
    | none => rfl
    | some ch =>
      simp only [Option.map_eq_map, Option.map_some]
      split <;> simp [hg]
  rw [hmap]
  exact h

/-- A new stream whose id no channel has: the others see no difference. -/
theorem Receives.newStream (h : Receives channels streams consumed) {i : UInt32} {queue : List Bytes}
    {consumed' : List Frame} (hnew : ∀ (c : Nat) (ch : Channel), channels[c]? = some ch → ch.streamId ≠ i)
    (hq : queue = messages i consumed') (hopen : ¬ Closed i consumed')
    (hm : ∀ j, j ≠ i → messages j consumed' = messages j consumed)
    (hc : ∀ j, j ≠ i → (Closed j consumed' ↔ Closed j consumed)) :
    Receives (channels ++ [{ streamId := i, queue := queue }]) (streams.insert i channels.length)
      consumed' where
  carried := by
    intro c ch hget
    rw [Heap.get_push] at hget
    split at hget
    · obtain rfl := Option.some.inj hget
      exact hq
    · rw [hm _ (hnew c ch hget)]
      exact h.carried c ch hget
  table := by
    intro j c hl
    rw [Table.lookup_insert] at hl
    split at hl
    · obtain rfl := Option.some.inj hl
      subst j
      exact ⟨hopen, _, by rw [Heap.get_push, if_pos rfl], rfl⟩
    · next hj =>
      obtain ⟨hcl, ch, hget, hid⟩ := h.table j c hl
      exact ⟨fun hcl' => hcl ((hc j hj).mp hcl'), ch, Heap.get_push_of_some hget, hid⟩
  dropped := by
    intro c ch hget hl
    rw [Heap.get_push] at hget
    split at hget
    · obtain rfl := Option.some.inj hget
      exact absurd (by rw [Table.lookup_insert, if_pos rfl]; subst c; rfl) hl
    · have hj := hnew c ch hget
      rw [Table.lookup_insert, if_neg hj] at hl
      exact (hc _ hj).mpr (h.dropped c ch hget hl)
  ids := by
    rw [List.map_append, List.map_singleton]
    refine List.nodup_append.mpr ⟨h.ids, List.nodup_singleton i, ?_⟩
    intro j hj k hk
    obtain ⟨ch, hch, rfl⟩ := List.mem_map.mp hj
    obtain rfl := List.mem_singleton.mp hk
    obtain ⟨c, hget⟩ := List.mem_iff_getElem?.mp hch
    exact hnew c ch hget

/-- A frame that carries no message and ends no stream. -/
theorem Receives.silent (h : Receives channels streams consumed) (f : Frame)
    (ht : f.frameType = .openAck ∨ f.frameType = .ping ∨ f.frameType = .pong) :
    Receives channels streams (consumed ++ [f]) := by
  have hends : ∀ i, ¬ Ends i f := by
    rintro i ⟨_, he | he⟩ <;> rcases ht with ht | ht | ht <;> rw [ht] at he <;> cases he
  have hm : ∀ i, messages i (consumed ++ [f]) = messages i consumed := fun i =>
    messages_silent i consumed f (by tauto)
  refine ⟨fun c ch hget => by rw [hm]; exact h.carried c ch hget, fun i c hl => ?_,
    fun c ch hget hl => (h.dropped c ch hget hl).append, h.ids⟩
  obtain ⟨hcl, hch⟩ := h.table i c hl
  refine ⟨fun hcl' => ?_, hch⟩
  rcases closed_append.mp hcl' with hcl' | hcl'
  · exact hcl hcl'
  · exact hends i (closed_singleton.mp hcl')

/-- A `Data` frame of a stream in the table goes to that stream's channel. -/
theorem Receives.data (h : Receives channels streams consumed) (f : Frame) (ht : f.frameType = .data)
    {c : Nat} (hl : streams.lookup f.streamId = some c) :
    Receives (channels.modify c fun ch => {ch with queue := ch.queue ++ [f.payload]}) streams
      (consumed ++ [f]) := by
  obtain ⟨hopen, ch₀, hget₀, hid₀⟩ := h.table _ c hl
  have hnot : ∀ i, Closed i (consumed ++ [f]) ↔ Closed i consumed := by
    intro i
    refine ⟨fun hc => ?_, Closed.append⟩
    rcases closed_append.mp hc with hc | hc
    · exact hc
    · obtain ⟨_, he | he⟩ := closed_singleton.mp hc <;> rw [ht] at he <;> cases he
  refine ⟨fun d ch hget => ?_, fun i d hl' => ?_, fun d ch hget hl' => ?_,
    ids_modify (fun _ => rfl) h.ids⟩
  · rw [List.getElem?_modify] at hget
    by_cases hd : c = d
    · subst hd
      simp only [hget₀, if_true, Option.map_eq_map, Option.map_some, Option.some.injEq] at hget
      subst hget
      rw [messages_data _ _ _ hid₀.symm ht (by rw [hid₀]; exact hopen), ← h.carried c ch₀ hget₀,
        List.append_assoc]
    · simp only [hd, if_false, Option.map_eq_map, Option.map_id'] at hget
      by_cases hi : ch.streamId = f.streamId
      · -- Another channel of the same id would be closed already.
        have hcl := h.dropped d ch hget (by rw [hi, hl]; simpa using hd)
        rw [hi] at hcl
        exact absurd hcl hopen
      · rw [messages_other _ _ _ (Ne.symm hi)]
        exact h.carried d ch hget
  · obtain ⟨hcl, ch, hget, hid⟩ := h.table i d hl'
    refine ⟨fun hc => hcl ((hnot i).mp hc), ?_⟩
    rw [List.getElem?_modify, hget]
    exact ⟨_, rfl, by split <;> exact hid⟩
  · rw [List.getElem?_modify] at hget
    obtain ⟨ch', hget', rfl⟩ := Option.map_eq_some_iff.mp hget
    have hid : (if c = d then {ch' with queue := ch'.queue ++ [f.payload]} else ch').streamId =
        ch'.streamId := by split <;> rfl
    rw [hid] at hl' ⊢
    exact (hnot _).mpr (h.dropped d ch' hget' hl')

/-- A `Data` frame of a stream that is not in the table is dropped: it follows
that stream's close, or no channel has its id. -/
theorem Receives.lateData (h : Receives channels streams consumed) (f : Frame)
    (ht : f.frameType = .data) (hl : streams.lookup f.streamId = none) :
    Receives channels streams (consumed ++ [f]) := by
  refine ⟨fun c ch hget => ?_, fun i c hl' => ?_,
    fun c ch hget hl' => (h.dropped c ch hget hl').append, h.ids⟩
  · by_cases hi : ch.streamId = f.streamId
    · have hcl := h.dropped c ch hget (by rw [hi, hl]; simp)
      rw [messages_append_closed _ _ _ hcl]
      exact h.carried c ch hget
    · rw [messages_other _ _ _ (Ne.symm hi)]
      exact h.carried c ch hget
  · obtain ⟨hcl, hch⟩ := h.table i c hl'
    refine ⟨fun hc => ?_, hch⟩
    rcases closed_append.mp hc with hc | hc
    · exact hcl hc
    · obtain ⟨_, he | he⟩ := closed_singleton.mp hc <;> rw [ht] at he <;> cases he

/-- A `Close` or `Error` frame takes its stream out of the table. -/
theorem Receives.close (h : Receives channels streams consumed) (f : Frame)
    (ht : f.frameType = .close ∨ f.frameType = .error) :
    Receives channels (streams.erase f.streamId) (consumed ++ [f]) := by
  refine ⟨fun c ch hget => ?_, fun i c hl => ?_, fun c ch hget hl => ?_, h.ids⟩
  · rw [messages_silent _ _ _ (by tauto)]
    exact h.carried c ch hget
  · rw [Table.lookup_erase] at hl
    split at hl
    · cases hl
    · next hi =>
      obtain ⟨hcl, hch⟩ := h.table i c hl
      refine ⟨fun hc => ?_, hch⟩
      rcases closed_append.mp hc with hc | hc
      · exact hcl hc
      · exact hi (closed_singleton.mp hc).1.symm
  · by_cases hi : ch.streamId = f.streamId
    · exact closed_append.mpr (.inr (closed_singleton.mpr ⟨hi.symm, ht⟩))
    · rw [Table.lookup_erase, if_neg hi] at hl
      exact (h.dropped c ch hget hl).append

/-- Returning the first queued message of a channel. -/
theorem Receives.recv (h : Receives channels streams consumed) {c : Nat} {ch₀ : Channel} {m : Bytes}
    {queue : List Bytes} (hget₀ : channels[c]? = some ch₀) (hq : ch₀.queue = m :: queue) :
    Receives (channels.modify c fun ch => {ch with queue := queue, returned := ch.returned ++ [m]})
      streams consumed := by
  have hid : ∀ d (ch : Channel), (if c = d then
      {ch with queue := queue, returned := ch.returned ++ [m]} else ch).streamId = ch.streamId := by
    intro d ch
    split <;> rfl
  refine ⟨fun d ch hget => ?_, fun i d hl => ?_, fun d ch hget hl => ?_,
    ids_modify (fun _ => rfl) h.ids⟩
  · rw [List.getElem?_modify] at hget
    obtain ⟨ch', hget', rfl⟩ := Option.map_eq_some_iff.mp hget
    rw [hid, ← h.carried d ch' hget']
    by_cases hd : c = d
    · subst hd
      obtain rfl : ch₀ = ch' := Option.some.inj (hget₀.symm.trans hget')
      simp [hq]
    · simp [hd]
  · obtain ⟨hcl, ch, hget, hch⟩ := h.table i d hl
    refine ⟨hcl, ?_⟩
    rw [List.getElem?_modify, hget]
    exact ⟨_, rfl, by rw [hid]; exact hch⟩
  · rw [List.getElem?_modify] at hget
    obtain ⟨ch', hget', rfl⟩ := Option.map_eq_some_iff.mp hget
    rw [hid] at hl ⊢
    exact h.dropped d ch' hget' hl

end Receives

/-! ### The frames between the ends -/

/-- From one end to the other: frames consumed, then frames on the wire or being
written, then frames queued. The writer task has met no frame it refuses. -/
structure Flows (sender : Endpoint) (wire : Bytes) (consumed : List Frame) : Prop where
  inFlight : ∃ frames, wire ++ sender.writing = Reader.encodeAll Frame.encode frames ∧
    sender.enqueued = consumed ++ frames ++ sender.writerQueue
  bounded : ∀ f ∈ sender.enqueued, f.payload.length ≤ maxPayloadLen
  live : sender.writerStopped = false

theorem Flows.consumed_isPrefix {e : Endpoint} {wire : Bytes} {consumed : List Frame}
    (h : Flows e wire consumed) : ∃ rest, e.enqueued = consumed ++ rest := by
  obtain ⟨frames, _, heq⟩ := h.inFlight
  exact ⟨frames ++ e.writerQueue, by rw [heq, List.append_assoc]⟩

/-- Putting a frame in the writer queue. -/
theorem Flows.enqueue {e e' : Endpoint} {wire : Bytes} {consumed : List Frame}
    (h : Flows e wire consumed) {f : Frame} (hf : f.payload.length ≤ maxPayloadLen)
    (hq : e'.writerQueue = e.writerQueue ++ [f]) (he : e'.enqueued = e.enqueued ++ [f])
    (hw : e'.writing = e.writing) (hs : e'.writerStopped = e.writerStopped) :
    Flows e' wire consumed := by
  obtain ⟨frames, hwire, heq⟩ := h.inFlight
  refine ⟨⟨frames, by rw [hw]; exact hwire, ?_⟩, ?_, by rw [hs]; exact h.live⟩
  · rw [he, hq, heq]
    simp only [List.append_assoc]
  · intro g hg
    rw [he] at hg
    rcases List.mem_append.mp hg with hg | hg
    · exact h.bounded g hg
    · obtain rfl := List.mem_singleton.mp hg
      exact hf

/-- The writer task takes the next frame: within the limit, so it starts writing it. -/
theorem Flows.take {e : Endpoint} {wire : Bytes} {consumed : List Frame} (h : Flows e wire consumed)
    {f : Frame} {queue : List Frame} (hq : e.writerQueue = f :: queue) (hw : e.writing = []) :
    Flows {e with writerQueue := queue, writing := f.encode} wire consumed := by
  obtain ⟨frames, hwire, heq⟩ := h.inFlight
  refine ⟨⟨frames ++ [f], ?_, ?_⟩, h.bounded, h.live⟩
  · rw [hw, List.append_nil] at hwire
    simp [hwire]
  · show e.enqueued = consumed ++ (frames ++ [f]) ++ queue
    rw [heq, hq]
    simp only [List.append_assoc, List.singleton_append]

theorem Flows.write {e : Endpoint} {wire : Bytes} {consumed : List Frame} (h : Flows e wire consumed)
    (n : Nat) : Flows {e with writing := e.writing.drop n} (wire ++ e.writing.take n) consumed := by
  obtain ⟨frames, hwire, heq⟩ := h.inFlight
  refine ⟨⟨frames, ?_, heq⟩, h.bounded, h.live⟩
  rw [List.append_assoc]
  show wire ++ (e.writing.take n ++ e.writing.drop n) = _
  rw [List.take_append_drop]
  exact hwire

/-- What the peer's reader takes off the wire is the next frame that was enqueued. -/
theorem Flows.read {e : Endpoint} {wire rest : Bytes} {consumed : List Frame}
    (h : Flows e wire consumed) {f : Frame} (hr : readFrame wire = .done f rest) :
    Flows e rest (consumed ++ [f]) := by
  obtain ⟨frames, hwire, heq⟩ := h.inFlight
  have hok : ∀ g ∈ frames, g.payload.length ≤ maxPayloadLen := fun g hg =>
    h.bounded g (by rw [heq]; simp [hg])
  obtain ⟨tail, rfl, htail⟩ := frames_delimit.head_of_done hok hwire hr
  refine ⟨⟨tail, htail, ?_⟩, h.bounded, h.live⟩
  rw [heq]
  simp only [List.append_assoc, List.cons_append, List.nil_append]

/-! ### What one step of an endpoint does -/

/-- Every step that touches no wire, on a live writer. -/
inductive Acts (e : Endpoint) : Action → Endpoint → Prop where
  | openStream (payload : Bytes) : Acts e (.openStream payload)
      {e with nextId := e.nextId + 2, opening := e.opening ++ [⟨e.nextId, payload, .taken⟩]}
  | insertStream {k : Nat} {call : OpenCall} : e.opening[k]? = some call → call.phase = .taken →
      Acts e (.insertStream k) {e.newStream call.id [] with
        opening := e.opening.set k {call with phase := .inserted e.channels.length}}
  | sendOpen {k inbound : Nat} {call : OpenCall} : e.opening[k]? = some call →
      call.phase = .inserted inbound → Acts e (.sendOpen k) {e with
        writerQueue := e.writerQueue ++ [⟨.open, call.id, call.payload⟩]
        enqueued := e.enqueued ++ [⟨.open, call.id, call.payload⟩]
        opening := e.opening.set k {call with phase := .sent}
        held := e.held ++ [⟨call.id, inbound⟩]}
  | sendData {j : Nat} {stream : MuxStream} (data : Bytes) : e.held[j]? = some stream →
      Acts e (.sendData j data) {e with
        writerQueue := e.writerQueue ++ [⟨.data, stream.id, data⟩]
        enqueued := e.enqueued ++ [⟨.data, stream.id, data⟩]}
  | close {j : Nat} {stream : MuxStream} : e.held[j]? = some stream → Acts e (.close j) {e with
        writerQueue := e.writerQueue ++ [⟨.close, stream.id, []⟩]
        enqueued := e.enqueued ++ [⟨.close, stream.id, []⟩]}
  | recvData {j : Nat} {stream : MuxStream} {ch : Channel} {m : Bytes} {queue : List Bytes} :
      e.held[j]? = some stream → e.channels[stream.inbound]? = some ch → ch.queue = m :: queue →
      Acts e (.recvData j) {e with channels := e.channels.modify stream.inbound fun ch =>
        {ch with queue := queue, returned := ch.returned ++ [m]}}
  | accept {stream : MuxStream} {incoming : List MuxStream} : e.incoming = stream :: incoming →
      Acts e .accept {e with incoming := incoming, held := e.held ++ [stream]}
  | handStream {stream : MuxStream} : e.reader = .handing stream → Acts e .handStream {e with
        incoming := e.incoming ++ [stream], reader := .replying ⟨.openAck, stream.id, []⟩}
  | reply {f : Frame} : e.reader = .replying f → Acts e .reply {e with
        writerQueue := e.writerQueue ++ [f], enqueued := e.enqueued ++ [f], reader := .reading}
  | takeFrame {f : Frame} {queue : List Frame} : e.writing = [] → e.writerQueue = f :: queue →
      f.payload.length ≤ maxPayloadLen →
      Acts e .takeFrame {e with writerQueue := queue, writing := f.encode}

theorem enqueue_eq {e e' : Endpoint} {f : Frame} (h : e.enqueue f = some e') :
    e' = {e with writerQueue := e.writerQueue ++ [f], enqueued := e.enqueued ++ [f]} := by
  unfold Endpoint.enqueue at h
  split at h
  · exact (Option.some.inj h).symm
  · cases h

/-- On a live writer whose queue is within the limit, `act` takes no other step. -/
theorem acts_of_act {e e' : Endpoint} {a : Action} (h : e.act a = some e')
    (hlive : e.writerStopped = false) (hb : ∀ f ∈ e.writerQueue, f.payload.length ≤ maxPayloadLen) :
    Acts e a e' := by
  cases a with
  | openStream payload =>
    obtain rfl := Option.some.inj h
    exact .openStream payload
  | insertStream k =>
    simp only [Endpoint.act, Option.bind_eq_bind, Option.bind_eq_some_iff, guard, Option.pure_def] at h
    obtain ⟨call, hget, _, hphase, h⟩ := h
    obtain rfl := Option.some.inj h
    refine .insertStream hget ?_
    by_contra hne
    simp [hne] at hphase
  | sendOpen k =>
    simp only [Endpoint.act, Option.bind_eq_bind, Option.bind_eq_some_iff, hlive,
      Bool.false_eq_true, if_false, Option.pure_def] at h
    obtain ⟨call, hget, h⟩ := h
    cases hphase : call.phase with
    | inserted inbound =>
      simp only [hphase, Option.bind_eq_some_iff] at h
      obtain ⟨e'', hq, h⟩ := h
      obtain rfl := Option.some.inj h
      rw [enqueue_eq hq]
      exact .sendOpen hget hphase
    | _ => simp [hphase] at h
  | sendData j data =>
    simp only [Endpoint.act, Option.bind_eq_bind, Option.bind_eq_some_iff, hlive,
      Bool.false_eq_true, if_false] at h
    obtain ⟨stream, hget, h⟩ := h
    rw [enqueue_eq h]
    exact .sendData data hget
  | close j =>
    simp only [Endpoint.act, Option.bind_eq_bind, Option.bind_eq_some_iff, hlive,
      Bool.false_eq_true, if_false] at h
    obtain ⟨stream, hget, h⟩ := h
    rw [enqueue_eq h]
    exact .close hget
  | recvData j =>
    simp only [Endpoint.act, Option.bind_eq_bind, Option.bind_eq_some_iff] at h
    obtain ⟨stream, hget, ch, hch, h⟩ := h
    cases hq : ch.queue with
    | nil => simp [hq] at h
    | cons m queue =>
      simp only [hq, Option.pure_def] at h
      obtain rfl := Option.some.inj h
      exact .recvData hget hch hq
  | accept =>
    cases hi : e.incoming with
    | nil => simp [Endpoint.act, hi] at h
    | cons stream incoming =>
      simp only [Endpoint.act, hi] at h
      obtain rfl := Option.some.inj h
      exact .accept hi
  | handStream =>
    cases hr : e.reader with
    | handing stream =>
      simp only [Endpoint.act, hr] at h
      split at h
      · obtain rfl := Option.some.inj h
        exact .handStream hr
      · cases h
    | _ => simp [Endpoint.act, hr] at h
  | reply =>
    cases hr : e.reader with
    | replying f =>
      simp only [Endpoint.act, hr, hlive, Bool.false_eq_true, if_false] at h
      obtain ⟨e'', hq, rfl⟩ := Option.map_eq_some_iff.mp h
      rw [enqueue_eq hq]
      exact .reply hr
    | _ => simp [Endpoint.act, hr] at h
  | takeFrame =>
    cases hw : e.writing with
    | cons b rest => simp [Endpoint.act, hlive, hw] at h
    | nil =>
      cases hq : e.writerQueue with
      | nil => simp [Endpoint.act, hlive, hw, hq] at h
      | cons f queue =>
        have hf : f.payload.length ≤ maxPayloadLen := hb f (by simp [hq])
        simp only [Endpoint.act, hlive, hw, hq, writeFrame, if_neg (Nat.not_lt.mpr hf)] at h
        obtain rfl := Option.some.inj h
        simpa only [hlive] using Acts.takeFrame hw hq hf
  | writeBytes n => cases h
  | readFrame => cases h

/-! ### Ids -/

/-- The id the `k`-th call of `open_stream` takes. -/
def callId (k : Nat) : UInt32 := UInt32.ofNat (1 + 2 * k)

theorem callId_succ (k : Nat) : callId k + 2 = callId (k + 1) := by
  have h2 : (2 : UInt32) = UInt32.ofNat 2 := rfl
  rw [callId, callId, h2, ← UInt32.ofNat_add, Nat.mul_add, Nat.add_assoc]

/-- Odd ids do not repeat before the counter wraps. -/
theorem callId_inj {j k : Nat} (hj : j < 2 ^ 31) (hk : k < 2 ^ 31) (h : callId j = callId k) :
    j = k := by
  have h' := congrArg UInt32.toNat h
  rw [callId, callId, UInt32.toNat_ofNat', UInt32.toNat_ofNat', Nat.mod_eq_of_lt (by omega),
    Nat.mod_eq_of_lt (by omega)] at h'
  omega

/-- The `Open` of stream `i` is among the frames. -/
def Opened (i : UInt32) (frames : List Frame) : Prop :=
  ∃ f ∈ frames, f.frameType = .open ∧ f.streamId = i

theorem Opened.append {i : UInt32} {a b : List Frame} (h : Opened i a) : Opened i (a ++ b) := by
  obtain ⟨f, hf, h⟩ := h
  exact ⟨f, List.mem_append_left b hf, h⟩

/-- No frame of a stream comes before its `Open`, so no stream is opened twice. -/
def OpenFirst (frames : List Frame) : Prop :=
  ∀ a f b, frames = a ++ f :: b → f.frameType = .open → ∀ g ∈ a, g.streamId ≠ f.streamId

/-- A place in the list is its end or was there before the last push. -/
theorem split_push {frames a b : List Frame} {f x : Frame} (h : frames ++ [f] = a ++ x :: b) :
    (a = frames ∧ x = f) ∨ ∃ b', frames = a ++ x :: b' := by
  rcases List.eq_nil_or_concat b with rfl | ⟨b', y, rfl⟩
  · obtain ⟨rfl, hfx⟩ := List.append_inj' h rfl
    exact .inl ⟨rfl, (List.head_eq_of_cons_eq hfx).symm⟩
  · have h' : frames ++ [f] = (a ++ x :: b') ++ [y] := by
      rw [h]
      simp
    exact .inr ⟨b', (List.append_inj' h' rfl).1⟩

theorem OpenFirst.push {frames : List Frame} (h : OpenFirst frames) {f : Frame}
    (hf : f.frameType = .open → ∀ g ∈ frames, g.streamId ≠ f.streamId) : OpenFirst (frames ++ [f]) := by
  intro a x b heq hx
  rcases split_push heq with ⟨rfl, rfl⟩ | ⟨b', rfl⟩
  · exact hf hx
  · exact h a x b' rfl hx

/-- A call of `open_stream` with this id has got as far as a phase `P` admits. -/
def CallIn (opening : List OpenCall) (i : UInt32) (P : OpenPhase → Prop) : Prop :=
  ∃ (k : Nat) (call : OpenCall), opening[k]? = some call ∧ call.id = i ∧ P call.phase

theorem CallIn.push {opening : List OpenCall} {i : UInt32} {P : OpenPhase → Prop} (call : OpenCall)
    (h : CallIn opening i P) : CallIn (opening ++ [call]) i P := by
  obtain ⟨k, c, hget, hid, hp⟩ := h
  exact ⟨k, c, Heap.get_push_of_some hget, hid, hp⟩

theorem CallIn.set {opening : List OpenCall} {i : UInt32} {P : OpenPhase → Prop} {k : Nat}
    {call : OpenCall} {phase : OpenPhase} (h : CallIn opening i P) (hget : opening[k]? = some call)
    (hp : P call.phase → P phase) : CallIn (opening.set k {call with phase := phase}) i P := by
  obtain ⟨j, c, hj, hid, hpc⟩ := h
  by_cases hkj : k = j
  · subst hkj
    obtain rfl := Option.some.inj (hget.symm.trans hj)
    have hlt := (List.getElem?_eq_some_iff.mp hj).1
    exact ⟨k, {call with phase := phase}, by rw [List.getElem?_set_self hlt], hid, hp hpc⟩
  · exact ⟨j, c, by rw [List.getElem?_set_ne hkj]; exact hj, hid, hpc⟩

theorem CallIn.of_set {opening : List OpenCall} {k : Nat} {call : OpenCall} {phase : OpenPhase}
    {P : OpenPhase → Prop} (hget : opening[k]? = some call) (hp : P phase) :
    CallIn (opening.set k {call with phase := phase}) call.id P := by
  have hlt := (List.getElem?_eq_some_iff.mp hget).1
  exact ⟨k, {call with phase := phase}, by rw [List.getElem?_set_self hlt], rfl, hp⟩

/-- The end that opens streams: ids are taken in order, a channel has the id of a
call that inserted it, a frame the id of a call that sent its `Open` first. -/
structure Opens (e : Endpoint) : Prop where
  nextId : e.nextId = callId e.opening.length
  ids : ∀ (k : Nat) (call : OpenCall), e.opening[k]? = some call → call.id = callId k
  few : e.opening.length < 2 ^ 31
  payloads : ∀ call ∈ e.opening, call.payload.length ≤ maxPayloadLen
  inserted : ∀ (k : Nat) (call : OpenCall) (c : Nat), e.opening[k]? = some call → call.phase = .inserted c →
    ∃ ch, e.channels[c]? = some ch ∧ ch.streamId = call.id
  channels : ∀ ch ∈ e.channels, CallIn e.opening ch.streamId (· ≠ .taken)
  held : ∀ stream ∈ e.held, CallIn e.opening stream.id (· = .sent)
  frames : ∀ f ∈ e.enqueued, (f.frameType = .open ∨ f.frameType = .data ∨ f.frameType = .close) ∧
    CallIn e.opening f.streamId (· = .sent)
  first : OpenFirst e.enqueued
  quiet : e.incoming = [] ∧ (e.reader = .reading ∨ e.reader = .stopped)

/-- The other end: it uses only ids whose `Open` it has consumed. -/
structure Accepts (e : Endpoint) : Prop where
  none : e.opening = []
  channels : ∀ ch ∈ e.channels, Opened ch.streamId e.consumed
  frames : ∀ f ∈ e.enqueued, (f.frameType = .openAck ∨ f.frameType = .data ∨ f.frameType = .close) ∧
    Opened f.streamId e.consumed
  reply : ∀ f, e.reader = .replying f →
    f.frameType = .openAck ∧ f.payload = [] ∧ Opened f.streamId e.consumed

/-- Two calls with one id are one call. -/
theorem Opens.call_unique {e : Endpoint} (h : Opens e) {j k : Nat} {c d : OpenCall}
    (hj : e.opening[j]? = some c) (hk : e.opening[k]? = some d) (hid : c.id = d.id) : j = k := by
  have hlj := (List.getElem?_eq_some_iff.mp hj).1
  have hlk := (List.getElem?_eq_some_iff.mp hk).1
  have hfew := h.few
  rw [h.ids j c hj, h.ids k d hk] at hid
  exact callId_inj (by omega) (by omega) hid

/-- A call whose phase `P` refuses is not the one `CallIn` finds. -/
theorem Opens.not_callIn {e : Endpoint} (h : Opens e) {k : Nat} {call : OpenCall}
    {P : OpenPhase → Prop} (hget : e.opening[k]? = some call) (hp : ¬ P call.phase) :
    ¬ CallIn e.opening call.id P := by
  intro hboth
  obtain ⟨j, c, hj, hid, hpc⟩ := hboth
  obtain rfl := h.call_unique hj hget hid
  obtain rfl := Option.some.inj (hj.symm.trans hget)
  exact hp hpc

theorem Opens.ids_set {e : Endpoint} (h : Opens e) {k : Nat} {call : OpenCall} {phase : OpenPhase}
    (hget : e.opening[k]? = some call) (j : Nat) (c : OpenCall)
    (hj : (e.opening.set k {call with phase := phase})[j]? = some c) : c.id = callId j := by
  by_cases hkj : k = j
  · subst hkj
    rw [List.getElem?_set_self (List.getElem?_eq_some_iff.mp hget).1] at hj
    obtain rfl := Option.some.inj hj
    exact h.ids k call hget
  · rw [List.getElem?_set_ne hkj] at hj
    exact h.ids j c hj

theorem Opens.payloads_set {e : Endpoint} (h : Opens e) {k : Nat} {call : OpenCall}
    {phase : OpenPhase} (hget : e.opening[k]? = some call) :
    ∀ c ∈ e.opening.set k {call with phase := phase}, c.payload.length ≤ maxPayloadLen := by
  intro c hc
  rcases List.mem_or_eq_of_mem_set hc with hc | rfl
  · exact h.payloads c hc
  · exact h.payloads call (List.mem_of_getElem? hget)

/-- Enqueueing a frame of a stream whose `Open` was sent. -/
theorem Opens.enqueue {e : Endpoint} (h : Opens e) {f : Frame} {queue : List Frame}
    (ht : f.frameType = .data ∨ f.frameType = .close)
    (hc : CallIn e.opening f.streamId (· = .sent)) :
    Opens {e with writerQueue := queue, enqueued := e.enqueued ++ [f]} where
  nextId := h.nextId
  ids := h.ids
  few := h.few
  payloads := h.payloads
  inserted := h.inserted
  channels := h.channels
  held := h.held
  quiet := h.quiet
  frames := by
    intro g hg
    rcases List.mem_append.mp hg with hg | hg
    · exact h.frames g hg
    · obtain rfl := List.mem_singleton.mp hg
      exact ⟨.inr ht, hc⟩
  first := h.first.push fun ho => absurd ho (by rcases ht with ht | ht <;> rw [ht] <;> decide)

/-- Every stream a task can use, is waiting to be accepted, or is being handed over. -/
def Endpoint.known (e : Endpoint) : List MuxStream :=
  e.held ++ e.incoming ++ match e.reader with
    | .handing stream => [stream]
    | _ => []

/-- Each such stream has a channel of its id. -/
def Known (e : Endpoint) : Prop :=
  ∀ stream ∈ e.known, ∃ ch, e.channels[stream.inbound]? = some ch ∧ ch.streamId = stream.id

theorem known_modify {channels : List Channel} {c d : Nat} {g : Channel → Channel} {i : UInt32}
    (hg : ∀ ch, (g ch).streamId = ch.streamId)
    (h : ∃ ch, channels[d]? = some ch ∧ ch.streamId = i) :
    ∃ ch, (channels.modify c g)[d]? = some ch ∧ ch.streamId = i := by
  obtain ⟨ch, hget, hid⟩ := h
  rw [List.getElem?_modify, hget]
  exact ⟨_, rfl, by split <;> simp [hg, hid]⟩

/-! ### One step keeps the ids in order -/

theorem Opens.acts {e e' : Endpoint} {a : Action} (h : Opens e) (ha : Acts e a e')
    (hc : ∀ payload, a = .openStream payload →
      payload.length ≤ maxPayloadLen ∧ e.opening.length + 1 < 2 ^ 31) : Opens e' := by
  cases ha with
  | openStream payload =>
    obtain ⟨hp, hfew⟩ := hc payload rfl
    refine {h with nextId := ?_, ids := ?_, few := ?_, payloads := ?_, inserted := ?_, channels := ?_,
                   held := ?_, frames := ?_}
    · show e.nextId + 2 = callId (e.opening ++ _).length
      rw [h.nextId, callId_succ]
      simp
    · intro k call hget
      rw [Heap.get_push] at hget
      split at hget
      · obtain rfl := Option.some.inj hget
        subst k
        exact h.nextId
      · exact h.ids k call hget
    · simpa using hfew
    · intro call hcall
      rcases List.mem_append.mp hcall with hcall | hcall
      · exact h.payloads call hcall
      · obtain rfl := List.mem_singleton.mp hcall
        exact hp
    · intro k call c hget hphase
      rw [Heap.get_push] at hget
      split at hget
      · obtain rfl := Option.some.inj hget
        cases hphase
      · exact h.inserted k call c hget hphase
    · exact fun ch hch => (h.channels ch hch).push _
    · exact fun stream hs => (h.held stream hs).push _
    · exact fun f hf => ⟨(h.frames f hf).1, (h.frames f hf).2.push _⟩
  | @insertStream k call hget hphase =>
    have hsent : (call.phase = .sent) → (OpenPhase.inserted e.channels.length = .sent) := by
      rw [hphase]
      nofun
    refine {h with nextId := ?_, ids := h.ids_set hget, few := ?_, payloads := h.payloads_set hget,
                   inserted := ?_, channels := ?_, held := ?_, frames := ?_}
    · simpa [Endpoint.newStream] using h.nextId
    · simpa using h.few
    · intro j c inbound hj hp
      by_cases hkj : k = j
      · subst hkj
        rw [List.getElem?_set_self (List.getElem?_eq_some_iff.mp hget).1] at hj
        obtain rfl := Option.some.inj hj
        obtain rfl := OpenPhase.inserted.inj hp
        exact ⟨_, by rw [Endpoint.newStream, Heap.get_push, if_pos rfl], rfl⟩
      · rw [List.getElem?_set_ne hkj] at hj
        obtain ⟨ch, hch, hid⟩ := h.inserted j c inbound hj hp
        exact ⟨ch, Heap.get_push_of_some hch, hid⟩
    · intro ch hch
      rcases List.mem_append.mp hch with hch | hch
      · exact (h.channels ch hch).set hget (fun _ => nofun)
      · obtain rfl := List.mem_singleton.mp hch
        exact .of_set hget nofun
    · exact fun stream hs => (h.held stream hs).set hget hsent
    · exact fun f hf => ⟨(h.frames f hf).1, (h.frames f hf).2.set hget hsent⟩
  | @sendOpen k inbound call hget hphase =>
    refine {h with nextId := ?_, ids := h.ids_set hget, few := ?_, payloads := h.payloads_set hget,
                   inserted := ?_, channels := ?_, held := ?_, frames := ?_, first := ?_}
    · simpa using h.nextId
    · simpa using h.few
    · intro j c d hj hp
      by_cases hkj : k = j
      · subst hkj
        rw [List.getElem?_set_self (List.getElem?_eq_some_iff.mp hget).1] at hj
        obtain rfl := Option.some.inj hj
        cases hp
      · rw [List.getElem?_set_ne hkj] at hj
        exact h.inserted j c d hj hp
    · exact fun ch hch => (h.channels ch hch).set hget (fun _ => nofun)
    · intro stream hs
      rcases List.mem_append.mp hs with hs | hs
      · exact (h.held stream hs).set hget (fun _ => rfl)
      · obtain rfl := List.mem_singleton.mp hs
        exact .of_set hget rfl
    · intro f hf
      rcases List.mem_append.mp hf with hf | hf
      · exact ⟨(h.frames f hf).1, (h.frames f hf).2.set hget (fun _ => rfl)⟩
      · obtain rfl := List.mem_singleton.mp hf
        exact ⟨.inl rfl, .of_set hget rfl⟩
    · refine h.first.push fun _ g hg hid => ?_
      have hnot := h.not_callIn (P := (· = .sent)) hget (by rw [hphase]; nofun)
      have hsent := (h.frames g hg).2
      rw [hid] at hsent
      exact hnot hsent
  | sendData data hget => exact h.enqueue (.inl rfl) (h.held _ (List.mem_of_getElem? hget))
  | close hget => exact h.enqueue (.inr rfl) (h.held _ (List.mem_of_getElem? hget))
  | @recvData j stream ch₀ m queue hheld hget hq =>
    refine {h with inserted := ?_, channels := ?_}
    · intro k call c hcall hphase
      exact known_modify (fun _ => rfl) (h.inserted k call c hcall hphase)
    · intro ch hch
      obtain ⟨d, hd⟩ := List.mem_iff_getElem?.mp hch
      rw [List.getElem?_modify] at hd
      obtain ⟨ch', hget', rfl⟩ := Option.map_eq_some_iff.mp hd
      have := h.channels ch' (List.mem_of_getElem? hget')
      split <;> exact this
  | accept hi => exact absurd (h.quiet.1.symm.trans hi) nofun
  | handStream hr => rcases h.quiet.2 with hq | hq <;> rw [hq] at hr <;> cases hr
  | reply hr => rcases h.quiet.2 with hq | hq <;> rw [hq] at hr <;> cases hr
  | takeFrame _ _ _ => exact {h with}

theorem Accepts.acts {e e' : Endpoint} {a : Action} (h : Accepts e) (hk : Known e) (ha : Acts e a e')
    (hno : ∀ payload, a ≠ .openStream payload) : Accepts e' := by
  have hopened : ∀ stream ∈ e.known, Opened stream.id e.consumed := by
    intro stream hs
    obtain ⟨ch, hget, hid⟩ := hk stream hs
    rw [← hid]
    exact h.channels ch (List.mem_of_getElem? hget)
  have hheld : ∀ {j : Nat} {stream : MuxStream}, e.held[j]? = some stream → Opened stream.id e.consumed :=
    fun hget => hopened _ (by simp [Endpoint.known, List.mem_of_getElem? hget])
  have henq : ∀ f : Frame, (f.frameType = .openAck ∨ f.frameType = .data ∨ f.frameType = .close) →
      Opened f.streamId e.consumed → ∀ g ∈ e.enqueued ++ [f],
        (g.frameType = .openAck ∨ g.frameType = .data ∨ g.frameType = .close) ∧
          Opened g.streamId e.consumed := by
    intro f ht ho g hg
    rcases List.mem_append.mp hg with hg | hg
    · exact h.frames g hg
    · obtain rfl := List.mem_singleton.mp hg
      exact ⟨ht, ho⟩
  cases ha with
  | openStream payload => exact absurd rfl (hno payload)
  | insertStream hget _ => simp [h.none] at hget
  | sendOpen hget _ => simp [h.none] at hget
  | sendData data hget => exact {h with frames := henq _ (.inr (.inl rfl)) (hheld hget)}
  | close hget => exact {h with frames := henq _ (.inr (.inr rfl)) (hheld hget)}
  | recvData hget hch hq =>
    refine {h with channels := ?_}
    intro ch hmem
    obtain ⟨d, hd⟩ := List.mem_iff_getElem?.mp hmem
    rw [List.getElem?_modify] at hd
    obtain ⟨ch', hget', rfl⟩ := Option.map_eq_some_iff.mp hd
    have := h.channels ch' (List.mem_of_getElem? hget')
    split <;> exact this
  | accept hi => exact {h with}
  | @handStream stream hr =>
    refine {h with reply := ?_}
    rintro f hf
    obtain rfl := ReaderState.replying.inj hf
    exact ⟨rfl, rfl, hopened stream (by simp [Endpoint.known, hr])⟩
  | reply hr =>
    obtain ⟨ht, _, ho⟩ := h.reply _ hr
    exact {h with frames := henq _ (.inl ht) ho, reply := nofun}
  | takeFrame _ _ _ => exact {h with}

theorem known_acts {e e' : Endpoint} {a : Action} (h : Known e) (ha : Acts e a e')
    (hins : ∀ (k : Nat) (call : OpenCall) (c : Nat), e.opening[k]? = some call →
      call.phase = .inserted c → ∃ ch, e.channels[c]? = some ch ∧ ch.streamId = call.id) : Known e' := by
  cases ha with
  | openStream payload => exact h
  | insertStream hget hphase =>
    intro stream hs
    obtain ⟨ch, hch, hid⟩ := h stream hs
    exact ⟨ch, Heap.get_push_of_some hch, hid⟩
  | @sendOpen k inbound call hget hphase =>
    intro stream hs
    simp only [Endpoint.known, List.append_assoc, List.mem_append, List.mem_singleton] at hs
    rcases hs with hs | rfl | hs
    · exact h stream (by simp [Endpoint.known, hs])
    · exact hins k call inbound hget hphase
    · exact h stream (by simp only [Endpoint.known, List.mem_append]; tauto)
  | sendData data hget => exact h
  | close hget => exact h
  | recvData hget hch hq => exact fun stream hs => known_modify (fun _ => rfl) (h stream hs)
  | accept hi =>
    intro stream hs
    apply h
    simp only [Endpoint.known, List.mem_append, hi, List.mem_cons] at hs ⊢
    tauto
  | handStream hr =>
    intro stream hs
    apply h
    simp only [Endpoint.known, List.mem_append, hr, List.mem_singleton, List.not_mem_nil, or_false] at hs ⊢
    tauto
  | reply hr =>
    intro stream hs
    apply h
    simp only [Endpoint.known, List.mem_append, hr] at hs ⊢
    exact hs
  | takeFrame _ _ _ => exact h

/-- An id taken and not yet inserted is in no channel and in no consumed frame. -/
theorem receives_acts {e e' : Endpoint} {a : Action}
    (h : Receives e.channels e.streams e.consumed) (ha : Acts e a e')
    (hnew : ∀ (k : Nat) (call : OpenCall), e.opening[k]? = some call → call.phase = .taken →
      (∀ ch ∈ e.channels, ch.streamId ≠ call.id) ∧ ∀ f ∈ e.consumed, f.streamId ≠ call.id) :
    Receives e'.channels e'.streams e'.consumed := by
  cases ha with
  | insertStream hget hphase =>
    obtain ⟨hch, hf⟩ := hnew _ _ hget hphase
    exact h.newStream (fun c ch hc => hch ch (List.mem_of_getElem? hc))
      (messages_of_absent _ _ hf).symm (not_closed_of_absent _ _ hf) (fun _ _ => rfl) (fun _ _ => Iff.rfl)
  | recvData hheld hget hq => exact h.recv hget hq
  | _ => exact h

/-! ### One frame -/

/-- A frame of a kind the opening end sends, with a fresh id if it is an `Open`. -/
theorem receives_onFrame {e : Endpoint} (f : Frame)
    (h : Receives e.channels e.streams e.consumed)
    (hnew : f.frameType = .open →
      (∀ ch ∈ e.channels, ch.streamId ≠ f.streamId) ∧ ∀ g ∈ e.consumed, g.streamId ≠ f.streamId) :
    Receives (e.onFrame f).channels (e.onFrame f).streams (e.onFrame f).consumed := by
  cases ht : f.frameType with
  | «open» =>
    obtain ⟨hch, hg⟩ := hnew ht
    have hopen : ¬ Closed f.streamId (e.consumed ++ [f]) := by
      rw [closed_append, closed_singleton]
      intro hboth
      obtain hcl | ⟨_, he | he⟩ := hboth
      · exact not_closed_of_absent _ _ hg hcl
      · rw [ht] at he; cases he
      · rw [ht] at he; cases he
    have hqueue : (if f.payload.isEmpty then [] else [f.payload]) =
        messages f.streamId (e.consumed ++ [f]) := by
      rw [messages_append_open _ _ _ (not_closed_of_absent _ _ hg), messages_of_absent _ _ hg]
      simp [messages, ht]
    simp only [Endpoint.onFrame, ht, Endpoint.newStream]
    refine h.newStream (fun c ch hc => hch ch (List.mem_of_getElem? hc)) hqueue hopen
      (fun j hj => messages_other j _ f (Ne.symm hj)) (fun j hj => ?_)
    rw [closed_append, closed_singleton]
    exact ⟨fun hcl => hcl.resolve_right fun he => hj he.1.symm, .inl⟩
  | openAck => simpa only [Endpoint.onFrame, ht] using h.silent f (.inl ht)
  | data =>
    cases hl : e.streams.lookup f.streamId with
    | none => simpa only [Endpoint.onFrame, ht, hl] using h.lateData f ht hl
    | some c => simpa only [Endpoint.onFrame, ht, hl] using h.data f ht hl
  | close => simpa only [Endpoint.onFrame, ht] using h.close f (.inl ht)
  | error => simpa only [Endpoint.onFrame, ht] using h.close f (.inr ht)
  | ping => simpa only [Endpoint.onFrame, ht] using h.silent f (.inr (.inl ht))
  | pong => simpa only [Endpoint.onFrame, ht] using h.silent f (.inr (.inr ht))

/-- Every channel after a frame has the id of a channel before it, or is the new
stream of an `Open`. -/
theorem onFrame_channel {e : Endpoint} {f : Frame} {ch : Channel} (h : ch ∈ (e.onFrame f).channels) :
    (∃ ch' ∈ e.channels, ch'.streamId = ch.streamId) ∨ (f.frameType = .open ∧ ch.streamId = f.streamId) := by
  cases ht : f.frameType with
  | «open» =>
    simp only [Endpoint.onFrame, ht, Endpoint.newStream, List.mem_append, List.mem_singleton] at h
    rcases h with h | rfl
    · exact .inl ⟨ch, h, rfl⟩
    · exact .inr ⟨rfl, rfl⟩
  | data =>
    cases hl : e.streams.lookup f.streamId with
    | none =>
      simp only [Endpoint.onFrame, ht, hl] at h
      exact .inl ⟨ch, h, rfl⟩
    | some c =>
      simp only [Endpoint.onFrame, ht, hl] at h
      obtain ⟨d, hd⟩ := List.mem_iff_getElem?.mp h
      rw [List.getElem?_modify] at hd
      obtain ⟨ch', hget', rfl⟩ := Option.map_eq_some_iff.mp hd
      exact .inl ⟨ch', List.mem_of_getElem? hget', by split <;> rfl⟩
  | _ =>
    simp only [Endpoint.onFrame, ht] at h
    exact .inl ⟨ch, h, rfl⟩

/-- A channel keeps its place and its id. -/
theorem onFrame_get {e : Endpoint} (f : Frame) {c : Nat} {i : UInt32}
    (h : ∃ ch, e.channels[c]? = some ch ∧ ch.streamId = i) :
    ∃ ch, (e.onFrame f).channels[c]? = some ch ∧ ch.streamId = i := by
  cases ht : f.frameType with
  | «open» =>
    obtain ⟨ch, hget, hid⟩ := h
    simp only [Endpoint.onFrame, ht, Endpoint.newStream]
    exact ⟨ch, Heap.get_push_of_some hget, hid⟩
  | data =>
    cases hl : e.streams.lookup f.streamId with
    | none => simpa only [Endpoint.onFrame, ht, hl] using h
    | some d =>
      simp only [Endpoint.onFrame, ht, hl]
      exact known_modify (fun _ => rfl) h
  | _ => simpa only [Endpoint.onFrame, ht] using h

/-- What a frame leaves alone. -/
theorem onFrame_frame (e : Endpoint) (f : Frame) :
    (e.onFrame f).consumed = e.consumed ++ [f] ∧ (e.onFrame f).enqueued = e.enqueued ∧
      (e.onFrame f).writerQueue = e.writerQueue ∧ (e.onFrame f).writing = e.writing ∧
      (e.onFrame f).writerStopped = e.writerStopped ∧ (e.onFrame f).opening = e.opening ∧
      (e.onFrame f).nextId = e.nextId ∧ (e.onFrame f).held = e.held ∧
      (e.onFrame f).incoming = e.incoming := by
  cases ht : f.frameType with
  | data => cases hl : e.streams.lookup f.streamId <;> simp [Endpoint.onFrame, ht, hl]
  | _ => simp [Endpoint.onFrame, ht, Endpoint.newStream]

theorem onFrame_reader {e : Endpoint} {f : Frame}
    (h : f.frameType ≠ .open ∧ f.frameType ≠ .ping) : (e.onFrame f).reader = e.reader := by
  cases ht : f.frameType with
  | «open» => exact absurd ht h.1
  | ping => exact absurd ht h.2
  | data => cases hl : e.streams.lookup f.streamId <;> simp [Endpoint.onFrame, ht, hl]
  | _ => simp [Endpoint.onFrame, ht]

theorem Opens.onFrame {e : Endpoint} (h : Opens e) (f : Frame)
    (hf : f.frameType ≠ .open ∧ f.frameType ≠ .ping) : Opens (e.onFrame f) := by
  obtain ⟨_, henq, _, _, _, hopening, hnext, hheld, hincoming⟩ := onFrame_frame e f
  refine ⟨?_, ?_, ?_, ?_, ?_, ?_, ?_, ?_, ?_, ?_⟩
  · rw [hnext, hopening]; exact h.nextId
  · rw [hopening]; exact h.ids
  · rw [hopening]; exact h.few
  · rw [hopening]; exact h.payloads
  · rw [hopening]
    exact fun k call c hget hphase => onFrame_get f (h.inserted k call c hget hphase)
  · intro ch hch
    rw [hopening]
    rcases onFrame_channel hch with ⟨ch', hch', hid⟩ | ⟨ht, _⟩
    · rw [← hid]
      exact h.channels ch' hch'
    · exact absurd ht hf.1
  · rw [hheld, hopening]; exact h.held
  · rw [henq, hopening]; exact h.frames
  · rw [henq]; exact h.first
  · rw [hincoming, onFrame_reader hf]; exact h.quiet

theorem Accepts.onFrame {e : Endpoint} (h : Accepts e) (f : Frame) (hr : e.reader = .reading)
    (hf : f.frameType ≠ .ping) : Accepts (e.onFrame f) := by
  obtain ⟨hcons, henq, _, _, _, hopening, _, _, _⟩ := onFrame_frame e f
  refine ⟨by rw [hopening]; exact h.none, fun ch hch => ?_, fun g hg => ?_, fun g hg => ?_⟩
  · rw [hcons]
    rcases onFrame_channel hch with ⟨ch', hch', hid⟩ | ⟨ht, hid⟩
    · rw [← hid]
      exact (h.channels ch' hch').append
    · exact ⟨f, by simp, ht, hid.symm⟩
  · rw [henq] at hg
    rw [hcons]
    exact ⟨(h.frames g hg).1, (h.frames g hg).2.append⟩
  · by_cases ho : f.frameType = .open
    · simp [Endpoint.onFrame, ho] at hg
    · rw [onFrame_reader ⟨ho, hf⟩, hr] at hg
      cases hg

theorem known_onFrame {e : Endpoint} (h : Known e) (f : Frame) (hr : e.reader = .reading) :
    Known (e.onFrame f) := by
  obtain ⟨_, _, _, _, _, _, _, hheld, hincoming⟩ := onFrame_frame e f
  intro stream hs
  simp only [Endpoint.known, hheld, hincoming, List.mem_append] at hs
  rcases hs with hs | hs
  · exact onFrame_get f (h stream (by simp only [Endpoint.known, List.mem_append]; tauto))
  · -- The stream being handed over is the one this frame opened.
    by_cases ho : f.frameType = .open
    · simp only [Endpoint.onFrame, ho, List.mem_singleton] at hs
      subst hs
      simp only [Endpoint.onFrame, ho, Endpoint.newStream]
      exact ⟨_, by rw [Heap.get_push, if_pos rfl], rfl⟩
    · by_cases hp : f.frameType = .ping
      · simp [Endpoint.onFrame, hp] at hs
      · rw [onFrame_reader ⟨ho, hp⟩, hr] at hs
        cases hs

/-! ### The pair -/

/-- `o` is the end that opens streams. -/
structure Inv (o : Side) (p : Pair) : Prop where
  opens : Opens (p.ends o)
  accepts : Accepts (p.ends o.peer)
  known : ∀ s, Known (p.ends s)
  receives : ∀ s, Receives (p.ends s).channels (p.ends s).streams (p.ends s).consumed
  flows : ∀ s, Flows (p.ends s) (p.wire s) (p.ends s.peer).consumed

/-- What the claim allows: only `o` opens streams, fewer than 2^31 of them, and no
payload is above the limit. -/
def Allowed (o : Side) (label : Side × Action) (p : Pair) : Prop :=
  match label.2 with
  | .openStream payload =>
    label.1 = o ∧ payload.length ≤ maxPayloadLen ∧ (p.ends o).opening.length + 1 < 2 ^ 31
  | .sendData _ data => data.length ≤ maxPayloadLen
  | _ => True

instance (o : Side) (label : Side × Action) (p : Pair) : Decidable (Allowed o label p) := by
  unfold Allowed
  split <;> infer_instance

theorem inv_init (o : Side) : Inv o system.init := by
  have hr : Receives [] ∅ [] := ⟨by simp, by simp, by simp, by simp⟩
  have hf : Flows {} [] [] := ⟨⟨[], rfl, rfl⟩, by simp, rfl⟩
  refine ⟨⟨rfl, by simp [system], by simp [system], by simp [system], by simp [system],
    by simp [system], by simp [system], by simp [system], ?_, ⟨rfl, .inl rfl⟩⟩,
    ⟨rfl, by simp [system], by simp [system], nofun⟩, fun s stream hs => ?_, fun _ => hr, fun _ => hf⟩
  · intro a f b heq
    simp [system] at heq
  · simp [system, Endpoint.known] at hs

/-- Whatever the accepting end has enqueued, its stream was opened by a call that
sent its `Open`. -/
theorem Inv.opener_of_frame {o : Side} {p : Pair} (h : Inv o p) {f : Frame}
    (hf : f ∈ (p.ends o).consumed) : CallIn (p.ends o).opening f.streamId (· = .sent) := by
  obtain ⟨rest, hrest⟩ := (h.flows o.peer).consumed_isPrefix
  rw [Side.peer_peer] at hrest
  obtain ⟨_, g, hg, _, hid⟩ := h.accepts.frames f (by rw [hrest]; simp [hf])
  obtain ⟨rest', hrest'⟩ := (h.flows o).consumed_isPrefix
  rw [← hid]
  exact (h.opens.frames g (by rw [hrest']; simp [hg])).2

theorem Inv.fresh_call {o : Side} {p : Pair} (h : Inv o p) {k : Nat} {call : OpenCall}
    (hget : (p.ends o).opening[k]? = some call) (hphase : call.phase = .taken) :
    (∀ ch ∈ (p.ends o).channels, ch.streamId ≠ call.id) ∧
      ∀ f ∈ (p.ends o).consumed, f.streamId ≠ call.id := by
  constructor
  · intro ch hch hid
    have hnot := h.opens.not_callIn (P := (· ≠ .taken)) hget (by simp [hphase])
    exact hnot (hid ▸ h.opens.channels ch hch)
  · intro f hf hid
    have hnot := h.opens.not_callIn (P := (· = .sent)) hget (by simp [hphase])
    exact hnot (hid ▸ h.opener_of_frame hf)

theorem flows_acts {e e' : Endpoint} {a : Action} {wire : Bytes} {consumed : List Frame}
    (h : Flows e wire consumed) (ha : Acts e a e')
    (hopen : ∀ call ∈ e.opening, call.payload.length ≤ maxPayloadLen)
    (hdata : ∀ j data, a = .sendData j data → data.length ≤ maxPayloadLen)
    (hreply : ∀ f, e.reader = .replying f → f.payload = []) : Flows e' wire consumed := by
  cases ha with
  | openStream payload => exact {h with}
  | insertStream hget hphase => exact {h with}
  | sendOpen hget hphase =>
    exact h.enqueue (hopen _ (List.mem_of_getElem? hget)) rfl rfl rfl rfl
  | sendData data hget => exact h.enqueue (hdata _ data rfl) rfl rfl rfl rfl
  | close hget => exact h.enqueue (Nat.zero_le _) rfl rfl rfl rfl
  | recvData hheld hget hq => exact {h with}
  | accept hi => exact {h with}
  | handStream hr => exact {h with}
  | reply hr => exact h.enqueue (by rw [hreply _ hr]; exact Nat.zero_le _) rfl rfl rfl rfl
  | takeFrame hw hq hf => exact h.take hq hw

/-- Replacing one end: the other end and the bytes the other end sent stay. -/
theorem Inv.replace {o s : Side} {p : Pair} (h : Inv o p) {e' : Endpoint} {wire : Side → Bytes}
    (hopens : s = o → Opens e') (haccepts : s = o.peer → Accepts e') (hknown : Known e')
    (hreceives : Receives e'.channels e'.streams e'.consumed)
    (hout : Flows e' (wire s) (p.ends s.peer).consumed)
    (hin : Flows (p.ends s.peer) (wire s.peer) e'.consumed) :
    Inv o ⟨Function.update p.ends s e', wire⟩ where
  opens := by
    by_cases ho : s = o
    · subst ho
      simpa using hopens rfl
    · simpa [Function.update_of_ne (Ne.symm ho)] using h.opens
  accepts := by
    by_cases ho : s = o.peer
    · subst ho
      simpa using haccepts rfl
    · simpa [Function.update_of_ne (Ne.symm ho)] using h.accepts
  known := by
    intro t
    rcases Side.eq_or_peer s t with rfl | rfl
    · simpa using hknown
    · simpa [Function.update_of_ne (Side.peer_ne _)] using h.known _
  receives := by
    intro t
    rcases Side.eq_or_peer s t with rfl | rfl
    · simpa using hreceives
    · simpa [Function.update_of_ne (Side.peer_ne _)] using h.receives _
  flows := by
    intro t
    rcases Side.eq_or_peer s t with rfl | rfl
    · simpa [Function.update_of_ne (Side.peer_ne _)] using hout
    · simpa [Function.update_of_ne (Side.peer_ne _)] using hin

/-- A step of one end that touches no wire. -/
theorem Inv.acts {o s : Side} {p : Pair} (h : Inv o p) {a : Action} {e' : Endpoint}
    (ha : Acts (p.ends s) a e') (hc : Allowed o (s, a) p) :
    Inv o {p with ends := Function.update p.ends s e'} := by
  have hcons : e'.consumed = (p.ends s).consumed := by cases ha <;> rfl
  have hdata : ∀ j data, a = .sendData j data → data.length ≤ maxPayloadLen := by
    rintro j data rfl
    exact hc
  have hin : Flows (p.ends s.peer) (p.wire s.peer) e'.consumed := by
    simpa [hcons] using h.flows s.peer
  rcases Side.eq_or_peer o s with rfl | rfl
  · have hreply : ∀ f, (p.ends s).reader = .replying f → f.payload = [] := by
      intro f hf
      rcases h.opens.quiet.2 with hr | hr <;> rw [hr] at hf <;> cases hf
    refine h.replace (fun _ => h.opens.acts ha ?_) (fun hs => absurd hs.symm (Side.peer_ne s))
      (known_acts (h.known s) ha h.opens.inserted)
      (receives_acts (h.receives s) ha fun k call => h.fresh_call)
      (flows_acts (h.flows s) ha h.opens.payloads hdata hreply) hin
    rintro payload rfl
    exact ⟨hc.2.1, hc.2.2⟩
  · have hno : ∀ payload, a ≠ .openStream payload := by
      rintro payload rfl
      exact absurd hc.1 (Side.peer_ne o)
    have hnone := h.accepts.none
    exact h.replace (fun hs => absurd hs (Side.peer_ne o)) (fun _ => h.accepts.acts (h.known _) ha hno)
      (known_acts (h.known _) ha (by simp [hnone])) (receives_acts (h.receives _) ha (by simp [hnone]))
      (flows_acts (h.flows _) ha (by simp [hnone]) hdata fun f hf => (h.accepts.reply f hf).2.1) hin

/-- A step of the reader task. -/
theorem Inv.read {o s : Side} {p : Pair} (h : Inv o p) {f : Frame} {rest : Bytes}
    (hr : (p.ends s).reader = .reading) (hread : readFrame (p.wire s.peer) = .done f rest) :
    Inv o ⟨Function.update p.ends s ((p.ends s).onFrame f), Function.update p.wire s.peer rest⟩ := by
  obtain ⟨hcons, henq, hqueue, hwriting, hstopped, _, _, _, _⟩ := onFrame_frame (p.ends s) f
  have hflow : Flows (p.ends s.peer) rest ((p.ends s).consumed ++ [f]) := by
    simpa using (h.flows s.peer).read (by simpa using hread)
  have hout : Flows ((p.ends s).onFrame f) (p.wire s) (p.ends s.peer).consumed := by
    obtain ⟨frames, hwire, heq⟩ := (h.flows s).inFlight
    exact ⟨⟨frames, by rw [hwriting]; exact hwire, by rw [henq, hqueue]; exact heq⟩,
      by rw [henq]; exact (h.flows s).bounded, by rw [hstopped]; exact (h.flows s).live⟩
  obtain ⟨later, hlater⟩ := hflow.consumed_isPrefix
  have hmem : f ∈ (p.ends s.peer).enqueued := by
    rw [hlater]
    simp
  have hwire : Function.update p.wire s.peer rest s = p.wire s :=
    Function.update_of_ne (Side.peer_ne s).symm ..
  rcases Side.eq_or_peer o s with rfl | rfl
  · have hf : f.frameType ≠ .open ∧ f.frameType ≠ .ping := by
      rcases (h.accepts.frames f hmem).1 with ht | ht | ht <;> simp [ht]
    exact h.replace (fun _ => h.opens.onFrame f hf) (fun hs => absurd hs.symm (Side.peer_ne s))
      (known_onFrame (h.known s) f hr) (receives_onFrame f (h.receives s) fun ht => absurd ht hf.1)
      (by rw [hwire]; exact hout) (by rw [hcons]; simpa using hflow)
  · rw [Side.peer_peer] at hmem hlater
    have hf : f.frameType ≠ .ping := by
      rcases (h.opens.frames f hmem).1 with ht | ht | ht <;> simp [ht]
    have hnew : f.frameType = .open → (∀ ch ∈ (p.ends o.peer).channels, ch.streamId ≠ f.streamId) ∧
        ∀ g ∈ (p.ends o.peer).consumed, g.streamId ≠ f.streamId := by
      intro ht
      have hfirst : ∀ g ∈ (p.ends o.peer).consumed, g.streamId ≠ f.streamId :=
        h.opens.first _ f later (by rw [hlater]; simp) ht
      refine ⟨fun ch hch hid => ?_, hfirst⟩
      obtain ⟨g, hg, _, hgid⟩ := h.accepts.channels ch hch
      exact hfirst g hg (hgid.trans hid)
    exact h.replace (fun hs => absurd hs (Side.peer_ne o)) (fun _ => h.accepts.onFrame f hr hf)
      (known_onFrame (h.known _) f hr) (receives_onFrame f (h.receives _) hnew)
      (by rw [hwire]; exact hout) (by rw [hcons]; simpa using hflow)

theorem inv_step {o : Side} {label : Side × Action} {p q : Pair} (h : Inv o p)
    (hc : Allowed o label p) (hs : step label p = some q) : Inv o q := by
  obtain ⟨s, a⟩ := label
  have hbounded : ∀ f ∈ (p.ends s).writerQueue, f.payload.length ≤ maxPayloadLen := by
    obtain ⟨frames, _, heq⟩ := (h.flows s).inFlight
    exact fun f hf => (h.flows s).bounded f (by rw [heq]; simp [hf])
  have hact : ∀ {e' : Endpoint}, (p.ends s).act a = some e' →
      Inv o {p with ends := Function.update p.ends s e'} := fun ha =>
    h.acts (acts_of_act ha (h.flows s).live hbounded) hc
  cases a with
  | writeBytes n =>
    simp only [step] at hs
    split at hs
    · obtain rfl := Option.some.inj hs
      refine h.replace (fun ho => ?_) (fun ho => ?_) (h.known s) (h.receives s) ?_ ?_
      · subst ho
        exact {h.opens with}
      · subst ho
        exact {h.accepts with}
      · simpa using (h.flows s).write n
      · simpa [Function.update_of_ne (Side.peer_ne s)] using h.flows s.peer
    · cases hs
  | readFrame =>
    simp only [step] at hs
    split at hs
    · next hr =>
      cases hread : readFrame (p.wire s.peer) with
      | more => simp [hread] at hs
      | invalid error =>
        -- The wire holds encodings of frames within the limit, so nothing is refused.
        obtain ⟨frames, hwire, heq⟩ := (h.flows s.peer).inFlight
        have hok : ∀ f ∈ frames, f.payload.length ≤ maxPayloadLen := fun f hf =>
          (h.flows s.peer).bounded f (by rw [heq]; simp [hf])
        exact absurd hread (frames_delimit.not_invalid hok hwire)
      | done f rest =>
        simp only [hread] at hs
        obtain rfl := Option.some.inj hs
        exact h.read hr hread
    · cases hs
  | _ =>
    simp only [step] at hs
    obtain ⟨e', ha, rfl⟩ := Option.map_eq_some_iff.mp hs
    exact hact ha

/-- Every step of the pair from a state that keeps the invariant. -/
inductive Moves (p : Pair) : Side × Action → Pair → Prop where
  | write {s : Side} {n : Nat} : n ≤ (p.ends s).writing.length → Moves p (s, .writeBytes n)
      ⟨Function.update p.ends s {p.ends s with writing := (p.ends s).writing.drop n},
        Function.update p.wire s (p.wire s ++ (p.ends s).writing.take n)⟩
  | read {s : Side} {f : Frame} {rest : Bytes} {later : List Frame} : (p.ends s).reader = .reading →
      (p.ends s.peer).enqueued = (p.ends s).consumed ++ f :: later → Moves p (s, .readFrame)
      ⟨Function.update p.ends s ((p.ends s).onFrame f), Function.update p.wire s.peer rest⟩
  | act {s : Side} {a : Action} {e' : Endpoint} : Acts (p.ends s) a e' →
      Moves p (s, a) {p with ends := Function.update p.ends s e'}

theorem Inv.moves {o : Side} {label : Side × Action} {p q : Pair} (h : Inv o p) (hs : step label p = some q) :
    Moves p label q := by
  obtain ⟨s, a⟩ := label
  have hact : ∀ {e' : Endpoint}, (p.ends s).act a = some e' →
      Moves p (s, a) {p with ends := Function.update p.ends s e'} := by
    intro e' ha
    obtain ⟨frames, -, heq⟩ := (h.flows s).inFlight
    exact .act (acts_of_act ha (h.flows s).live fun f hf => (h.flows s).bounded f (by rw [heq]; simp [hf]))
  cases a with
  | writeBytes n =>
    simp only [step] at hs
    split at hs
    · next hn =>
      obtain rfl := Option.some.inj hs
      exact .write hn.2
    · cases hs
  | readFrame =>
    simp only [step] at hs
    split at hs
    · next hr =>
      cases hread : readFrame (p.wire s.peer) with
      | more => simp [hread] at hs
      | invalid error =>
        obtain ⟨frames, hwire, heq⟩ := (h.flows s.peer).inFlight
        refine absurd hread (frames_delimit.not_invalid (fun f hf => ?_) hwire)
        exact (h.flows s.peer).bounded f (by rw [heq]; simp [hf])
      | done f rest =>
        simp only [hread] at hs
        obtain rfl := Option.some.inj hs
        obtain ⟨later, hlater⟩ := ((h.flows s.peer).read hread).consumed_isPrefix
        exact .read hr (by simpa using hlater)
    · cases hs
  | _ =>
    simp only [step] at hs
    obtain ⟨e', ha, rfl⟩ := Option.map_eq_some_iff.mp hs
    exact hact ha

/-- Streams of one id at one end are one stream. -/
theorem Inv.stream_unique {o s : Side} {p : Pair} (h : Inv o p) {a b : MuxStream}
    (ha : a ∈ (p.ends s).held) (hb : b ∈ (p.ends s).held) (hid : a.id = b.id) : a = b := by
  have hmem : ∀ {x : MuxStream}, x ∈ (p.ends s).held → x ∈ (p.ends s).known := fun hx => by
    simp [Endpoint.known, hx]
  obtain ⟨ch, hch, hcid⟩ := h.known s a (hmem ha)
  obtain ⟨dh, hdh, hdid⟩ := h.known s b (hmem hb)
  have hinbound : a.inbound = b.inbound := by
    have hlt := (List.getElem?_eq_some_iff.mp hch).1
    apply (List.getElem?_inj (by simpa using hlt) (h.receives s).ids).mp
    rw [List.getElem?_map, List.getElem?_map, hch, hdh]
    simp [hcid, hdid, hid]
  cases a
  cases b
  simp_all

/-- **Mux delivery.** One end opens streams, fewer than 2^31 of them, and no payload
is above the limit. In every state such a run reaches, for every stream at either
end: its id is no other stream's; the messages `recv_data` has returned on it are a
prefix of what the peer enqueued on it before its first close, in enqueue order;
and once that close is consumed and `recv_data` returns `None`, they are all of it. -/
theorem recv_data_isPrefix (o : Side) {p : Pair} (h : system.Reach (Allowed o) p) (s : Side)
    {stream : MuxStream} (hs : stream ∈ (p.ends s).held) :
    (∀ other ∈ (p.ends s).held, other.id = stream.id → other = stream) ∧
      (p.ends s).returned stream <+: messages stream.id (p.ends s.peer).enqueued ∧
      (Closed stream.id (p.ends s).consumed → (p.ends s).atEnd stream →
        (p.ends s).returned stream = messages stream.id (p.ends s.peer).enqueued) := by
  have hinv : Inv o p := h.invariant (inv_init o) fun _ _ _ hi hc hstep => inv_step hi hc hstep
  obtain ⟨ch, hget, hid⟩ := hinv.known s stream (by simp [Endpoint.known, hs])
  obtain ⟨later, hlater⟩ := (hinv.flows s.peer).consumed_isPrefix
  rw [Side.peer_peer] at hlater
  have hreturned : (p.ends s).returned stream = ch.returned := by simp [Endpoint.returned, hget]
  have hcarried := (hinv.receives s).carried _ ch hget
  rw [hid] at hcarried
  refine ⟨fun other ho hoid => hinv.stream_unique ho hs hoid, ?_, fun hclosed hend => ?_⟩
  · rw [hreturned, hlater]
    refine List.IsPrefix.trans ?_ (messages_isPrefix _ _ later)
    rw [← hcarried]
    exact List.prefix_append _ _
  · obtain ⟨ch', hget', hempty⟩ := hend.1
    obtain rfl := Option.some.inj (hget.symm.trans hget')
    rw [hempty, List.append_nil] at hcarried
    rw [hreturned, hlater, messages_append_closed _ _ _ hclosed]
    exact hcarried

/-- A stream opened with a payload, two messages (one empty) and a close, all of it
received by the accepting end. -/
def deliveryRun : List (Side × Action) :=
  [(.left, .openStream [1]), (.left, .insertStream 0), (.left, .sendOpen 0), (.left, .sendData 0 [7, 7]),
   (.left, .takeFrame), (.left, .writeBytes 4), (.left, .writeBytes 6), (.right, .readFrame),
   (.right, .handStream), (.right, .accept), (.right, .reply), (.left, .sendData 0 []), (.left, .close 0),
   (.left, .takeFrame), (.left, .writeBytes 11), (.left, .takeFrame), (.left, .writeBytes 9),
   (.right, .recvData 0), (.right, .readFrame), (.right, .readFrame), (.left, .takeFrame),
   (.left, .writeBytes 9), (.right, .readFrame), (.right, .recvData 0), (.right, .recvData 0)]

theorem recv_data_isPrefix_deliveryRun : ∃ p, system.Reach (Allowed .left) p ∧
    (p.ends .right).returned ⟨1, 0⟩ = [[1], [7, 7], []] ∧
    messages 1 (p.ends .left).enqueued = [[1], [7, 7], []] ∧
    (p.ends .right).returned ⟨1, 0⟩ <+: messages 1 (p.ends .left).enqueued := by
  obtain ⟨p, hp, hb⟩ := System.reach_of_run (S := system) (C := Allowed .left) deliveryRun
    (fun p => decide (⟨1, 0⟩ ∈ (p.ends .right).held) &&
      decide ((p.ends .right).returned ⟨1, 0⟩ = [[1], [7, 7], []]) &&
      decide (messages 1 (p.ends .left).enqueued = [[1], [7, 7], []])) (by decide +kernel)
  simp only [Bool.and_eq_true, decide_eq_true_eq] at hb
  exact ⟨p, hp, hb.1.2, hb.2, (recv_data_isPrefix .left hp .right hb.1.1).2.1⟩

end Rps.Mux
