import Rps.Mux.Delivery
import Rps.Udp.Closing

/-! UDP streams on the mux they run on.

`Udp.State` has the frames of a data connection in two queues, and each stream with an entry
and a channel at either end. Here the same tasks make calls of the mux: the controller is the
end that opens streams (`open_stream`, then `recv_data`, `send_data` and `close` on the stream
it got), the agent accepts them and its handler takes the request off each as its first
message. Between them are writer and reader tasks, bounded queues and bytes.

`Simulates` relates the two. The `k`-th stream is the `k`-th that either end holds, since the
agent accepts streams in the order they were opened in. A step of a stream's tasks is the
same step of `Udp.State` (`taskStep_matched`), but for the taking of the request, which is
none (`takeRequest_matched`). -/
namespace Rps.Udp
open Base
open Rps.Core
open Mux (Side MuxStream Endpoint)

/-- What the tasks of a stream hold themselves. The handler is `absent` until it has taken
the request. -/
structure Tasks where
  request : Bytes
  opener : Opener := .waiting
  forwarded : List Bytes := []
  recorded : Nat := 0
  handler : Handler := .absent
  relayed : List Bytes := []
  answered : List Bytes := []
  deriving DecidableEq

/-- The two muxes, the controller's on the left, and the tasks of each stream whose `Open`
was sent. -/
structure Muxed where
  pair : Mux.Pair
  tasks : List Tasks

inductive MuxedAction where
  | mux (s : Side) (a : Mux.Action)
  | openStream (request : OpenRequest)
  | insertStream (call : Nat)
  | sendOpen (call : Nat)
  | accept
  | takeRequest (k : Nat)
  | stream (k : Nat) (a : StreamAction)
  deriving DecidableEq

/-- The steps of the reader and writer tasks. -/
def ofMux : Mux.Action → Bool
  | .handStream | .reply | .takeFrame | .writeBytes _ | .readFrame => true
  | _ => false

namespace Muxed

/-- A task of stream `k` calls the mux of its end. -/
def call (q : Muxed) (s : Side) (a : Mux.Action) (k : Nat) (task : Tasks) : Option Muxed :=
  (Mux.step (s, a) q.pair).map fun p => ⟨p, q.tasks.set k task⟩

/-- What the channel of stream `k` holds at an end. -/
def inbound (q : Muxed) (s : Side) (k : Nat) : Option (List Bytes) :=
  (q.pair.ends s).held[k]?.bind fun stream => ((q.pair.ends s).channels[stream.inbound]?).map Mux.Channel.queue

/-- Stream `k` has its sender in the table of an end. -/
def open? (q : Muxed) (s : Side) (k : Nat) : Bool :=
  (q.pair.ends s).held[k]?.any fun stream => (q.pair.ends s).streams.lookup stream.id = some stream.inbound

/-- `recv_data` returns a message. -/
def recv (q : Muxed) (s : Side) (k : Nat) (task : Bytes → Tasks) : Option Muxed :=
  match q.inbound s k with
  | some (m :: _) => q.call s (.recvData k) k (task m)
  | _ => none

/-- `recv_data` returns `None`. -/
def ended (q : Muxed) (s : Side) (k : Nat) (task : Tasks) : Option Muxed :=
  if q.inbound s k = some [] ∧ q.open? s k = false then some {q with tasks := q.tasks.set k task} else none

variable (requests : Codec OpenRequest) (codec : Codec OpenResponse)

/-- `open_stream` from its wait on. -/
def openStep (a : StreamAction) (k : Nat) (task : Tasks) (q : Muxed) : Option Muxed :=
  match a, task.opener with
  | .response, .waiting => q.recv .left k fun m =>
    match codec.fromSlice m with
    | .ok response => {task with opener := if response.ok then .opened true else .failed}
    | .error _ => {task with opener := .failed}
  | .closedEarly, .waiting => q.ended .left k {task with opener := .failed}
  | .timeout, .waiting => some {q with tasks := q.tasks.set k {task with opener := .failed}}
  | _, _ => none

/-- A session of the controller. -/
def sessionStep (a : StreamAction) (k : Nat) (task : Tasks) (q : Muxed) : Option Muxed :=
  match a, task.opener with
  | .sendData data, .opened _ => q.call .left (.sendData k data) k task
  | .close, .opened _ => q.call .left (.close k) k task
  | .respond, .opened true => q.recv .left k fun m =>
    {task with forwarded := task.forwarded ++ [m], recorded := task.recorded + m.length}
  | .respondFail, .opened true => q.recv .left k fun _ => {task with opener := .opened false}
  | .respondEnd, .opened true => q.ended .left k {task with opener := .opened false}
  | _, _ => none

/-- `handle_udp_target`. -/
def handlerStep (a : StreamAction) (k : Nat) (task : Tasks) (q : Muxed) : Option Muxed :=
  match a, task.handler with
  | .refuse error, .opening =>
    q.call .right (.sendData k (codec.toVec (.err error))) k
      {task with handler := .refusing, answered := task.answered ++ [codec.toVec (.err error)]}
  | .refuseClose, .refusing => q.call .right (.close k) k {task with handler := .refused}
  | .connected, .opening =>
    q.call .right (.sendData k (codec.toVec .success)) k
      {task with handler := .relaying true true, answered := task.answered ++ [codec.toVec .success]}
  | .uplink, .relaying true _ => q.recv .right k fun m => {task with relayed := task.relayed ++ [m]}
  | .uplinkFail, .relaying true downlink => q.recv .right k fun _ => {task with handler := .relaying false downlink}
  | .uplinkEnd, .relaying true downlink => q.ended .right k {task with handler := .relaying false downlink}
  | .downlink data, .relaying _ true =>
    q.call .right (.sendData k data) k {task with answered := task.answered ++ [data]}
  | .downlinkFail, .relaying uplink true =>
    some {q with tasks := q.tasks.set k {task with handler := .relaying uplink false}}
  | _, _ => none

def taskStep (a : StreamAction) (k : Nat) (task : Tasks) (q : Muxed) : Option Muxed :=
  match a with
  | .response | .closedEarly | .timeout => q.openStep codec a k task
  | .sendData _ | .close | .respond | .respondFail | .respondEnd => q.sessionStep a k task
  | _ => q.handlerStep codec a k task

def step (a : MuxedAction) (q : Muxed) : Option Muxed :=
  match a with
  | .mux s a => if ofMux a then (Mux.step (s, a) q.pair).map fun p => {q with pair := p} else none
  | .openStream request =>
    -- Both callers of `open_stream` ask for UDP.
    if request.protocol = .udp then
      (Mux.step (.left, .openStream (requests.toVec request)) q.pair).map fun p => {q with pair := p}
    else none
  | .insertStream c => (Mux.step (.left, .insertStream c) q.pair).map fun p => {q with pair := p}
  | .sendOpen c =>
    (q.pair.ends .left).opening[c]?.bind fun call => (Mux.step (.left, .sendOpen c) q.pair).map fun p =>
      if (q.pair.ends .left).writerStopped then {q with pair := p}
      else ⟨p, q.tasks ++ [{ request := call.payload }]⟩
  | .accept => (Mux.step (.right, .accept) q.pair).map fun p => {q with pair := p}
  | .takeRequest k =>
    match q.tasks[k]? with
    | none => none
    | some task =>
      if task.handler = .absent then
        q.recv .right k fun m =>
          match requests.fromSlice m with
          | .ok _ => {task with handler := .opening}
          -- The handler returns, and neither answers nor closes.
          | .error _ => {task with handler := .relaying false false}
      else none
  | .stream k a =>
    match q.tasks[k]? with
    | none => none
    | some task => q.taskStep codec a k task

def system : System Muxed MuxedAction where
  init := ⟨Mux.system.init, []⟩
  step := step requests codec

/-- Fewer than 2^31 streams, and no payload above the limit. The text of a request is not
empty, and it is read back. -/
def Allowed : MuxedAction → Muxed → Prop
  | .openStream request, q =>
    (requests.Decodes request ∧ requests.toVec request ≠ []) ∧
      (requests.toVec request).length ≤ Mux.maxPayloadLen ∧ (q.pair.ends .left).opening.length + 1 < 2 ^ 31
  | .stream _ (.sendData data), _ | .stream _ (.downlink data), _ => data.length ≤ Mux.maxPayloadLen
  | .stream _ (.refuse error), _ => (codec.toVec (.err error)).length ≤ Mux.maxPayloadLen
  | .stream _ .connected, _ => (codec.toVec .success).length ≤ Mux.maxPayloadLen
  | _, _ => True

instance (request : OpenRequest) : Decidable (requests.Decodes request) :=
  inferInstanceAs (Decidable (requests.fromSlice (requests.toVec request) = .ok request))

instance (a : MuxedAction) (q : Muxed) : Decidable (Allowed requests codec a q) := by
  unfold Allowed
  split <;> infer_instance

end Muxed

/-! ### What the two have in common -/

/-- The request, while the handler has not taken it. -/
def Tasks.waiting (task : Tasks) : List Bytes := if task.handler = .absent then [task.request] else []

/-- The handler of a stream that the agent's mux knows: it exists before it has the request. -/
def Tasks.reached (task : Tasks) : Handler := if task.handler = .absent then .opening else task.handler

/-- The controller's end of a stream. -/
structure AtController (l : Endpoint) (x : MuxStream) (task : Tasks) (s : Stream) : Prop where
  mux : InMux l x.id x.inbound s.entry s.inbound
  opener : s.opener = task.opener
  forwarded : s.forwarded = task.forwarded
  recorded : s.recorded = task.recorded

/-- The agent's end of a stream, which its mux may not know yet. -/
structure AtAgent (r : Endpoint) (x : Option MuxStream) (task : Tasks) (s : Stream) : Prop where
  mux : ∀ y ∈ x, InMux r y.id y.inbound s.agentEntry (task.waiting ++ s.agentInbound) ∧ s.handler = task.reached
  unknown : x = none → task.handler = .absent ∧ s.handler = .absent ∧ s.agentEntry = false ∧ s.agentInbound = []
  relayed : s.relayed = task.relayed
  answered : s.answered = task.answered

/-- A text that a request is read from. -/
def Asks (requests : Codec OpenRequest) (text : Bytes) : Prop :=
  text ≠ [] ∧ ∃ request, requests.fromSlice text = .ok request

/-- A frame of a stream as the mux has it. -/
def carried (ids : List UInt32) (requests : List Bytes) (p : Nat × Frame) : Mux.Frame :=
  p.2.toMux (ids.getD p.1 0) (requests.getD p.1 [])

/-- The agent's mux has the streams in the order the controller's has them; between the two
are the frames of `Udp.State`, and acknowledgements. What a stream was opened with is a
request. -/
structure Simulates (requests : Codec OpenRequest) (l r : Endpoint) (tasks : List Tasks) (t : State) : Prop where
  held : l.held.length = tasks.length
  streams : t.streams.length = tasks.length
  ids : (l.held.map (·.id)).Nodup
  known : r.known.map (·.id) <+: l.held.map (·.id)
  controller : ∀ (k : Nat) x task s, l.held[k]? = some x → tasks[k]? = some task → t.streams[k]? = some s →
    AtController l x task s
  agent : ∀ (k : Nat) task s, tasks[k]? = some task → t.streams[k]? = some s → AtAgent r r.known[k]? task s
  served : ∀ (k : Nat) task, tasks[k]? = some task → task.handler ≠ .absent → k < r.held.length
  calls : ∀ call ∈ l.opening, Asks requests call.payload
  requests : ∀ task ∈ tasks, Asks requests task.request
  up : l.enqueued = r.consumed ++ t.toAgent.map (carried (l.held.map (·.id)) (tasks.map (·.request)))
  down : ∃ frames, r.enqueued = l.consumed ++ frames ∧
    frames.filter (·.frameType ≠ .openAck) =
      t.toController.map (carried (l.held.map (·.id)) (tasks.map (·.request)))
  opens : (t.toAgent.filter (·.2 = .open)).map (·.1) =
    List.range' r.known.length (tasks.length - r.known.length)

theorem simulates_init (requests : Codec OpenRequest) : Simulates requests {} {} [] {} where
  held := rfl
  streams := rfl
  ids := List.nodup_nil
  known := List.prefix_rfl
  controller := by simp
  agent := by simp
  served := by simp
  calls := by simp
  requests := by simp
  up := rfl
  down := ⟨[], rfl, rfl⟩
  opens := rfl

/-! ### An end of a stream in its mux -/

section
variable {e e' : Endpoint} {x y : MuxStream} {entry : Bool} {inbound : List Bytes}

/-- The table and the channels are all that counts. -/
theorem InMux.same (h : InMux e x.id x.inbound entry inbound) (hstreams : e'.streams = e.streams)
    (hchannels : e'.channels = e.channels) : InMux e' x.id x.inbound entry inbound :=
  ⟨by rw [hstreams]; exact h.table, by rw [hchannels]; exact h.channel⟩

/-- A message that was received. -/
theorem InMux.recv {m : Bytes} (h : InMux e x.id x.inbound entry (m :: inbound)) {queue : List Bytes}
    {ch : Mux.Channel} (hch : e.channels[x.inbound]? = some ch) (hqueue : ch.queue = m :: queue) :
    queue = inbound ∧ InMux {e with channels := e.channels.modify x.inbound fun ch =>
      {ch with queue := queue, returned := ch.returned ++ [m]}} x.id x.inbound entry inbound := by
  have hchannel := h.channel
  rw [hch, Option.map_some, hqueue] at hchannel
  obtain ⟨-, rfl⟩ := List.cons.inj (Option.some.inj hchannel)
  refine ⟨rfl, h.table, ?_⟩
  show ((e.channels.modify x.inbound _)[x.inbound]?).map _ = _
  simp [hch]

/-- Another stream's channel. -/
theorem InMux.modify_ne (h : InMux e x.id x.inbound entry inbound) {c : Nat} (hc : c ≠ x.inbound)
    (g : Mux.Channel → Mux.Channel) :
    InMux {e with channels := e.channels.modify c g} x.id x.inbound entry inbound := by
  refine ⟨h.table, ?_⟩
  show ((e.channels.modify c g)[x.inbound]?).map _ = _
  rw [List.getElem?_modify_ne _ _ hc]
  exact h.channel

/-- A stream of another id that is made. -/
theorem InMux.newStream (h : InMux e x.id x.inbound entry inbound) {id : UInt32} (hid : id ≠ x.id)
    (queue : List Bytes) : InMux (e.newStream id queue) x.id x.inbound entry inbound := by
  obtain ⟨ch, hch, hqueue⟩ := Option.map_eq_some_iff.mp h.channel
  refine ⟨?_, ?_⟩
  · show (e.streams.insert id _).lookup x.id = _
    rw [Table.lookup_insert, if_neg (Ne.symm hid)]
    exact h.table
  · show ((e.channels ++ [_])[x.inbound]?).map _ = _
    rw [Heap.get_push_of_some hch]
    exact congrArg some hqueue

/-- What the table has under another id is another channel. -/
theorem channel_id (hreceives : Mux.Receives e.channels e.streams e.consumed) (hknown : Mux.Known e)
    (hx : x ∈ e.known) {id : UInt32} (hl : e.streams.lookup id = some x.inbound) : id = x.id := by
  obtain ⟨-, ch, hch, hid⟩ := hreceives.table id _ hl
  obtain ⟨ch', hch', hid'⟩ := hknown x hx
  obtain rfl := Option.some.inj (hch.symm.trans hch')
  exact hid.symm.trans hid'

/-- Two streams with one channel have one id. -/
theorem inbound_inj (hknown : Mux.Known e) (hx : x ∈ e.known) (hy : y ∈ e.known) (h : x.inbound = y.inbound) :
    x.id = y.id := by
  obtain ⟨ch, hch, hid⟩ := hknown x hx
  obtain ⟨ch', hch', hid'⟩ := hknown y hy
  rw [h] at hch
  obtain rfl := Option.some.inj (hch.symm.trans hch')
  exact hid.symm.trans hid'

end

/-! ### Steps of the tasks -/

theorem carried_eq {l : Endpoint} {tasks : List Tasks} {k : Nat} {x : MuxStream} {task : Tasks}
    (hx : l.held[k]? = some x) (htask : tasks[k]? = some task) (f : Frame) :
    carried (l.held.map (·.id)) (tasks.map (·.request)) (k, f) = f.toMux x.id task.request := by
  simp [carried, hx, htask]

theorem toMux_frameType (id : UInt32) (request : Bytes) (f : Frame) :
    (f.toMux id request).frameType ≠ .openAck := by
  cases f <;> simp [Frame.toMux]

/-- The requests do not change. -/
theorem map_request_set {tasks : List Tasks} {k : Nat} {task task' : Tasks} (htask : tasks[k]? = some task)
    (hrequest : task'.request = task.request) : (tasks.set k task').map (·.request) = tasks.map (·.request) := by
  obtain ⟨hk, rfl⟩ := List.getElem?_eq_some_iff.mp htask
  rw [List.map_set, hrequest]
  apply List.ext_getElem?
  intro j
  rw [List.getElem?_set]
  split
  · next hj =>
    subst hj
    simp [hk]
  · rfl

/-- What an end holds of every other stream. -/
def KeepsOthers (k : Nat) (streams : List MuxStream) (e e' : Endpoint) : Prop :=
  ∀ (j : Nat) (y : MuxStream), j ≠ k → streams[j]? = some y → ∀ entry inbound,
    InMux e y.id y.inbound entry inbound → InMux e' y.id y.inbound entry inbound

/-- A step of the tasks of stream `k`: frames that it sends go to the end of the queues. -/
theorem Simulates.act {requests : Codec OpenRequest} {l r l' r' : Endpoint} {tasks : List Tasks} {t : State}
    {k : Nat} {x : MuxStream} {task task' : Tasks} {s s' : Stream} (h : Simulates requests l r tasks t) (up down : List Frame)
    (hx : l.held[k]? = some x) (htask : tasks[k]? = some task) (hs : t.streams[k]? = some s)
    (hl : l'.held = l.held ∧ l'.opening = l.opening ∧ l'.consumed = l.consumed ∧
      l'.enqueued = l.enqueued ++ up.map (·.toMux x.id task.request))
    (hr : r'.held = r.held ∧ r'.known = r.known ∧ r'.consumed = r.consumed ∧
      r'.enqueued = r.enqueued ++ down.map (·.toMux x.id task.request))
    (hlothers : KeepsOthers k l.held l l') (hrothers : KeepsOthers k r.known r r')
    (hcontroller : AtController l' x task' s') (hagent : AtAgent r' r.known[k]? task' s')
    (hrequest : task'.request = task.request) (hserved : task'.handler ≠ .absent → k < r.held.length)
    (hup : .open ∉ up) :
    Simulates requests l' r' (tasks.set k task') {
      streams := t.streams.set k s'
      toAgent := t.toAgent ++ up.map (k, ·)
      toController := t.toController ++ down.map (k, ·)} := by
  obtain ⟨hlheld, hlopening, hlconsumed, hlenqueued⟩ := hl
  obtain ⟨hrheld, hrknown, hrconsumed, hrenqueued⟩ := hr
  have hcarried : ∀ frames : List Frame, frames.map (·.toMux x.id task.request) =
      (frames.map (k, ·)).map (carried (l.held.map (·.id)) (tasks.map (·.request))) := by
    intro frames
    rw [List.map_map]
    apply List.map_congr_left
    intro f _
    exact (carried_eq hx htask f).symm
  have hrequests := map_request_set htask hrequest
  refine ⟨?_, ?_, ?_, ?_, ?_, ?_, ?_, ?_, ?_, ?_, ?_, ?_⟩
  · rw [hlheld, List.length_set]
    exact h.held
  · rw [List.length_set, List.length_set]
    exact h.streams
  · rw [hlheld]
    exact h.ids
  · rw [hlheld, hrknown]
    exact h.known
  · intro j y task₁ s₁ hy htask₁ hs₁
    rw [hlheld] at hy
    rw [Heap.get_set htask] at htask₁
    replace hs₁ : (t.streams.set k s')[j]? = some s₁ := hs₁
    rw [Heap.get_set hs] at hs₁
    by_cases hj : j = k
    · subst hj
      rw [if_pos rfl] at htask₁ hs₁
      obtain rfl := Option.some.inj htask₁
      obtain rfl := Option.some.inj hs₁
      obtain rfl := Option.some.inj (hx.symm.trans hy)
      exact hcontroller
    · rw [if_neg hj] at htask₁ hs₁
      have hold := h.controller j y task₁ s₁ hy htask₁ hs₁
      exact {hold with mux := hlothers j y hj hy _ _ hold.mux}
  · intro j task₁ s₁ htask₁ hs₁
    rw [hrknown]
    rw [Heap.get_set htask] at htask₁
    replace hs₁ : (t.streams.set k s')[j]? = some s₁ := hs₁
    rw [Heap.get_set hs] at hs₁
    by_cases hj : j = k
    · subst hj
      rw [if_pos rfl] at htask₁ hs₁
      obtain rfl := Option.some.inj htask₁
      obtain rfl := Option.some.inj hs₁
      exact hagent
    · rw [if_neg hj] at htask₁ hs₁
      have hold := h.agent j task₁ s₁ htask₁ hs₁
      refine {hold with mux := fun y hy => ⟨hrothers j y hj hy _ _ (hold.mux y hy).1, (hold.mux y hy).2⟩}
  · intro j task₁ htask₁ hhandler
    rw [hrheld]
    rw [Heap.get_set htask] at htask₁
    by_cases hj : j = k
    · subst hj
      rw [if_pos rfl] at htask₁
      obtain rfl := Option.some.inj htask₁
      exact hserved hhandler
    · rw [if_neg hj] at htask₁
      exact h.served j task₁ htask₁ hhandler
  · rw [hlopening]
    exact h.calls
  · intro task₁ hmem
    rcases List.mem_or_eq_of_mem_set hmem with hmem | rfl
    · exact h.requests task₁ hmem
    · rw [hrequest]
      exact h.requests task (List.mem_of_getElem? htask)
  · rw [hlenqueued, hrconsumed, hlheld, hrequests, h.up, hcarried up, List.map_append, List.append_assoc]
  · obtain ⟨frames, hframes, hfilter⟩ := h.down
    refine ⟨frames ++ down.map (·.toMux x.id task.request), ?_, ?_⟩
    · rw [hrenqueued, hlconsumed, hframes, List.append_assoc]
    · have hall : (down.map (·.toMux x.id task.request)).filter (·.frameType ≠ .openAck) =
          down.map (·.toMux x.id task.request) := by
        apply List.filter_eq_self.mpr
        intro f hf
        obtain ⟨g, -, rfl⟩ := List.mem_map.mp hf
        simpa using toMux_frameType x.id task.request g
      rw [List.filter_append, hfilter, hall, hlheld, hrequests, List.map_append, hcarried down]
  · have hnone : (up.map (k, ·)).filter (·.2 = .open) = [] := by
      apply List.filter_eq_nil_iff.mpr
      intro p hp
      obtain ⟨f, hf, rfl⟩ := List.mem_map.mp hp
      have hne : f ≠ .open := fun heq => hup (heq ▸ hf)
      simpa using hne
    show ((t.toAgent ++ up.map (k, ·)).filter _).map _ = _
    rw [List.filter_append, hnone, List.append_nil, hrknown, List.length_set]
    exact h.opens

/-- A call for stream `k` at an end, and the frames it enqueued: the other end is as it was,
and so is what this one has of other streams. -/
structure Called (q q' : Muxed) (s : Side) (k : Nat) (task : Tasks) (sent : List Mux.Frame) : Prop where
  peer : q'.pair.ends s.peer = q.pair.ends s.peer
  tasks : q'.tasks = q.tasks.set k task
  held : (q'.pair.ends s).held = (q.pair.ends s).held
  known : (q'.pair.ends s).known = (q.pair.ends s).known
  opening : (q'.pair.ends s).opening = (q.pair.ends s).opening
  consumed : (q'.pair.ends s).consumed = (q.pair.ends s).consumed
  enqueued : (q'.pair.ends s).enqueued = (q.pair.ends s).enqueued ++ sent
  others : KeepsOthers k (q.pair.ends s).known (q.pair.ends s) (q'.pair.ends s)

theorem keepsOthers_refl (k : Nat) (streams : List MuxStream) (e : Endpoint) : KeepsOthers k streams e e :=
  fun _ _ _ _ _ _ h => h

/-- A step that makes no call. -/
theorem called_none (q : Muxed) (s : Side) (k : Nat) (task : Tasks) :
    Called q {q with tasks := q.tasks.set k task} s k task [] :=
  ⟨rfl, rfl, rfl, rfl, rfl, rfl, by simp, keepsOthers_refl k _ _⟩

theorem held_known {e : Endpoint} {k : Nat} {y : MuxStream} (h : e.held[k]? = some y) : e.known[k]? = some y := by
  have hk := (List.getElem?_eq_some_iff.mp h).1
  rw [Endpoint.known, List.append_assoc, List.getElem?_append_left hk]
  exact h

theorem known_held {e : Endpoint} {k : Nat} {y : MuxStream} (h : e.known[k]? = some y) (hk : k < e.held.length) :
    e.held[k]? = some y := by
  rw [Endpoint.known, List.append_assoc, List.getElem?_append_left hk] at h
  exact h

section
variable {q q' : Muxed} {s : Side} {k : Nat} {y : MuxStream} {entry : Bool} {inbound : List Bytes}

theorem acts_of_step {p p' : Mux.Pair} (hinv : Mux.Inv .left p) {a : Mux.Action} (ha : ofMux a = false)
    (h : Mux.step (s, a) p = some p') :
    Mux.Acts (p.ends s) a (p'.ends s) ∧ p'.ends s.peer = p.ends s.peer := by
  cases hinv.moves h with
  | write _ => cases ha
  | read _ _ => cases ha
  | act hacts =>
    refine ⟨by simpa using hacts, ?_⟩
    exact Function.update_of_ne (Side.peer_ne s) ..

/-- A frame that a task sends on its stream. -/
theorem call_sends (hinv : Mux.Inv .left q.pair) (hy : (q.pair.ends s).held[k]? = some y) {a : Mux.Action}
    {task : Tasks} {f : Frame} (hf : (∃ data, a = .sendData k data ∧ f = .data data) ∨ a = .close k ∧ f = .close)
    (h : q.call s a k task = some q') (request : Bytes) :
    Called q q' s k task [f.toMux y.id request] ∧
      ∀ entry inbound, InMux (q.pair.ends s) y.id y.inbound entry inbound →
        InMux (q'.pair.ends s) y.id y.inbound entry inbound := by
  obtain ⟨p, hstep, rfl⟩ := Option.map_eq_some_iff.mp h
  have hnot : ofMux a = false := by
    rcases hf with ⟨data, rfl, -⟩ | ⟨rfl, -⟩ <;> rfl
  obtain ⟨hacts, hpeer⟩ := acts_of_step hinv hnot hstep
  have hsame : ∃ queue, p.ends s = {q.pair.ends s with
      writerQueue := queue, enqueued := (q.pair.ends s).enqueued ++ [f.toMux y.id request]} := by
    generalize he : p.ends s = e' at hacts
    rcases hf with ⟨data, rfl, rfl⟩ | ⟨rfl, rfl⟩
    · cases hacts with
      | sendData _ hget =>
        obtain rfl := Option.some.inj (hy.symm.trans hget)
        exact ⟨_, rfl⟩
    · cases hacts with
      | close hget =>
        obtain rfl := Option.some.inj (hy.symm.trans hget)
        exact ⟨_, rfl⟩
  obtain ⟨queue, hqueue⟩ := hsame
  refine ⟨⟨hpeer, rfl, ?_, ?_, ?_, ?_, ?_, ?_⟩, ?_⟩
  · show (p.ends s).held = _
    rw [hqueue]
  · show (p.ends s).known = _
    rw [hqueue]
    rfl
  · show (p.ends s).opening = _
    rw [hqueue]
  · show (p.ends s).consumed = _
    rw [hqueue]
  · show (p.ends s).enqueued = _
    rw [hqueue]
  · intro j z _ _ entry inbound hz
    exact hz.same (by show (p.ends s).streams = _; rw [hqueue]) (by show (p.ends s).channels = _; rw [hqueue])
  · intro entry inbound hz
    exact hz.same (by show (p.ends s).streams = _; rw [hqueue]) (by show (p.ends s).channels = _; rw [hqueue])

theorem inbound_eq (hy : (q.pair.ends s).held[k]? = some y)
    (hmux : InMux (q.pair.ends s) y.id y.inbound entry inbound) : q.inbound s k = some inbound := by
  rw [Muxed.inbound, hy]
  exact hmux.channel

theorem open_eq (hy : (q.pair.ends s).held[k]? = some y)
    (hmux : InMux (q.pair.ends s) y.id y.inbound entry inbound) : q.open? s k = entry := by
  rw [Muxed.open?, hy, Option.any_some, hmux.table]
  cases entry <;> simp

theorem recv_held {task : Bytes → Tasks} (h : q.recv s k task = some q') :
    ∃ y, (q.pair.ends s).held[k]? = some y := by
  rw [Muxed.recv, Muxed.inbound] at h
  cases hy : (q.pair.ends s).held[k]? with
  | none =>
    rw [hy] at h
    cases h
  | some y => exact ⟨y, rfl⟩

/-- A message that a task takes off its stream. -/
theorem recv_takes (hinv : Mux.Inv .left q.pair) (hids : ((q.pair.ends s).known.map (·.id)).Nodup)
    (hy : (q.pair.ends s).held[k]? = some y) (hmux : InMux (q.pair.ends s) y.id y.inbound entry inbound)
    {task : Bytes → Tasks} (h : q.recv s k task = some q') :
    ∃ m rest, inbound = m :: rest ∧ Called q q' s k (task m) [] ∧
      InMux (q'.pair.ends s) y.id y.inbound entry rest := by
  rw [Muxed.recv, inbound_eq hy hmux] at h
  cases inbound with
  | nil => cases h
  | cons m rest =>
    obtain ⟨p, hstep, rfl⟩ := Option.map_eq_some_iff.mp h
    obtain ⟨hacts, hpeer⟩ := acts_of_step hinv rfl hstep
    generalize he : p.ends s = e' at hacts
    cases hacts with
    | @recvData _ stream ch m' queue hget hch hqueue =>
      obtain rfl := Option.some.inj (hy.symm.trans hget)
      obtain rfl : m' = m := by
        have hchannel := hmux.channel
        rw [hch, Option.map_some, hqueue] at hchannel
        exact (List.cons.inj (Option.some.inj hchannel)).1
      obtain ⟨-, hrest⟩ := hmux.recv hch hqueue
      refine ⟨m', rest, rfl, ⟨hpeer, rfl, ?_, ?_, ?_, ?_, ?_, ?_⟩, ?_⟩
      · show (p.ends s).held = _
        rw [he]
      · show (p.ends s).known = _
        rw [he]
        rfl
      · show (p.ends s).opening = _
        rw [he]
      · show (p.ends s).consumed = _
        rw [he]
      · show (p.ends s).enqueued = _
        rw [he, List.append_nil]
      · intro j z hj hz entry₁ inbound₁ hzmux
        show InMux (p.ends s) _ _ _ _
        rw [he]
        refine hzmux.modify_ne (fun hc => hj ?_) _
        have hid : y.id = z.id := inbound_inj (hinv.known s) (List.mem_of_getElem? (held_known hy))
          (List.mem_of_getElem? hz) hc
        have hlt : j < ((q.pair.ends s).known.map (·.id)).length := by
          rw [List.length_map]
          exact (List.getElem?_eq_some_iff.mp hz).1
        apply (List.getElem?_inj hlt hids).mp
        rw [List.getElem?_map, List.getElem?_map, hz, held_known hy]
        exact congrArg some hid.symm
      · exact hrest

/-- `recv_data` returns `None` where the channel is empty and its sender gone. -/
theorem ended_called (hy : (q.pair.ends s).held[k]? = some y)
    (hmux : InMux (q.pair.ends s) y.id y.inbound entry inbound) {task : Tasks} (h : q.ended s k task = some q') :
    inbound = [] ∧ entry = false ∧ q' = {q with tasks := q.tasks.set k task} := by
  rw [Muxed.ended, inbound_eq hy hmux, open_eq hy hmux] at h
  split at h
  · next hend => exact ⟨Option.some.inj hend.1, hend.2, (Option.some.inj h).symm⟩
  · cases h

end

/-! ### Tasks of either end -/

section
variable {requests : Codec OpenRequest} {codec : Codec OpenResponse} {q q' : Muxed} {t : State} {k : Nat}
  {x : MuxStream} {task task' : Tasks} {s s' : Stream}

/-- The simulation in a state of the two muxes. -/
abbrev Muxed.Simulated (requests : Codec OpenRequest) (q : Muxed) (t : State) : Prop :=
  Simulates requests (q.pair.ends .left) (q.pair.ends .right) q.tasks t

/-- The controller's mux is handed no streams. -/
theorem left_known (hinv : Mux.Inv .left q.pair) : (q.pair.ends .left).known = (q.pair.ends .left).held := by
  obtain ⟨hincoming, hreader⟩ := hinv.opens.quiet
  rw [Endpoint.known, hincoming, List.append_nil]
  rcases hreader with hreader | hreader <;> rw [hreader] <;> exact List.append_nil _

theorem Simulates.known_ids (h : q.Simulated requests t) (hinv : Mux.Inv .left q.pair) (side : Side) :
    ((q.pair.ends side).known.map (·.id)).Nodup := by
  cases side with
  | left =>
    rw [left_known hinv]
    exact h.ids
  | right => exact h.known.sublist.nodup h.ids

theorem Simulates.get {l r : Endpoint} {tasks : List Tasks} (h : Simulates requests l r tasks t)
    (htask : tasks[k]? = some task) : ∃ x s, l.held[k]? = some x ∧ t.streams[k]? = some s := by
  have hk := (List.getElem?_eq_some_iff.mp htask).1
  exact ⟨_, _, List.getElem?_eq_getElem (h.held ▸ hk), List.getElem?_eq_getElem (h.streams ▸ hk)⟩

/-- A stream that both ends know has one id. -/
theorem Simulates.known_id {l r : Endpoint} {tasks : List Tasks} (h : Simulates requests l r tasks t) {y : MuxStream}
    (hx : l.held[k]? = some x) (hy : r.known[k]? = some y) : y.id = x.id := by
  have hget : (r.known.map (·.id))[k]? = some y.id := by
    rw [List.getElem?_map, hy]
    rfl
  have hsame := List.prefix_iff_getElem?.mp h.known k (List.getElem?_eq_some_iff.mp hget).1
  rw [List.getElem?_map, hx, (List.getElem?_eq_some_iff.mp hget).2] at hsame
  exact (Option.some.inj hsame).symm

/-- A step of the controller's tasks. -/
theorem Simulates.left (h : q.Simulated requests t) (up : List Frame) (hx : (q.pair.ends .left).held[k]? = some x)
    (htask : q.tasks[k]? = some task) (hs : t.streams[k]? = some s)
    (hcalled : Called q q' .left k task' (up.map (·.toMux x.id task.request)))
    (hcontroller : AtController (q'.pair.ends .left) x task' s')
    (hagent : AtAgent (q.pair.ends .right) (q.pair.ends .right).known[k]? task' s')
    (hkept : task'.request = task.request ∧ task'.handler = task.handler) (hup : .open ∉ up) :
    q'.Simulated requests {
      streams := t.streams.set k s'
      toAgent := t.toAgent ++ up.map (k, ·)
      toController := t.toController ++ ([] : List Frame).map (k, ·)} := by
  have hpeer : q'.pair.ends .right = q.pair.ends .right := hcalled.peer
  rw [Muxed.Simulated, hcalled.tasks, hpeer]
  apply h.act up [] hx htask hs
  · exact ⟨hcalled.held, hcalled.opening, hcalled.consumed, hcalled.enqueued⟩
  · exact ⟨rfl, rfl, rfl, (List.append_nil _).symm⟩
  · exact fun j y hj hy => hcalled.others j y hj (held_known hy)
  · exact keepsOthers_refl k _ _
  · exact hcontroller
  · exact hagent
  · exact hkept.1
  · rw [hkept.2]
    exact h.served k task htask
  · exact hup

/-- A step of the agent's tasks. -/
theorem Simulates.right (h : q.Simulated requests t) (down : List Frame) (hx : (q.pair.ends .left).held[k]? = some x)
    (htask : q.tasks[k]? = some task) (hs : t.streams[k]? = some s)
    (hcalled : Called q q' .right k task' (down.map (·.toMux x.id task.request)))
    (hcontroller : AtController (q.pair.ends .left) x task' s')
    (hagent : AtAgent (q'.pair.ends .right) (q.pair.ends .right).known[k]? task' s')
    (hrequest : task'.request = task.request) (hk : k < (q.pair.ends .right).held.length) :
    q'.Simulated requests {
      streams := t.streams.set k s'
      toAgent := t.toAgent ++ ([] : List Frame).map (k, ·)
      toController := t.toController ++ down.map (k, ·)} := by
  have hpeer : q'.pair.ends .left = q.pair.ends .left := hcalled.peer
  rw [Muxed.Simulated, hcalled.tasks, hpeer]
  apply h.act [] down hx htask hs
  · exact ⟨rfl, rfl, rfl, (List.append_nil _).symm⟩
  · exact ⟨hcalled.held, hcalled.known, hcalled.consumed, hcalled.enqueued⟩
  · exact keepsOthers_refl k _ _
  · exact hcalled.others
  · exact hcontroller
  · exact hagent
  · exact hrequest
  · exact fun _ => hk
  · exact List.not_mem_nil

/-- A step of the tasks is a step of the stream. -/
theorem act_matched {a : StreamAction} {r : Acted} (hs : t.streams[k]? = some s) (hr : s.act codec a = some r)
    (h : q'.Simulated requests {
      streams := t.streams.set k r.stream
      toAgent := t.toAgent ++ r.up.map (k, ·)
      toController := t.toController ++ r.down.map (k, ·)}) :
    ∃ t', (system codec).Steps (fun _ _ => True) t t' ∧ q'.Simulated requests t' := by
  refine ⟨_, .step (a := .stream k a) .refl trivial ?_, h⟩
  show step codec (.stream k a) t = _
  rw [step, hs]
  exact congrArg (Option.map _) hr

theorem left_matched {a : StreamAction} (up : List Frame) {opener : Opener} {forwarded inbound : List Bytes}
    {recorded : Nat} (h : q.Simulated requests t) (hx : (q.pair.ends .left).held[k]? = some x)
    (htask : q.tasks[k]? = some task) (hs : t.streams[k]? = some s)
    (hcalled : Called q q' .left k {task with opener := opener, forwarded := forwarded, recorded := recorded}
      (up.map (·.toMux x.id task.request)))
    (hmux : InMux (q'.pair.ends .left) x.id x.inbound s.entry inbound) (hup : .open ∉ up)
    (hact : s.act codec a = some {
      stream := {s with inbound := inbound, opener := opener, forwarded := forwarded, recorded := recorded}
      up := up}) :
    ∃ t', (system codec).Steps (fun _ _ => True) t t' ∧ q'.Simulated requests t' := by
  have hagent := h.agent k task s htask hs
  apply act_matched hs hact
  apply h.left up hx htask hs hcalled
  · exact ⟨hmux, rfl, rfl, rfl⟩
  · exact ⟨hagent.mux, hagent.unknown, hagent.relayed, hagent.answered⟩
  · exact ⟨rfl, rfl⟩
  · exact hup

theorem openStep_matched {a : StreamAction} (h : q.Simulated requests t) (hinv : Mux.Inv .left q.pair)
    (hx : (q.pair.ends .left).held[k]? = some x) (htask : q.tasks[k]? = some task) (hs : t.streams[k]? = some s)
    (hstep : q.openStep codec a k task = some q') :
    ∃ t', (system codec).Steps (fun _ _ => True) t t' ∧ q'.Simulated requests t' := by
  have hcontroller := h.controller k x task s hx htask hs
  obtain ⟨hmux, hopener, hforwarded, hrecorded⟩ := hcontroller
  unfold Muxed.openStep at hstep
  split at hstep
  · next hwaiting =>
    obtain ⟨m, rest, hinbound, hcalled, hmux⟩ := recv_takes hinv (h.known_ids hinv .left) hx hmux hstep
    cases hm : codec.fromSlice m with
    | error error =>
      rw [hm] at hcalled
      apply left_matched (a := .response) [] h hx htask hs hcalled hmux List.not_mem_nil
      simp [Stream.act, Stream.openStep, hopener, hwaiting, hinbound, hm, hforwarded, hrecorded]
    | ok response =>
      rw [hm] at hcalled
      apply left_matched (a := .response) [] h hx htask hs hcalled hmux List.not_mem_nil
      cases hok : response.ok <;>
        simp [Stream.act, Stream.openStep, hopener, hwaiting, hinbound, hm, hok, hforwarded, hrecorded]
  · next hwaiting =>
    obtain ⟨hinbound, hentry, rfl⟩ := ended_called hx hmux hstep
    apply left_matched (a := .closedEarly) [] h hx htask hs (called_none q .left k _) hmux List.not_mem_nil
    simp [Stream.act, Stream.openStep, hopener, hwaiting, hinbound, hentry, hforwarded, hrecorded]
  · next hwaiting =>
    obtain rfl := Option.some.inj hstep
    apply left_matched (a := .timeout) [] h hx htask hs (called_none q .left k _) hmux List.not_mem_nil
    simp [Stream.act, Stream.openStep, hopener, hwaiting, hforwarded, hrecorded]
  · cases hstep

theorem sessionStep_matched {a : StreamAction} (h : q.Simulated requests t) (hinv : Mux.Inv .left q.pair)
    (hx : (q.pair.ends .left).held[k]? = some x) (htask : q.tasks[k]? = some task) (hs : t.streams[k]? = some s)
    (hstep : q.sessionStep a k task = some q') :
    ∃ t', (system codec).Steps (fun _ _ => True) t t' ∧ q'.Simulated requests t' := by
  have hcontroller := h.controller k x task s hx htask hs
  obtain ⟨hmux, hopener, hforwarded, hrecorded⟩ := hcontroller
  unfold Muxed.sessionStep at hstep
  split at hstep
  · next data _ hopened =>
    obtain ⟨hcalled, hkeeps⟩ := call_sends hinv hx (.inl ⟨data, rfl, rfl⟩) hstep task.request
    apply left_matched (a := .sendData data) [.data data] h hx htask hs hcalled (hkeeps _ _ hmux) (by simp)
    rw [← hopener, ← hforwarded, ← hrecorded]
    show s.sessionStep (.sendData data) = some {stream := s, up := [.data data]}
    simp [Stream.sessionStep, hopener, hopened]
  · next hopened =>
    obtain ⟨hcalled, hkeeps⟩ := call_sends hinv hx (.inr ⟨rfl, rfl⟩) hstep task.request
    apply left_matched (a := .close) [.close] h hx htask hs hcalled (hkeeps _ _ hmux) (by simp)
    rw [← hopener, ← hforwarded, ← hrecorded]
    show s.sessionStep .close = some {stream := s, up := [.close]}
    simp [Stream.sessionStep, hopener, hopened]
  · next hopened =>
    obtain ⟨m, rest, hinbound, hcalled, hmux⟩ := recv_takes hinv (h.known_ids hinv .left) hx hmux hstep
    apply left_matched (a := .respond) [] h hx htask hs hcalled hmux List.not_mem_nil
    simp [Stream.act, Stream.sessionStep, hopener, hopened, hinbound, hforwarded, hrecorded]
  · next hopened =>
    obtain ⟨m, rest, hinbound, hcalled, hmux⟩ := recv_takes hinv (h.known_ids hinv .left) hx hmux hstep
    apply left_matched (a := .respondFail) [] h hx htask hs hcalled hmux List.not_mem_nil
    simp [Stream.act, Stream.sessionStep, hopener, hopened, hinbound, hforwarded, hrecorded]
  · next hopened =>
    obtain ⟨hinbound, hentry, rfl⟩ := ended_called hx hmux hstep
    apply left_matched (a := .respondEnd) [] h hx htask hs (called_none q .left k _) hmux List.not_mem_nil
    simp [Stream.act, Stream.sessionStep, hopener, hopened, hinbound, hentry, hforwarded, hrecorded]
  · cases hstep

theorem right_matched {a : StreamAction} (down : List Frame) {handler : Handler} {relayed answered inbound : List Bytes}
    {y : MuxStream} (h : q.Simulated requests t) (hx : (q.pair.ends .left).held[k]? = some x)
    (hy : (q.pair.ends .right).held[k]? = some y) (htask : q.tasks[k]? = some task) (hs : t.streams[k]? = some s)
    (hcalled : Called q q' .right k {task with handler := handler, relayed := relayed, answered := answered}
      (down.map (·.toMux x.id task.request)))
    (hmux : InMux (q'.pair.ends .right) y.id y.inbound s.agentEntry inbound) (hhandler : handler ≠ .absent)
    (hact : s.act codec a = some {
      stream := {s with agentInbound := inbound, handler := handler, relayed := relayed, answered := answered}
      down := down}) :
    ∃ t', (system codec).Steps (fun _ _ => True) t t' ∧ q'.Simulated requests t' := by
  have hcontroller := h.controller k x task s hx htask hs
  have hknown := held_known hy
  apply act_matched hs hact
  apply h.right down hx htask hs hcalled
  · exact ⟨hcontroller.mux, hcontroller.opener, hcontroller.forwarded, hcontroller.recorded⟩
  · refine ⟨?_, ?_, rfl, rfl⟩
    · intro z hz
      obtain rfl := Option.some.inj (hknown.symm.trans hz)
      simpa [Tasks.waiting, Tasks.reached, hhandler] using hmux
    · rw [hknown]
      exact nofun
  · rfl
  · exact (List.getElem?_eq_some_iff.mp hy).1

theorem handlerStep_matched {a : StreamAction} (h : q.Simulated requests t) (hinv : Mux.Inv .left q.pair)
    (hx : (q.pair.ends .left).held[k]? = some x) (htask : q.tasks[k]? = some task) (hs : t.streams[k]? = some s)
    (hstep : q.handlerStep codec a k task = some q') :
    ∃ t', (system codec).Steps (fun _ _ => True) t t' ∧ q'.Simulated requests t' := by
  have hagent := h.agent k task s htask hs
  -- A handler that has the request was handed the stream.
  have hhanded : task.handler ≠ .absent → ∃ y, (q.pair.ends .right).held[k]? = some y ∧ y.id = x.id ∧
      InMux (q.pair.ends .right) y.id y.inbound s.agentEntry s.agentInbound ∧ s.handler = task.handler := by
    intro hhandler
    have hk := h.served k task htask hhandler
    refine ⟨_, List.getElem?_eq_getElem hk, ?_⟩
    have hy := held_known (List.getElem?_eq_getElem hk)
    obtain ⟨hmux, hreached⟩ := hagent.mux _ hy
    rw [Tasks.waiting, if_neg hhandler, List.nil_append] at hmux
    rw [Tasks.reached, if_neg hhandler] at hreached
    exact ⟨h.known_id hx hy, hmux, hreached⟩
  obtain ⟨-, -, hrelayed, hanswered⟩ := hagent
  unfold Muxed.handlerStep at hstep
  split at hstep
  · next error hopening =>
    obtain ⟨y, hy, hid, hmux, hhandler⟩ := hhanded (by simp [hopening])
    obtain ⟨hcalled, hkeeps⟩ := call_sends hinv hy (.inl ⟨_, rfl, rfl⟩) hstep task.request
    rw [hid] at hcalled
    apply right_matched (a := .refuse error) [.data _] h hx hy htask hs hcalled (hkeeps _ _ hmux) (by simp)
    simp [Stream.act, Stream.handlerStep, hhandler, hopening, hrelayed, hanswered]
  · next hrefusing =>
    obtain ⟨y, hy, hid, hmux, hhandler⟩ := hhanded (by simp [hrefusing])
    obtain ⟨hcalled, hkeeps⟩ := call_sends hinv hy (.inr ⟨rfl, rfl⟩) hstep task.request
    rw [hid] at hcalled
    apply right_matched (a := .refuseClose) [.close] h hx hy htask hs hcalled (hkeeps _ _ hmux) (by simp)
    simp [Stream.act, Stream.handlerStep, hhandler, hrefusing, hrelayed, hanswered]
  · next hopening =>
    obtain ⟨y, hy, hid, hmux, hhandler⟩ := hhanded (by simp [hopening])
    obtain ⟨hcalled, hkeeps⟩ := call_sends hinv hy (.inl ⟨_, rfl, rfl⟩) hstep task.request
    rw [hid] at hcalled
    apply right_matched (a := .connected) [.data _] h hx hy htask hs hcalled (hkeeps _ _ hmux) (by simp)
    simp [Stream.act, Stream.handlerStep, hhandler, hopening, hrelayed, hanswered]
  · next hrelaying =>
    obtain ⟨y, hy, hid, hmux, hhandler⟩ := hhanded (by simp [hrelaying])
    obtain ⟨m, rest, hinbound, hcalled, hmux⟩ := recv_takes hinv (h.known_ids hinv .right) hy hmux hstep
    apply right_matched (a := .uplink) [] h hx hy htask hs hcalled hmux (by simp [hrelaying])
    simp [Stream.act, Stream.handlerStep, hhandler, hrelaying, hinbound, hrelayed, hanswered]
  · next hrelaying =>
    obtain ⟨y, hy, hid, hmux, hhandler⟩ := hhanded (by simp [hrelaying])
    obtain ⟨m, rest, hinbound, hcalled, hmux⟩ := recv_takes hinv (h.known_ids hinv .right) hy hmux hstep
    apply right_matched (a := .uplinkFail) [] h hx hy htask hs hcalled hmux (by simp)
    simp [Stream.act, Stream.handlerStep, hhandler, hrelaying, hinbound, hrelayed, hanswered]
  · next downlink hrelaying =>
    obtain ⟨y, hy, hid, hmux, hhandler⟩ := hhanded (by simp [hrelaying])
    obtain ⟨hinbound, hentry, rfl⟩ := ended_called hy hmux hstep
    have hcalled := called_none q .right k {task with handler := .relaying false downlink}
    apply right_matched (a := .uplinkEnd) [] h hx hy htask hs hcalled hmux (by simp)
    simp [Stream.act, Stream.handlerStep, hhandler, hrelaying, hinbound, hentry, hrelayed, hanswered]
  · next data _ hrelaying =>
    obtain ⟨y, hy, hid, hmux, hhandler⟩ := hhanded (by simp [hrelaying])
    obtain ⟨hcalled, hkeeps⟩ := call_sends hinv hy (.inl ⟨_, rfl, rfl⟩) hstep task.request
    rw [hid] at hcalled
    apply right_matched (a := .downlink data) [.data _] h hx hy htask hs hcalled (hkeeps _ _ hmux)
      (by simp [hrelaying])
    simp [Stream.act, Stream.handlerStep, hhandler, hrelaying, hrelayed, hanswered]
  · next uplink hrelaying =>
    obtain ⟨y, hy, hid, hmux, hhandler⟩ := hhanded (by simp [hrelaying])
    obtain rfl := Option.some.inj hstep
    have hcalled := called_none q .right k {task with handler := .relaying uplink false}
    apply right_matched (a := .downlinkFail) [] h hx hy htask hs hcalled hmux (by simp)
    simp [Stream.act, Stream.handlerStep, hhandler, hrelaying, hrelayed, hanswered]
  · cases hstep

/-- The handler takes the request: the stream stays as it is, since its handler has been
there from the moment the agent's mux knew the stream. -/
theorem takeRequest_matched (h : q.Simulated requests t) (hinv : Mux.Inv .left q.pair)
    (hstep : Muxed.step requests codec (.takeRequest k) q = some q') :
    q'.Simulated requests t := by
  rw [Muxed.step] at hstep
  split at hstep
  · cases hstep
  · next task htask =>
    split at hstep
    · next habsent =>
      obtain ⟨x, s, hx, hs⟩ := h.get htask
      obtain ⟨y, hy⟩ := recv_held hstep
      have hknown := held_known hy
      have hcontroller := h.controller k x task s hx htask hs
      obtain ⟨hmuxes, -, hrelayed, hanswered⟩ := h.agent k task s htask hs
      obtain ⟨hmux, hreached⟩ := hmuxes y hknown
      rw [Tasks.waiting, if_pos habsent] at hmux
      rw [Tasks.reached, if_pos habsent] at hreached
      obtain ⟨m, rest, hinbound, hcalled, hmux⟩ := recv_takes hinv (h.known_ids hinv .right) hy hmux hstep
      obtain ⟨rfl, rfl⟩ := List.cons.inj hinbound
      obtain ⟨-, request, hm⟩ := h.requests task (List.mem_of_getElem? htask)
      rw [hm] at hcalled
      suffices hset : q'.Simulated requests {
          streams := t.streams.set k s
          toAgent := t.toAgent ++ ([] : List Frame).map (k, ·)
          toController := t.toController ++ ([] : List Frame).map (k, ·)} by
        obtain ⟨hk, rfl⟩ := List.getElem?_eq_some_iff.mp hs
        simpa using hset
      apply h.right [] hx htask hs hcalled
      · exact ⟨hcontroller.mux, hcontroller.opener, hcontroller.forwarded, hcontroller.recorded⟩
      · refine ⟨?_, ?_, hrelayed, hanswered⟩
        · intro z hz
          obtain rfl := Option.some.inj (hknown.symm.trans hz)
          exact ⟨hmux, hreached⟩
        · rw [hknown]
          exact nofun
      · rfl
      · exact (List.getElem?_eq_some_iff.mp hy).1
    · cases hstep

theorem taskStep_matched {a : StreamAction} {task : Tasks} (h : q.Simulated requests t) (hinv : Mux.Inv .left q.pair)
    (htask : q.tasks[k]? = some task) (hstep : q.taskStep codec a k task = some q') :
    ∃ t', (system codec).Steps (fun _ _ => True) t t' ∧ q'.Simulated requests t' := by
  obtain ⟨x, s, hx, hs⟩ := h.get htask
  unfold Muxed.taskStep at hstep
  split at hstep
  all_goals first
    | exact openStep_matched h hinv hx htask hs hstep
    | exact sessionStep_matched h hinv hx htask hs hstep
    | exact handlerStep_matched h hinv hx htask hs hstep

end

end Rps.Udp
