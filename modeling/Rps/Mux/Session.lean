import Rps.Base.System
import Rps.Base.Table
import Rps.Mux.Frame

/-! Two mux endpoints joined by a byte link.

Each endpoint has a writer task that drains the frame queue onto the wire, a
reader task that consumes frames off the peer's wire, and any number of tasks
that open, use and accept streams. A label is one atomic step of one of them.
`MuxHandle::open_stream` is three steps (take an id, insert the inbound sender in
the table, enqueue the `Open` frame), and the reader's treatment of an `Open`
frame is three (insert, hand the stream to `accept`, enqueue the `OpenAck`).
Frames cross the link byte by byte.

An inbound channel is unbounded and its sender lives only in the streams table,
so a receiver is at its end when its queue is empty and the table no longer holds
its sender. A receiver that was dropped is one whose `recv_data` is never called
again. -/
namespace Rps.Mux
open Base

/-- The capacity of the frame queue and of the queue of incoming streams. -/
def channelCapacity : Nat := 1024

/-- The inbound channel of a stream, with every message its receiver was given. -/
structure Channel where
  streamId : UInt32
  queue : List Bytes
  returned : List Bytes := []
  deriving DecidableEq

/-- A `MuxStream`: its id and the channel it receives from. -/
structure MuxStream where
  id : UInt32
  inbound : Nat
  deriving DecidableEq

/-- Where a call of `open_stream` stands. -/
inductive OpenPhase where
  | taken
  | inserted (inbound : Nat)
  | sent
  | failed
  deriving DecidableEq

structure OpenCall where
  id : UInt32
  payload : Bytes
  phase : OpenPhase
  deriving DecidableEq

/-- Where the reader task stands: waiting for a frame, or in one of the two sends
that handling a frame may wait in. -/
inductive ReaderState where
  | reading
  | handing (stream : MuxStream)
  | replying (frame : Frame)
  | stopped
  deriving DecidableEq

/-- One end. `enqueued` and `consumed` are histories: every frame a successful
send put in the writer queue, and every frame the reader task took off the wire. -/
structure Endpoint where
  nextId : UInt32 := 1
  channels : List Channel := []
  streams : Table UInt32 Nat := ∅
  opening : List OpenCall := []
  writerQueue : List Frame := []
  writing : Bytes := []
  writerStopped : Bool := false
  reader : ReaderState := .reading
  incoming : List MuxStream := []
  held : List MuxStream := []
  enqueued : List Frame := []
  consumed : List Frame := []

inductive Action where
  | openStream (payload : Bytes)
  | insertStream (call : Nat)
  | sendOpen (call : Nat)
  | sendData (stream : Nat) (data : Bytes)
  | close (stream : Nat)
  | recvData (stream : Nat)
  | accept
  | handStream
  | reply
  | takeFrame
  | writeBytes (n : Nat)
  | readFrame
  deriving DecidableEq

namespace Endpoint

/-- `writer_tx.send(frame)` on a live writer task: waits while the queue is full. -/
def enqueue (e : Endpoint) (f : Frame) : Option Endpoint :=
  if e.writerQueue.length < channelCapacity then
    some {e with writerQueue := e.writerQueue ++ [f], enqueued := e.enqueued ++ [f]}
  else none

/-- Make a stream's inbound channel and put its sender in the table. A sender
that was under the same id is dropped. -/
def newStream (e : Endpoint) (id : UInt32) (queue : List Bytes) : Endpoint :=
  {e with
    channels := e.channels ++ [{ streamId := id, queue := queue }]
    streams := e.streams.insert id e.channels.length}

/-- The reader task's treatment of one frame, up to its first wait. -/
def onFrame (e : Endpoint) (f : Frame) : Endpoint :=
  let e := {e with consumed := e.consumed ++ [f]}
  match f.frameType with
  | .open =>
    {e.newStream f.streamId (if f.payload.isEmpty then [] else [f.payload]) with
      reader := .handing ⟨f.streamId, e.channels.length⟩}
  | .openAck => e
  | .data =>
    match e.streams.lookup f.streamId with
    | some c => {e with channels := e.channels.modify c fun ch => {ch with queue := ch.queue ++ [f.payload]}}
    | none => e
  | .close | .error => {e with streams := e.streams.erase f.streamId}
  | .ping => {e with reader := .replying ⟨.pong, f.streamId, f.payload⟩}
  | .pong => e

/-- The steps that touch no wire. -/
def act : Action → Endpoint → Option Endpoint
  | .openStream payload, e =>
    some {e with nextId := e.nextId + 2, opening := e.opening ++ [⟨e.nextId, payload, .taken⟩]}
  | .insertStream k, e => do
    let call ← e.opening[k]?
    guard (call.phase = .taken)
    pure {e.newStream call.id [] with
      opening := e.opening.set k {call with phase := .inserted e.channels.length}}
  | .sendOpen k, e => do
    let call ← e.opening[k]?
    match call.phase with
    | .inserted inbound =>
      if e.writerStopped then
        pure {e with streams := e.streams.erase call.id, opening := e.opening.set k {call with phase := .failed}}
      else
        let e' ← e.enqueue ⟨.open, call.id, call.payload⟩
        pure {e' with
          opening := e.opening.set k {call with phase := .sent}
          held := e.held ++ [⟨call.id, inbound⟩]}
    | _ => none
  | .sendData j data, e => do
    let stream ← e.held[j]?
    -- On a stopped writer the call fails and nothing changes.
    if e.writerStopped then pure e else e.enqueue ⟨.data, stream.id, data⟩
  | .close j, e => do
    let stream ← e.held[j]?
    if e.writerStopped then pure e else e.enqueue ⟨.close, stream.id, []⟩
  | .recvData j, e => do
    let stream ← e.held[j]?
    let ch ← e.channels[stream.inbound]?
    match ch.queue with
    | [] => none
    | m :: queue =>
      pure {e with channels := e.channels.modify stream.inbound fun ch =>
        {ch with queue := queue, returned := ch.returned ++ [m]}}
  | .accept, e =>
    match e.incoming with
    | [] => none
    | stream :: incoming => some {e with incoming := incoming, held := e.held ++ [stream]}
  | .handStream, e =>
    match e.reader with
    | .handing stream =>
      if e.incoming.length < channelCapacity then
        some {e with incoming := e.incoming ++ [stream], reader := .replying ⟨.openAck, stream.id, []⟩}
      else none
    | _ => none
  | .reply, e =>
    match e.reader with
    | .replying f =>
      if e.writerStopped then some {e with reader := .reading}
      else (e.enqueue f).map fun e' => {e' with reader := .reading}
    | _ => none
  | .takeFrame, e =>
    match e.writerStopped, e.writing, e.writerQueue with
    | false, [], f :: queue =>
      match writeFrame f with
      | .ok bytes => some {e with writerQueue := queue, writing := bytes}
      | .error _ => some {e with writerQueue := queue, writerStopped := true}
    | _, _, _ => none
  | .writeBytes _, _ => none
  | .readFrame, _ => none

/-- `recv_data` on this stream returns `None`. -/
def atEnd (e : Endpoint) (stream : MuxStream) : Prop :=
  (∃ ch, e.channels[stream.inbound]? = some ch ∧ ch.queue = []) ∧
    e.streams.lookup stream.id ≠ some stream.inbound

/-- Every message `recv_data` has returned on this stream. -/
def returned (e : Endpoint) (stream : MuxStream) : List Bytes :=
  ((e.channels[stream.inbound]?).map Channel.returned).getD []

end Endpoint

inductive Side where
  | left
  | right
  deriving DecidableEq

def Side.peer : Side → Side
  | .left => .right
  | .right => .left

/-- Two ends, and the bytes each has put on the wire that the peer has not read. -/
structure Pair where
  ends : Side → Endpoint
  wire : Side → Bytes

def step (label : Side × Action) (p : Pair) : Option Pair :=
  let s := label.1
  let e := p.ends s
  match label.2 with
  | .writeBytes n =>
    if 0 < n ∧ n ≤ e.writing.length then
      some ⟨Function.update p.ends s {e with writing := e.writing.drop n},
        Function.update p.wire s (p.wire s ++ e.writing.take n)⟩
    else none
  | .readFrame =>
    if e.reader = .reading then
      match readFrame (p.wire s.peer) with
      | .more => none
      | .invalid _ => some {p with ends := Function.update p.ends s {e with reader := .stopped}}
      | .done f rest =>
        some ⟨Function.update p.ends s (e.onFrame f), Function.update p.wire s.peer rest⟩
    else none
  | a => (e.act a).map fun e' => {p with ends := Function.update p.ends s e'}

def system : System Pair (Side × Action) where
  init := ⟨fun _ => {}, fun _ => []⟩
  step := step

@[simp] theorem Side.peer_peer (s : Side) : s.peer.peer = s := by cases s <;> rfl

theorem Side.peer_ne (s : Side) : s.peer ≠ s := by cases s <;> decide

theorem Side.eq_or_peer (s t : Side) : t = s ∨ t = s.peer := by
  cases s <;> cases t <;> decide

end Rps.Mux
