import Rps.Base.Copy
import Rps.Base.System
import Rps.Base.Table
import Rps.Core.Protocol

/-! The pooled TCP path, from the client's socket to the target.

The agent keeps warm connections to the controller, and each waits for one
`OpenRequest`. `open_pool_stream` takes connections out of the pool until one of them
answers, `pipe_pool_inner` relays between the client and that connection, and
`handle_pool_tcp` between the connection and the target. Each end has two copy loops,
in tasks of their own, and waits for either to end: one that breaks has the other
aborted. Every step below is what happens up to the next `await`; a loop is aborted at
one, so completing a chunk and recording it are one step.

A connection is a byte channel in each direction: `up` and `down` are the bytes that
were written and not read. Any read or write on it may fail at any time. What the
theorems speak of is kept beside the state and read by no step: `sentUp`, `sentDown`,
`target` and `client` are all that was ever written on a channel or sent by a side,
`stream` the connection that `open_pool_stream` returned, and `started` tells whether
`pipe_pool_inner` got past its socket option. -/
namespace Rps.Pool
open Base
open Rps.Core

def poolCopyBufSize : Nat := 128 * 1024
def poolAcquireRetries : Nat := 4

/-- The two loops of a relay, named by where they copy to. -/
inductive Direction where
  | up
  | down
  deriving DecidableEq

/-- Where the agent's task on a warm connection stands. A task that relays stays
`relaying`: its two loops have ends of their own. -/
inductive Agent where
  | waiting
  | connecting (request : OpenRequest)
  | answering (request : OpenRequest) (response : OpenResponse) (rest : Bytes)
  | relaying (request : OpenRequest)
  | ended
  deriving DecidableEq

/-- A warm connection, with the agent's end of it and the target. -/
structure Conn where
  up : Bytes := []
  down : Bytes := []
  agent : Agent := .waiting
  uplink : Copy := {}
  downlink : Copy := {}
  selecting : Bool := true
  targetUnread : Bytes := []
  targetGot : Bytes := []
  target : Bytes := []
  sentUp : Bytes := []
  sentDown : Bytes := []
  deriving DecidableEq

/-- Where the controller's task stands; a task that relays stays `relaying`. -/
inductive Phase where
  | acquiring
  | requesting (conn : Nat) (rest : Bytes)
  | awaiting (conn : Nat)
  | opened (conn : Nat)
  | greeting (conn : Nat) (rest : Bytes)
  | relaying (conn : Nat)
  | failed (error : String)
  | dropped
  deriving DecidableEq

/-- The sums of what a `TrafficRecorder` was given. -/
structure Totals where
  rxBytes : Nat := 0
  txBytes : Nat := 0
  deriving DecidableEq

def Totals.add (t : Totals) (rxBytes txBytes : Nat) : Totals := ⟨t.rxBytes + rxBytes, t.txBytes + txBytes⟩

/-- `next` is the first connection that is still in the pool. -/
structure Path where
  conns : List Conn := []
  next : Nat := 0
  attempts : Nat := 0
  phase : Phase := .acquiring
  uplink : Copy := {}
  downlink : Copy := {}
  selecting : Bool := true
  recorder : Option Totals := none
  clientUnread : Bytes := []
  clientGot : Bytes := []
  client : Bytes := []
  stream : Option Nat := none
  started : Bool := false
  deriving DecidableEq

/-- What a path is opened with. `open_pool_stream` makes the request itself, always
for TCP and with 5000 ms. -/
structure Setup where
  requestCodec : Codec OpenRequest
  responseCodec : Codec OpenResponse
  clientId : String
  request : OpenRequest
  initialData : Option Bytes
  recorder : Bool
  shutdown : Bool

namespace Setup
variable (P : Setup)

/-- The bytes the pipe sends before the client's. -/
def initial : Bytes := P.initialData.getD []

/-- The request as it is written on a connection. -/
def requestMessage : Bytes := withPrefix (P.requestCodec.toVec P.request)

def responseMessage (response : OpenResponse) : Bytes := withPrefix (P.responseCodec.toVec response)

end Setup

/-! ### The agent's end -/

inductive AgentAction where
  | requestRead
  | requestLost
  | connected
  | connectFail (error : String)
  | connectTimeout
  | tuneFail
  | answer (n : Nat)
  | answerFail
  | copy (direction : Direction) (a : CopyAction)
  | select (direction : Direction)
  deriving DecidableEq

namespace Conn

/-- `write_json` of a response begins, or fails at once. -/
def respond (codec : Codec OpenResponse) (k : Conn) (request : OpenRequest) (response : OpenResponse) : Conn :=
  match codec.writeJson response with
  | .ok bytes => {k with agent := .answering request response bytes}
  | .error _ => {k with agent := .ended}

/-- `serve_pool_request`. -/
def serve (codec : Codec OpenResponse) (k : Conn) (request : OpenRequest) : Conn :=
  match request.protocol with
  | .tcp => {k with agent := .connecting request}
  | .udp => k.respond codec request (.err "udp is not supported on pool channel")

/-- The loop of a direction, and what it leaves behind. -/
def copy (k : Conn) (direction : Direction) (a : CopyAction) : Option Conn :=
  match direction with
  | .up =>
    (k.uplink.step poolCopyBufSize a k.up).map fun r =>
      {k with uplink := r.copy, up := r.source, targetGot := k.targetGot ++ r.out}
  | .down =>
    (k.downlink.step poolCopyBufSize a k.targetUnread).map fun r =>
      {k with
        downlink := r.copy
        targetUnread := r.source
        down := k.down ++ r.out
        sentDown := k.sentDown ++ r.out}

/-- `select!` over the two loops: the first to end is taken, and if it broke the other
is aborted. -/
def select (k : Conn) (direction : Direction) : Option Conn :=
  match direction with
  | .up =>
    if k.selecting ∧ k.uplink.ended ≠ none then
      some {k with
        selecting := false
        downlink := if k.uplink.broken then {k.downlink with aborting := true} else k.downlink}
    else none
  | .down =>
    if k.selecting ∧ k.downlink.ended ≠ none then
      some {k with
        selecting := false
        uplink := if k.downlink.broken then {k.uplink with aborting := true} else k.uplink}
    else none

/-- The agent's task on a connection: `read_json`, `serve_pool_request` and
`handle_pool_tcp`. -/
def step (P : Setup) (a : AgentAction) (k : Conn) : Option Conn :=
  match k.agent, a with
  | .waiting, .requestRead =>
    match P.requestCodec.readJson k.up with
    | .done request rest => some ({k with up := rest}.serve P.responseCodec request)
    | .invalid _ => some {k with agent := .ended}
    | .more => none
  | .waiting, .requestLost => some {k with agent := .ended}
  | .connecting request, .connected => some (k.respond P.responseCodec request .success)
  | .connecting _, .tuneFail => some {k with agent := .ended}
  | .connecting request, .connectFail error =>
    some (k.respond P.responseCodec request (.err s!"tcp connect {request.target} failed: {error}"))
  | .connecting request, .connectTimeout =>
    some (k.respond P.responseCodec request
      (.err s!"tcp connect {request.target} timed out after {request.timeoutMs}ms"))
  | .answering request response rest, .answer n =>
    if n < rest.length then
      some {k with
        down := k.down ++ rest.take n
        sentDown := k.sentDown ++ rest.take n
        agent := .answering request response (rest.drop n)}
    else if n = rest.length then
      some {k with
        down := k.down ++ rest
        sentDown := k.sentDown ++ rest
        agent := if response.ok then .relaying request else .ended}
    else none
  | .answering _ _ _, .answerFail => some {k with agent := .ended}
  | .relaying _, .copy direction a => k.copy direction a
  | .relaying _, .select direction => k.select direction
  | _, _ => none

/-- There is a target that can send: it is connected. -/
def connected (k : Conn) : Bool :=
  match k.agent with
  | .answering _ response _ => response.ok
  | .relaying _ => true
  | _ => false

end Conn

/-! ### The controller's end -/

inductive Action where
  | dial
  | taken
  | clientSend (bytes : Bytes)
  | targetSend (conn : Nat) (bytes : Bytes)
  | agent (conn : Nat) (a : AgentAction)
  | offline
  | acquire
  | poolClosed
  | poolExhausted
  | requestWrite (n : Nat)
  | requestFail
  | responseRead
  | responseFail
  | responseTimeout
  | setup
  | setupFail (error : String)
  | greet (n : Nat)
  | greetFail (error : String)
  | copy (direction : Direction) (a : CopyAction)
  | select (direction : Direction)
  | shutdown
  | drop
  deriving DecidableEq

namespace Path

def fail (s : Path) (error : String) : Path := {s with phase := .failed error}

/-- `continue` in the loop over the pool. -/
def retry (P : Setup) (s : Path) : Path :=
  if s.attempts < poolAcquireRetries then {s with phase := .acquiring}
  else s.fail s!"no live pooled connection available for client {P.clientId}"

/-- Bytes put on a connection by the controller. -/
def send (s : Path) (conn : Nat) (bytes : Bytes) : Path :=
  match s.conns[conn]? with
  | some k => {s with conns := s.conns.set conn {k with up := k.up ++ bytes, sentUp := k.sentUp ++ bytes}}
  | none => s

/-- `TrafficRecorder::add`, where there is a recorder. -/
def record (s : Path) (rxBytes txBytes : Nat) : Path :=
  {s with recorder := s.recorder.map fun t => t.add rxBytes txBytes}

/-- The loop over the pool: a connection is taken and the request is written. -/
def acquire (P : Setup) (s : Path) : Option Path :=
  match s.conns[s.next]? with
  | none => none
  | some _ =>
    let taken := {s with next := s.next + 1, attempts := s.attempts + 1}
    match P.requestCodec.writeJson P.request with
    | .ok bytes => some {taken with phase := .requesting s.next bytes}
    | .error _ => some (taken.retry P)

/-- The answer of a connection, when there is one. -/
def responseRead (P : Setup) (s : Path) (conn : Nat) : Option Path :=
  match s.conns[conn]? with
  | none => none
  | some k =>
    match P.responseCodec.readJson k.down with
    | .more => none
    | .invalid _ => some (s.retry P)
    | .done response rest =>
      if response.ok then
        some {s with
          conns := s.conns.set conn {k with down := rest}
          phase := .opened conn
          stream := some conn}
      else
        -- the stream is dropped, with what is still on it
        let error := response.error.getD "unknown error"
        some (s.fail s!"agent failed to open target {P.request.target}: {error}")

/-- The start of `pipe_pool_inner`, with the socket option set: the initial data is
recorded, then written. -/
def setup (P : Setup) (s : Path) (conn : Nat) : Path :=
  let s := {s with started := true}
  match P.initialData with
  | some data => {s.record 0 data.length with phase := .greeting conn data}
  | none => {s with phase := .relaying conn}

def copy (s : Path) (conn : Nat) (direction : Direction) (a : CopyAction) : Option Path :=
  match s.conns[conn]? with
  | none => none
  | some k =>
    match direction with
    | .up =>
      (s.uplink.step poolCopyBufSize a s.clientUnread).map fun r =>
        {(s.send conn r.out).record 0 r.size with uplink := r.copy, clientUnread := r.source}
    | .down =>
      (s.downlink.step poolCopyBufSize a k.down).map fun r =>
        {s.record r.size 0 with
          downlink := r.copy
          conns := s.conns.set conn {k with down := r.source}
          clientGot := s.clientGot ++ r.out}

def select (s : Path) (direction : Direction) : Option Path :=
  match direction with
  | .up =>
    if s.selecting ∧ s.uplink.ended ≠ none then
      some {s with
        selecting := false
        downlink := if s.uplink.broken then {s.downlink with aborting := true} else s.downlink}
    else none
  | .down =>
    if s.selecting ∧ s.downlink.ended ≠ none then
      some {s with
        selecting := false
        uplink := if s.downlink.broken then {s.uplink with aborting := true} else s.uplink}
    else none

/-- The steps of `open_pool_stream` and `pipe_pool_inner`. A task that is dropped while
it relays leaves its loops running. -/
def control (P : Setup) (a : Action) (s : Path) : Option Path :=
  match s.phase, a with
  | .acquiring, .offline => some (s.fail s!"client {P.clientId} is offline")
  | .acquiring, .acquire => s.acquire P
  | .acquiring, .poolClosed => some (s.fail s!"client {P.clientId} pool is closed")
  | .acquiring, .poolExhausted =>
    some (s.fail s!"client {P.clientId} pool exhausted: no idle connection within 10s")
  | .requesting conn rest, .requestWrite n =>
    if n ≤ rest.length then
      some {s.send conn (rest.take n) with
        phase := if n = rest.length then .awaiting conn else .requesting conn (rest.drop n)}
    else none
  | .requesting _ _, .requestFail => some (s.retry P)
  | .awaiting conn, .responseRead => s.responseRead P conn
  | .awaiting _, .responseFail => some (s.retry P)
  | .awaiting _, .responseTimeout =>
    some (s.fail s!"agent open target {P.request.target} timed out after {P.request.timeoutMs}ms")
  | .opened conn, .setup => some (s.setup P conn)
  | .opened _, .setupFail error => some (s.fail error)
  | .greeting conn rest, .greet n =>
    if n ≤ rest.length then
      some {s.send conn (rest.take n) with
        phase := if n = rest.length then .relaying conn else .greeting conn (rest.drop n)}
    else none
  | .greeting _ _, .greetFail error => some (s.fail error)
  | .relaying conn, .copy direction a => s.copy conn direction a
  | .relaying _, .select direction => s.select direction
  | .relaying _, .shutdown =>
    if P.shutdown ∧ s.selecting then
      some {s with
        selecting := false
        uplink := {s.uplink with aborting := true}
        downlink := {s.downlink with aborting := true}}
    else none
  | .relaying _, .drop => some {s with selecting := false}
  | .failed _, _ | .dropped, _ => none
  | _, .drop => some {s with phase := .dropped}
  | _, _ => none

def step (P : Setup) (a : Action) (s : Path) : Option Path :=
  match a with
  | .dial => some {s with conns := s.conns ++ [{}]}
  | .taken => if s.next < s.conns.length then some {s with next := s.next + 1} else none
  | .clientSend bytes => some {s with client := s.client ++ bytes, clientUnread := s.clientUnread ++ bytes}
  | .targetSend conn bytes =>
    match s.conns[conn]? with
    | some k =>
      if k.connected then
        some {s with
          conns := s.conns.set conn {k with target := k.target ++ bytes, targetUnread := k.targetUnread ++ bytes}}
      else none
    | none => none
  | .agent conn a =>
    match s.conns[conn]? with
    | some k => (k.step P a).map fun k => {s with conns := s.conns.set conn k}
    | none => none
  | a => s.control P a

end Path

def system (P : Setup) : System Path Action where
  init := {recorder := if P.recorder then some {} else none}
  step := Path.step P

end Rps.Pool
