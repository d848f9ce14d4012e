import Rps.Base.System
import Rps.Base.Table
import Rps.Core.Protocol
import Rps.Mux.Session

/-! UDP streams over a data connection, from `open_stream` to the agent's relay.

The controller opens a stream for a session and waits for the agent's answer; then a task of
its own carries what the agent sends to the client. The agent's handler opens a socket,
answers, and relays with two tasks, one for each direction. Between the two ends frames
arrive in order. Each end has a table of its streams, and takes an entry out when the other
end says `Close`, and only then.

A step belongs to one stream, so a run is seen from a stream as a run of that stream with the
frames that are in flight for it (`Local`). `opened_relays` is what both sides rely on: a
stream that `open_stream` returned is relayed by its handler, and a handler that relays never
says `Close`.

The tables and channels are those of the mux (`InMux`): its reader task is `onDown` at one
end and `onUp` at the other. -/
namespace Rps.Udp
open Base
open Rps.Core

inductive Frame where
  | open
  | data (payload : Bytes)
  | close
  deriving DecidableEq

/-- Where `open_stream` stands; a stream that it returned has a response task. -/
inductive Opener where
  | waiting
  | failed
  | opened (task : Bool)
  deriving DecidableEq

/-- Where `handle_udp_target` stands. It relays with an uplink and a downlink, and returns
when both have ended. -/
inductive Handler where
  | absent
  | opening
  | refusing
  | refused
  | relaying (uplink downlink : Bool)
  deriving DecidableEq

def Handler.running : Handler → Bool
  | .relaying uplink downlink => uplink || downlink
  | _ => false

/-- Both ends of a stream. `entry` and `agentEntry` tell whether the stream is in the table
of an end. `forwarded`, `relayed` and `answered` are all that went to the client, to the
target and into `Data` frames of the agent, and `closed` tells whether the agent has
processed a `Close`. -/
structure Stream where
  entry : Bool := true
  inbound : List Bytes := []
  opener : Opener := .waiting
  forwarded : List Bytes := []
  recorded : Nat := 0
  agentEntry : Bool := false
  agentInbound : List Bytes := []
  handler : Handler := .absent
  relayed : List Bytes := []
  answered : List Bytes := []
  closed : Bool := false
  deriving DecidableEq

inductive StreamAction where
  | response
  | closedEarly
  | timeout
  | sendData (data : Bytes)
  | close
  | respond
  | respondFail
  | respondEnd
  | refuse (error : String)
  | refuseClose
  | connected
  | uplink
  | uplinkFail
  | uplinkEnd
  | downlink (data : Bytes)
  | downlinkFail
  deriving DecidableEq

/-- The stream after a step, and the frames that the step sends to either end. -/
structure Acted where
  stream : Stream
  up : List Frame := []
  down : List Frame := []

namespace Stream

/-- The reader task of the controller. Behind a stream that was dropped nobody receives. -/
def onDown (s : Stream) : Frame → Stream
  | .open => s
  | .data payload => if s.entry then {s with inbound := s.inbound ++ [payload]} else s
  | .close => {s with entry := false}

/-- The reader task of the agent. The payload of an `Open` is the request, and the handler
takes it first. -/
def onUp (s : Stream) : Frame → Stream
  | .open => {s with agentEntry := true, handler := .opening}
  | .data payload => if s.agentEntry then {s with agentInbound := s.agentInbound ++ [payload]} else s
  | .close => {s with agentEntry := false, closed := true}

/-- `open_stream` from its wait on. -/
def openStep (codec : Codec OpenResponse) (a : StreamAction) (s : Stream) : Option Acted :=
  match a, s.opener, s.inbound with
  | .response, .waiting, m :: rest =>
    match codec.fromSlice m with
    | .ok response =>
      if response.ok then some {stream := {s with opener := .opened true, inbound := rest}}
      else some {stream := {s with opener := .failed, inbound := rest}}
    | .error _ => some {stream := {s with opener := .failed, inbound := rest}}
  | .closedEarly, .waiting, [] => if s.entry then none else some {stream := {s with opener := .failed}}
  | .timeout, .waiting, _ => some {stream := {s with opener := .failed}}
  | _, _, _ => none

/-- A session: the loop sends, the sweep and the closings close, and the response task
forwards and records. -/
def sessionStep (a : StreamAction) (s : Stream) : Option Acted :=
  match a, s.opener, s.inbound with
  | .sendData data, .opened _, _ => some {stream := s, up := [.data data]}
  | .close, .opened _, _ => some {stream := s, up := [.close]}
  | .respond, .opened true, m :: rest =>
    some {stream := {s with
      inbound := rest, forwarded := s.forwarded ++ [m], recorded := s.recorded + m.length}}
  | .respondFail, .opened true, _ :: rest => some {stream := {s with inbound := rest, opener := .opened false}}
  | .respondEnd, .opened true, [] => if s.entry then none else some {stream := {s with opener := .opened false}}
  | _, _, _ => none

/-- `handle_udp_target`: `send_open_error` is an answer and a `Close`; the downlink sends
whatever the target sends, and ends only by an error. -/
def handlerStep (codec : Codec OpenResponse) (a : StreamAction) (s : Stream) : Option Acted :=
  match a, s.handler with
  | .refuse error, .opening =>
    some {
      stream := {s with handler := .refusing, answered := s.answered ++ [codec.toVec (.err error)]}
      down := [.data (codec.toVec (.err error))]}
  | .refuseClose, .refusing => some {stream := {s with handler := .refused}, down := [.close]}
  | .connected, .opening =>
    some {
      stream := {s with handler := .relaying true true, answered := s.answered ++ [codec.toVec .success]}
      down := [.data (codec.toVec .success)]}
  | .uplink, .relaying true _ =>
    match s.agentInbound with
    | m :: rest => some {stream := {s with agentInbound := rest, relayed := s.relayed ++ [m]}}
    | [] => none
  | .uplinkFail, .relaying true downlink =>
    match s.agentInbound with
    | _ :: rest => some {stream := {s with agentInbound := rest, handler := .relaying false downlink}}
    | [] => none
  | .uplinkEnd, .relaying true downlink =>
    if s.agentInbound = [] ∧ s.agentEntry = false then some {stream := {s with handler := .relaying false downlink}}
    else none
  | .downlink data, .relaying _ true =>
    some {stream := {s with answered := s.answered ++ [data]}, down := [.data data]}
  | .downlinkFail, .relaying uplink true => some {stream := {s with handler := .relaying uplink false}}
  | _, _ => none

def act (codec : Codec OpenResponse) (a : StreamAction) (s : Stream) : Option Acted :=
  match a with
  | .response | .closedEarly | .timeout => s.openStep codec a
  | .sendData _ | .close | .respond | .respondFail | .respondEnd => s.sessionStep a
  | _ => s.handlerStep codec a

end Stream

/-- A stream is known by its place among all that were opened, and a frame by the stream it
is for. -/
structure State where
  streams : List Stream := []
  toAgent : List (Nat × Frame) := []
  toController : List (Nat × Frame) := []

inductive Action where
  | openStream
  | agentRead
  | controllerRead
  | stream (k : Nat) (a : StreamAction)
  deriving DecidableEq

def step (codec : Codec OpenResponse) (a : Action) (t : State) : Option State :=
  match a with
  | .openStream => some {t with streams := t.streams ++ [{}], toAgent := t.toAgent ++ [(t.streams.length, .open)]}
  | .agentRead =>
    match t.toAgent with
    | [] => none
    | (k, f) :: rest => some {t with streams := t.streams.modify k (·.onUp f), toAgent := rest}
  | .controllerRead =>
    match t.toController with
    | [] => none
    | (k, f) :: rest => some {t with streams := t.streams.modify k (·.onDown f), toController := rest}
  | .stream k a =>
    match t.streams[k]? with
    | none => none
    | some s =>
      (s.act codec a).map fun r => {
        streams := t.streams.set k r.stream
        toAgent := t.toAgent ++ r.up.map (k, ·)
        toController := t.toController ++ r.down.map (k, ·)}

def system (codec : Codec OpenResponse) : System State Action where
  init := {}
  step := step codec

/-! ### What a step can do -/

def payloads : List Frame → List Bytes
  | [] => []
  | .data payload :: rest => payload :: payloads rest
  | _ :: rest => payloads rest

theorem payloads_append (a b : List Frame) : payloads (a ++ b) = payloads a ++ payloads b := by
  induction a with
  | nil => rfl
  | cons f a ih => cases f <;> simp [payloads, ih]

/-- A stream that is in the table receives what comes before a `Close`. -/
theorem Stream.onDown_kept {s : Stream} {f : Frame} (hentry : s.entry = true) (hf : f ≠ .close) :
    s.onDown f = {s with inbound := s.inbound ++ payloads [f]} := by
  cases f with
  | «open» => simp [onDown, payloads]
  | data payload => simp [onDown, payloads, hentry]
  | close => exact absurd rfl hf

/-- Reading a frame leaves the agent's end as it is, and its own end but for the table. -/
theorem Stream.onDown_eq (s : Stream) (f : Frame) :
    ∃ entry inbound, s.onDown f = {s with entry := entry, inbound := inbound} := by
  cases f with
  | «open» => exact ⟨_, _, rfl⟩
  | data payload =>
    rw [onDown]
    split
    · exact ⟨_, _, rfl⟩
    · exact ⟨s.entry, s.inbound, rfl⟩
  | close => exact ⟨_, _, rfl⟩

theorem Stream.onUp_eq (s : Stream) {f : Frame} (hf : f ≠ .open) :
    ∃ entry inbound closed, s.onUp f = {s with agentEntry := entry, agentInbound := inbound, closed := closed} := by
  cases f with
  | «open» => exact absurd rfl hf
  | data payload =>
    rw [onUp]
    split
    · exact ⟨_, _, _, rfl⟩
    · exact ⟨s.agentEntry, s.agentInbound, s.closed, rfl⟩
  | close => exact ⟨_, _, _, rfl⟩

@[simp] theorem Stream.onDown_handler (s : Stream) (f : Frame) : (s.onDown f).handler = s.handler := by
  obtain ⟨entry, inbound, h⟩ := s.onDown_eq f
  rw [h]

/-- The steps of a stream, with what has to hold before them. -/
inductive Acts (codec : Codec OpenResponse) (s : Stream) : StreamAction → Acted → Prop where
  | opened {m : Bytes} {rest : List Bytes} {response : OpenResponse} : s.opener = .waiting → s.inbound = m :: rest →
      codec.fromSlice m = .ok response → response.ok = true →
      Acts codec s .response {stream := {s with opener := .opened true, inbound := rest}}
  | failed {m : Bytes} {rest : List Bytes} : s.opener = .waiting → s.inbound = m :: rest →
      Acts codec s .response {stream := {s with opener := .failed, inbound := rest}}
  | closedEarly : s.opener = .waiting → s.inbound = [] → s.entry = false →
      Acts codec s .closedEarly {stream := {s with opener := .failed}}
  | timeout : s.opener = .waiting → Acts codec s .timeout {stream := {s with opener := .failed}}
  | sendData {task : Bool} (data : Bytes) : s.opener = .opened task →
      Acts codec s (.sendData data) {stream := s, up := [.data data]}
  | close {task : Bool} : s.opener = .opened task → Acts codec s .close {stream := s, up := [.close]}
  | respond {m : Bytes} {rest : List Bytes} : s.opener = .opened true → s.inbound = m :: rest →
      Acts codec s .respond {stream := {s with
        inbound := rest, forwarded := s.forwarded ++ [m], recorded := s.recorded + m.length}}
  | respondFail {m : Bytes} {rest : List Bytes} : s.opener = .opened true → s.inbound = m :: rest →
      Acts codec s .respondFail {stream := {s with inbound := rest, opener := .opened false}}
  | respondEnd : s.opener = .opened true → s.inbound = [] → s.entry = false →
      Acts codec s .respondEnd {stream := {s with opener := .opened false}}
  | refuse (error : String) : s.handler = .opening →
      Acts codec s (.refuse error) {
        stream := {s with handler := .refusing, answered := s.answered ++ [codec.toVec (.err error)]}
        down := [.data (codec.toVec (.err error))]}
  | refuseClose : s.handler = .refusing →
      Acts codec s .refuseClose {stream := {s with handler := .refused}, down := [.close]}
  | connected : s.handler = .opening →
      Acts codec s .connected {
        stream := {s with handler := .relaying true true, answered := s.answered ++ [codec.toVec .success]}
        down := [.data (codec.toVec .success)]}
  | uplink {m : Bytes} {rest : List Bytes} {downlink : Bool} : s.handler = .relaying true downlink →
      s.agentInbound = m :: rest →
      Acts codec s .uplink {stream := {s with agentInbound := rest, relayed := s.relayed ++ [m]}}
  | uplinkFail {m : Bytes} {rest : List Bytes} {downlink : Bool} : s.handler = .relaying true downlink →
      s.agentInbound = m :: rest →
      Acts codec s .uplinkFail {stream := {s with agentInbound := rest, handler := .relaying false downlink}}
  | uplinkEnd {downlink : Bool} : s.handler = .relaying true downlink → s.agentInbound = [] → s.agentEntry = false →
      Acts codec s .uplinkEnd {stream := {s with handler := .relaying false downlink}}
  | downlink {uplink : Bool} (data : Bytes) : s.handler = .relaying uplink true →
      Acts codec s (.downlink data) {stream := {s with answered := s.answered ++ [data]}, down := [.data data]}
  | downlinkFail {uplink : Bool} : s.handler = .relaying uplink true →
      Acts codec s .downlinkFail {stream := {s with handler := .relaying uplink false}}

section
variable {codec : Codec OpenResponse}

theorem openStep_acts {a : StreamAction} {s : Stream} {r : Acted} (h : s.openStep codec a = some r) :
    Acts codec s a r := by
  unfold Stream.openStep at h
  split at h
  · split at h
    · split at h
      · cases h
        exact .opened ‹_› ‹_› ‹_› ‹_›
      · cases h
        exact .failed ‹_› ‹_›
    · cases h
      exact .failed ‹_› ‹_›
  · split at h
    · cases h
    · rename_i hentry
      cases h
      exact .closedEarly ‹_› ‹_› (Bool.eq_false_of_not_eq_true hentry)
  · cases h
    exact .timeout ‹_›
  · cases h

theorem sessionStep_acts {a : StreamAction} {s : Stream} {r : Acted} (h : s.sessionStep a = some r) :
    Acts codec s a r := by
  unfold Stream.sessionStep at h
  split at h
  · cases h
    exact .sendData _ ‹_›
  · cases h
    exact .close ‹_›
  · cases h
    exact .respond ‹_› ‹_›
  · cases h
    exact .respondFail ‹_› ‹_›
  · split at h
    · cases h
    · rename_i hentry
      cases h
      exact .respondEnd ‹_› ‹_› (Bool.eq_false_of_not_eq_true hentry)
  · cases h

theorem handlerStep_acts {a : StreamAction} {s : Stream} {r : Acted} (h : s.handlerStep codec a = some r) :
    Acts codec s a r := by
  unfold Stream.handlerStep at h
  split at h
  · cases h
    exact .refuse _ ‹_›
  · cases h
    exact .refuseClose ‹_›
  · cases h
    exact .connected ‹_›
  · split at h
    · cases h
      exact .uplink ‹_› ‹_›
    · cases h
  · split at h
    · cases h
      exact .uplinkFail ‹_› ‹_›
    · cases h
  · split at h
    · rename_i hended
      cases h
      exact .uplinkEnd ‹_› hended.1 hended.2
    · cases h
  · cases h
    exact .downlink _ ‹_›
  · cases h
    exact .downlinkFail ‹_›
  · cases h

theorem acts_of_act {a : StreamAction} {s : Stream} {r : Acted} (h : s.act codec a = some r) : Acts codec s a r := by
  unfold Stream.act at h
  split at h
  all_goals first
    | exact openStep_acts h
    | exact sessionStep_acts h
    | exact handlerStep_acts h

end

/-! ### One stream -/

/-- The frames in flight for a stream. -/
def flight (k : Nat) (wire : List (Nat × Frame)) : List Frame :=
  wire.filterMap fun (k', f) => if k' = k then some f else none

@[simp] theorem flight_nil (k : Nat) : flight k [] = [] := rfl

@[simp] theorem flight_append (k : Nat) (a b : List (Nat × Frame)) : flight k (a ++ b) = flight k a ++ flight k b :=
  List.filterMap_append

theorem flight_cons (k k' : Nat) (f : Frame) (wire : List (Nat × Frame)) :
    flight k ((k', f) :: wire) = if k' = k then f :: flight k wire else flight k wire := by
  unfold flight
  split
  · rename_i h
    simp [h]
  · rename_i h
    simp [h]

theorem flight_map (k k' : Nat) (frames : List Frame) :
    flight k (frames.map (k', ·)) = if k' = k then frames else [] := by
  induction frames with
  | nil => simp
  | cons f frames ih =>
    rw [List.map_cons, flight_cons, ih]
    split <;> rfl

/-- A stream with the frames that are in flight for it. -/
structure View where
  stream : Stream
  up : List Frame
  down : List Frame

/-- What a step is to the stream `k`. -/
inductive Local (codec : Codec OpenResponse) (k : Nat) : Action → View → View → Prop where
  | other {a : Action} (v : View) : (∀ b, a ≠ .stream k b) → Local codec k a v v
  | act {s : Stream} {up down : List Frame} {b : StreamAction} {r : Acted} : Acts codec s b r →
      Local codec k (.stream k b) ⟨s, up, down⟩ ⟨r.stream, up ++ r.up, down ++ r.down⟩
  | down (s : Stream) (up down : List Frame) (f : Frame) :
      Local codec k .controllerRead ⟨s, up, f :: down⟩ ⟨s.onDown f, up, down⟩
  | up (s : Stream) (up down : List Frame) (f : Frame) :
      Local codec k .agentRead ⟨s, f :: up, down⟩ ⟨s.onUp f, up, down⟩

def State.view (t : State) (k : Nat) (s : Stream) : View := ⟨s, flight k t.toAgent, flight k t.toController⟩

section
variable {codec : Codec OpenResponse}

/-- A step opens a stream or is a step of each stream. -/
theorem step_local {a : Action} {t u : State} (h : step codec a t = some u) {k : Nat} {s' : Stream}
    (hs' : u.streams[k]? = some s') :
    (a = .openStream ∧ k = t.streams.length ∧ s' = {} ∧ u.toAgent = t.toAgent ++ [(k, .open)] ∧
        u.toController = t.toController) ∨
      ∃ s, t.streams[k]? = some s ∧ Local codec k a (t.view k s) (u.view k s') := by
  unfold step at h
  split at h
  · cases h
    rw [Heap.get_push] at hs'
    split at hs'
    · rename_i hk
      exact .inl ⟨rfl, hk, (Option.some.inj hs').symm, by rw [hk], rfl⟩
    · rename_i hk
      refine .inr ⟨s', hs', ?_⟩
      have hflight : flight k (t.toAgent ++ [(t.streams.length, .open)]) = flight k t.toAgent := by
        rw [flight_append, flight_cons, if_neg (Ne.symm hk), flight_nil, List.append_nil]
      rw [State.view, State.view, hflight]
      exact .other _ nofun
  · split at h
    · cases h
    · rename_i k' f rest hwire
      cases h
      rw [List.getElem?_modify] at hs'
      obtain ⟨s, hs, rfl⟩ := Option.map_eq_some_iff.mp hs'
      refine .inr ⟨s, hs, ?_⟩
      rw [State.view, State.view, hwire, flight_cons]
      split
      · exact .up s _ _ f
      · exact .other _ nofun
  · split at h
    · cases h
    · rename_i k' f rest hwire
      cases h
      rw [List.getElem?_modify] at hs'
      obtain ⟨s, hs, rfl⟩ := Option.map_eq_some_iff.mp hs'
      refine .inr ⟨s, hs, ?_⟩
      rw [State.view, State.view, hwire, flight_cons]
      split
      · exact .down s _ _ f
      · exact .other _ nofun
  · split at h
    · cases h
    · rename_i k' b _ s hs
      obtain ⟨r, hr, rfl⟩ := Option.map_eq_some_iff.mp h
      rw [Heap.get_set hs] at hs'
      rw [State.view, flight_append, flight_append, flight_map, flight_map]
      split at hs'
      · rename_i hk
        cases hs'
        subst hk
        rw [if_pos rfl, if_pos rfl]
        exact .inr ⟨s, hs, .act (acts_of_act hr)⟩
      · rename_i hk
        rw [if_neg (Ne.symm hk), if_neg (Ne.symm hk), List.append_nil, List.append_nil]
        refine .inr ⟨s', hs', .other _ fun b heq => hk ?_⟩
        cases heq
        rfl

/-- Streams are only added, and a step is one of a stream that is there. -/
theorem step_length {a : Action} {t u : State} (h : step codec a t = some u) :
    t.streams.length ≤ u.streams.length ∧ ∀ k b, a = .stream k b → k < t.streams.length := by
  unfold step at h
  split at h
  · cases h
    exact ⟨by simp, nofun⟩
  · split at h
    · cases h
    · cases h
      exact ⟨by simp, nofun⟩
  · split at h
    · cases h
    · cases h
      exact ⟨by simp, nofun⟩
  · split at h
    · cases h
    · rename_i hs
      obtain ⟨r, -, rfl⟩ := Option.map_eq_some_iff.mp h
      refine ⟨by simp, fun k b heq => ?_⟩
      cases heq
      exact (List.getElem?_eq_some_iff.mp hs).1

/-! ### Tables -/

/-- The `Open` is read once, and the controller's entry is there until the handler has
refused; its `Close` is the last frame it sends. -/
structure Tables (v : View) : Prop where
  opens : v.up.count .open = if v.stream.handler = .absent then 1 else 0
  kept : v.stream.handler ≠ .refused → v.stream.entry = true ∧ .close ∉ v.down
  refused : v.stream.handler = .refused → v.stream.entry = false ∧ v.down = [] ∨
    v.stream.entry = true ∧ ∃ init, v.down = init ++ [.close] ∧ .close ∉ init

theorem tables_init : Tables ⟨{}, [.open], []⟩ := ⟨by decide, by decide, nofun⟩

theorem Tables.no_open {v : View} (h : Tables v) (hhandler : v.stream.handler ≠ .absent) : .open ∉ v.up := by
  have hopens := h.opens
  rw [if_neg hhandler] at hopens
  exact List.count_eq_zero.mp hopens

/-- The handler stays where it is and sends nothing. -/
theorem Tables.same {s s' : Stream} {up down up' : List Frame} (h : Tables ⟨s, up, down⟩)
    (hhandler : s'.handler = s.handler) (hentry : s'.entry = s.entry) (hopen : .open ∉ up') :
    Tables ⟨s', up ++ up', down ++ []⟩ := by
  rw [List.append_nil]
  refine ⟨?_, ?_, ?_⟩
  · show (up ++ up').count .open = _
    rw [List.count_append, List.count_eq_zero_of_not_mem hopen, hhandler]
    exact h.opens
  · show s'.handler ≠ .refused → s'.entry = true ∧ _
    rw [hhandler, hentry]
    exact h.kept
  · show s'.handler = .refused → s'.entry = false ∧ _ ∨ s'.entry = true ∧ _
    rw [hhandler, hentry]
    exact h.refused

/-- The handler goes on without refusing. -/
theorem Tables.goesOn {s s' : Stream} {up down down' : List Frame} (h : Tables ⟨s, up, down⟩)
    (hbefore : s.handler ≠ .absent ∧ s.handler ≠ .refused) (hafter : s'.handler ≠ .absent ∧ s'.handler ≠ .refused)
    (hentry : s'.entry = s.entry) (hclose : .close ∉ down') : Tables ⟨s', up ++ [], down ++ down'⟩ := by
  rw [List.append_nil]
  refine ⟨?_, fun _ => ?_, fun hrefused => absurd hrefused hafter.2⟩
  · show up.count .open = _
    rw [if_neg hafter.1]
    exact List.count_eq_zero.mpr (h.no_open hbefore.1)
  · obtain ⟨hkept, hdown⟩ := h.kept hbefore.2
    refine ⟨hentry.trans hkept, ?_⟩
    rw [List.mem_append, not_or]
    exact ⟨hdown, hclose⟩

theorem tables_act {s : Stream} {up down : List Frame} {a : StreamAction} {r : Acted} (h : Tables ⟨s, up, down⟩)
    (hr : Acts codec s a r) : Tables ⟨r.stream, up ++ r.up, down ++ r.down⟩ := by
  cases hr with
  | opened _ _ _ _ | failed _ _ | closedEarly _ _ _ | timeout _ | sendData _ _ | close _ | respond _ _
  | respondFail _ _ | respondEnd _ _ _ | uplink _ _ => exact h.same rfl rfl (by simp)
  | refuse _ hhandler | connected hhandler | uplinkFail hhandler _ | uplinkEnd hhandler _ _ | downlink _ hhandler
  | downlinkFail hhandler =>
    exact h.goesOn (by simp [hhandler]) (by simp [hhandler]) rfl (by simp)
  | refuseClose hhandler =>
    obtain ⟨hentry, hclose⟩ := h.kept (by simp [hhandler])
    refine ⟨?_, fun hne => absurd rfl hne, fun _ => .inr ⟨hentry, down, rfl, hclose⟩⟩
    have hopen : .open ∉ up := h.no_open (by simp [hhandler])
    simpa [List.count_eq_zero] using hopen

/-- What is in flight finds the stream in the table. -/
theorem Tables.receives {s : Stream} {up down : List Frame} {f : Frame} (h : Tables ⟨s, up, f :: down⟩) :
    s.entry = true := by
  by_cases hrefused : s.handler = .refused
  · obtain ⟨-, hnil⟩ | ⟨hentry, -⟩ := h.refused hrefused
    · cases hnil
    · exact hentry
  · exact (h.kept hrefused).1

theorem tables_down {s : Stream} {up down : List Frame} {f : Frame} (h : Tables ⟨s, up, f :: down⟩) :
    Tables ⟨s.onDown f, up, down⟩ := by
  refine ⟨?_, ?_, ?_⟩
  · show up.count .open = _
    rw [Stream.onDown_handler]
    exact h.opens
  · show (s.onDown f).handler ≠ .refused → _
    rw [Stream.onDown_handler]
    intro hne
    obtain ⟨hentry, hclose⟩ := h.kept hne
    simp only [List.mem_cons, not_or] at hclose
    refine ⟨?_, hclose.2⟩
    rw [Stream.onDown_kept hentry (Ne.symm hclose.1)]
    exact hentry
  · show (s.onDown f).handler = .refused → _
    rw [Stream.onDown_handler]
    intro hrefused
    obtain ⟨-, hnil⟩ | ⟨hentry, init, hdown, hclose⟩ := h.refused hrefused
    · cases hnil
    · cases init with
      | nil =>
        obtain ⟨rfl, rfl⟩ := List.cons.inj hdown
        exact .inl ⟨rfl, rfl⟩
      | cons g init =>
        obtain ⟨rfl, rfl⟩ := List.cons.inj hdown
        simp only [List.mem_cons, not_or] at hclose
        refine .inr ⟨?_, init, rfl, hclose.2⟩
        rw [Stream.onDown_kept hentry (Ne.symm hclose.1)]
        exact hentry

/-- An `Open` in flight is the first thing the agent reads of a stream. -/
theorem Tables.absent {s : Stream} {up down : List Frame} (h : Tables ⟨s, .open :: up, down⟩) :
    s.handler = .absent ∧ .open ∉ up := by
  have hopens := h.opens
  simp only [List.count_cons_self] at hopens
  split at hopens
  · rename_i habsent
    exact ⟨habsent, List.count_eq_zero.mp (by omega)⟩
  · omega

theorem tables_up {s : Stream} {up down : List Frame} {f : Frame} (h : Tables ⟨s, f :: up, down⟩) :
    Tables ⟨s.onUp f, up, down⟩ := by
  by_cases hf : f = .open
  · subst hf
    obtain ⟨habsent, hopen⟩ := h.absent
    exact ⟨List.count_eq_zero.mpr hopen, fun _ => h.kept (by simp [habsent]), nofun⟩
  · obtain ⟨entry, inbound, closed, hread⟩ := s.onUp_eq hf
    have hopens : (f :: up).count .open = if s.handler = .absent then 1 else 0 := h.opens
    rw [List.count_cons_of_ne hf] at hopens
    rw [hread]
    exact ⟨hopens, h.kept, h.refused⟩

theorem tables_local {k : Nat} {a : Action} {v v' : View} (h : Tables v) (hstep : Local codec k a v v') : Tables v' := by
  cases hstep with
  | other _ _ => exact h
  | act hr => exact tables_act h hr
  | down s up down f => exact tables_down h
  | up s up down f => exact tables_up h

/-! ### Answers -/

/-- What `open_stream` finds while it waits: nothing, the refusal alone, or the consent and
what the target has sent. -/
def Awaited (codec : Codec OpenResponse) (handler : Handler) (messages : List Bytes) : Prop :=
  match handler with
  | .absent | .opening => messages = []
  | .refusing | .refused => ∃ error, messages = [codec.toVec (.err error)]
  | .relaying _ _ => ∃ rest, messages = codec.toVec .success :: rest

/-- A stream that was opened is relayed, and only such a stream is closed. -/
structure Answers (codec : Codec OpenResponse) (v : View) : Prop where
  awaited : v.stream.opener = .waiting → Awaited codec v.stream.handler (v.stream.inbound ++ payloads v.down)
  opened : ∀ task, v.stream.opener = .opened task → ∃ uplink downlink, v.stream.handler = .relaying uplink downlink
  closes : .close ∈ v.up ∨ v.stream.closed = true → ∃ task, v.stream.opener = .opened task

theorem answers_init : Answers codec ⟨{}, [.open], []⟩ where
  awaited := fun _ => rfl
  opened := nofun
  closes := by simp

/-- What the answer says is what the handler does. -/
theorem Answers.response (hcodec : ∀ response, codec.Decodes response) {s : Stream} {up down : List Frame}
    (h : Answers codec ⟨s, up, down⟩) (hwaiting : s.opener = .waiting) {m : Bytes} {rest : List Bytes}
    (hinbound : s.inbound = m :: rest) {response : OpenResponse} (hm : codec.fromSlice m = .ok response)
    (hok : response.ok = true) : ∃ uplink downlink, s.handler = .relaying uplink downlink := by
  have hawaited : Awaited codec s.handler (m :: (rest ++ payloads down)) := by
    have := h.awaited hwaiting
    rwa [hinbound] at this
  have herr : ∀ error, m ≠ codec.toVec (.err error) := by
    rintro error rfl
    rw [hcodec] at hm
    cases hm
    cases hok
  cases hhandler : s.handler with
  | absent | opening =>
    rw [hhandler] at hawaited
    cases hawaited
  | refusing | refused =>
    rw [hhandler] at hawaited
    obtain ⟨error, heq⟩ := hawaited
    exact absurd (List.cons.inj heq).1 (herr error)
  | relaying uplink downlink => exact ⟨uplink, downlink, rfl⟩

theorem Answers.not_opened {s : Stream} {up down : List Frame} (h : Answers codec ⟨s, up, down⟩)
    (hhandler : ∀ uplink downlink, s.handler ≠ .relaying uplink downlink) : ∀ task, s.opener ≠ .opened task := by
  intro task htask
  obtain ⟨uplink, downlink, hrelaying⟩ := h.opened task htask
  exact hhandler uplink downlink hrelaying

theorem answers_act (hcodec : ∀ response, codec.Decodes response) {s : Stream} {up down : List Frame}
    {a : StreamAction} {r : Acted} (h : Answers codec ⟨s, up, down⟩) (hr : Acts codec s a r) :
    Answers codec ⟨r.stream, up ++ r.up, down ++ r.down⟩ := by
  have hawaited := h.awaited
  have hopened := h.opened
  have hcloses := h.closes
  cases hr with
  | opened hwaiting hinbound hm hok =>
    refine ⟨nofun, fun _ _ => h.response hcodec hwaiting hinbound hm hok, fun _ => ⟨true, rfl⟩⟩
  | failed hwaiting _ | closedEarly hwaiting _ _ | timeout hwaiting =>
    refine ⟨nofun, nofun, fun hclose => ?_⟩
    obtain ⟨task, htask⟩ := hcloses (by simpa using hclose)
    simp [hwaiting] at htask
  | sendData _ htask | close htask | respond htask _ =>
    refine ⟨fun hwaiting => ?_, hopened, fun _ => ⟨_, htask⟩⟩
    simp [htask] at hwaiting
  | respondFail htask _ | respondEnd htask _ _ => exact ⟨nofun, fun _ _ => hopened _ htask, fun _ => ⟨_, rfl⟩⟩
  | refuse error hhandler =>
    have hnot := h.not_opened (by simp [hhandler])
    refine ⟨fun hwaiting => ⟨error, ?_⟩, fun task htask => absurd htask (hnot task), fun hclose => ?_⟩
    · have hnil : s.inbound ++ payloads down = [] := by simpa [Awaited, hhandler] using hawaited hwaiting
      show s.inbound ++ payloads (down ++ [Frame.data _]) = _
      rw [payloads_append, ← List.append_assoc, hnil]
      rfl
    · exact hcloses (by simpa using hclose)
  | refuseClose hhandler =>
    have hnot := h.not_opened (by simp [hhandler])
    refine ⟨fun hwaiting => ?_, fun task htask => absurd htask (hnot task), fun hclose => ?_⟩
    · have herror : Awaited codec .refusing (s.inbound ++ payloads down) := hhandler ▸ hawaited hwaiting
      show Awaited codec .refused (s.inbound ++ payloads (down ++ [Frame.close]))
      rw [payloads_append, show payloads [.close] = [] from rfl, List.append_nil]
      exact herror
    · exact hcloses (by simpa using hclose)
  | connected hhandler =>
    refine ⟨fun hwaiting => ⟨[], ?_⟩, fun _ _ => ⟨true, true, rfl⟩, fun hclose => ?_⟩
    · have hnil : s.inbound ++ payloads down = [] := by simpa [Awaited, hhandler] using hawaited hwaiting
      show s.inbound ++ payloads (down ++ [Frame.data _]) = _
      rw [payloads_append, ← List.append_assoc, hnil]
      rfl
    · exact hcloses (by simpa using hclose)
  | uplink hhandler _ =>
    refine ⟨?_, hopened, fun hclose => hcloses (by simpa using hclose)⟩
    simpa using hawaited
  | uplinkFail hhandler _ | uplinkEnd hhandler _ _ | downlinkFail hhandler =>
    refine ⟨fun hwaiting => ?_, fun _ _ => ⟨_, _, rfl⟩, fun hclose => hcloses (by simpa using hclose)⟩
    simpa [Awaited, hhandler] using hawaited hwaiting
  | downlink data hhandler =>
    refine ⟨fun hwaiting => ?_, hopened, fun hclose => hcloses (by simpa using hclose)⟩
    obtain ⟨rest, hrest⟩ : ∃ rest, s.inbound ++ payloads down = codec.toVec .success :: rest := by
      simpa [Awaited, hhandler] using hawaited hwaiting
    show Awaited codec s.handler (s.inbound ++ payloads (down ++ [.data data]))
    rw [hhandler, payloads_append, ← List.append_assoc, hrest]
    exact ⟨_, rfl⟩

theorem answers_down {s : Stream} {up down : List Frame} {f : Frame} (h : Answers codec ⟨s, up, f :: down⟩)
    (htables : Tables ⟨s, up, f :: down⟩) : Answers codec ⟨s.onDown f, up, down⟩ := by
  cases f with
  | «open» => exact ⟨h.awaited, h.opened, h.closes⟩
  | close => exact ⟨h.awaited, h.opened, h.closes⟩
  | data payload =>
    rw [Stream.onDown_kept (f := .data payload) htables.receives nofun]
    refine ⟨fun hwaiting => ?_, h.opened, h.closes⟩
    have := h.awaited hwaiting
    simpa [payloads] using this

theorem answers_up {s : Stream} {up down : List Frame} {f : Frame} (h : Answers codec ⟨s, f :: up, down⟩)
    (htables : Tables ⟨s, f :: up, down⟩) : Answers codec ⟨s.onUp f, up, down⟩ := by
  have hcloses := h.closes
  cases f with
  | «open» =>
    obtain ⟨habsent, -⟩ := htables.absent
    have hnot := h.not_opened (by simp [habsent])
    refine ⟨fun hwaiting => ?_, fun task htask => absurd htask (hnot task), fun hclose => ?_⟩
    · have hnil : Awaited codec .absent (s.inbound ++ payloads down) := habsent ▸ h.awaited hwaiting
      exact hnil
    · exact hcloses (by simpa [Stream.onUp] using hclose)
  | data payload =>
    show Answers codec ⟨if s.agentEntry then _ else s, up, down⟩
    have hclosed : .close ∈ up ∨ s.closed = true → ∃ task, s.opener = .opened task := fun hclose =>
      hcloses (by simpa using hclose)
    split
    · exact ⟨h.awaited, h.opened, hclosed⟩
    · exact ⟨h.awaited, h.opened, hclosed⟩
  | close => exact ⟨h.awaited, h.opened, fun _ => hcloses (by simp)⟩

theorem answers_local (hcodec : ∀ response, codec.Decodes response) {k : Nat} {a : Action} {v v' : View}
    (h : Answers codec v) (htables : Tables v) (hstep : Local codec k a v v') : Answers codec v' := by
  cases hstep with
  | other _ _ => exact h
  | act hr => exact answers_act hcodec h hr
  | down s up down f => exact answers_down h htables
  | up s up down f => exact answers_up h htables

/-! ### All streams -/

/-- Frames are for streams that were opened. -/
def Addressed (t : State) : Prop := ∀ p ∈ t.toAgent ++ t.toController, p.1 < t.streams.length

theorem step_addressed {a : Action} {t u : State} (h : Addressed t) (hstep : step codec a t = some u) : Addressed u := by
  unfold step at hstep
  split at hstep
  · cases hstep
    intro p hp
    have := h p
    simp only [List.mem_append, List.mem_singleton, List.length_append, List.length_singleton] at hp this ⊢
    rcases hp with (hp | rfl) | hp
    · have := this (.inl hp)
      omega
    · exact Nat.lt_succ_self _
    · have := this (.inr hp)
      omega
  · split at hstep
    · cases hstep
    · rename_i k f rest hwire
      cases hstep
      intro p hp
      rw [List.length_modify]
      refine h p ?_
      rw [hwire]
      exact List.mem_cons_of_mem _ hp
  · split at hstep
    · cases hstep
    · rename_i k f rest hwire
      cases hstep
      intro p hp
      rw [List.length_modify]
      refine h p ?_
      rw [hwire]
      simp only [List.mem_append, List.mem_cons] at hp ⊢
      exact hp.imp id .inr
  · split at hstep
    · cases hstep
    · rename_i k b _ s hs
      obtain ⟨r, -, rfl⟩ := Option.map_eq_some_iff.mp hstep
      have hk : k < t.streams.length := (List.getElem?_eq_some_iff.mp hs).1
      intro p hp
      rw [List.length_set]
      have := h p
      simp only [List.mem_append, List.mem_map] at hp this
      rcases hp with (hp | ⟨f, -, rfl⟩) | (hp | ⟨f, -, rfl⟩)
      · exact this (.inl hp)
      · exact hk
      · exact this (.inr hp)
      · exact hk

theorem addressed_reachable {t : State} (h : (system codec).Reachable t) : Addressed t := by
  apply h.invariant
  · simp [Addressed, system]
  · exact fun _ _ _ haddressed _ hstep => step_addressed haddressed hstep

theorem flight_eq_nil {k : Nat} {wire : List (Nat × Frame)} (h : ∀ p ∈ wire, p.1 ≠ k) : flight k wire = [] := by
  rw [flight, List.filterMap_eq_nil_iff]
  rintro ⟨k', f⟩ hp
  simp [h _ hp]

/-- What a stream begins with and each of its steps keeps holds of every stream. -/
theorem views_invariant {I : View → Prop} (hinit : I ⟨{}, [.open], []⟩)
    (hlocal : ∀ {k a v v'}, I v → Local codec k a v v' → I v') {t : State} (h : (system codec).Reachable t) {k : Nat} {s : Stream} (hs : t.streams[k]? = some s) :
    I (t.view k s) := by
  have hall : Addressed t ∧ ∀ k s, t.streams[k]? = some s → I (t.view k s) := by
    refine System.Reach.invariant (I := fun t => Addressed t ∧ ∀ k s, t.streams[k]? = some s → I (t.view k s)) h
      ⟨by simp [Addressed, system], by simp [system]⟩ ?_
    rintro a t u ⟨haddressed, hviews⟩ - hstep
    refine ⟨step_addressed haddressed hstep, fun k s' hs' => ?_⟩
    rcases step_local hstep hs' with ⟨-, rfl, rfl, hup, hdown⟩ | ⟨s, hs, hmove⟩
    · have hfresh : ∀ p ∈ t.toAgent ++ t.toController, p.1 ≠ t.streams.length := fun p hp =>
        Nat.ne_of_lt (haddressed p hp)
      have hagent : flight t.streams.length t.toAgent = [] :=
        flight_eq_nil fun p hp => hfresh p (List.mem_append_left _ hp)
      have hcontroller : flight t.streams.length t.toController = [] :=
        flight_eq_nil fun p hp => hfresh p (List.mem_append_right _ hp)
      rw [State.view, hup, hdown, flight_append, flight_cons, if_pos rfl, hagent, hcontroller]
      exact hinit
    · exact hlocal (hviews k s hs) hmove
  exact hall.2 k s hs

theorem tables_reachable {t : State} (h : (system codec).Reachable t) {k : Nat} {s : Stream}
    (hs : t.streams[k]? = some s) : Tables (t.view k s) :=
  views_invariant tables_init tables_local h hs

theorem answers_reachable (hcodec : ∀ response, codec.Decodes response) {t : State} (h : (system codec).Reachable t)
    {k : Nat} {s : Stream} (hs : t.streams[k]? = some s) : Answers codec (t.view k s) := by
  refine (views_invariant (I := fun v => Tables v ∧ Answers codec v) ⟨tables_init, answers_init⟩ ?_ h hs).2
  rintro _ _ v v' ⟨htables, hanswers⟩ hstep
  exact ⟨tables_local htables hstep, answers_local hcodec hanswers htables hstep⟩

/-- A stream that `open_stream` returned is relayed, and it is in the controller's table. -/
theorem opened_relays (hcodec : ∀ response, codec.Decodes response) {t : State} (h : (system codec).Reachable t)
    {k : Nat} {s : Stream} (hs : t.streams[k]? = some s) {task : Bool} (hopened : s.opener = .opened task) :
    (∃ uplink downlink, s.handler = .relaying uplink downlink) ∧ s.entry = true ∧ .close ∉ flight k t.toController := by
  obtain ⟨uplink, downlink, hhandler⟩ := (answers_reachable hcodec h hs).opened task hopened
  refine ⟨⟨uplink, downlink, hhandler⟩, (tables_reachable h hs).kept ?_⟩
  rw [hhandler]
  exact nofun

end

/-! ### The mux below -/

/-- A frame of a stream as the mux has it. -/
def Frame.toMux (id : UInt32) (request : Bytes) : Frame → Mux.Frame
  | .open => ⟨.open, id, request⟩
  | .data payload => ⟨.data, id, payload⟩
  | .close => ⟨.close, id, []⟩

/-- An end of a stream in its mux: whether the sender of channel `c` is in the table, and
what the channel holds. -/
structure InMux (e : Mux.Endpoint) (id : UInt32) (c : Nat) (entry : Bool) (inbound : List Bytes) : Prop where
  table : e.streams.lookup id = if entry then some c else none
  channel : e.channels[c]?.map Mux.Channel.queue = some inbound

section
variable {e : Mux.Endpoint} {id : UInt32} {c : Nat} {entry : Bool} {inbound : List Bytes}

theorem InMux.data (h : InMux e id c entry inbound) (payload : Bytes) :
    InMux (e.onFrame ⟨.data, id, payload⟩) id c entry (if entry then inbound ++ [payload] else inbound) := by
  have htable := h.table
  cases entry with
  | false =>
    simp only [Bool.false_eq_true, if_false] at htable
    simp only [Mux.Endpoint.onFrame, htable]
    exact ⟨h.table, h.channel⟩
  | true =>
    simp only [if_true] at htable
    simp only [Mux.Endpoint.onFrame, htable]
    obtain ⟨ch, hch, rfl⟩ := Option.map_eq_some_iff.mp h.channel
    refine ⟨h.table, ?_⟩
    simp [hch]

theorem InMux.close (h : InMux e id c entry inbound) : InMux (e.onFrame ⟨.close, id, []⟩) id c false inbound := by
  refine ⟨?_, h.channel⟩
  show (e.streams.erase id).lookup id = none
  rw [Table.lookup_erase, if_pos rfl]

/-- A frame of another stream. -/
theorem InMux.other (h : InMux e id c entry inbound) (hc : ∀ id', e.streams.lookup id' = some c → id' = id)
    {f : Mux.Frame} (hf : f.streamId ≠ id) : InMux (e.onFrame f) id c entry inbound := by
  obtain ⟨ch, hch, hqueue⟩ := Option.map_eq_some_iff.mp h.channel
  have herased : (e.streams.erase f.streamId).lookup id = if entry then some c else none := by
    rw [Table.lookup_erase, if_neg (Ne.symm hf)]
    exact h.table
  unfold Mux.Endpoint.onFrame
  dsimp only
  split
  · refine ⟨?_, ?_⟩
    · show (e.streams.insert f.streamId _).lookup id = _
      rw [Table.lookup_insert, if_neg (Ne.symm hf)]
      exact h.table
    · show (e.channels ++ [_])[c]?.map _ = _
      rw [Heap.get_push_of_some hch]
      exact congrArg some hqueue
  · exact ⟨h.table, h.channel⟩
  · split
    · rename_i c' hc'
      have hne : c' ≠ c := fun heq => hf (hc f.streamId (heq ▸ hc'))
      refine ⟨h.table, ?_⟩
      show (e.channels.modify c' _)[c]?.map _ = _
      rw [List.getElem?_modify_ne _ _ hne]
      exact h.channel
    · exact ⟨h.table, h.channel⟩
  · exact ⟨herased, h.channel⟩
  · exact ⟨herased, h.channel⟩
  · exact ⟨h.table, h.channel⟩
  · exact ⟨h.table, h.channel⟩

/-- The reader task of the controller's mux is `onDown` on each stream. -/
theorem onDown_inMux {s : Stream} (h : InMux e id c s.entry s.inbound) {f : Frame} (hf : f ≠ .open) (request : Bytes) :
    InMux (e.onFrame (f.toMux id request)) id c (s.onDown f).entry (s.onDown f).inbound := by
  cases f with
  | «open» => exact absurd rfl hf
  | data payload =>
    cases hentry : s.entry <;> simpa [Stream.onDown, Frame.toMux, hentry] using h.data payload
  | close => exact h.close

/-- That of the agent's mux is `onUp`. -/
theorem onUp_inMux {s : Stream} (h : InMux e id c s.agentEntry s.agentInbound) {f : Frame} (hf : f ≠ .open)
    (request : Bytes) : InMux (e.onFrame (f.toMux id request)) id c (s.onUp f).agentEntry (s.onUp f).agentInbound := by
  cases f with
  | «open» => exact absurd rfl hf
  | data payload =>
    cases hentry : s.agentEntry <;> simpa [Stream.onUp, Frame.toMux, hentry] using h.data payload
  | close => exact h.close

/-- An `Open` makes a channel, and the request is the first that it holds. -/
theorem onUp_open_inMux (e : Mux.Endpoint) (id : UInt32) (s : Stream) {request : Bytes} (hrequest : request ≠ []) :
    InMux (e.onFrame (Frame.toMux id request .open)) id e.channels.length (s.onUp .open).agentEntry [request] := by
  refine ⟨?_, ?_⟩
  · show (e.streams.insert id e.channels.length).lookup id = _
    rw [Table.lookup_insert, if_pos rfl]
    rfl
  · simp [Mux.Endpoint.onFrame, Mux.Endpoint.newStream, Frame.toMux, hrequest]

end

end Rps.Udp
