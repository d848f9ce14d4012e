import Rps.Base.System
import Rps.Controller.Policy
import Rps.Controller.Db

/-! The life of a resource: tunnels and proxy accounts, their rows, their policies
and their traffic.

Five kinds of tasks share this state. Connections ask whether a key is allowed and
record the bytes they relay, first in the policy, then as a traffic event. The
traffic task gathers events and flushes them into the rows. `policy::run` takes
revocations off its queue or out of its own sweep and carries them out, row first.
The console's handlers create, update and delete resources, one database call, one
policy call or one stop or start at a time. Every step below is one such call.

What the theorems speak of is kept beside the state and read by no step:
`recorded` and `total` are the bytes recorded on a resource since it was created
and overall, `hits` each row or runtime a revocation touched, and `carried` the
revocations that are through. -/
namespace Rps.Controller
open Base

/-- The columns of a tunnel or an account that the policy is made from. -/
structure Row where
  enabled : Bool
  expiresAt : Option Int
  trafficLimitBytes : Option Nat
  rxBytes : Nat := 0
  txBytes : Nat := 0
  deriving DecidableEq

/-- What a create or update request sets. -/
structure RowInput where
  enabled : Bool
  expiresAt : Option Int
  trafficLimitBytes : Option Nat
  deriving DecidableEq

def RowInput.insert (input : RowInput) : Row :=
  {enabled := input.enabled, expiresAt := input.expiresAt, trafficLimitBytes := input.trafficLimitBytes.map u64ToI64}

def RowInput.update (input : RowInput) (row : Row) : Row :=
  {row with
    enabled := input.enabled
    expiresAt := input.expiresAt
    trafficLimitBytes := input.trafficLimitBytes.map u64ToI64}

/-- The usage a policy is registered with. -/
def Row.used (row : Row) : Nat := PolicyEnforcer.saturatingAdd row.rxBytes row.txBytes

/-- The routes under which a resource's traffic is recorded. -/
def routes (key : ResourceKey) : List String :=
  match key.kind with
  | .tunnel => [key.id]
  | .proxyAccount => ["http-proxy:" ++ key.id, "socks5:" ++ key.id, "socks5-udp:" ++ key.id]

structure TrafficEvent where
  clientId : String
  tunnelId : String
  rxBytes : Nat
  txBytes : Nat
  deriving DecidableEq

def trafficQueueCapacity : Nat := 65536
def flushRouteThreshold : Nat := 4096

/-- The traffic channel, the map `traffic::run` gathers in, and the batch a flush is
working through. -/
structure Traffic where
  queue : List TrafficEvent := []
  pending : Table (String × String) (Nat × Nat) := ∅
  batch : List ((String × String) × (Nat × Nat)) := []
  deriving DecidableEq

namespace Traffic

/-- `TrafficAggregator::record`. -/
def record (t : Traffic) (event : TrafficEvent) : Traffic :=
  if event.rxBytes = 0 ∧ event.txBytes = 0 then t
  else if t.queue.length < trafficQueueCapacity then {t with queue := t.queue ++ [event]}
  else t

/-- `flush` takes the whole map; its iteration order is not determined, so the
entries of the batch are taken in any order. -/
def flush (t : Traffic) : Traffic :=
  {t with batch := t.pending.entries.map fun e => (e.1, e.2), pending := ∅}

/-- One received event. -/
def recv (t : Traffic) (event : TrafficEvent) (rest : List TrafficEvent) : Traffic :=
  let route := (event.clientId, event.tunnelId)
  let entry := (t.pending.lookup route).getD (0, 0)
  let entry := (PolicyEnforcer.saturatingAdd entry.1 event.rxBytes, PolicyEnforcer.saturatingAdd entry.2 event.txBytes)
  let t := {t with queue := rest, pending := t.pending.insert route entry}
  if flushRouteThreshold ≤ t.pending.entries.length then t.flush else t

end Traffic

namespace Resources

/-- Where `policy::run` stands. A revocation first disables the row, then stops the
tunnel or signals the account's sessions; `began` is the number of registrations
when it was taken up, `rest` what the sweep has found besides. -/
inductive Runner where
  | idle
  | sweeping (now : Int) (visited : List ResourceKey) (found : List RevokeEvent)
  | draining (rest : List RevokeEvent)
  | disabling (event : RevokeEvent) (began : Nat) (rest : List RevokeEvent)
  | halting (event : RevokeEvent) (began : Nat) (rest : List RevokeEvent)
  deriving DecidableEq

inductive AdminKind where
  | create
  | update
  | delete
  deriving DecidableEq

/-- What a handler does next, with the row it has read back. -/
inductive AdminPhase where
  | reading
  | halting (row : Row)
  | settling (row : Row)
  | enrolling (row : Row)
  | checking
  | starting
  | failing
  | deleting
  | removing
  | finished
  deriving DecidableEq

structure Admin where
  kind : AdminKind
  key : ResourceKey
  phase : AdminPhase
  deriving DecidableEq

/-- A row disabled or a runtime stopped by a revocation, with the policy that was
registered under its key and whether the row was enabled at that moment. -/
structure Hit where
  event : RevokeEvent
  now : Int
  policy : Option PolicyState
  enabled : Bool
  deriving DecidableEq

/-- `active` are the tunnels that run and the accounts that have sessions; `adds`
are the calls of `TrafficRecorder::add` that are between their two halves. -/
structure State where
  rows : Table ResourceKey Row := ∅
  policy : PolicyEnforcer := {}
  active : Table ResourceKey Unit := ∅
  runner : Runner := .idle
  admins : List Admin := []
  adds : List TrafficEvent := []
  traffic : Traffic := {}
  recorded : ResourceKey → Nat := fun _ => 0
  total : Nat := 0
  hits : List Hit := []
  carried : List (RevokeEvent × Nat) := []

namespace State

def modifyRow (s : State) (key : ResourceKey) (f : Row → Row) : State :=
  match s.rows.lookup key with
  | some row => {s with rows := s.rows.insert key (f row)}
  | none => s

def rowEnabled (s : State) (key : ResourceKey) : Bool :=
  match s.rows.lookup key with
  | some row => row.enabled
  | none => false

/-- `disable_tunnel` and `disable_proxy_account`. -/
def disableRow (s : State) (key : ResourceKey) : State := s.modifyRow key fun row => {row with enabled := false}

/-- `stop` and `revoke_account`. -/
def halt (s : State) (key : ResourceKey) : State := {s with active := s.active.erase key}

/-- A revocation touches its resource. -/
def hit (s : State) (event : RevokeEvent) (now : Int) : State :=
  {s with hits := s.hits ++ [⟨event, now, s.policy.policies.lookup event.key, s.rowEnabled event.key⟩]}

def register (s : State) (key : ResourceKey) (row : Row) : State :=
  {s with policy := s.policy.register key row.expiresAt row.trafficLimitBytes row.used}

def remove (s : State) (key : ResourceKey) : State := {s with policy := s.policy.remove key}

/-- `TunnelManager::start`; `bound` tells whether the listener could be bound. -/
def start (s : State) (key : ResourceKey) (now : Int) (bound : Bool) : Bool × State :=
  if (s.active.lookup key).isSome then (false, s)
  else
    match s.policy.allowed now key with
    | (false, policy) => (false, {s with policy := policy})
    | (true, policy) =>
      if bound then (true, {s with policy := policy, active := s.active.insert key ()})
      else (false, {s with policy := policy})

/-- `add_resource_traffic`: the row a route belongs to gets the bytes. -/
def addResourceTraffic (s : State) (routeId : String) (rxBytes txBytes : Nat) : State :=
  match resourceKeyFromRoute routeId with
  | some key =>
    s.modifyRow key fun row =>
      {row with rxBytes := row.rxBytes + u64ToI64 rxBytes, txBytes := row.txBytes + u64ToI64 txBytes}
  | none => s

end State

/-- What a handler does after its row change: the state and its next phase. -/
def adminStep (s : State) (admin : Admin) (now : Int) (bound : Bool) : Option (State × AdminPhase) :=
  let key := admin.key
  match admin.phase with
  | .reading =>
    match s.rows.lookup key with
    | some row => some (s, if admin.kind = .create then .enrolling row else .halting row)
    | none => some (s, .finished)
  | .halting row => some (s.halt key, .settling row)
  | .settling row =>
    if row.enabled then some (s.register key row, if key.kind = .tunnel then .starting else .checking)
    else some (s.remove key, .finished)
  | .enrolling row =>
    some (s.register key row, if row.enabled ∧ key.kind = .tunnel then .starting else .finished)
  | .checking => some ({s with policy := (s.policy.allowed now key).2}, .finished)
  | .starting =>
    match s.start key now bound with
    | (true, s) => some (s, .finished)
    | (false, s) => some (s, .failing)
  | .failing =>
    if admin.kind = .create then some ({s with rows := s.rows.erase key}, .removing)
    else some (s.disableRow key, .removing)
  | .deleting => some (s.halt key, .removing)
  | .removing => some (s.remove key, .finished)
  | .finished => none

inductive Action where
  | allowed (now : Int) (key : ResourceKey)
  | session (key : ResourceKey)
  | add (key : ResourceKey) (event : TrafficEvent)
  | record (i : Nat)
  | recvTraffic
  | flush
  | flushRoute (i : Nat)
  | create (key : ResourceKey) (input : RowInput)
  | update (key : ResourceKey) (input : RowInput)
  | delete (key : ResourceKey)
  | admin (i : Nat) (now : Int) (bound : Bool)
  | recvRevoke
  | tick (now : Int)
  | visit (key : ResourceKey)
  | sweepEnd
  | revoke (now : Int)
  deriving DecidableEq

/-- The steps of `policy::run`. -/
def runnerStep (a : Action) (s : State) : Option State :=
  match a, s.runner with
  | .recvRevoke, .idle =>
    match s.policy.revokeTx with
    | event :: rest =>
      some {s with
        policy := {s.policy with revokeTx := rest}
        runner := .disabling event s.policy.registrations []}
    | [] => none
  | .tick now, .idle => some {s with runner := .sweeping now [] []}
  | .visit key, .sweeping now visited found =>
    if key ∈ visited then none
    else
      match s.policy.expiredKey now key with
      | (some event, policy) =>
        some {s with policy := policy, runner := .sweeping now (key :: visited) (found ++ [event])}
      | (none, policy) => some {s with policy := policy, runner := .sweeping now (key :: visited) found}
  | .sweepEnd, .sweeping _ _ found => some {s with runner := .draining found}
  | .revoke _, .draining [] => some {s with runner := .idle}
  | .revoke _, .draining (event :: rest) =>
    some {s with runner := .disabling event s.policy.registrations rest}
  | .revoke now, .disabling event began rest =>
    some {(s.hit event now).disableRow event.key with runner := .halting event began rest}
  | .revoke now, .halting event began rest =>
    some {(s.hit event now).halt event.key with
      runner := .draining rest
      carried := s.carried ++ [(event, began)]}
  | _, _ => none

/-- The steps of the connections and of the traffic task. -/
def trafficStep (a : Action) (s : State) : Option State :=
  match a with
  | .allowed now key => some {s with policy := (s.policy.allowed now key).2}
  | .session key => some {s with active := s.active.insert key ()}
  | .add key event =>
    if event.tunnelId ∈ routes key then
      some {s with
        policy := s.policy.recordRouteUsage event.tunnelId event.rxBytes event.txBytes
        adds := s.adds ++ [event]
        recorded := Function.update s.recorded key (s.recorded key + event.rxBytes + event.txBytes)
        total := s.total + event.rxBytes + event.txBytes}
    else none
  | .record i =>
    match s.adds[i]? with
    | some event => some {s with adds := s.adds.eraseIdx i, traffic := s.traffic.record event}
    | none => none
  | .recvTraffic =>
    match s.traffic.batch, s.traffic.queue with
    | [], event :: rest => some {s with traffic := s.traffic.recv event rest}
    | _, _ => none
  | .flush => if s.traffic.batch = [] then some {s with traffic := s.traffic.flush} else none
  | .flushRoute i =>
    match s.traffic.batch[i]? with
    | some ((_, route), (rxBytes, txBytes)) =>
      some ({s with traffic := {s.traffic with batch := s.traffic.batch.eraseIdx i}}.addResourceTraffic
        route rxBytes txBytes)
    | none => none
  | _ => none

/-- The first steps of the handlers: the row change. -/
def requestStep (a : Action) (s : State) : Option State :=
  match a with
  | .create key input =>
    match s.rows.lookup key with
    | some _ => none
    | none =>
      some {s with
        rows := s.rows.insert key input.insert
        recorded := Function.update s.recorded key 0
        admins := s.admins ++ [⟨.create, key, .reading⟩]}
  | .update key input =>
    match s.rows.lookup key with
    | some row =>
      some {s with rows := s.rows.insert key (input.update row), admins := s.admins ++ [⟨.update, key, .reading⟩]}
    | none => none
  | .delete key =>
    match s.rows.lookup key with
    | some _ => some {s with rows := s.rows.erase key, admins := s.admins ++ [⟨.delete, key, .deleting⟩]}
    | none => none
  | _ => none

def step (a : Action) (s : State) : Option State :=
  match a with
  | .allowed .. | .session .. | .add .. | .record .. | .recvTraffic | .flush | .flushRoute .. => trafficStep a s
  | .create .. | .update .. | .delete .. => requestStep a s
  | .admin i now bound =>
    match s.admins[i]? with
    | some admin =>
      (adminStep s admin now bound).map fun (s, phase) =>
        {s with admins := s.admins.set i {admin with phase := phase}}
    | none => none
  | .recvRevoke | .tick .. | .visit .. | .sweepEnd | .revoke .. => runnerStep a s

def system : System State Action where
  init := {}
  step := step

/-- The revocations `policy::run` has in hand. -/
def Runner.events : Runner → List RevokeEvent
  | .idle => []
  | .sweeping _ _ found => found
  | .draining rest => rest
  | .disabling event _ rest | .halting event _ rest => event :: rest

/-- The revocations that are queued or in hand. -/
def State.events (s : State) : List RevokeEvent := s.policy.revokeTx ++ s.runner.events

end Resources

end Rps.Controller
