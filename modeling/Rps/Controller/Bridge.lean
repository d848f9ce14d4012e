import Rps.Base.System
import Rps.Base.Table
import Rps.Pool.Path

/-! The bridge: agents that connect, and the registry of those that are online.

An agent's connection looks its client up, runs the Noise handshake under the key it
found, checks the Hello and then does what its role is. A Data connection enters itself
in `state.clients` and takes itself out when its mux ends, if the entry is still its own.
A Pool connection is parked in the pool of the entry it finds, and `open_pool_stream`
takes parked connections out of the pool of the entry it found. Meanwhile the console
changes and deletes clients. Every step below is one database call or one access to a
shared map or channel, or what the peer makes a connection do in between.

An object that is shared is an entry of a list that only grows: `conns` are the
connections and `channels` the pools. What the theorems speak of is kept beside the state
and read by no step: `latest` is the connection that entered itself last for a client. -/
namespace Rps.Controller
open Base

/-- The columns of a client that the bridge reads. -/
structure DbClient where
  psk : String
  enabled : Bool
  deriving DecidableEq

inductive HelloRole where
  | control
  | data
  | pool
  deriving DecidableEq

/-- `conn` is the connection that made the entry; `pool` is its pool's channel. -/
structure ClientConnection where
  conn : Nat
  dataSessionId : String
  pool : Nat
  deriving DecidableEq

namespace Bridge

/-- Where a run of `handle_conn` stands. `ended` is a Data connection whose mux has
ended and that has not taken itself out yet; `parking` is a Pool connection that has got
hold of a pool. -/
inductive Stage where
  | prelude
  | handshaking
  | greeting
  | acked (role : HelloRole)
  | recorded
  | online
  | ended
  | parking (pool : Nat)
  | parked
  | closed
  deriving DecidableEq

/-- `psk` is the key that was read, `session` the session id, once there is one. -/
structure Conn where
  clientId : String
  psk : String
  session : Option String
  stage : Stage
  deriving DecidableEq

/-- The streams parked in a pool, named by their connections. -/
structure Channel where
  clientId : String
  queue : List Nat
  deriving DecidableEq

/-- A call of `open_pool_stream` and the streams it has received; it holds the pool's
receiver until it is over. -/
structure Call where
  clientId : String
  pool : Nat
  received : List Nat
  ended : Bool
  deriving DecidableEq

/-- What the console asks for; the key of an update is trimmed. -/
inductive Request where
  | update (psk : String) (enabled : Bool)
  | delete
  deriving DecidableEq

/-- What a handler of the console does next. `loaded` and `changed` hold the key of the
row that was read first. -/
inductive AdminPhase where
  | start
  | loaded (old : String)
  | changed (old : String)
  | removing
  | counting
  | deleting
  | finished
  deriving DecidableEq

structure Admin where
  id : String
  request : Request
  phase : AdminPhase
  deriving DecidableEq

structure State where
  rows : Table String DbClient
  clients : Table String ClientConnection := ∅
  conns : List Conn := []
  channels : List Channel := []
  calls : List Call := []
  admins : List Admin := []
  latest : Table String Nat := ∅
  deriving DecidableEq

/-! ### Connections -/

inductive ConnAction where
  | lookup
  | fail
  | handshake
  | hello (clientId : String) (role : HelloRole)
  | connected (session : String)
  | insert
  | muxEnd
  | removeIf
  | getPool
  | send
  deriving DecidableEq

namespace State

/-- Somebody holds the receiver of the pool: its entry, or a call. -/
def receiving (s : State) (pool : Nat) : Bool :=
  s.clients.entries.any (fun e => e.2.pool = pool) || s.calls.any fun call => call.pool = pool && !call.ended

/-- `clients.insert`, with a new pool. -/
def enroll (s : State) (i : Nat) (conn : Conn) (session : String) : State :=
  {s with
    clients := s.clients.insert conn.clientId ⟨i, session, s.channels.length⟩
    channels := s.channels ++ [⟨conn.clientId, []⟩]
    latest := s.latest.insert conn.clientId i}

/-- `clients.remove_if`, for the entry of a session. -/
def retire (s : State) (clientId : String) (session : String) : State :=
  match s.clients.lookup clientId with
  | some current => if current.dataSessionId = session then {s with clients := s.clients.erase clientId} else s
  | none => s

/-- `pool_tx.send`. -/
def park (s : State) (pool i : Nat) : State :=
  match s.channels[pool]? with
  | some channel => {s with channels := s.channels.set pool {channel with queue := channel.queue ++ [i]}}
  | none => s

end State

/-- One step of a connection: the state, and the connection after. -/
def connStep (a : ConnAction) (s : State) (i : Nat) (conn : Conn) : Option (State × Conn) :=
  match a, conn.stage with
  | .lookup, .prelude =>
    match s.rows.lookup conn.clientId with
    | some row =>
      if row.enabled then some (s, {conn with psk := row.psk, stage := .handshaking})
      else some (s, {conn with stage := .closed})
    | none => some (s, {conn with stage := .closed})
  | .handshake, .handshaking => some (s, {conn with stage := .greeting})
  | .hello clientId role, .greeting =>
    if clientId = conn.clientId then some (s, {conn with stage := .acked role})
    else some (s, {conn with stage := .closed})
  | .connected session, .acked .data => some (s, {conn with session := some session, stage := .recorded})
  | .insert, .recorded =>
    match conn.session with
    | some session => some (s.enroll i conn session, {conn with stage := .online})
    | none => none
  | .muxEnd, .online => some (s, {conn with stage := .ended})
  | .removeIf, .ended =>
    match conn.session with
    | some session => some (s.retire conn.clientId session, {conn with stage := .closed})
    | none => none
  | .getPool, .acked .pool =>
    match s.clients.lookup conn.clientId with
    | some current => some (s, {conn with stage := .parking current.pool})
    | none => some (s, {conn with stage := .closed})
  | .send, .parking pool =>
    if s.receiving pool then some (s.park pool i, {conn with stage := .parked})
    else some (s, {conn with stage := .closed})
  -- an error on the connection or in the database before it is entered anywhere
  | .fail, .prelude | .fail, .handshaking | .fail, .greeting | .fail, .acked _ =>
    some (s, {conn with stage := .closed})
  | _, _ => none

/-! ### The console -/

/-- One step of a handler. The references to a client are counted in tables that are not
modelled, so the count is the environment's. -/
def adminStep (references : Nat) (s : State) (admin : Admin) : Option (State × AdminPhase) :=
  match admin.request, admin.phase with
  | .update psk _, .start =>
    match s.rows.lookup admin.id with
    | some row => some (s, if psk = "" then .finished else .loaded row.psk)
    | none => some (s, .finished)
  | .update psk enabled, .loaded old =>
    match s.rows.lookup admin.id with
    | some _ => some ({s with rows := s.rows.insert admin.id ⟨psk, enabled⟩}, .changed old)
    | none => some (s, .finished)
  | .update _ _, .changed old =>
    match s.rows.lookup admin.id with
    | some row => some (s, if !row.enabled || row.psk ≠ old then .removing else .finished)
    | none => some (s, .finished)
  | .update _ _, .removing => some ({s with clients := s.clients.erase admin.id}, .finished)
  | .delete, .start => some (s, if (s.clients.lookup admin.id).isSome then .finished else .counting)
  | .delete, .counting => some (s, if references > 0 then .finished else .deleting)
  | .delete, .deleting => some ({s with rows := s.rows.erase admin.id}, .finished)
  | _, _ => none

/-! ### The whole bridge -/

inductive Action where
  | accept (clientId : String)
  | conn (i : Nat) (a : ConnAction)
  | request (id : String) (request : Request)
  | admin (i : Nat) (references : Nat)
  | open (clientId : String)
  | receive (i : Nat)
  | ended (i : Nat)
  deriving DecidableEq

/-- A call takes the next stream of its pool; after `POOL_ACQUIRE_RETRIES` it is over. -/
def receiveStep (s : State) (i : Nat) (call : Call) : Option State :=
  if call.ended ∨ Pool.poolAcquireRetries ≤ call.received.length then none
  else
    match s.channels[call.pool]? with
    | some ⟨clientId, stream :: rest⟩ =>
      some {s with
        channels := s.channels.set call.pool ⟨clientId, rest⟩
        calls := s.calls.set i {call with received := call.received ++ [stream]}}
    | _ => none

def step (a : Action) (s : State) : Option State :=
  match a with
  | .accept clientId => some {s with conns := s.conns ++ [⟨clientId, "", none, .prelude⟩]}
  | .conn i a =>
    match s.conns[i]? with
    | some conn => (connStep a s i conn).map fun (s, conn) => {s with conns := s.conns.set i conn}
    | none => none
  | .request id request => some {s with admins := s.admins ++ [⟨id, request, .start⟩]}
  | .admin i references =>
    match s.admins[i]? with
    | some admin =>
      (adminStep references s admin).map fun (s, phase) =>
        {s with admins := s.admins.set i {admin with phase := phase}}
    | none => none
  | .open clientId =>
    match s.clients.lookup clientId with
    | some current => some {s with calls := s.calls ++ [⟨clientId, current.pool, [], false⟩]}
    | none => some s
  | .receive i =>
    match s.calls[i]? with
    | some call => receiveStep s i call
    | none => none
  | .ended i =>
    match s.calls[i]? with
    | some call => some {s with calls := s.calls.set i {call with ended := true}}
    | none => none

/-- The bridge over the clients there are. -/
def system (rows : Table String DbClient) : System State Action where
  init := {rows := rows}
  step := step

/-! ### What a step can do -/

/-- The connection has entered itself and not taken itself out. -/
def Stage.enrolled : Stage → Bool
  | .online | .ended => true
  | _ => false

/-- The connection has not got to what its role is. -/
def Stage.early : Stage → Bool
  | .prelude | .handshaking | .greeting | .acked _ | .parking _ => true
  | _ => false

/-- What a handler of the console does to the rows and the registry. -/
inductive AdminMoves (s : State) (admin : Admin) : State → AdminPhase → Prop where
  | keep (phase : AdminPhase) : admin.phase ≠ .removing →
      (∀ old, admin.phase = .changed old → phase = .removing ∨ s.rows.lookup admin.id = none ∨
        ∃ row, s.rows.lookup admin.id = some row ∧ row.enabled = true ∧ row.psk = old) →
      AdminMoves s admin s phase
  | change (old : String) (row row' : DbClient) : admin.phase = .loaded old → s.rows.lookup admin.id = some row →
      AdminMoves s admin {s with rows := s.rows.insert admin.id row'} (.changed old)
  | remove : admin.phase = .removing → AdminMoves s admin {s with clients := s.clients.erase admin.id} .finished
  | delete : admin.phase = .deleting → AdminMoves s admin {s with rows := s.rows.erase admin.id} .finished

inductive Moves (a : Action) (s : State) : State → Prop where
  | same : Moves a s s
  | accept (clientId : String) : Moves a s {s with conns := s.conns ++ [⟨clientId, "", none, .prelude⟩]}
  | advance (i : Nat) (conn conn' : Conn) : s.conns[i]? = some conn → conn.stage.early = true →
      conn'.stage.enrolled = false → conn'.stage ≠ .parked → conn'.clientId = conn.clientId →
      (conn'.session = conn.session ∨ ∃ x, a = .conn i (.connected x) ∧ conn'.session = some x) →
      (∀ pool, conn'.stage = .parking pool →
        ∃ current, s.clients.lookup conn.clientId = some current ∧ current.pool = pool) →
      Moves a s {s with conns := s.conns.set i conn'}
  | insert (i : Nat) (conn : Conn) (session : String) : a = .conn i .insert → s.conns[i]? = some conn →
      conn.stage = .recorded → conn.session = some session →
      Moves a s {s.enroll i conn session with conns := s.conns.set i {conn with stage := .online}}
  | muxEnd (i : Nat) (conn : Conn) : s.conns[i]? = some conn → conn.stage = .online →
      Moves a s {s with conns := s.conns.set i {conn with stage := .ended}}
  | removeIf (i : Nat) (conn : Conn) (session : String) : s.conns[i]? = some conn → conn.stage = .ended →
      conn.session = some session →
      Moves a s {s.retire conn.clientId session with conns := s.conns.set i {conn with stage := .closed}}
  | send (i : Nat) (conn : Conn) (pool : Nat) : s.conns[i]? = some conn → conn.stage = .parking pool →
      Moves a s {s.park pool i with conns := s.conns.set i {conn with stage := .parked}}
  | request (id : String) (request : Request) : Moves a s {s with admins := s.admins ++ [⟨id, request, .start⟩]}
  | admin (i references : Nat) (admin : Admin) {u : State} {phase : AdminPhase} : a = .admin i references →
      s.admins[i]? = some admin → AdminMoves s admin u phase →
      Moves a s {u with admins := s.admins.set i {admin with phase := phase}}
  | open (clientId : String) (current : ClientConnection) : s.clients.lookup clientId = some current →
      Moves a s {s with calls := s.calls ++ [⟨clientId, current.pool, [], false⟩]}
  | receive (i : Nat) (call : Call) (clientId : String) (stream : Nat) (rest : List Nat) :
      s.calls[i]? = some call → s.channels[call.pool]? = some ⟨clientId, stream :: rest⟩ →
      Moves a s {s with
        channels := s.channels.set call.pool ⟨clientId, rest⟩
        calls := s.calls.set i {call with received := call.received ++ [stream]}}
  | ended (i : Nat) (call : Call) : s.calls[i]? = some call →
      Moves a s {s with calls := s.calls.set i {call with ended := true}}

theorem adminStep_moves {references : Nat} {s u : State} {admin : Admin} {phase : AdminPhase}
    (h : adminStep references s admin = some (u, phase)) : u.admins = s.admins ∧ AdminMoves s admin u phase := by
  unfold adminStep at h
  split at h
  · split at h
    all_goals
      simp only [Option.some.injEq, Prod.mk.injEq] at h
      obtain ⟨rfl, -⟩ := h
      exact ⟨rfl, .keep _ (by simp_all) (by simp_all)⟩
  · split at h
    · simp only [Option.some.injEq, Prod.mk.injEq] at h
      obtain ⟨rfl, rfl⟩ := h
      exact ⟨rfl, .change _ _ _ ‹_› ‹_›⟩
    · simp only [Option.some.injEq, Prod.mk.injEq] at h
      obtain ⟨rfl, -⟩ := h
      exact ⟨rfl, .keep _ (by simp_all) (by simp_all)⟩
  · rename_i hphase
    split at h
    · rename_i row hrow
      simp only [Option.some.injEq, Prod.mk.injEq] at h
      obtain ⟨rfl, rfl⟩ := h
      refine ⟨rfl, .keep _ (by simp_all) fun old' hold' => ?_⟩
      rw [hphase, AdminPhase.changed.injEq] at hold'
      subst hold'
      split
      · exact .inl rfl
      · rename_i hkeep
        exact .inr (.inr ⟨row, hrow, by simpa using hkeep⟩)
    · rename_i hrow
      simp only [Option.some.injEq, Prod.mk.injEq] at h
      obtain ⟨rfl, -⟩ := h
      exact ⟨rfl, .keep _ (by simp_all) fun _ _ => .inr (.inl hrow)⟩
  · simp only [Option.some.injEq, Prod.mk.injEq] at h
    obtain ⟨rfl, rfl⟩ := h
    exact ⟨rfl, .remove ‹_›⟩
  · simp only [Option.some.injEq, Prod.mk.injEq] at h
    obtain ⟨rfl, -⟩ := h
    exact ⟨rfl, .keep _ (by simp_all) (by simp_all)⟩
  · simp only [Option.some.injEq, Prod.mk.injEq] at h
    obtain ⟨rfl, -⟩ := h
    exact ⟨rfl, .keep _ (by simp_all) (by simp_all)⟩
  · simp only [Option.some.injEq, Prod.mk.injEq] at h
    obtain ⟨rfl, rfl⟩ := h
    exact ⟨rfl, .delete ‹_›⟩
  · cases h

/-- A step of a connection that only changes where it stands. -/
theorem Moves.stage {a : Action} {s : State} {i : Nat} {conn : Conn} (hi : s.conns[i]? = some conn)
    (hearly : conn.stage.early = true) {stage : Stage} (hstage : stage.enrolled = false) (hparked : stage ≠ .parked)
    (hpool : ∀ pool, stage = .parking pool →
      ∃ current, s.clients.lookup conn.clientId = some current ∧ current.pool = pool) :
    Moves a s {s with conns := s.conns.set i {conn with stage := stage}} :=
  .advance i conn _ hi hearly hstage hparked rfl (.inl rfl) hpool

theorem connStep_moves {a : ConnAction} {s u : State} {i : Nat} {conn conn' : Conn} (hi : s.conns[i]? = some conn)
    (h : connStep a s i conn = some (u, conn')) :
    Moves (.conn i a) s {u with conns := u.conns.set i conn'} := by
  unfold connStep at h
  split at h
  · rename_i hstage
    split at h
    · split at h
      · cases h
        exact .advance i conn _ hi (by rw [hstage]; rfl) rfl (by simp) rfl (.inl rfl) (by simp)
      · cases h
        exact .stage hi (by rw [hstage]; rfl) rfl (by simp) (by simp)
    · cases h
      exact .stage hi (by rw [hstage]; rfl) rfl (by simp) (by simp)
  · rename_i hstage
    cases h
    exact .stage hi (by rw [hstage]; rfl) rfl (by simp) (by simp)
  · rename_i hstage
    split at h
    all_goals
      cases h
      exact .stage hi (by rw [hstage]; rfl) rfl (by simp) (by simp)
  · rename_i session hstage
    cases h
    exact .advance i conn _ hi (by rw [hstage]; rfl) rfl (by simp) rfl (.inr ⟨session, rfl, rfl⟩) (by simp)
  · split at h
    · cases h
      exact .insert i conn _ rfl hi ‹_› ‹_›
    · cases h
  · cases h
    exact .muxEnd i conn hi ‹_›
  · split at h
    · rename_i session hsession
      cases h
      have hconns : (s.retire conn.clientId session).conns = s.conns := by
        unfold State.retire
        split
        · split <;> rfl
        · rfl
      rw [hconns]
      exact .removeIf i conn session hi ‹_› hsession
    · cases h
  · rename_i hstage
    split at h
    · rename_i current hcurrent
      cases h
      refine .stage hi (by rw [hstage]; rfl) rfl (by simp) fun pool hpool => ⟨current, hcurrent, ?_⟩
      simpa using hpool
    · cases h
      exact .stage hi (by rw [hstage]; rfl) rfl (by simp) (by simp)
  · rename_i pool hstage
    split at h
    · cases h
      have hconns : (s.park pool i).conns = s.conns := by
        unfold State.park
        split <;> rfl
      rw [hconns]
      exact .send i conn pool hi hstage
    · cases h
      exact .stage hi (by rw [hstage]; rfl) rfl (by simp) (by simp)
  iterate 4
    · rename_i hstage
      cases h
      exact .stage hi (by rw [hstage]; rfl) rfl (by simp) (by simp)
  · cases h

theorem step_moves {a : Action} {s t : State} (h : step a s = some t) : Moves a s t := by
  cases a with
  | accept clientId =>
    cases h
    exact .accept clientId
  | conn i a =>
    simp only [step] at h
    split at h
    · rename_i conn hi
      obtain ⟨⟨u, conn'⟩, hconn, rfl⟩ := Option.map_eq_some_iff.mp h
      exact connStep_moves hi hconn
    · cases h
  | request id request =>
    cases h
    exact .request id request
  | admin i references =>
    simp only [step] at h
    split at h
    · rename_i admin hi
      obtain ⟨⟨u, phase⟩, hadmin, rfl⟩ := Option.map_eq_some_iff.mp h
      obtain ⟨hsame, hmoves⟩ := adminStep_moves hadmin
      show Moves _ s {u with admins := u.admins.set i {admin with phase := phase}}
      rw [hsame]
      exact .admin i references admin rfl hi hmoves
    · cases h
  | «open» clientId =>
    simp only [step] at h
    split at h
    · cases h
      exact .open clientId _ ‹_›
    · cases h
      exact .same
  | receive i =>
    simp only [step] at h
    split at h
    · rename_i call hi
      simp only [receiveStep, Option.ite_none_left_eq_some] at h
      obtain ⟨-, h⟩ := h
      split at h
      · cases h
        exact .receive i call _ _ _ hi ‹_›
      · cases h
    · cases h
  | ended i =>
    simp only [step] at h
    split at h
    · cases h
      exact .ended i _ ‹_›
    · cases h

end Bridge

end Rps.Controller
