import Rps.Base.System
import Rps.Controller.ProxyAuth

/-! Proxy sessions and the revocation of an account.

A connection at one of the proxy ports looks its account up, asks the policy,
opens a pooled stream, registers with the `ProxyManager` and starts its pipe; the
HTTP port registers before it opens the stream, the SOCKS5 port after. A revocation
changes the row, collects the sessions of the account shard by shard, removes them
one by one and sends each its shutdown signal.

`revoked_signalled`: when a revocation has completed, every connection that looked
the account up before it and relays has been sent the signal, and none starts
relaying later, provided the revocation does not fall between a connection's lookup
and its registration or between its registration and the start of its pipe. The
check and the registration are separate steps, and nothing looks again after the
registration (`revoked_survivor`). -/
namespace Rps.Controller
open Base

/-- An entry of the `ProxyManager`'s map; the shutdown sender leads to the
connection that holds the receiver. -/
structure ProxySessionEntry where
  accountId : String
  conn : Nat
  deriving DecidableEq

/-- The map of sessions. `Uuid::new_v4` gives an id that was not used before. -/
structure ProxyManager where
  sessions : Table Nat ProxySessionEntry := ∅
  nextId : Nat := 0

namespace ProxyManager

def register (m : ProxyManager) (accountId : String) (conn : Nat) : ProxyManager × Nat :=
  (⟨m.sessions.insert m.nextId ⟨accountId, conn⟩, m.nextId + 1⟩, m.nextId)

/-- The session ids of an account in one shard. -/
def collect (D : Sharding Nat) (m : ProxyManager) (accountId : String) (k : Nat) : List Nat :=
  (m.sessions.entries.filter fun e => e.2.accountId = accountId && (D.shard e.1).val = k).map (·.1)

def remove (m : ProxyManager) (id : Nat) : ProxyManager := {m with sessions := m.sessions.erase id}

end ProxyManager

namespace ProxyRevocation

/-- Where a connection stands. A SOCKS5 connection goes through `opened`, an HTTP
connection through `registered`; `ready` has a stream and a session. -/
inductive Stage where
  | lookedUp
  | authenticated
  | opened
  | registered
  | ready
  | piping
  | closed
  deriving DecidableEq

/-- `session` is the id of the session guard; `startedAt` the time its pipe started. -/
structure Conn where
  kind : ProxyKind
  account : String
  stage : Stage
  session : Option Nat
  signalled : Bool
  startedAt : Option Nat
  deriving DecidableEq

inductive RevokeOp where
  | policy (reason : RevokeReason)
  | update (input : UpdateProxyAccount)
  | delete

/-- Where `revoke_account` stands, and the time at which it returned. -/
inductive RevokePhase where
  | changed
  | collecting (shard : Nat) (ids : List Nat)
  | removing (ids : List Nat)
  | done (at_ : Nat)
  deriving DecidableEq

/-- A revocation whose row change has happened; `before` counts the connections that
had looked an account up by then, `used` is the usage in the row the handler got back. -/
structure Revocation where
  op : RevokeOp
  account : String
  used : Nat
  before : Nat
  phase : RevokePhase

structure State where
  clock : Nat := 0
  db : ProxyAccounts
  policy : PolicyEnforcer
  manager : ProxyManager := {}
  conns : List Conn := []
  revocations : List Revocation := []

inductive ConnAction where
  | check (now : Int)
  | openStream
  | register
  | start
  | close
  deriving DecidableEq

inductive RevokeAction where
  | collectStart
  | collectShard
  | removeNext
  | settle (now : Int)
  deriving DecidableEq

inductive Action where
  | lookup (kind : ProxyKind) (username password : String)
  | conn (c : Nat) (a : ConnAction)
  | usage (routeId : String) (rxBytes txBytes : Nat)
  | change (op : RevokeOp) (account : String)
  | revoke (r : Nat) (a : RevokeAction)

/-- The row change of a revocation, with the usage in the row an update returns;
`none` where the handler returns before `revoke_account`. -/
def RevokeOp.change (op : RevokeOp) (db : ProxyAccounts) (id : String) : Option (ProxyAccounts × Nat) :=
  match op with
  | .policy reason => some (db.disableProxyAccount id reason.asStr, 0)
  | .update input =>
    match db.updateProxyAccount id input with
    | .ok (some (db, account)) => some (db, PolicyEnforcer.saturatingAdd account.rxBytes account.txBytes)
    | _ => none
  | .delete =>
    match db.deleteProxyAccount id with
    | (db, true) => some (db, 0)
    | (_, false) => none

/-- What the handler does to the policy after `revoke_account`. -/
def Revocation.settle (rev : Revocation) (now : Int) (policy : PolicyEnforcer) : PolicyEnforcer :=
  let key := proxyAccountKey rev.account
  match rev.op with
  | .policy _ => policy
  | .delete => policy.remove key
  | .update input =>
    if input.enabled then
      ((policy.register key input.expiresAt (input.trafficLimitBytes.map u64ToI64) rev.used).allowed now key).2
    else policy.remove key

/-- One step of a connection. -/
def connStep (a : ConnAction) (s : State) (c : Nat) (conn : Conn) : Option (State × Conn) :=
  match a, conn.stage with
  | .check now, .lookedUp =>
    match s.policy.allowed now (proxyAccountKey conn.account) with
    | (true, policy) => some ({s with policy := policy}, {conn with stage := .authenticated})
    | (false, policy) => some ({s with policy := policy}, {conn with stage := .closed})
  | .openStream, .authenticated =>
    if conn.kind = .socks5 then some (s, {conn with stage := .opened}) else none
  | .openStream, .registered => some (s, {conn with stage := .ready})
  | .register, .authenticated =>
    if conn.kind = .http then
      match s.manager.register conn.account c with
      | (manager, id) => some ({s with manager := manager}, {conn with stage := .registered, session := some id})
    else none
  | .register, .opened =>
    match s.manager.register conn.account c with
    | (manager, id) => some ({s with manager := manager}, {conn with stage := .ready, session := some id})
  | .start, .ready => some (s, {conn with stage := .piping, startedAt := some s.clock})
  | .close, .closed => none
  | .close, _ =>
    -- an error on the way, or the end of the pipe; the guard removes its session
    match conn.session with
    | some id => some ({s with manager := s.manager.remove id}, {conn with stage := .closed})
    | none => some (s, {conn with stage := .closed})
  | _, _ => none

def setPhase (s : State) (r : Nat) (rev : Revocation) (phase : RevokePhase) : State :=
  {s with revocations := s.revocations.set r {rev with phase := phase}}

/-- `shutdown.send(true)` to the connection a session belongs to. -/
def signal (s : State) (id : Nat) : State :=
  match s.manager.sessions.lookup id with
  | some entry =>
    {s with
      manager := s.manager.remove id
      conns := s.conns.modify entry.conn fun conn => {conn with signalled := true}}
  | none => s

variable (D : Sharding Nat)

/-- One step of a revocation. -/
def revokeStep (a : RevokeAction) (s : State) (r : Nat) (rev : Revocation) : Option State :=
  match a, rev.phase with
  | .collectStart, .changed => some (setPhase s r rev (.collecting 0 []))
  | .collectShard, .collecting k ids =>
    if k < D.shards then some (setPhase s r rev (.collecting (k + 1) (ids ++ s.manager.collect D rev.account k)))
    else some (setPhase s r rev (.removing ids))
  | .removeNext, .removing (id :: ids) => some (setPhase (signal s id) r rev (.removing ids))
  | .removeNext, .removing [] => some (setPhase s r rev (.done s.clock))
  | .settle now, .done _ => some {s with policy := rev.settle now s.policy}
  | _, _ => none

def step (a : Action) (s : State) : Option State :=
  let tick (s : State) : State := {s with clock := s.clock + 1}
  match a with
  | .lookup kind username password =>
    match s.db.findEnabledProxyAccount kind username password with
    | some account =>
      some (tick {s with conns := s.conns ++ [⟨kind, account.id, .lookedUp, none, false, none⟩]})
    | none => none
  | .conn c a =>
    match s.conns[c]? with
    | some conn => (connStep a s c conn).map fun (s, conn) => tick {s with conns := s.conns.set c conn}
    | none => none
  | .usage routeId rxBytes txBytes =>
    some (tick {s with policy := s.policy.recordRouteUsage routeId rxBytes txBytes})
  | .change op account =>
    (op.change s.db account).map fun (db, used) =>
      tick {s with db := db, revocations := s.revocations ++ [⟨op, account, used, s.conns.length, .changed⟩]}
  | .revoke r a =>
    match s.revocations[r]? with
    | some rev => (revokeStep D a s r rev).map tick
    | none => none

def system (db : ProxyAccounts) (policy : PolicyEnforcer) : System State Action where
  init := {db := db, policy := policy}
  step := step D

/-! ### The property -/

/-- Once a revocation is done, a connection that looked its account up before it has
been sent the signal if it relays, and has not started to relay since. -/
def NoSurvivor (s : State) : Prop :=
  ∀ (r : Nat) (rev : Revocation) (doneAt : Nat), s.revocations[r]? = some rev → rev.phase = .done doneAt →
    ∀ (c : Nat) (conn : Conn), s.conns[c]? = some conn → c < rev.before → conn.account = rev.account →
      (conn.stage = .piping → conn.signalled = true) ∧ ∀ started, conn.startedAt = some started → started < doneAt

def Stage.unregistered : Stage → Bool
  | .lookedUp | .authenticated | .opened => true
  | _ => false

def Stage.unstarted : Stage → Bool
  | .registered | .ready => true
  | _ => false

/-- No connection that looked the account of `rev` up before its row change is at
such a stage. -/
def NoneAt (s : State) (rev : Revocation) (p : Stage → Bool) : Prop :=
  ∀ conn ∈ s.conns.take rev.before, conn.account = rev.account → p conn.stage = false

instance (s : State) (rev : Revocation) (p : Stage → Bool) : Decidable (NoneAt s rev p) :=
  inferInstanceAs (Decidable (∀ conn ∈ _, _ → _))

/-- When `revoke_account` starts to collect, no such connection is on its way to the
registration; when it returns, none is on its way from there to its pipe. -/
def RaceFree (a : Action) (s : State) : Prop :=
  match a with
  | .revoke r .collectStart => ∀ rev ∈ s.revocations[r]?, NoneAt s rev Stage.unregistered
  | .revoke r .removeNext => ∀ rev ∈ s.revocations[r]?, rev.phase = .removing [] → NoneAt s rev Stage.unstarted
  | _ => True

/-! ### The invariant -/

/-- What a revocation in this phase knows of a connection it is about. -/
def Covered (phase : RevokePhase) (conn : Conn) : Prop :=
  match phase with
  | .changed => True
  | .collecting k ids => conn.stage.unregistered = false ∧ ∀ id, conn.session = some id →
      conn.signalled = true ∨ conn.stage = .closed ∨ id ∈ ids ∨ k ≤ (D.shard id).val
  | .removing ids => conn.stage.unregistered = false ∧ ∀ id, conn.session = some id →
      conn.signalled = true ∨ conn.stage = .closed ∨ id ∈ ids
  | .done doneAt => conn.stage.unregistered = false ∧ conn.stage.unstarted = false ∧
      (conn.stage = .piping → conn.signalled = true) ∧
      ∀ started, conn.startedAt = some started → started < doneAt

/-- The stages at which a connection holds a session guard. -/
def Stage.live : Stage → Bool
  | .registered | .ready | .piping => true
  | _ => false

structure Inv (s : State) : Prop where
  guards : Heap.Guards Conn.session id s.conns s.manager.nextId
  live : ∀ (c : Nat) (conn : Conn), s.conns[c]? = some conn → conn.stage.live = true →
    ∃ id, conn.session = some id ∧
      (conn.signalled = true ∨ s.manager.sessions.lookup id = some ⟨conn.account, c⟩)
  unregistered : ∀ (c : Nat) (conn : Conn), s.conns[c]? = some conn → conn.stage.unregistered = true →
    conn.session = none
  started : ∀ (c : Nat) (conn : Conn) (t : Nat), s.conns[c]? = some conn → conn.startedAt = some t → t < s.clock
  before : ∀ rev ∈ s.revocations, rev.before ≤ s.conns.length
  covered : ∀ rev ∈ s.revocations, ∀ (c : Nat) (conn : Conn), s.conns[c]? = some conn → c < rev.before →
    conn.account = rev.account → Covered D rev.phase conn

theorem inv_init (db : ProxyAccounts) (policy : PolicyEnforcer) : Inv D {db := db, policy := policy} where
  guards := Heap.guards_nil
  live := by simp
  unregistered := by simp
  started := by simp
  before := by simp
  covered := by simp

variable {D}

theorem Stage.live_or (stage : Stage) (hreg : stage.unregistered = false) (hclosed : stage ≠ .closed) :
    stage.live = true := by
  cases stage <;> simp_all [Stage.unregistered, Stage.live]

/-- What one connection step has to keep: the sessions of the others, its own session
while it lives, and what every revocation knows of it. -/
theorem inv_conn {s : State} (h : Inv D s) {c : Nat} {conn : Conn} (hc : s.conns[c]? = some conn)
    {conn' : Conn} {manager : ProxyManager} (policy : PolicyEnforcer)
    (hnext : s.manager.nextId ≤ manager.nextId)
    (hids : ∀ id, conn'.session = some id →
      conn.session = some id ∨ id = s.manager.nextId ∧ s.manager.nextId < manager.nextId)
    (hothers : ∀ id entry, id < s.manager.nextId → conn.session ≠ some id →
      s.manager.sessions.lookup id = some entry → manager.sessions.lookup id = some entry)
    (hlive : conn'.stage.live = true → ∃ id, conn'.session = some id ∧
      (conn'.signalled = true ∨ manager.sessions.lookup id = some ⟨conn'.account, c⟩))
    (hunreg : conn'.stage.unregistered = true → conn'.session = none)
    (hstarted : ∀ t, conn'.startedAt = some t → t < s.clock + 1)
    (haccount : conn'.account = conn.account)
    (hcovered : ∀ phase, Covered D phase conn → Covered D phase conn') :
    Inv D {s with
      clock := s.clock + 1
      policy := policy
      manager := manager
      conns := s.conns.set c conn'} where
  guards := h.guards.set hc hnext hids
  live := by
    intro d x hd hx
    simp only [Heap.get_set hc] at hd
    split at hd
    · rename_i hdc
      cases hd
      rw [hdc]
      exact hlive hx
    · rename_i hdc
      obtain ⟨id, hid, hreg⟩ := h.live d x hd hx
      refine ⟨id, hid, hreg.imp_right fun hl => hothers id _ (h.guards.bound d x id hd hid) (fun hown => hdc ?_) hl⟩
      exact h.guards.distinct d c x conn id hd hc hid hown
  unregistered := by
    intro d x hd hx
    simp only [Heap.get_set hc] at hd
    split at hd
    · cases hd
      exact hunreg hx
    · exact h.unregistered d x hd hx
  started := by
    intro d x t hd hx
    simp only [Heap.get_set hc] at hd
    split at hd
    · cases hd
      exact hstarted t hx
    · exact Nat.lt_succ_of_lt (h.started d x t hd hx)
  before := by
    intro rev hrev
    simp only [List.length_set]
    exact h.before rev hrev
  covered := by
    intro rev hrev d x hd hlt hacc
    simp only [Heap.get_set hc] at hd
    split at hd
    · rename_i hdc
      cases hd
      rw [hdc] at hlt
      exact hcovered _ (h.covered rev hrev c conn hc hlt (haccount.symm.trans hacc))
    · exact h.covered rev hrev d x hd hlt hacc

/-- A step that keeps the session table and the connection's session. -/
theorem inv_stage {s : State} (h : Inv D s) {c : Nat} {conn : Conn} (hc : s.conns[c]? = some conn)
    {stage : Stage} {startedAt : Option Nat} (policy : PolicyEnforcer)
    (hlive : stage.live = true → conn.stage.live = true)
    (hunreg : stage.unregistered = true → conn.stage.unregistered = true)
    (hstarted : startedAt = conn.startedAt ∨ startedAt = some s.clock)
    (hcovered : ∀ phase, Covered D phase conn →
      Covered D phase {conn with stage := stage, startedAt := startedAt}) :
    Inv D {s with
      clock := s.clock + 1
      policy := policy
      conns := s.conns.set c {conn with stage := stage, startedAt := startedAt}} := by
  refine inv_conn h hc policy (Nat.le_refl _) (fun _ hid => .inl hid) (fun _ _ _ _ hl => hl) ?_ ?_ ?_ rfl hcovered
  · exact fun hl => h.live c conn hc (hlive hl)
  · exact fun hu => h.unregistered c conn hc (hunreg hu)
  · intro t ht
    rcases hstarted with hst | hst
    · have := h.started c conn t hc (hst ▸ ht)
      omega
    · obtain rfl : s.clock = t := Option.some.inj (hst.symm.trans ht)
      exact Nat.lt_succ_self _

/-- A revocation past its first phase knows of no unregistered connection. -/
theorem covered_of_unregistered {conn conn' : Conn} (hun : conn.stage.unregistered = true) (phase : RevokePhase)
    (hcov : Covered D phase conn) : Covered D phase conn' := by
  cases phase with
  | changed => trivial
  | collecting k ids => exact absurd hcov.1 (by simp [hun])
  | removing ids => exact absurd hcov.1 (by simp [hun])
  | done doneAt => exact absurd hcov.1 (by simp [hun])

theorem inv_register {s : State} (h : Inv D s) {c : Nat} {conn : Conn} (hc : s.conns[c]? = some conn)
    (hun : conn.stage.unregistered = true) {stage : Stage} (hstage : stage.live = true) :
    Inv D {s with
      clock := s.clock + 1
      manager := (s.manager.register conn.account c).1
      conns := s.conns.set c {conn with stage := stage, session := some s.manager.nextId}} := by
  have hstage' : stage.unregistered = false := by cases stage <;> simp_all [Stage.live, Stage.unregistered]
  refine inv_conn h hc s.policy (Nat.le_succ _) ?_ ?_ ?_ ?_ ?_ rfl (covered_of_unregistered hun)
  · intro id hid
    obtain rfl : s.manager.nextId = id := Option.some.inj hid
    exact .inr ⟨rfl, Nat.lt_succ_self _⟩
  · intro id entry hlt _ hl
    simp only [ProxyManager.register, Table.lookup_insert]
    rw [if_neg (by omega)]
    exact hl
  · intro _
    refine ⟨_, rfl, .inr ?_⟩
    simp [ProxyManager.register]
  · intro hbad
    rw [show stage.unregistered = true from hbad] at hstage'
    cases hstage'
  · intro t ht
    have := h.started c conn t hc ht
    omega

/-- A closed connection is no concern of any revocation, once it is registered. -/
theorem covered_close {conn : Conn} (phase : RevokePhase) (hcov : Covered D phase conn) :
    Covered D phase {conn with stage := .closed} := by
  cases phase with
  | changed => trivial
  | collecting k ids => exact ⟨rfl, fun _ _ => .inr (.inl rfl)⟩
  | removing ids => exact ⟨rfl, fun _ _ => .inr (.inl rfl)⟩
  | done doneAt => exact ⟨rfl, rfl, by simp, hcov.2.2.2⟩

theorem inv_close {s : State} (h : Inv D s) {c : Nat} {conn : Conn} (hc : s.conns[c]? = some conn)
    {manager : ProxyManager}
    (hmanager : manager = s.manager ∨ ∃ id, conn.session = some id ∧ manager = s.manager.remove id) :
    Inv D {s with
      clock := s.clock + 1
      manager := manager
      conns := s.conns.set c {conn with stage := .closed}} := by
  have hnext : manager.nextId = s.manager.nextId := by
    rcases hmanager with rfl | ⟨id, -, rfl⟩ <;> rfl
  refine inv_conn h hc s.policy (Nat.le_of_eq hnext.symm) (fun _ hid => .inl hid) ?_ (by simp [Stage.live])
    (by simp [Stage.unregistered]) ?_ rfl covered_close
  · intro id entry _ hother hl
    rcases hmanager with rfl | ⟨own, hown, rfl⟩
    · exact hl
    · simp only [ProxyManager.remove, Table.lookup_erase]
      rw [if_neg (fun heq : id = own => hother (by rw [heq]; exact hown))]
      exact hl
  · intro t ht
    have := h.started c conn t hc ht
    omega

theorem conn_inv {s : State} (h : Inv D s) {c : Nat} {conn : Conn} (hc : s.conns[c]? = some conn)
    {a : ConnAction} {u : State} {conn' : Conn} (hstep : connStep a s c conn = some (u, conn')) :
    Inv D {u with clock := u.clock + 1, conns := u.conns.set c conn'} := by
  cases a with
  | check now =>
    cases hstage : conn.stage with
    | lookedUp =>
      have hun : conn.stage.unregistered = true := by rw [hstage]; rfl
      simp only [connStep, hstage] at hstep
      split at hstep
      · cases hstep
        exact inv_stage h hc _ (by simp [Stage.live]) (by simp [hun]) (.inl rfl) (covered_of_unregistered hun)
      · cases hstep
        exact inv_stage h hc _ (by simp [Stage.live]) (by simp [hun]) (.inl rfl) (covered_of_unregistered hun)
    | _ => simp [connStep, hstage] at hstep
  | openStream =>
    cases hstage : conn.stage with
    | authenticated =>
      have hun : conn.stage.unregistered = true := by rw [hstage]; rfl
      simp only [connStep, hstage, Option.ite_none_right_eq_some, Option.some.injEq, Prod.mk.injEq] at hstep
      obtain ⟨-, rfl, rfl⟩ := hstep
      exact inv_stage h hc _ (by simp [Stage.live]) (by simp [hun]) (.inl rfl) (covered_of_unregistered hun)
    | registered =>
      simp only [connStep, hstage, Option.some.injEq, Prod.mk.injEq] at hstep
      obtain ⟨rfl, rfl⟩ := hstep
      refine inv_stage h hc _ (by simp [hstage, Stage.live]) (by simp [Stage.unregistered]) (.inl rfl) ?_
      intro phase hcov
      cases phase <;> simp_all [Covered, Stage.unregistered, Stage.unstarted]
    | _ => simp [connStep, hstage] at hstep
  | register =>
    cases hstage : conn.stage with
    | authenticated =>
      simp only [connStep, hstage, Option.ite_none_right_eq_some, Option.some.injEq, Prod.mk.injEq] at hstep
      obtain ⟨-, rfl, rfl⟩ := hstep
      exact inv_register h hc (by rw [hstage]; rfl) rfl
    | opened =>
      simp only [connStep, hstage, Option.some.injEq, Prod.mk.injEq] at hstep
      obtain ⟨rfl, rfl⟩ := hstep
      exact inv_register h hc (by rw [hstage]; rfl) rfl
    | _ => simp [connStep, hstage] at hstep
  | start =>
    cases hstage : conn.stage with
    | ready =>
      simp only [connStep, hstage, Option.some.injEq, Prod.mk.injEq] at hstep
      obtain ⟨rfl, rfl⟩ := hstep
      refine inv_stage h hc _ (by simp [hstage, Stage.live]) (by simp [Stage.unregistered]) (.inr rfl) ?_
      intro phase hcov
      cases phase <;> simp_all [Covered, Stage.unregistered, Stage.unstarted]
    | _ => simp [connStep, hstage] at hstep
  | close =>
    unfold connStep at hstep
    split at hstep <;> try contradiction
    split at hstep
    · rename_i id hid
      cases hstep
      exact inv_close h hc (.inr ⟨id, hid, rfl⟩)
    · cases hstep
      exact inv_close h hc (.inl rfl)

theorem inv_lookup {s : State} (h : Inv D s) (kind : ProxyKind) (account : String) :
    Inv D {s with
      clock := s.clock + 1
      conns := s.conns ++ [⟨kind, account, .lookedUp, none, false, none⟩]} where
  guards := h.guards.push rfl
  live := by
    intro c conn hc hlive
    simp only [Heap.get_push] at hc
    split at hc
    · cases hc
      cases hlive
    · exact h.live c conn hc hlive
  unregistered := by
    intro c conn hc hun
    simp only [Heap.get_push] at hc
    split at hc
    · cases hc
      rfl
    · exact h.unregistered c conn hc hun
  started := by
    intro c conn t hc ht
    simp only [Heap.get_push] at hc
    split at hc
    · cases hc
      cases ht
    · exact Nat.lt_succ_of_lt (h.started c conn t hc ht)
  before := by
    intro rev hrev
    have := h.before rev hrev
    simp only [List.length_append, List.length_singleton]
    omega
  covered := by
    intro rev hrev c conn hc hlt
    simp only [Heap.get_push] at hc
    split at hc
    · have := h.before rev hrev
      omega
    · exact h.covered rev hrev c conn hc hlt

/-! ### Revocation steps -/

/-- A step of a revocation that changes its phase only. -/
theorem inv_phase {s : State} (h : Inv D s) {r : Nat} {rev : Revocation} (hr : s.revocations[r]? = some rev)
    {phase : RevokePhase}
    (hcov : ∀ (c : Nat) (conn : Conn), s.conns[c]? = some conn → c < rev.before → conn.account = rev.account →
      Covered D phase conn) :
    Inv D {setPhase s r rev phase with clock := s.clock + 1} where
  guards := h.guards
  live := h.live
  unregistered := h.unregistered
  started := fun c conn t hc ht => Nat.lt_succ_of_lt (h.started c conn t hc ht)
  before := by
    apply Heap.forall_set h.before
    exact h.before rev (List.mem_of_getElem? hr)
  covered := by
    apply Heap.forall_set h.covered
    exact hcov

/-- How the signal of one session changes a connection. -/
theorem get_signal {s : State} {id : Nat} {entry : ProxySessionEntry}
    (hl : s.manager.sessions.lookup id = some entry) {c : Nat} {conn : Conn}
    (hc : (signal s id).conns[c]? = some conn) :
    ∃ old, s.conns[c]? = some old ∧ (conn = old ∧ c ≠ entry.conn ∨ conn = {old with signalled := true}) := by
  simp only [signal, hl, List.getElem?_modify] at hc
  obtain ⟨old, hold, rfl⟩ := Option.map_eq_some_iff.mp hc
  refine ⟨old, hold, ?_⟩
  split
  · exact .inr rfl
  · rename_i hne
    exact .inl ⟨rfl, fun heq => hne heq.symm⟩

theorem covered_signalled {conn : Conn} (phase : RevokePhase) (hcov : Covered D phase conn) :
    Covered D phase {conn with signalled := true} := by
  cases phase with
  | changed => trivial
  | collecting k ids => exact ⟨hcov.1, fun _ _ => .inl rfl⟩
  | removing ids => exact ⟨hcov.1, fun _ _ => .inl rfl⟩
  | done doneAt => exact ⟨hcov.1, hcov.2.1, fun _ => rfl, hcov.2.2.2⟩

theorem inv_signal {s : State} (h : Inv D s) (id : Nat) : Inv D (signal s id) := by
  cases hl : s.manager.sessions.lookup id with
  | none =>
    simp only [signal, hl]
    exact h
  | some entry =>
    have hmanager : (signal s id).manager = s.manager.remove id := by simp [signal, hl]
    have hrevs : (signal s id).revocations = s.revocations := by simp [signal, hl]
    have hclock : (signal s id).clock = s.clock := by simp [signal, hl]
    have hlen : (signal s id).conns.length = s.conns.length := by simp [signal, hl]
    constructor
    · rw [hmanager]
      refine h.guards.of_get fun c conn hc => .inr ?_
      obtain ⟨old, hold, ⟨rfl, -⟩ | rfl⟩ := get_signal hl hc
      · exact ⟨_, hold, rfl⟩
      · exact ⟨old, hold, rfl⟩
    · intro c conn hc hlive
      obtain ⟨old, hold, ⟨rfl, hne⟩ | rfl⟩ := get_signal hl hc
      · obtain ⟨i, hi, hreg⟩ := h.live c _ hold hlive
        refine ⟨i, hi, hreg.imp_right fun hlook => ?_⟩
        rw [hmanager]
        simp only [ProxyManager.remove, Table.lookup_erase]
        rw [if_neg, hlook]
        -- the entry of the signalled session leads to another connection
        intro heq
        rw [heq, hl, Option.some.injEq] at hlook
        exact hne (by rw [hlook])
      · obtain ⟨i, hi, -⟩ := h.live c _ hold hlive
        exact ⟨i, hi, .inl rfl⟩
    · intro c conn hc hun
      obtain ⟨old, hold, ⟨rfl, -⟩ | rfl⟩ := get_signal hl hc
      · exact h.unregistered c _ hold hun
      · exact h.unregistered c old hold hun
    · intro c conn t hc ht
      rw [hclock]
      obtain ⟨old, hold, ⟨rfl, -⟩ | rfl⟩ := get_signal hl hc
      · exact h.started c _ t hold ht
      · exact h.started c _ t hold ht
    · intro rev hrev
      rw [hrevs] at hrev
      rw [hlen]
      exact h.before rev hrev
    · intro rev hrev c conn hc hlt hacc
      rw [hrevs] at hrev
      obtain ⟨old, hold, ⟨rfl, -⟩ | rfl⟩ := get_signal hl hc
      · exact h.covered rev hrev c _ hold hlt hacc
      · exact covered_signalled _ (h.covered rev hrev c _ hold hlt hacc)

/-- After its session was removed, a connection has been signalled or has closed. -/
theorem signalled_of_session {s : State} (h : Inv D s) {id c : Nat} {conn : Conn}
    (hc : (signal s id).conns[c]? = some conn) (hid : conn.session = some id)
    (hun : conn.stage.unregistered = false) : conn.signalled = true ∨ conn.stage = .closed := by
  by_cases hclosed : conn.stage = .closed
  · exact .inr hclosed
  have hlive := Stage.live_or conn.stage hun hclosed
  obtain ⟨i, hi, hreg⟩ := (inv_signal h id).live c conn hc hlive
  obtain rfl : id = i := Option.some.inj (hid.symm.trans hi)
  rcases hreg with hsig | hlook
  · exact .inl hsig
  · have hnone : (signal s id).manager.sessions.lookup id = none := by
      unfold signal
      split
      · simp [ProxyManager.remove]
      · assumption
    rw [hnone] at hlook
    cases hlook

theorem mem_collect {m : ProxyManager} {account : String} {id c : Nat}
    (hl : m.sessions.lookup id = some ⟨account, c⟩) : id ∈ m.collect D account (D.shard id).val := by
  have hmem := AList.mem_lookup_iff.mp (Option.mem_def.mpr hl)
  exact List.mem_map.mpr ⟨_, List.mem_filter.mpr ⟨hmem, by simp⟩, rfl⟩

theorem NoneAt.get {s : State} {rev : Revocation} {p : Stage → Bool} (h : NoneAt s rev p) {c : Nat} {conn : Conn}
    (hc : s.conns[c]? = some conn) (hlt : c < rev.before) (hacc : conn.account = rev.account) :
    p conn.stage = false := by
  refine h conn (List.mem_of_getElem? (i := c) ?_) hacc
  rw [List.getElem?_take_of_lt hlt, hc]

theorem revoke_inv {s u : State} (h : Inv D s) {r : Nat} {rev : Revocation} (hr : s.revocations[r]? = some rev)
    {a : RevokeAction} (hfree : RaceFree (.revoke r a) s) (hstep : revokeStep D a s r rev = some u) :
    Inv D {u with clock := u.clock + 1} := by
  have hrev := List.mem_of_getElem? hr
  cases a with
  | collectStart =>
    cases hphase : rev.phase with
    | changed =>
      simp only [revokeStep, hphase, Option.some.injEq] at hstep
      subst hstep
      refine inv_phase h hr fun c conn hc hlt hacc => ?_
      exact ⟨(hfree rev (Option.mem_def.mpr hr)).get hc hlt hacc, fun _ _ => .inr (.inr (.inr (Nat.zero_le _)))⟩
    | _ => simp [revokeStep, hphase] at hstep
  | collectShard =>
    cases hphase : rev.phase with
    | collecting k ids =>
      simp only [revokeStep, hphase] at hstep
      have hcovered (c : Nat) (conn : Conn) (hc : s.conns[c]? = some conn) (hlt : c < rev.before)
          (hacc : conn.account = rev.account) : Covered D (.collecting k ids) conn := by
        rw [← hphase]
        exact h.covered rev hrev c conn hc hlt hacc
      split at hstep
      · cases hstep
        refine inv_phase h hr fun c conn hc hlt hacc => ?_
        obtain ⟨hun, hids⟩ := hcovered c conn hc hlt hacc
        refine ⟨hun, fun id hid => ?_⟩
        by_cases hclosed : conn.stage = .closed
        · exact .inr (.inl hclosed)
        obtain ⟨i, hi, hreg⟩ := h.live c conn hc (Stage.live_or _ hun hclosed)
        obtain rfl : id = i := Option.some.inj (hid.symm.trans hi)
        rcases hids id hid with hs | hs | hs | hs
        · exact .inl hs
        · exact .inr (.inl hs)
        · exact .inr (.inr (.inl (List.mem_append_left _ hs)))
        · rcases Nat.eq_or_lt_of_le hs with heq | hlt'
          · -- this shard is being visited now
            refine hreg.imp_right fun hlook => .inr (.inl (List.mem_append_right _ ?_))
            rw [hacc] at hlook
            rw [heq]
            exact mem_collect hlook
          · exact .inr (.inr (.inr hlt'))
      · rename_i hk
        cases hstep
        refine inv_phase h hr fun c conn hc hlt hacc => ?_
        obtain ⟨hun, hids⟩ := hcovered c conn hc hlt hacc
        refine ⟨hun, fun id hid => ?_⟩
        rcases hids id hid with hs | hs | hs | hs
        · exact .inl hs
        · exact .inr (.inl hs)
        · exact .inr (.inr hs)
        · exact absurd (Nat.lt_of_le_of_lt hs (D.shard id).isLt) hk
    | _ => simp [revokeStep, hphase] at hstep
  | removeNext =>
    cases hphase : rev.phase with
    | removing ids =>
      cases ids with
      | cons id ids =>
        simp only [revokeStep, hphase, Option.some.injEq] at hstep
        subst hstep
        have hsig := inv_signal h id
        have hr' : (signal s id).revocations[r]? = some rev := by
          unfold signal
          split <;> exact hr
        refine inv_phase hsig hr' fun c conn hc hlt hacc => ?_
        have hcov := hsig.covered rev (List.mem_of_getElem? hr') c conn hc hlt hacc
        rw [hphase] at hcov
        refine ⟨hcov.1, fun i hi => ?_⟩
        rcases hcov.2 i hi with hs | hs | hs
        · exact .inl hs
        · exact .inr (.inl hs)
        · rcases List.mem_cons.mp hs with rfl | hs
          · exact (signalled_of_session h hc hi hcov.1).imp_right .inl
          · exact .inr (.inr hs)
      | nil =>
        simp only [revokeStep, hphase, Option.some.injEq] at hstep
        subst hstep
        refine inv_phase h hr fun c conn hc hlt hacc => ?_
        have hcov := h.covered rev hrev c conn hc hlt hacc
        rw [hphase] at hcov
        refine ⟨hcov.1, (hfree rev (Option.mem_def.mpr hr) hphase).get hc hlt hacc, fun hpiping => ?_,
          fun started hst => h.started c conn started hc hst⟩
        obtain ⟨id, hid, -⟩ := h.live c conn hc (by rw [hpiping]; rfl)
        rcases hcov.2 id hid with hs | hs | hs
        · exact hs
        · rw [hpiping] at hs
          cases hs
        · cases hs
    | _ => simp [revokeStep, hphase] at hstep
  | settle now =>
    cases hphase : rev.phase with
    | done doneAt =>
      simp only [revokeStep, hphase, Option.some.injEq] at hstep
      subst hstep
      exact {h with started := fun c conn t hc ht => Nat.lt_succ_of_lt (h.started c conn t hc ht)}
    | _ => simp [revokeStep, hphase] at hstep

theorem inv_change {s : State} (h : Inv D s) (db : ProxyAccounts) (op : RevokeOp) (account : String) (used : Nat) :
    Inv D {s with
      clock := s.clock + 1
      db := db
      revocations := s.revocations ++ [⟨op, account, used, s.conns.length, .changed⟩]} := by
  refine {h with
    started := fun c conn t hc ht => Nat.lt_succ_of_lt (h.started c conn t hc ht), before := ?_, covered := ?_}
  · intro rev hrev
    rcases List.mem_append.mp hrev with hrev | hrev
    · exact h.before rev hrev
    · rw [List.mem_singleton.mp hrev]
  · intro rev hrev
    rcases List.mem_append.mp hrev with hrev | hrev
    · exact h.covered rev hrev
    · rw [List.mem_singleton.mp hrev]
      exact fun _ _ _ _ _ => trivial

theorem step_inv {a : Action} {s u : State} (h : Inv D s) (hfree : RaceFree a s)
    (hstep : step D a s = some u) : Inv D u := by
  cases a with
  | lookup kind username password =>
    simp only [step] at hstep
    split at hstep
    · cases hstep
      exact inv_lookup h kind _
    · cases hstep
  | conn c a =>
    simp only [step] at hstep
    split at hstep
    · rename_i conn hc
      obtain ⟨⟨v, conn'⟩, hv, rfl⟩ := Option.map_eq_some_iff.mp hstep
      exact conn_inv h hc hv
    · cases hstep
  | usage routeId rxBytes txBytes =>
    simp only [step, Option.some.injEq] at hstep
    subst hstep
    exact {h with started := fun c conn t hc ht => Nat.lt_succ_of_lt (h.started c conn t hc ht)}
  | change op account =>
    simp only [step, Option.map_eq_some_iff] at hstep
    obtain ⟨⟨db, used⟩, -, rfl⟩ := hstep
    exact inv_change h db op account used
  | revoke r a =>
    simp only [step] at hstep
    split at hstep
    · rename_i rev hr
      obtain ⟨v, hv, rfl⟩ := Option.map_eq_some_iff.mp hstep
      exact revoke_inv h hr hfree hv
    · cases hstep

instance (a : Action) (s : State) : Decidable (RaceFree a s) := by
  unfold RaceFree
  split <;> infer_instance

def oneShard : Sharding Nat := ⟨1, fun _ => 0⟩

/-- A SOCKS5 connection relays when its account is deleted. -/
def orderlyRun : List Action :=
  [.lookup .socks5 "a" "secret", .conn 0 (.check 0), .conn 0 .openStream, .conn 0 .register, .conn 0 .start,
    .change .delete "a", .revoke 0 .collectStart, .revoke 0 .collectShard, .revoke 0 .collectShard,
    .revoke 0 .removeNext, .revoke 0 .removeNext]

/-- A SOCKS5 connection has its stream open when its account is deleted; it registers
after the revocation has returned and relays. -/
def lateRegisterRun : List Action :=
  [.lookup .socks5 "a" "secret", .conn 0 (.check 0), .conn 0 .openStream,
    .change .delete "a", .revoke 0 .collectStart, .revoke 0 .collectShard, .revoke 0 .collectShard,
    .revoke 0 .removeNext, .conn 0 .register, .conn 0 .start]

end ProxyRevocation

end Rps.Controller
