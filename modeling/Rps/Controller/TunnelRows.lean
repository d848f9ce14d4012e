import Rps.Controller.Resources

/-! Tunnels that run, and the rows they run for.

A change to a tunnel goes over its row, its policy and the map of running tunnels, one
call after another, and nothing keeps two changes of one tunnel apart. Only `start` holds
the lock of the map while it binds the listener, so that a `stop` waits for it.

`running_backed`: when no operation is in progress, what runs is what the rows say, in
every run in which no `start` is called with a row that has changed since it was read
back, unless the operation that changed it has its `stop` still ahead, and in which no
operation takes its row back after a failed start while the tunnel runs. A deletion that
comes in between leaves a listener running for a row that is gone (`running_orphan`). -/
namespace Rps.Controller
open Base

inductive TunnelMode where
  | tcp
  | udp
  deriving DecidableEq

/-- What a runtime is started with, besides its id. -/
structure TunnelConfig where
  clientId : String
  mode : TunnelMode
  listen : String
  target : Option String
  deriving DecidableEq

structure DbTunnel where
  config : TunnelConfig
  row : Row
  deriving DecidableEq

namespace TunnelRows

/-- The operations on a tunnel: three handlers of the console and `policy::revoke`. -/
inductive Kind where
  | create (config : TunnelConfig) (input : RowInput)
  | update (config : TunnelConfig) (input : RowInput)
  | delete
  | revoke
  deriving DecidableEq

/-- What an operation does next. `changed` has written the row and not read it back,
`binding` is inside `start`, `failing` is behind a failed one, `stopping` has deleted or
disabled the row and comes to its `stop`. -/
inductive Phase where
  | begin
  | validated
  | changed
  | halting (tunnel : DbTunnel)
  | enrolling (tunnel : DbTunnel)
  | starting (tunnel : DbTunnel)
  | binding (tunnel : DbTunnel)
  | failing
  | stopping
  | removing
  | finished
  deriving DecidableEq

structure Op where
  id : String
  kind : Kind
  phase : Phase
  deriving DecidableEq

/-- `lock` is the operation that holds the lock of the map of running tunnels across an
`await`. -/
structure State where
  tunnels : Table String DbTunnel
  policy : PolicyEnforcer
  running : Table String TunnelConfig := ∅
  lock : Option Nat := none
  ops : List Op := []

namespace State

def disableTunnel (s : State) (id : String) : State :=
  match s.tunnels.lookup id with
  | some tunnel =>
    {s with tunnels := s.tunnels.insert id {tunnel with row := {tunnel.row with enabled := false}}}
  | none => s

def deleteTunnel (s : State) (id : String) : State := {s with tunnels := s.tunnels.erase id}

/-- The part of `stop` under the lock. -/
def stop (s : State) (id : String) : State := {s with running := s.running.erase id}

def register (s : State) (id : String) (row : Row) : State :=
  {s with policy := s.policy.register (tunnelKey id) row.expiresAt row.trafficLimitBytes row.used}

def remove (s : State) (id : String) : State := {s with policy := s.policy.remove (tunnelKey id)}

end State

/-- `start` up to the bind, by operation `i`: it takes the lock and keeps it if there is
something to bind. -/
def startStep (now : Int) (s : State) (i : Nat) (op : Op) (tunnel : DbTunnel) : Option (State × Phase) :=
  if s.lock ≠ none then none
  else if (s.running.lookup op.id).isSome then some (s, .failing)
  else
    match s.policy.allowed now (tunnelKey op.id) with
    | (false, policy) => some ({s with policy := policy}, .failing)
    | (true, policy) => some ({s with policy := policy, lock := some i}, .binding tunnel)

/-- The rest of `start`. -/
def bindStep (bound : Bool) (s : State) (op : Op) (tunnel : DbTunnel) : State × Phase :=
  if bound then ({s with running := s.running.insert op.id tunnel.config, lock := none}, .finished)
  else ({s with lock := none}, .failing)

/-- One step of operation `i`: a database call, a policy call, a `stop`, or a part of
`start`. -/
def opStep (now : Int) (bound : Bool) (s : State) (i : Nat) (op : Op) : Option (State × Phase) :=
  match op.phase, op.kind with
  | .begin, .create config input =>
    match s.tunnels.lookup op.id with
    | some _ => some (s, .finished)
    | none => some ({s with tunnels := s.tunnels.insert op.id ⟨config, input.insert⟩}, .changed)
  | .begin, .update _ _ => some (s, if (s.tunnels.lookup op.id).isSome then .validated else .finished)
  | .validated, .update config input =>
    match s.tunnels.lookup op.id with
    | some tunnel =>
      some ({s with tunnels := s.tunnels.insert op.id ⟨config, input.update tunnel.row⟩}, .changed)
    | none => some (s, .finished)
  | .changed, kind =>
    match s.tunnels.lookup op.id with
    | some tunnel =>
      match kind with
      | .create _ _ => some (s, .enrolling tunnel)
      | _ => some (s, .halting tunnel)
    | none => some (s, .finished)
  | .halting tunnel, _ => if s.lock = none then some (s.stop op.id, .enrolling tunnel) else none
  | .enrolling tunnel, .create _ _ =>
    some (s.register op.id tunnel.row, if tunnel.row.enabled then .starting tunnel else .finished)
  | .enrolling tunnel, _ =>
    if tunnel.row.enabled then some (s.register op.id tunnel.row, .starting tunnel)
    else some (s.remove op.id, .finished)
  | .starting tunnel, _ => startStep now s i op tunnel
  | .binding tunnel, _ => some (bindStep bound s op tunnel)
  | .failing, .create _ _ => some (s.deleteTunnel op.id, .removing)
  | .failing, _ => some (s.disableTunnel op.id, .removing)
  | .begin, .delete =>
    if (s.tunnels.lookup op.id).isSome then some (s.deleteTunnel op.id, .stopping) else some (s, .finished)
  | .begin, .revoke => some (s.disableTunnel op.id, .stopping)
  | .stopping, kind =>
    if s.lock = none then some (s.stop op.id, if kind = .revoke then .finished else .removing) else none
  | .removing, _ => some (s.remove op.id, .finished)
  | _, _ => none

inductive Action where
  | request (id : String) (kind : Kind)
  /-- The request names no client that exists, or no target. -/
  | reject (i : Nat)
  | op (i : Nat) (now : Int) (bound : Bool)
  deriving DecidableEq

def setPhase (s : State) (i : Nat) (op : Op) (phase : Phase) : State :=
  {s with ops := s.ops.set i {op with phase := phase}}

def step (a : Action) (s : State) : Option State :=
  match a with
  | .request id kind => some {s with ops := s.ops ++ [⟨id, kind, .begin⟩]}
  | .reject i =>
    match s.ops[i]? with
    | some op => if op.phase = .begin ∨ op.phase = .validated then some (setPhase s i op .finished) else none
    | none => none
  | .op i now bound =>
    match s.ops[i]? with
    | some op => (opStep now bound s i op).map fun (s, phase) => setPhase s i op phase
    | none => none

/-- The console over the tunnels there are, none of which runs. -/
def system (tunnels : Table String DbTunnel) (policy : PolicyEnforcer) : System State Action where
  init := {tunnels := tunnels, policy := policy}
  step := step

/-! ### The property -/

/-- The row is that of a tunnel which runs with `config`. -/
def Backs (tunnel : DbTunnel) (config : TunnelConfig) : Prop := tunnel.row.enabled = true ∧ tunnel.config = config

/-- While no operation is in progress, what runs is what the rows say. -/
def RunningBacked (s : State) : Prop :=
  (∀ op ∈ s.ops, op.phase = .finished) → ∀ id config, s.running.lookup id = some config →
    ∃ tunnel, s.tunnels.lookup id = some tunnel ∧ Backs tunnel config

/-- The operation comes to its `stop`. -/
def Phase.stops : Phase → Bool
  | .halting _ | .stopping => true
  | _ => false

/-- An update that comes to its `stop` if it finds the row again. -/
def Op.updates (op : Op) : Bool :=
  match op.kind, op.phase with
  | .update _ _, .changed => true
  | _, _ => false

/-- What the operation is binding a listener for. -/
def Phase.binds : Phase → Option TunnelConfig
  | .binding tunnel => some tunnel.config
  | _ => none

/-- A `stop` of the tunnel is ahead. -/
def StopAhead (s : State) (id : String) : Prop := ∃ op ∈ s.ops, op.id = id ∧ op.phase.stops = true

/-- The row backs `config`, or a `stop` of the tunnel is ahead. -/
def Covered (s : State) (id : String) (config : TunnelConfig) : Prop :=
  StopAhead s id ∨ ∃ tunnel ∈ s.tunnels.lookup id,
    Backs tunnel config ∨ ∃ op ∈ s.ops, op.id = id ∧ op.updates = true

/-- The tunnel runs, or is about to. -/
def Busy (s : State) (id : String) : Prop :=
  (s.running.lookup id).isSome ∨ ∃ op ∈ s.ops, op.id = id ∧ op.phase.binds.isSome

/-- A `start` is called with a row that is still in the table, and a row is taken back
when nothing runs for it; or a `stop` of the tunnel is ahead. -/
def Op.unraced (s : State) (op : Op) : Prop :=
  match op.phase with
  | .starting tunnel => Covered s op.id tunnel.config
  | .failing => Busy s op.id → StopAhead s op.id
  | _ => True

def Unraced (a : Action) (s : State) : Prop :=
  match a with
  | .op i _ _ => ∀ op ∈ s.ops[i]?, op.unraced s
  | _ => True

/-! ### What a step can do -/

inductive Moves (s : State) (i : Nat) (op : Op) : State → Phase → Prop where
  | keep (policy : PolicyEnforcer) (phase : Phase) : op.phase.stops = false → op.updates = false →
      phase.binds = none → Moves s i op {s with policy := policy} phase
  | found (tunnel : DbTunnel) : s.tunnels.lookup op.id = some tunnel → Moves s i op s (.halting tunnel)
  | lost : op.phase.stops = false → s.tunnels.lookup op.id = none → Moves s i op s .finished
  | insert (tunnel : DbTunnel) : op.phase.stops = false → s.tunnels.lookup op.id = none →
      Moves s i op {s with tunnels := s.tunnels.insert op.id tunnel} .changed
  | change (tunnel : DbTunnel) (config : TunnelConfig) (input : RowInput) : op.kind = .update config input →
      op.phase.stops = false → Moves s i op {s with tunnels := s.tunnels.insert op.id tunnel} .changed
  | withdraw (tunnels : Table String DbTunnel) : (∀ id, id ≠ op.id → tunnels.lookup id = s.tunnels.lookup id) →
      Moves s i op {s with tunnels := tunnels} .stopping
  | stop (phase : Phase) : s.lock = none → phase.binds = none → Moves s i op (s.stop op.id) phase
  | lock (policy : PolicyEnforcer) (tunnel : DbTunnel) : s.lock = none → op.phase = .starting tunnel →
      Moves s i op {s with policy := policy, lock := some i} (.binding tunnel)
  | bind (tunnel : DbTunnel) : op.phase = .binding tunnel →
      Moves s i op {s with running := s.running.insert op.id tunnel.config, lock := none} .finished
  | bindFail (tunnel : DbTunnel) : op.phase = .binding tunnel → Moves s i op {s with lock := none} .failing
  | undo (tunnels : Table String DbTunnel) : op.phase = .failing →
      (∀ id, id ≠ op.id → tunnels.lookup id = s.tunnels.lookup id) →
      Moves s i op {s with tunnels := tunnels} .removing

theorem disableTunnel_eq (s : State) (id : String) : ∃ tunnels : Table String DbTunnel,
    s.disableTunnel id = {s with tunnels := tunnels} ∧
      ∀ other, other ≠ id → tunnels.lookup other = s.tunnels.lookup other := by
  unfold State.disableTunnel
  split
  · exact ⟨_, rfl, fun other hne => by rw [Table.lookup_insert, if_neg hne]⟩
  · exact ⟨s.tunnels, rfl, fun _ _ => rfl⟩

theorem deleteTunnel_eq (s : State) (id : String) : ∃ tunnels : Table String DbTunnel,
    s.deleteTunnel id = {s with tunnels := tunnels} ∧
      ∀ other, other ≠ id → tunnels.lookup other = s.tunnels.lookup other :=
  ⟨_, rfl, fun other hne => by rw [Table.lookup_erase, if_neg hne]⟩

theorem startStep_moves {now : Int} {s u : State} {i : Nat} {op : Op} {tunnel : DbTunnel} {phase : Phase}
    (hphase : op.phase = .starting tunnel) (h : startStep now s i op tunnel = some (u, phase)) :
    Moves s i op u phase := by
  have hstops : op.phase.stops = false := by rw [hphase]; rfl
  have hupdates : op.updates = false := by simp [Op.updates, hphase]
  unfold startStep at h
  split at h
  · cases h
  · rename_i hlock
    split at h
    · cases h
      exact .keep s.policy _ hstops hupdates rfl
    · split at h
      · cases h
        exact .keep _ _ hstops hupdates rfl
      · cases h
        exact .lock _ tunnel (by simpa using hlock) hphase

theorem opStep_moves {now : Int} {bound : Bool} {s u : State} {i : Nat} {op : Op} {phase : Phase}
    (h : opStep now bound s i op = some (u, phase)) : Moves s i op u phase := by
  have hkeep (policy : PolicyEnforcer) {phase : Phase} (hstops : op.phase.stops = false)
      (hchanged : op.phase ≠ .changed) (hbinds : phase.binds = none) :
      Moves s i op {s with policy := policy} phase := by
    refine .keep policy phase hstops ?_ hbinds
    unfold Op.updates
    split
    · exact absurd ‹_› hchanged
    · rfl
  unfold opStep at h
  split at h
  · rename_i hphase _
    split at h
    · cases h
      exact hkeep s.policy (by rw [hphase]; rfl) (by simp [hphase]) rfl
    · cases h
      exact .insert _ (by rw [hphase]; rfl) ‹_›
  · rename_i hphase _
    cases h
    refine hkeep s.policy (by rw [hphase]; rfl) (by simp [hphase]) ?_
    split <;> rfl
  · rename_i hphase hkind
    split at h
    · cases h
      exact .change _ _ _ hkind (by rw [hphase]; rfl)
    · cases h
      exact hkeep s.policy (by rw [hphase]; rfl) (by simp [hphase]) rfl
  · rename_i hphase
    split at h
    · rename_i tunnel hrow
      split at h
      · rename_i hkind
        cases h
        refine .keep s.policy _ (by rw [hphase]; rfl) ?_ rfl
        simp [Op.updates, hkind]
      · cases h
        exact .found tunnel hrow
    · cases h
      exact .lost (by rw [hphase]; rfl) ‹_›
  · simp only [Option.ite_none_right_eq_some, Option.some.injEq, Prod.mk.injEq] at h
    obtain ⟨hlock, rfl, rfl⟩ := h
    exact .stop _ hlock rfl
  · rename_i hphase _
    cases h
    refine hkeep _ (by rw [hphase]; rfl) (by simp [hphase]) ?_
    split <;> rfl
  · rename_i hphase _
    split at h
    · cases h
      exact hkeep _ (by rw [hphase]; rfl) (by simp [hphase]) rfl
    · cases h
      exact hkeep _ (by rw [hphase]; rfl) (by simp [hphase]) rfl
  · exact startStep_moves ‹_› h
  · rename_i tunnel hphase
    simp only [bindStep, Option.some.injEq] at h
    split at h
    · cases h
      exact .bind tunnel hphase
    · cases h
      exact .bindFail tunnel hphase
  · rename_i hphase _
    cases h
    obtain ⟨tunnels, heq, hother⟩ := deleteTunnel_eq s op.id
    rw [heq]
    exact .undo tunnels hphase hother
  · rename_i hphase _
    cases h
    obtain ⟨tunnels, heq, hother⟩ := disableTunnel_eq s op.id
    rw [heq]
    exact .undo tunnels hphase hother
  · rename_i hphase _
    split at h
    · cases h
      obtain ⟨tunnels, heq, hother⟩ := deleteTunnel_eq s op.id
      rw [heq]
      exact .withdraw tunnels hother
    · cases h
      exact hkeep s.policy (by rw [hphase]; rfl) (by simp [hphase]) rfl
  · cases h
    obtain ⟨tunnels, heq, hother⟩ := disableTunnel_eq s op.id
    rw [heq]
    exact .withdraw tunnels hother
  · simp only [Option.ite_none_right_eq_some, Option.some.injEq, Prod.mk.injEq] at h
    obtain ⟨hlock, rfl, rfl⟩ := h
    refine .stop _ hlock ?_
    split <;> rfl
  · rename_i hphase
    cases h
    exact hkeep _ (by rw [hphase]; rfl) (by simp [hphase]) rfl
  · cases h

/-! ### The invariant -/

/-- The tunnel runs with `config`, or is about to. -/
def RunsWith (s : State) (id : String) (config : TunnelConfig) : Prop :=
  s.running.lookup id = some config ∨ ∃ op ∈ s.ops, op.id = id ∧ op.phase.binds = some config

structure Inv (s : State) : Prop where
  covered : ∀ id config, RunsWith s id config → Covered s id config
  locked : ∀ (i : Nat) (op : Op), s.ops[i]? = some op → op.phase.binds ≠ none → s.lock = some i

section
variable {s u : State} {i : Nat} {op : Op} {phase : Phase}

theorem busy_of_runsWith {id : String} {config : TunnelConfig} (h : RunsWith s id config) : Busy s id := by
  rcases h with h | ⟨x, hx, hid, hbinds⟩
  · exact .inl (by rw [h]; rfl)
  · exact .inr ⟨x, hx, hid, by rw [hbinds]; rfl⟩

/-- Without a row only a `stop` covers a tunnel. -/
theorem stopAhead_of_covered {id : String} {config : TunnelConfig} (hrow : s.tunnels.lookup id = none)
    (h : Covered s id config) : StopAhead s id := by
  rcases h with hahead | ⟨tunnel, htunnel, -⟩
  · exact hahead
  · rw [hrow] at htunnel
    cases htunnel

/-- A `stop` that is not the operation's own stays ahead. -/
theorem stopAhead_set (hi : s.ops[i]? = some op) (hops : u.ops = s.ops) {id : String}
    (hstops : op.id = id → op.phase.stops = false) (h : StopAhead s id) : StopAhead (setPhase u i op phase) id := by
  obtain ⟨x, hx, hid, hx'⟩ := h
  rw [StopAhead, setPhase, hops]
  rcases Heap.mem_set_of_mem hi {op with phase := phase} hx with rfl | hx
  · rw [hstops hid] at hx'
    cases hx'
  · exact ⟨x, hx, hid, hx'⟩

/-- What covers a tunnel stays when its row does and no operation on it moves, unless it
neither stops the tunnel nor updates it. -/
theorem covered_set (hi : s.ops[i]? = some op) (hops : u.ops = s.ops) {id : String} {config : TunnelConfig}
    (htunnels : u.tunnels.lookup id = s.tunnels.lookup id)
    (hop : op.id = id → op.phase.stops = false ∧ op.updates = false) (h : Covered s id config) :
    Covered (setPhase u i op phase) id config := by
  rcases h with h | ⟨tunnel, htunnel, h⟩
  · exact .inl (stopAhead_set hi hops (fun hid => (hop hid).1) h)
  · refine .inr ⟨tunnel, by rw [← htunnels] at htunnel; exact htunnel, ?_⟩
    rcases h with h | ⟨x, hx, hid, hx'⟩
    · exact .inl h
    · right
      rw [setPhase, hops]
      rcases Heap.mem_set_of_mem hi {op with phase := phase} hx with rfl | hx
      · rw [(hop hid).2] at hx'
        cases hx'
      · exact ⟨x, hx, hid, hx'⟩

/-- The operation itself is one that covers its tunnel. -/
theorem stopAhead_self (hi : s.ops[i]? = some op) (hops : u.ops = s.ops) (hstops : phase.stops = true) :
    StopAhead (setPhase u i op phase) op.id := by
  rw [StopAhead, setPhase, hops]
  exact ⟨_, Heap.mem_set_self hi _, rfl, hstops⟩

/-- What runs after a step ran before, or is what the operation is about to start. -/
theorem runsWith_set (hops : u.ops = s.ops) {id : String} {config : TunnelConfig}
    (h : RunsWith (setPhase u i op phase) id config) :
    u.running.lookup id = some config ∨ (∃ x ∈ s.ops, x.id = id ∧ x.phase.binds = some config) ∨
      id = op.id ∧ phase.binds = some config := by
  rcases h with h | ⟨x, hx, hid, hbinds⟩
  · exact .inl h
  · rw [setPhase, hops] at hx
    rcases List.mem_or_eq_of_mem_set hx with hx | rfl
    · exact .inr (.inl ⟨x, hx, hid, hbinds⟩)
    · exact .inr (.inr ⟨hid.symm, hbinds⟩)

theorem runsWith_of_set (hops : u.ops = s.ops) (hrunning : u.running = s.running) (hbinds : phase.binds = none)
    {id : String} {config : TunnelConfig} (h : RunsWith (setPhase u i op phase) id config) : RunsWith s id config := by
  rcases runsWith_set hops h with h | h | ⟨-, h⟩
  · exact .inl (by rw [← hrunning, h])
  · exact .inr h
  · rw [hbinds] at h
    cases h

theorem locked_set (h : Inv s) (hi : s.ops[i]? = some op) (hops : u.ops = s.ops) (hlock : u.lock = s.lock)
    (hbinds : phase.binds = none) (j : Nat) (x : Op) (hj : (setPhase u i op phase).ops[j]? = some x)
    (hx : x.phase.binds ≠ none) : (setPhase u i op phase).lock = some j := by
  show u.lock = some j
  rw [hlock]
  simp only [setPhase, hops, Heap.get_set hi] at hj
  split at hj
  · obtain rfl := Option.some.inj hj
    exact absurd hbinds hx
  · exact h.locked j x hj hx

/-- An operation that has the lock is the only one that binds. -/
theorem locked_release (h : Inv s) (hi : s.ops[i]? = some op) {tunnel : DbTunnel} (hphase : op.phase = .binding tunnel)
    (hops : u.ops = s.ops) (hbinds : phase.binds = none) (j : Nat) (x : Op)
    (hj : (setPhase u i op phase).ops[j]? = some x) (hx : x.phase.binds ≠ none) :
    (setPhase u i op phase).lock = some j := by
  simp only [setPhase, hops, Heap.get_set hi] at hj
  split at hj
  · obtain rfl := Option.some.inj hj
    exact absurd hbinds hx
  · rename_i hne
    have hmine := h.locked i op hi (by rw [hphase]; simp [Phase.binds])
    rw [h.locked j x hj hx, Option.some.injEq] at hmine
    exact absurd hmine hne

theorem inv_moves (h : Inv s) (hi : s.ops[i]? = some op) (hr : op.unraced s) (hm : Moves s i op u phase) :
    Inv (setPhase u i op phase) := by
  cases hm with
  | keep policy phase hstops hupdates hbinds =>
    refine ⟨fun id config hruns => ?_, locked_set h hi rfl rfl hbinds⟩
    exact covered_set hi rfl rfl (fun _ => ⟨hstops, hupdates⟩) (h.covered id config (runsWith_of_set rfl rfl hbinds hruns))
  | found tunnel hrow =>
    refine ⟨fun id config hruns => ?_, locked_set h hi rfl rfl rfl⟩
    by_cases hid : op.id = id
    · subst hid
      exact .inl (stopAhead_self hi rfl rfl)
    · exact covered_set hi rfl rfl (fun h => absurd h hid) (h.covered id config (runsWith_of_set rfl rfl rfl hruns))
  | lost hstops hrow =>
    refine ⟨fun id config hruns => ?_, locked_set h hi rfl rfl rfl⟩
    have hcovered := h.covered id config (runsWith_of_set rfl rfl rfl hruns)
    by_cases hid : op.id = id
    · subst hid
      exact .inl (stopAhead_set hi rfl (fun _ => hstops) (stopAhead_of_covered hrow hcovered))
    · exact covered_set hi rfl rfl (fun h => absurd h hid) hcovered
  | insert tunnel hstops hrow =>
    refine ⟨fun id config hruns => ?_, locked_set h hi rfl rfl rfl⟩
    have hcovered := h.covered id config (runsWith_of_set rfl rfl rfl hruns)
    by_cases hid : op.id = id
    · subst hid
      exact .inl (stopAhead_set hi rfl (fun _ => hstops) (stopAhead_of_covered hrow hcovered))
    · exact covered_set hi (by rfl) (by simp [Ne.symm hid]) (fun h => absurd h hid) hcovered
  | change tunnel config input hkind hstops =>
    refine ⟨fun id config hruns => ?_, locked_set h hi rfl rfl rfl⟩
    have hcovered := h.covered id config (runsWith_of_set rfl rfl rfl hruns)
    by_cases hid : op.id = id
    · subst hid
      refine .inr ⟨tunnel, by simp [setPhase], .inr ⟨_, Heap.mem_set_self hi _, rfl, ?_⟩⟩
      simp [Op.updates, hkind]
    · exact covered_set hi (by rfl) (by simp [Ne.symm hid]) (fun h => absurd h hid) hcovered
  | withdraw tunnels hother =>
    refine ⟨fun id config hruns => ?_, locked_set h hi rfl rfl rfl⟩
    by_cases hid : op.id = id
    · subst hid
      exact .inl (stopAhead_self hi rfl rfl)
    · exact covered_set hi (by rfl) (hother id (Ne.symm hid)) (fun h => absurd h hid)
        (h.covered id config (runsWith_of_set rfl rfl rfl hruns))
  | stop phase hlock hbinds =>
    refine ⟨fun id config hruns => ?_, locked_set h hi rfl rfl hbinds⟩
    rcases runsWith_set rfl hruns with hrun | ⟨x, hx, -, hxbinds⟩ | ⟨-, hself⟩
    · simp only [State.stop, Table.lookup_erase] at hrun
      split at hrun
      · cases hrun
      · rename_i hid
        exact covered_set hi rfl rfl (fun h => absurd h.symm hid) (h.covered id config (.inl hrun))
    · -- nobody binds while the lock is free
      obtain ⟨j, hj⟩ := List.mem_iff_getElem?.mp hx
      have := h.locked j x hj (by rw [hxbinds]; simp)
      rw [hlock] at this
      cases this
    · rw [hbinds] at hself
      cases hself
  | lock policy tunnel hlock hphase =>
    refine ⟨fun id config hruns => ?_, fun j x hj hx => ?_⟩
    · have hcovered : Covered s id config := by
        rcases runsWith_set rfl hruns with hrun | hrun | ⟨rfl, hself⟩
        · exact h.covered id config (.inl hrun)
        · exact h.covered id config (.inr hrun)
        · rw [Op.unraced, hphase] at hr
          rw [← Option.some.inj hself]
          exact hr
      exact covered_set hi rfl rfl (fun _ => by simp [hphase, Phase.stops, Op.updates]) hcovered
    · simp only [setPhase, Heap.get_set hi] at hj ⊢
      split at hj
      · rename_i hji
        rw [hji]
      · have := h.locked j x hj hx
        rw [hlock] at this
        cases this
  | bind tunnel hphase =>
    refine ⟨fun id config hruns => ?_, locked_release h hi hphase rfl rfl⟩
    have hbefore : RunsWith s id config := by
      rcases runsWith_set rfl hruns with hrun | hrun | ⟨-, hself⟩
      · simp only [Table.lookup_insert] at hrun
        split at hrun
        · rename_i hid
          exact .inr ⟨op, List.mem_of_getElem? hi, hid.symm, by rw [hphase]; exact hrun⟩
        · exact .inl hrun
      · exact .inr hrun
      · cases hself
    exact covered_set hi rfl rfl (fun _ => by simp [hphase, Phase.stops, Op.updates]) (h.covered id config hbefore)
  | bindFail tunnel hphase =>
    refine ⟨fun id config hruns => ?_, locked_release h hi hphase rfl rfl⟩
    exact covered_set hi rfl rfl (fun _ => by simp [hphase, Phase.stops, Op.updates])
      (h.covered id config (runsWith_of_set rfl rfl rfl hruns))
  | undo tunnels hphase hother =>
    refine ⟨fun id config hruns => ?_, locked_set h hi rfl rfl rfl⟩
    have hbefore := runsWith_of_set rfl rfl rfl hruns
    by_cases hid : op.id = id
    · subst hid
      rw [Op.unraced, hphase] at hr
      exact .inl (stopAhead_set hi rfl (fun _ => by rw [hphase]; rfl) (hr (busy_of_runsWith hbefore)))
    · exact covered_set hi (by rfl) (hother id (Ne.symm hid)) (fun h => absurd h hid) (h.covered id config hbefore)

end

theorem inv_push {s : State} (h : Inv s) (id : String) (kind : Kind) :
    Inv {s with ops := s.ops ++ [⟨id, kind, .begin⟩]} where
  covered := by
    intro id' config hruns
    have hbefore : RunsWith s id' config := by
      rcases hruns with hrun | ⟨x, hx, hid, hbinds⟩
      · exact .inl hrun
      · rcases List.mem_append.mp hx with hx | hx
        · exact .inr ⟨x, hx, hid, hbinds⟩
        · rw [List.mem_singleton.mp hx] at hbinds
          cases hbinds
    rcases h.covered id' config hbefore with ⟨x, hx, hrest⟩ | ⟨tunnel, htunnel, hback | ⟨x, hx, hrest⟩⟩
    · exact .inl ⟨x, List.mem_append_left _ hx, hrest⟩
    · exact .inr ⟨tunnel, htunnel, .inl hback⟩
    · exact .inr ⟨tunnel, htunnel, .inr ⟨x, List.mem_append_left _ hx, hrest⟩⟩
  locked := by
    intro j x hj hx
    simp only [Heap.get_push] at hj
    split at hj
    · obtain rfl := Option.some.inj hj
      exact absurd rfl hx
    · exact h.locked j x hj hx

theorem inv_step {a : Action} {s t : State} (h : Inv s) (hr : Unraced a s) (hstep : step a s = some t) : Inv t := by
  cases a with
  | request id kind =>
    cases hstep
    exact inv_push h id kind
  | reject i =>
    simp only [step] at hstep
    split at hstep
    · rename_i op hi
      simp only [Option.ite_none_right_eq_some, Option.some.injEq] at hstep
      obtain ⟨hphase, rfl⟩ := hstep
      have hnot : op.phase.stops = false ∧ op.updates = false := by
        rcases hphase with hphase | hphase <;> simp [hphase, Phase.stops, Op.updates]
      refine ⟨fun id config hruns => ?_, locked_set h hi rfl rfl rfl⟩
      exact covered_set hi rfl rfl (fun _ => hnot) (h.covered id config (runsWith_of_set rfl rfl rfl hruns))
    · cases hstep
  | op i now bound =>
    simp only [step] at hstep
    split at hstep
    · rename_i op hi
      obtain ⟨⟨u, phase⟩, hop, rfl⟩ := Option.map_eq_some_iff.mp hstep
      exact inv_moves h hi (hr op hi) (opStep_moves hop)
    · cases hstep

instance (s : State) (op : Op) : Decidable (op.unraced s) := by
  unfold Op.unraced Covered Backs Busy StopAhead
  split <;> infer_instance

instance (a : Action) (s : State) : Decidable (Unraced a s) := by
  unfold Unraced
  split <;> infer_instance

def webConfig : TunnelConfig := ⟨"c", .tcp, "0.0.0.0:80", some "h:80"⟩

/-- A tunnel is created; then it is moved to another port while it is revoked, and the
revocation's `stop` comes after the start. -/
def overtakenRun : List Action :=
  [.request "t" (.create webConfig ⟨true, none, none⟩), .op 0 0 true, .op 0 0 true, .op 0 0 true, .op 0 0 true,
    .op 0 0 true, .request "t" (.update {webConfig with listen := "0.0.0.0:81"} ⟨true, none, none⟩),
    .request "t" .revoke, .op 1 0 true, .op 1 0 true, .op 1 0 true, .op 1 0 true, .op 1 0 true, .op 2 0 true,
    .op 1 0 true, .op 1 0 true, .op 2 0 true, .request "u" (.create webConfig ⟨true, none, none⟩), .op 3 0 true,
    .op 3 0 true, .op 3 0 true, .op 3 0 true, .op 3 0 true]

/-- An update has read its row back when the tunnel is deleted, and starts it after. -/
def deletedRun : List Action :=
  [.request "t" (.update webConfig ⟨true, none, none⟩), .request "t" .delete, .op 0 0 true, .op 0 0 true,
    .op 0 0 true, .op 1 0 true, .op 1 0 true, .op 1 0 true, .op 0 0 true, .op 0 0 true, .op 0 0 true, .op 0 0 true]

end TunnelRows

end Rps.Controller
