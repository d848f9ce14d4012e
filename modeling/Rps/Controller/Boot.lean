import Rps.Controller.PolicyDecisions
import Rps.Controller.Restarts
import Rps.Controller.TunnelRows

/-! Tunnels over restarts.

A process begins with the rows of the last one and with nothing that runs.
`start_enabled_from_db` lists the tunnels once and then starts those that were enabled, one
after another; the console and `policy::run` are at work by then. A start that fails is logged,
and its row stays enabled.

`restarts_backed`: over any number of restarts, when no call is in progress, what runs is what
the rows say, as long as none of the starts is overtaken by a change to its row. A tunnel that
is deleted behind the listing is started all the same (`boot_orphan`).

`booted_exact`: a boot that nobody disturbs starts exactly the tunnels that are enabled, whose
rows allow it, and whose listeners can be bound. -/
namespace Rps.Controller
open Base Resources TunnelRows

namespace Boot

/-- Where `start_enabled_from_db` stands. A call of `start` that it makes is an operation of its
own, of which it is the only one to take the steps. -/
inductive Progress where
  | begin
  | listed (rest : List (String × DbTunnel))
  | calling (i : Nat) (rest : List (String × DbTunnel))
  deriving DecidableEq

structure State where
  life : TunnelRows.State
  boot : Progress

def listTunnels (tunnels : Table String DbTunnel) : List (String × DbTunnel) := tunnels.entries.map fun e => (e.1, e.2)

def enabledTunnels (tunnels : Table String DbTunnel) : List (String × DbTunnel) :=
  (listTunnels tunnels).filter fun e => e.2.row.enabled

/-- The first loop of `load_from_db`. -/
def loadTunnels (tunnels : Table String DbTunnel) : PolicyEnforcer :=
  registerAll {} ((listTunnels tunnels).map fun e => (tunnelKey e.1, e.2.row))

def start (tunnels : Table String DbTunnel) : State where
  life := {tunnels := tunnels, policy := loadTunnels tunnels}
  boot := .begin

/-- The loop goes on behind a `start` that has failed. -/
def settle : Phase → Phase
  | .failing => .finished
  | phase => phase

def bootStep (now : Int) (bound : Bool) (s : State) : Option State :=
  match s.boot with
  | .begin => some {s with boot := .listed (enabledTunnels s.life.tunnels)}
  | .listed [] => none
  | .listed ((id, tunnel) :: rest) =>
    some {
      life := {s.life with ops := s.life.ops ++ [⟨id, .revoke, .starting tunnel⟩]}
      boot := .calling s.life.ops.length rest}
  | .calling i rest =>
    match s.life.ops[i]? with
    | none => none
    | some op =>
      match op.phase with
      | .starting tunnel =>
        (startStep now s.life i op tunnel).map fun (life, phase) => ⟨setPhase life i op (settle phase), s.boot⟩
      | .binding tunnel =>
        let (life, phase) := bindStep bound s.life op tunnel
        some ⟨setPhase life i op (settle phase), s.boot⟩
      | .finished => some {s with boot := .listed rest}
      | _ => none

inductive Action where
  | run (a : TunnelRows.Action)
  | restart
  | boot (now : Int) (bound : Bool)
  deriving DecidableEq

/-- The action is a step of the boot's own call. -/
def calls (s : State) : TunnelRows.Action → Bool
  | .op i _ _ =>
    match s.boot with
    | .calling j _ => i = j
    | _ => false
  | _ => false

def step (a : Action) (s : State) : Option State :=
  match a with
  | .run a => if calls s a then none else (TunnelRows.step a s.life).map fun life => {s with life := life}
  | .restart => some (start s.life.tunnels)
  | .boot now bound => bootStep now bound s

def system (tunnels : Table String DbTunnel) : System State Action where
  init := start tunnels
  step := step

/-- No start and no roll-back is overtaken, the boot's own included. -/
def Unraced (a : Action) (s : State) : Prop :=
  match a with
  | .run a => TunnelRows.Unraced a s.life
  | .restart => True
  | .boot _ _ =>
    match s.boot with
    | .calling i _ => ∀ op ∈ s.life.ops[i]?, op.unraced s.life
    | _ => True

/-! ### What runs is what the rows say -/

theorem inv_start (tunnels : Table String DbTunnel) : Inv (start tunnels).life where
  covered := by
    rintro id config (hrun | ⟨op, hop, -⟩)
    · cases hrun
    · cases hop
  locked := by
    intro i op hi
    simp [start] at hi

/-- A call that begins at its `start`. -/
theorem inv_call {s : TunnelRows.State} (h : Inv s) (id : String) (tunnel : DbTunnel) :
    Inv {s with ops := s.ops ++ [⟨id, .revoke, .starting tunnel⟩]} := by
  let op : Op := ⟨id, .revoke, .begin⟩
  have hi : (s.ops ++ [op])[s.ops.length]? = some op := by simp
  have hset : (s.ops ++ [op]).set s.ops.length {op with phase := .starting tunnel} =
      s.ops ++ [⟨id, .revoke, .starting tunnel⟩] := by simp [op]
  rw [← hset]
  exact inv_moves (inv_push h id .revoke) hi trivial (.keep s.policy (.starting tunnel) rfl rfl rfl)

section
variable {now : Int} {bound : Bool} {s u : TunnelRows.State} {i : Nat} {op : Op} {tunnel : DbTunnel} {phase : Phase}

/-- A call of `start` does nothing, or takes the lock. -/
theorem startStep_settled (hphase : op.phase = .starting tunnel) (h : startStep now s i op tunnel = some (u, phase)) :
    Moves s i op u (settle phase) := by
  have hstops : op.phase.stops = false := by rw [hphase]; rfl
  have hupdates : op.updates = false := by simp [Op.updates, hphase]
  unfold startStep at h
  split at h
  · cases h
  · rename_i hlock
    split at h
    · cases h
      exact .keep s.policy _ hstops hupdates rfl
    · split at h
      · cases h
        exact .keep _ _ hstops hupdates rfl
      · cases h
        exact .lock _ tunnel (by simpa using hlock) hphase

theorem inv_bindStep (h : Inv s) (hi : s.ops[i]? = some op) (hr : op.unraced s) (hphase : op.phase = .binding tunnel)
    (hstep : bindStep bound s op tunnel = (u, phase)) : Inv (setPhase u i op (settle phase)) := by
  unfold bindStep at hstep
  split at hstep
  · cases hstep
    exact inv_moves h hi hr (.bind tunnel hphase)
  · cases hstep
    refine ⟨fun id config hruns => ?_, locked_release h hi hphase rfl rfl⟩
    exact covered_set hi rfl rfl (fun _ => by simp [hphase, Phase.stops, Op.updates])
      (h.covered id config (runsWith_of_set rfl rfl rfl hruns))

end

theorem inv_bootStep {now : Int} {bound : Bool} {s u : State} (h : Inv s.life)
    (hr : Unraced (.boot now bound) s) (hstep : bootStep now bound s = some u) : Inv u.life := by
  obtain ⟨life, boot⟩ := s
  cases boot with
  | begin =>
    cases hstep
    exact h
  | listed rest =>
    cases rest with
    | nil => cases hstep
    | cons e rest =>
      cases hstep
      exact inv_call h e.1 e.2
  | calling i rest =>
    simp only [bootStep] at hstep
    split at hstep
    · cases hstep
    · rename_i op hi
      split at hstep
      · rename_i tunnel hphase
        obtain ⟨⟨v, phase⟩, hv, rfl⟩ := Option.map_eq_some_iff.mp hstep
        exact inv_moves h hi (hr op hi) (startStep_settled hphase hv)
      · rename_i tunnel hphase
        cases hstep
        exact inv_bindStep h hi (hr op hi) hphase rfl
      · cases hstep
        exact h
      · cases hstep

theorem inv_step {a : Action} {s u : State} (h : Inv s.life) (hr : Unraced a s) (hstep : step a s = some u) :
    Inv u.life := by
  cases a with
  | run a =>
    simp only [step] at hstep
    split at hstep
    · cases hstep
    · obtain ⟨life, hlife, rfl⟩ := Option.map_eq_some_iff.mp hstep
      exact TunnelRows.inv_step h hr hlife
  | restart =>
    cases hstep
    exact inv_start _
  | boot now bound => exact inv_bootStep h hr hstep

/-- The row lets its tunnel start. -/
def Allows (now : Int) (row : Row) : Prop :=
  (∀ expiresAt ∈ row.expiresAt, now < expiresAt) ∧ ∀ limit ∈ row.trafficLimitBytes, row.used < limit

/-- Only the boot takes steps; `clock` is when it asks for a tunnel, and `free` are the
listeners that can be bound. -/
def Alone (clock : String → Int) (free : String → Bool) (a : Action) (s : State) : Prop :=
  match a with
  | .boot now bound =>
    match s.boot with
    | .calling i _ => ∀ op ∈ s.life.ops[i]?, now = clock op.id ∧ bound = free op.id
    | _ => True
  | _ => False

theorem allowed_loaded (now : Int) {p : PolicyEnforcer} {key : ResourceKey} {policy : PolicyState} {row : Row}
    (hpolicy : p.policies.lookup key = some policy) (h : Restarts.Loaded policy row) :
    (p.allowed now key).1 = true ↔ Allows now row := by
  rw [PolicyEnforcer.allowed_eq now hpolicy, PolicyEnforcer.judged]
  simp only [h.revoked, Bool.false_or, Bool.not_eq_true', Bool.or_eq_false_iff, PolicyEnforcer.expiredAt,
    PolicyEnforcer.exhausted, h.expires, h.limit, h.used, Allows]
  cases row.expiresAt <;> cases row.trafficLimitBytes <;> simp

section
variable {tunnels : Table String DbTunnel}

theorem mem_listTunnels {id : String} {tunnel : DbTunnel} :
    (id, tunnel) ∈ listTunnels tunnels ↔ tunnels.lookup id = some tunnel := by
  rw [listTunnels, List.mem_map, ← Option.mem_def, AList.mem_lookup_iff]
  constructor
  · rintro ⟨e, he, heq⟩
    obtain ⟨rfl, rfl⟩ := Prod.mk.inj heq
    exact he
  · intro h
    exact ⟨_, h, rfl⟩

theorem enabledTunnels_nodup (tunnels : Table String DbTunnel) : ((enabledTunnels tunnels).map fun e => e.1).Nodup := by
  have hkeys : ((listTunnels tunnels).map fun e => e.1).Nodup := by
    rw [listTunnels, List.map_map]
    exact tunnels.nodupKeys
  exact hkeys.sublist (List.filter_sublist.map _)

theorem loadTunnels_lookup {id : String} {tunnel : DbTunnel} (h : tunnels.lookup id = some tunnel) :
    ∃ policy, (loadTunnels tunnels).policies.lookup (tunnelKey id) = some policy ∧
      Restarts.Loaded policy tunnel.row := by
  have hmem : (tunnelKey id, tunnel.row) ∈ (listTunnels tunnels).map fun e => (tunnelKey e.1, e.2.row) :=
    List.mem_map.mpr ⟨(id, tunnel), mem_listTunnels.mpr h, rfl⟩
  cases hpolicy : (loadTunnels tunnels).policies.lookup (tunnelKey id) with
  | none => exact absurd hmem ((Restarts.registerAll_none hpolicy).2 tunnel.row)
  | some policy =>
    refine ⟨policy, rfl, ?_⟩
    rcases Restarts.registerAll_lookup hpolicy with hnone | ⟨row, hrow, hloaded⟩
    · cases hnone
    · obtain ⟨e, he, heq⟩ := List.mem_map.mp hrow
      obtain ⟨hid, rfl⟩ := Prod.mk.inj heq
      have hlookup : tunnels.lookup e.1 = some e.2 := mem_listTunnels.mp he
      rw [(ResourceKey.mk.inj hid).2, h] at hlookup
      rw [Option.some.inj hlookup]
      exact hloaded

end

/-- The tunnel is started when it comes to it. -/
def Starts (clock : String → Int) (free : String → Bool) (e : String × DbTunnel) : Prop :=
  Allows (clock e.1) e.2.row ∧ free e.1 = true

/-- The loop is behind `done`, and has not asked for `asks`. -/
structure Between (clock : String → Int) (free : String → Bool) (tunnels : Table String DbTunnel)
    (done rest asks : List (String × DbTunnel)) (s : TunnelRows.State) : Prop where
  split : enabledTunnels tunnels = done ++ rest
  ran : ∀ id config, s.running.lookup id = some config ↔
    ∃ tunnel, (id, tunnel) ∈ done ∧ tunnel.config = config ∧ Starts clock free (id, tunnel)
  loaded : ∀ e ∈ asks, ∃ policy, s.policy.policies.lookup (tunnelKey e.1) = some policy ∧
    Restarts.Loaded policy e.2.row

/-- Where a call of `start` for `e` stands. -/
inductive Call (clock : String → Int) (free : String → Bool) (tunnels : Table String DbTunnel)
    (rest : List (String × DbTunnel)) (s : TunnelRows.State) (op : Op) : Prop where
  | starting (done : List (String × DbTunnel)) (tunnel : DbTunnel) : op.phase = .starting tunnel → s.lock = none →
      Between clock free tunnels done ((op.id, tunnel) :: rest) ((op.id, tunnel) :: rest) s →
      Call clock free tunnels rest s op
  | binding (done : List (String × DbTunnel)) (tunnel : DbTunnel) : op.phase = .binding tunnel →
      Allows (clock op.id) tunnel.row → Between clock free tunnels done ((op.id, tunnel) :: rest) rest s →
      Call clock free tunnels rest s op
  | finished (done : List (String × DbTunnel)) : op.phase = .finished → s.lock = none →
      Between clock free tunnels done rest rest s → Call clock free tunnels rest s op

def Undisturbed (clock : String → Int) (free : String → Bool) (tunnels : Table String DbTunnel) (s : State) : Prop :=
  match s.boot with
  | .begin => s.life = (start tunnels).life
  | .listed rest => s.life.lock = none ∧ ∃ done, Between clock free tunnels done rest rest s.life
  | .calling i rest => ∃ op, s.life.ops[i]? = some op ∧ Call clock free tunnels rest s.life op

section
variable {clock : String → Int} {free : String → Bool} {tunnels : Table String DbTunnel} {s : TunnelRows.State}
  {done rest asks : List (String × DbTunnel)} {id : String} {tunnel : DbTunnel}

/-- No id is listed twice. -/
theorem Between.fresh (h : Between clock free tunnels done ((id, tunnel) :: rest) asks s) :
    (∀ t, (id, t) ∉ done) ∧ ∀ e ∈ rest, e.1 ≠ id := by
  have hnodup := enabledTunnels_nodup tunnels
  rw [h.split, List.map_append, List.map_cons, List.nodup_append] at hnodup
  obtain ⟨-, hrest, hdone⟩ := hnodup
  constructor
  · intro t ht
    exact hdone id (List.mem_map.mpr ⟨_, ht, rfl⟩) id (List.mem_cons_self ..) rfl
  · rintro e he rfl
    exact (List.nodup_cons.mp hrest).1 (List.mem_map.mpr ⟨e, he, rfl⟩)

theorem Between.stopped (h : Between clock free tunnels done ((id, tunnel) :: rest) asks s) :
    s.running.lookup id = none := by
  cases hrun : s.running.lookup id with
  | none => rfl
  | some config =>
    obtain ⟨t, ht, -⟩ := (h.ran id config).mp hrun
    exact absurd ht (h.fresh.1 t)

theorem Between.split_next (h : Between clock free tunnels done ((id, tunnel) :: rest) asks s) :
    enabledTunnels tunnels = done ++ [(id, tunnel)] ++ rest := by
  rw [h.split, List.append_assoc, List.singleton_append]

/-- A tunnel that does not start. -/
theorem Between.skip (h : Between clock free tunnels done ((id, tunnel) :: rest) asks s)
    (hstarts : ¬ Starts clock free (id, tunnel)) {u : TunnelRows.State} (hrunning : u.running = s.running)
    (hloaded : ∀ e ∈ rest, ∃ policy, u.policy.policies.lookup (tunnelKey e.1) = some policy ∧
      Restarts.Loaded policy e.2.row) :
    Between clock free tunnels (done ++ [(id, tunnel)]) rest rest u where
  split := h.split_next
  ran := by
    intro id' config
    rw [hrunning, h.ran]
    constructor
    · rintro ⟨t, ht, hrest⟩
      exact ⟨t, List.mem_append_left _ ht, hrest⟩
    · rintro ⟨t, ht, hconfig, hstart⟩
      rcases List.mem_append.mp ht with ht | ht
      · exact ⟨t, ht, hconfig, hstart⟩
      · rw [List.mem_singleton.mp ht] at hstart
        exact absurd hstart hstarts
  loaded := hloaded

/-- A tunnel that does. -/
theorem Between.ran_insert (h : Between clock free tunnels done ((id, tunnel) :: rest) rest s)
    (hstarts : Starts clock free (id, tunnel)) {u : TunnelRows.State}
    (hrunning : u.running = s.running.insert id tunnel.config) (hpolicy : u.policy = s.policy) :
    Between clock free tunnels (done ++ [(id, tunnel)]) rest rest u where
  split := h.split_next
  ran := by
    intro id' config
    rw [hrunning, Table.lookup_insert]
    split
    · rename_i hid
      subst hid
      constructor
      · intro hconfig
        exact ⟨tunnel, by simp, Option.some.inj hconfig, hstarts⟩
      · rintro ⟨t, ht, hconfig, -⟩
        rcases List.mem_append.mp ht with ht | ht
        · exact absurd ht (h.fresh.1 t)
        · rw [← hconfig, (Prod.mk.inj (List.mem_singleton.mp ht)).2]
    · rename_i hid
      rw [h.ran]
      constructor
      · rintro ⟨t, ht, hrest⟩
        exact ⟨t, List.mem_append_left _ ht, hrest⟩
      · rintro ⟨t, ht, hrest⟩
        rcases List.mem_append.mp ht with ht | ht
        · exact ⟨t, ht, hrest⟩
        · exact absurd (Prod.mk.inj (List.mem_singleton.mp ht)).1 hid
  loaded := by
    rw [hpolicy]
    exact h.loaded

/-- A question about one tunnel leaves the policies of the others as they are. -/
theorem Between.asked (h : Between clock free tunnels done ((id, tunnel) :: rest) ((id, tunnel) :: rest) s)
    (now : Int) :
    ∀ e ∈ rest, ∃ policy, (s.policy.allowed now (tunnelKey id)).2.policies.lookup (tunnelKey e.1) = some policy ∧
      Restarts.Loaded policy e.2.row := by
  intro e he
  obtain ⟨policy, hpolicy, hloaded⟩ := h.loaded e (List.mem_cons_of_mem _ he)
  refine ⟨policy, ?_, hloaded⟩
  rw [PolicyEnforcer.lookup_allowed, if_neg, hpolicy]
  intro hkey
  exact h.fresh.2 e he (ResourceKey.mk.inj hkey).2

end

section
variable {clock : String → Int} {free : String → Bool} {tunnels : Table String DbTunnel} {s u : TunnelRows.State}
  {rest : List (String × DbTunnel)} {now : Int} {bound : Bool} {i : Nat} {op : Op} {tunnel : DbTunnel} {phase : Phase}

theorem startStep_ops (h : startStep now s i op tunnel = some (u, phase)) : u.ops = s.ops := by
  unfold startStep at h
  split at h
  · cases h
  · split at h
    · cases h
      rfl
    · split at h <;> (cases h; rfl)

theorem bindStep_ops (bound : Bool) (s : TunnelRows.State) (op : Op) (tunnel : DbTunnel) :
    (bindStep bound s op tunnel).1.ops = s.ops := by
  unfold bindStep
  split <;> rfl

theorem setPhase_get {v : TunnelRows.State} (hops : v.ops = s.ops) (hi : s.ops[i]? = some op) (phase : Phase) :
    (setPhase v i op phase).ops[i]? = some {op with phase := phase} := by
  rw [setPhase, hops, Heap.get_set hi, if_pos rfl]

/-- The first half of a call. -/
theorem call_startStep (h : Call clock free tunnels rest s op) (hphase : op.phase = .starting tunnel)
    (hstep : startStep (clock op.id) s i op tunnel = some (u, phase)) :
    Call clock free tunnels rest (setPhase u i op (settle phase)) {op with phase := settle phase} := by
  cases h with
  | starting done t hstarting hlock hbetween =>
    obtain rfl : t = tunnel := Phase.starting.inj (hstarting.symm.trans hphase)
    obtain ⟨policy, hpolicy, hloaded⟩ := hbetween.loaded _ (List.mem_cons_self ..)
    have hallows := allowed_loaded (clock op.id) hpolicy hloaded
    have hasked := hbetween.asked (clock op.id)
    simp only [startStep, hlock, ne_eq, not_true_eq_false, if_false, hbetween.stopped, Option.isSome_none,
      Bool.false_eq_true] at hstep
    cases hanswer : s.policy.allowed (clock op.id) (tunnelKey op.id) with
    | mk ok p =>
      rw [hanswer] at hallows hasked hstep
      cases ok with
      | false =>
        cases hstep
        refine .finished _ rfl rfl (hbetween.skip ?_ rfl hasked)
        intro hstarts
        exact absurd (hallows.mpr hstarts.1) (by simp)
      | true =>
        cases hstep
        exact .binding done t rfl (hallows.mp rfl) ⟨hbetween.split, hbetween.ran, hasked⟩
  | binding _ _ hbinding _ _ => cases hbinding.symm.trans hphase
  | finished _ hfinished _ _ => cases hfinished.symm.trans hphase

/-- The second. -/
theorem call_bindStep (h : Call clock free tunnels rest s op) (hphase : op.phase = .binding tunnel)
    (hstep : bindStep (free op.id) s op tunnel = (u, phase)) :
    Call clock free tunnels rest (setPhase u i op (settle phase)) {op with phase := settle phase} := by
  cases h with
  | binding done t hbinding hallows hbetween =>
    obtain rfl : t = tunnel := Phase.binding.inj (hbinding.symm.trans hphase)
    unfold bindStep at hstep
    split at hstep
    · rename_i hfree
      cases hstep
      exact .finished _ rfl rfl (hbetween.ran_insert ⟨hallows, hfree⟩ rfl rfl)
    · rename_i hfree
      cases hstep
      refine .finished _ rfl rfl (hbetween.skip ?_ rfl hbetween.loaded)
      intro hstarts
      exact hfree hstarts.2
  | starting _ _ hstarting _ _ => cases hstarting.symm.trans hphase
  | finished _ hfinished _ _ => cases hfinished.symm.trans hphase

end

theorem undisturbed_step {clock : String → Int} {free : String → Bool} {tunnels : Table String DbTunnel} {a : Action}
    {s u : State} (h : Undisturbed clock free tunnels s) (hc : Alone clock free a s) (hstep : step a s = some u) :
    Undisturbed clock free tunnels u := by
  cases a with
  | run a => exact absurd hc id
  | restart => exact absurd hc id
  | boot now bound =>
    obtain ⟨life, boot⟩ := s
    cases boot with
    | begin =>
      obtain rfl : life = (start tunnels).life := h
      cases hstep
      refine ⟨rfl, [], rfl, fun id config => ?_, fun e he => ?_⟩
      · simp [start]
      · exact loadTunnels_lookup (mem_listTunnels.mp (List.mem_of_mem_filter he))
    | listed rest =>
      obtain ⟨hlock, done, hbetween⟩ := h
      cases rest with
      | nil => cases hstep
      | cons e rest =>
        cases hstep
        refine ⟨⟨e.1, .revoke, .starting e.2⟩, by simp, ?_⟩
        exact .starting done e.2 rfl hlock ⟨hbetween.split, hbetween.ran, hbetween.loaded⟩
    | calling i rest =>
      obtain ⟨op, hi, hcall⟩ := h
      obtain ⟨rfl, rfl⟩ := hc op hi
      simp only [step, bootStep, hi] at hstep
      split at hstep
      · rename_i tunnel hphase
        obtain ⟨⟨v, phase⟩, hv, rfl⟩ := Option.map_eq_some_iff.mp hstep
        exact ⟨_, setPhase_get (startStep_ops hv) hi _, call_startStep hcall hphase hv⟩
      · rename_i tunnel hphase
        cases hstep
        exact ⟨_, setPhase_get (bindStep_ops ..) hi _, call_bindStep hcall hphase rfl⟩
      · rename_i hphase
        cases hstep
        cases hcall with
        | finished done _ hlock hbetween => exact ⟨hlock, done, hbetween⟩
        | starting _ _ hstarting _ _ => cases hstarting.symm.trans hphase
        | binding _ _ hbinding _ _ => cases hbinding.symm.trans hphase
      · cases hstep

/-- The steps that are left of a boot. -/
def stepsLeft (s : State) : Nat :=
  match s.boot with
  | .begin => 4 * (enabledTunnels s.life.tunnels).length + 1
  | .listed rest => 4 * rest.length
  | .calling i rest =>
    match s.life.ops[i]?.map Op.phase with
    | some (.starting _) => 4 * rest.length + 3
    | some (.binding _) => 4 * rest.length + 2
    | _ => 4 * rest.length + 1

theorem startStep_free (now : Int) (i : Nat) (op : Op) (tunnel : DbTunnel) {s : TunnelRows.State}
    (hlock : s.lock = none) :
    ∃ u phase, startStep now s i op tunnel = some (u, phase) ∧ (phase = .failing ∨ phase = .binding tunnel) := by
  unfold startStep
  rw [if_neg (by simp [hlock])]
  split
  · exact ⟨_, _, rfl, .inl rfl⟩
  · split
    · exact ⟨_, _, rfl, .inl rfl⟩
    · exact ⟨_, _, rfl, .inr rfl⟩

theorem settle_bindStep (bound : Bool) (s : TunnelRows.State) (op : Op) (tunnel : DbTunnel) :
    settle (bindStep bound s op tunnel).2 = .finished := by
  unfold bindStep
  split <;> rfl

/-- A boot that nobody disturbs goes on to its end. -/
theorem undisturbed_next {clock : String → Int} {free : String → Bool} {tunnels : Table String DbTunnel} {s : State}
    (h : Undisturbed clock free tunnels s) (hboot : s.boot ≠ .listed []) :
    ∃ a u, Alone clock free a s ∧ step a s = some u ∧ stepsLeft u < stepsLeft s := by
  obtain ⟨life, boot⟩ := s
  cases boot with
  | begin => exact ⟨.boot 0 true, _, trivial, rfl, by simp [stepsLeft]⟩
  | listed rest =>
    cases rest with
    | nil => exact absurd rfl hboot
    | cons e rest =>
      refine ⟨.boot 0 true, _, trivial, rfl, ?_⟩
      simp only [stepsLeft, List.getElem?_concat_length, Option.map_some, List.length_cons]
      omega
  | calling i rest =>
    obtain ⟨op, hi, hcall⟩ := h
    have halone : Alone clock free (.boot (clock op.id) (free op.id)) ⟨life, .calling i rest⟩ := by
      intro op' hop'
      obtain rfl := Option.some.inj (hi.symm.trans hop')
      exact ⟨rfl, rfl⟩
    cases hcall with
    | starting done tunnel hphase hlock _ =>
      obtain ⟨v, phase, hv, hend⟩ := startStep_free (clock op.id) i op tunnel hlock
      refine ⟨_, ⟨setPhase v i op (settle phase), .calling i rest⟩, halone, ?_, ?_⟩
      · simp only [step, bootStep, hi, hphase, hv, Option.map_some]
      · simp only [stepsLeft, setPhase_get (startStep_ops hv) hi, hi, Option.map_some, hphase]
        rcases hend with rfl | rfl <;> simp [settle]
    | binding done tunnel hphase _ _ =>
      refine ⟨_, ⟨setPhase (bindStep (free op.id) life op tunnel).1 i op
        (settle (bindStep (free op.id) life op tunnel).2), .calling i rest⟩, halone, ?_, ?_⟩
      · simp only [step, bootStep, hi, hphase]
      · simp only [stepsLeft, setPhase_get (bindStep_ops ..) hi, settle_bindStep, hi, Option.map_some, hphase]
        omega
    | finished done hphase _ _ =>
      refine ⟨_, ⟨life, .listed rest⟩, halone, ?_, ?_⟩
      · simp only [step, bootStep, hi, hphase]
      · simp only [stepsLeft, hi, Option.map_some, hphase]
        omega

theorem undisturbed_ends {clock : String → Int} {free : String → Bool} {tunnels : Table String DbTunnel} {s : State}
    (h : Undisturbed clock free tunnels s) :
    ∃ u, (system tunnels).Steps (Alone clock free) s u ∧ u.boot = .listed [] := by
  induction hn : stepsLeft s using Nat.strongRecOn generalizing s with
  | ind n ih =>
    by_cases hboot : s.boot = .listed []
    · exact ⟨s, .refl, hboot⟩
    · obtain ⟨a, u, hc, hstep, hlt⟩ := undisturbed_next h hboot
      obtain ⟨v, hsteps, hv⟩ := ih (stepsLeft u) (hn ▸ hlt) (undisturbed_step h hc hstep) rfl
      exact ⟨v, System.Steps.trans (.step .refl hc hstep) hsteps, hv⟩

/-- **A boot that nobody disturbs** comes to its end, and has then started exactly the enabled
tunnels whose rows allow it and whose listeners are free. -/
theorem booted_exact (clock : String → Int) (free : String → Bool) (tunnels : Table String DbTunnel) (s : State)
    (h : (system tunnels).Reach (Alone clock free) s) :
    (∃ u, (system tunnels).Steps (Alone clock free) s u ∧ u.boot = .listed []) ∧
      (s.boot = .listed [] → ∀ id config, s.life.running.lookup id = some config ↔
        ∃ tunnel, tunnels.lookup id = some tunnel ∧ Backs tunnel config ∧ Allows (clock id) tunnel.row ∧
          free id = true) := by
  have hinv : Undisturbed clock free tunnels s :=
    h.invariant (I := Undisturbed clock free tunnels) rfl fun _ _ _ hi hc hs => undisturbed_step hi hc hs
  refine ⟨undisturbed_ends hinv, fun hdone id config => ?_⟩
  rw [Undisturbed, hdone] at hinv
  obtain ⟨-, done, hbetween⟩ := hinv
  have hsplit : enabledTunnels tunnels = done := by rw [hbetween.split, List.append_nil]
  have hmem (tunnel : DbTunnel) :
      (id, tunnel) ∈ done ↔ tunnels.lookup id = some tunnel ∧ tunnel.row.enabled = true := by
    rw [← hsplit, enabledTunnels, List.mem_filter, mem_listTunnels]
  rw [hbetween.ran]
  constructor
  · rintro ⟨tunnel, ht, hconfig, hallows, hfree⟩
    obtain ⟨hrow, henabled⟩ := (hmem tunnel).mp ht
    exact ⟨tunnel, hrow, ⟨henabled, hconfig⟩, hallows, hfree⟩
  · rintro ⟨tunnel, hrow, ⟨henabled, hconfig⟩, hallows, hfree⟩
    exact ⟨tunnel, (hmem tunnel).mpr ⟨hrow, henabled⟩, hconfig, hallows, hfree⟩

/-! ### Runs -/

instance (a : Action) (s : State) : Decidable (Unraced a s) := by
  unfold Unraced
  split
  · infer_instance
  · infer_instance
  · split <;> infer_instance

instance (clock : String → Int) (free : String → Bool) (a : Action) (s : State) : Decidable (Alone clock free a s) := by
  unfold Alone
  split
  · split <;> infer_instance
  · infer_instance

/-- Two tunnels, of which the one has reached its limit. -/
def twoTunnels : Table String DbTunnel :=
  ((∅ : Table String DbTunnel).insert "u" ⟨webConfig, ⟨true, none, some 5, 5, 0⟩⟩).insert "t"
    ⟨webConfig, ⟨true, none, none, 0, 0⟩⟩

/-- The process begins, is ended while it binds a listener, and begins again; a tunnel is
deleted while the other is started. -/
def restartedRun : List Action :=
  [.boot 0 true, .boot 0 true, .boot 0 true, .restart, .boot 0 true, .boot 0 true, .run (.request "u" .delete),
    .boot 0 true, .run (.op 1 0 true), .boot 0 true, .boot 0 true, .run (.op 1 0 true), .run (.op 1 0 true)]

def bootRun : List Action := List.replicate 8 (.boot 0 true)

theorem booted_exact_bootRun : ∃ s, (system twoTunnels).Reach (Alone (fun _ => 0) fun _ => true) s ∧
    (s.life.running.lookup "t" = some webConfig ↔ ∃ tunnel, twoTunnels.lookup "t" = some tunnel ∧
      Backs tunnel webConfig ∧ Allows 0 tunnel.row ∧ true = true) ∧ s.life.running.lookup "t" = some webConfig := by
  obtain ⟨s, hs, hp⟩ := System.reach_of_run (S := system twoTunnels) (C := Alone (fun _ => 0) fun _ => true) bootRun
    (fun s => s.boot = .listed [] ∧ s.life.running.lookup "t" = some webConfig) (by decide +kernel)
  obtain ⟨hdone, hruns⟩ := of_decide_eq_true hp
  exact ⟨s, hs, (booted_exact _ _ twoTunnels s hs).2 hdone "t" webConfig, hruns⟩

/-- A tunnel is deleted between the listing and its start. -/
def orphanRun : List Action :=
  [.boot 0 true, .run (.request "t" .delete), .run (.op 0 0 true), .run (.op 0 0 true), .run (.op 0 0 true),
    .boot 0 true, .boot 0 true, .boot 0 true]

/-- The boot starts it all the same, and it runs without a row. -/
theorem boot_orphan : ∃ tunnels s, (system tunnels).Reachable s ∧ ¬ RunningBacked s.life := by
  let tunnels := (∅ : Table String DbTunnel).insert "t" ⟨webConfig, ⟨true, none, none, 0, 0⟩⟩
  refine ⟨tunnels, ?_⟩
  obtain ⟨s, hs, hp⟩ := System.reach_of_run (S := system tunnels) (C := fun _ _ => True) orphanRun
    (fun s => (∀ op ∈ s.life.ops, op.phase = .finished) ∧ s.life.running.lookup "t" = some webConfig ∧
      s.life.tunnels.lookup "t" = none) (by decide +kernel)
  obtain ⟨hidle, hruns, hrow⟩ := of_decide_eq_true hp
  refine ⟨s, hs, fun hbacked => ?_⟩
  obtain ⟨tunnel, htunnel, -⟩ := hbacked hidle "t" _ hruns
  rw [hrow] at htunnel
  cases htunnel

end Boot

end Rps.Controller
