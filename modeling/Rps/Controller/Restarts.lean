import Rps.Controller.Usage

/-! Usage over restarts.

The process keeps its policies, its traffic queue and its batches in memory and ends without
flushing them. At the next start `load_from_db` registers every row with the bytes that have
reached it, before any other task runs; `start_enabled_from_db` then starts the tunnels it has
listed, one by one, beside the tasks that are running by then.

`limit_over_restarts`: over any number of restarts, wherever they come, what was recorded on a
resource since it was created is in its row, on its way there, or was on its way when a process
ended; and the resource is only let in while it is below the limit by more than the latter. -/
namespace Rps.Controller
open Base Resources

namespace Resources

/-- The entries of a kind, as `list_tunnels` and `list_proxy_accounts` return them. -/
def listRows (rows : Table ResourceKey Row) (kind : ResourceKind) : List (ResourceKey × Row) :=
  (rows.entries.filter fun e => e.1.kind = kind).map fun e => (e.1, e.2)

def registerAll (p : PolicyEnforcer) (entries : List (ResourceKey × Row)) : PolicyEnforcer :=
  entries.foldl (fun p e => p.register e.1 e.2.expiresAt e.2.trafficLimitBytes e.2.used) p

def loadFromDb (p : PolicyEnforcer) (rows : Table ResourceKey Row) : PolicyEnforcer :=
  registerAll (registerAll p (listRows rows .tunnel)) (listRows rows .proxyAccount)

/-- The state of the next process. Of the bytes that were recorded, those on their way are gone. -/
def State.restarted (s : State) : State where
  rows := s.rows
  policy := loadFromDb {registrations := s.policy.registrations} s.rows
  recorded := fun key => s.recorded key - s.inFlight key
  total := s.total
  hits := s.hits
  carried := s.carried

def State.enabledTunnels (s : State) : List ResourceKey :=
  ((listRows s.rows .tunnel).filter fun e => e.2.enabled).map fun e => e.1

end Resources

namespace Restarts

/-- `boot` is what `start_enabled_from_db` has still to start, once it has listed the tunnels.
`recorded` are the bytes recorded on a resource since it was created, `lost` those that were
on their way when a process ended. -/
structure State where
  life : Resources.State := {}
  boot : Option (List ResourceKey) := none
  recorded : ResourceKey → Nat := fun _ => 0
  lost : ResourceKey → Nat := fun _ => 0

inductive Action where
  | run (a : Resources.Action)
  | restart
  | listTunnels
  | startTunnel (now : Int) (bound : Bool)
  deriving DecidableEq

/-- What a step records: the bytes of an `add`, and none on a resource that is new. -/
def recount (a : Resources.Action) (recorded : ResourceKey → Nat) : ResourceKey → Nat :=
  match a with
  | .add key event => Function.update recorded key (recorded key + event.rxBytes + event.txBytes)
  | .create key _ => Function.update recorded key 0
  | _ => recorded

def forget (a : Resources.Action) (lost : ResourceKey → Nat) : ResourceKey → Nat :=
  match a with
  | .create key _ => Function.update lost key 0
  | _ => lost

def step (a : Action) (s : State) : Option State :=
  match a with
  | .run a =>
    (Resources.step a s.life).map fun life =>
      {s with life := life, recorded := recount a s.recorded, lost := forget a s.lost}
  | .restart =>
    some {s with life := s.life.restarted, boot := none, lost := fun key => s.lost key + s.life.inFlight key}
  | .listTunnels =>
    match s.boot with
    | none => some {s with boot := some s.life.enabledTunnels}
    | some _ => none
  | .startTunnel now bound =>
    match s.boot with
    | some (key :: rest) => some {s with life := (s.life.start key now bound).2, boot := some rest}
    | _ => none

def system : System State Action where
  init := {}
  step := step

/-- The steps of a process are as `usage_covers` wants them; a restart may come at any point. -/
def Orderly (a : Action) (s : State) : Prop :=
  match a with
  | .run a => Undropped a s.life ∧ Settled a s.life
  | _ => True

/-! ### What is registered at the start -/

/-- The policy is that of the row, and has its flag down. -/
structure Loaded (policy : PolicyState) (row : Row) : Prop where
  expires : policy.expiresAt = row.expiresAt
  limit : policy.trafficLimitBytes = row.trafficLimitBytes
  used : policy.usedBytes = row.used
  revoked : policy.revoked = false

theorem registerAll_lookup {p : PolicyEnforcer} {entries : List (ResourceKey × Row)} {key : ResourceKey}
    {policy : PolicyState} (h : (registerAll p entries).policies.lookup key = some policy) :
    p.policies.lookup key = some policy ∨ ∃ row, (key, row) ∈ entries ∧ Loaded policy row := by
  induction entries generalizing p with
  | nil => exact .inl h
  | cons e entries ih =>
    rcases ih h with h | ⟨row, hrow, hpolicy⟩
    · simp only [PolicyEnforcer.register, Table.lookup_insert] at h
      split at h
      · rename_i hkey
        refine .inr ⟨e.2, ?_, ?_⟩
        · rw [hkey]
          exact List.mem_cons_self ..
        · rw [← Option.some.inj h]
          exact ⟨rfl, rfl, rfl, rfl⟩
      · exact .inl h
    · exact .inr ⟨row, List.mem_cons_of_mem e hrow, hpolicy⟩

theorem registerAll_none {p : PolicyEnforcer} {entries : List (ResourceKey × Row)} {key : ResourceKey}
    (h : (registerAll p entries).policies.lookup key = none) :
    p.policies.lookup key = none ∧ ∀ row, (key, row) ∉ entries := by
  induction entries generalizing p with
  | nil => exact ⟨h, fun row => List.not_mem_nil⟩
  | cons e entries ih =>
    obtain ⟨hregister, hrest⟩ := ih h
    simp only [PolicyEnforcer.register, Table.lookup_insert] at hregister
    split at hregister
    · cases hregister
    · rename_i hkey
      refine ⟨hregister, fun row hrow => ?_⟩
      rcases List.mem_cons.mp hrow with heq | hrow
      · rw [← heq] at hkey
        exact hkey rfl
      · exact hrest row hrow

theorem mem_listRows {rows : Table ResourceKey Row} {kind : ResourceKind} {key : ResourceKey} {row : Row}
    (h : (key, row) ∈ listRows rows kind) : rows.lookup key = some row := by
  obtain ⟨e, he, heq⟩ := List.mem_map.mp h
  obtain ⟨rfl, rfl⟩ := Prod.mk.inj heq
  exact AList.mem_lookup_iff.mpr (List.mem_of_mem_filter he)

theorem loadFromDb_lookup {p : PolicyEnforcer} (hempty : p.policies = ∅) {rows : Table ResourceKey Row}
    {key : ResourceKey} {policy : PolicyState} (h : (loadFromDb p rows).policies.lookup key = some policy) :
    ∃ row, rows.lookup key = some row ∧ Loaded policy row := by
  rcases registerAll_lookup h with h | ⟨row, hrow, hloaded⟩
  · rcases registerAll_lookup h with h | ⟨row, hrow, hloaded⟩
    · rw [hempty] at h
      cases h
    · exact ⟨row, mem_listRows hrow, hloaded⟩
  · exact ⟨row, mem_listRows hrow, hloaded⟩

/-! ### What a step records -/

section
variable {a : Resources.Action} {s u : Resources.State}

theorem modifyRow_recorded (s : Resources.State) (key : ResourceKey) (f : Row → Row) :
    (s.modifyRow key f).recorded = s.recorded := by
  unfold State.modifyRow
  split <;> rfl

theorem start_recorded (s : Resources.State) (key : ResourceKey) (now : Int) (bound : Bool) :
    (s.start key now bound).2.recorded = s.recorded := by
  unfold State.start
  split
  · rfl
  · split
    · rfl
    · split <;> rfl

theorem trafficStep_recorded (h : trafficStep a s = some u) : u.recorded = recount a s.recorded := by
  unfold trafficStep at h
  split at h
  · cases h
    rfl
  · cases h
    rfl
  · split at h
    · cases h
      rfl
    · cases h
  · split at h
    · cases h
      rfl
    · cases h
  · split at h
    · cases h
      rfl
    · cases h
  · split at h
    · cases h
      rfl
    · cases h
  · split at h
    · cases h
      unfold State.addResourceTraffic
      split
      · exact modifyRow_recorded ..
      · rfl
    · cases h
  · cases h

theorem requestStep_recorded (h : requestStep a s = some u) : u.recorded = recount a s.recorded := by
  unfold requestStep at h
  split at h
  · split at h
    · cases h
    · cases h
      rfl
  · split at h
    · cases h
      rfl
    · cases h
  · split at h
    · cases h
      rfl
    · cases h
  · cases h

theorem adminStep_recorded {admin : Admin} {now : Int} {bound : Bool} {phase : AdminPhase}
    (h : adminStep s admin now bound = some (u, phase)) : u.recorded = s.recorded := by
  obtain ⟨kind, key, ph⟩ := admin
  cases ph with
  | reading =>
    simp only [adminStep] at h
    split at h <;> (cases h; rfl)
  | settling row =>
    simp only [adminStep] at h
    split at h <;> (cases h; rfl)
  | starting =>
    have hstart := start_recorded s key now bound
    simp only [adminStep] at h
    split at h <;> (rename_i heq; cases h; rw [heq] at hstart; exact hstart)
  | failing =>
    simp only [adminStep] at h
    split at h
    · cases h
      rfl
    · cases h
      exact modifyRow_recorded ..
  | finished => cases h
  | _ =>
    simp only [adminStep, Option.some.injEq, Prod.mk.injEq] at h
    obtain ⟨rfl, -⟩ := h
    rfl

theorem runs_recorded (h : Runs a s u) : u.recorded = s.recorded := by
  cases h with
  | disable now event began rest _ => exact modifyRow_recorded ..
  | _ => rfl

theorem step_recorded (h : Resources.step a s = some u) : u.recorded = recount a s.recorded := by
  cases a with
  | admin i now bound =>
    simp only [Resources.step] at h
    split at h
    · obtain ⟨⟨v, phase⟩, hv, rfl⟩ := Option.map_eq_some_iff.mp h
      show v.recorded = s.recorded
      exact adminStep_recorded hv
    · cases h
  | allowed now key => exact trafficStep_recorded h
  | session key => exact trafficStep_recorded h
  | add key event => exact trafficStep_recorded h
  | record i => exact trafficStep_recorded h
  | recvTraffic => exact trafficStep_recorded h
  | flush => exact trafficStep_recorded h
  | flushRoute i => exact trafficStep_recorded h
  | create key input => exact requestStep_recorded (a := .create key input) h
  | update key input => exact requestStep_recorded (a := .update key input) h
  | delete key => exact requestStep_recorded (a := .delete key) h
  | recvRevoke => exact runs_recorded (runnerStep_runs h)
  | tick now => exact runs_recorded (runnerStep_runs h)
  | visit key => exact runs_recorded (runnerStep_runs h)
  | sweepEnd => exact runs_recorded (runnerStep_runs h)
  | revoke now => exact runs_recorded (runnerStep_runs h)

end

/-! ### The invariant -/

/-- What a process knows of is behind by what was lost. -/
structure Inv (s : State) : Prop where
  usage : UsageInv s.life
  behind : ∀ key, s.recorded key ≤ s.life.recorded key + s.lost key

theorem restarted_inFlight (s : Resources.State) (key : ResourceKey) : s.restarted.inFlight key = 0 := rfl

/-- A process starts with the rows and what they say. -/
theorem usageInv_restarted {s : Resources.State} (h : UsageInv s) : UsageInv s.restarted where
  ledger := {
    bound := h.ledger.bound
    fits := by
      intro key
      have := h.ledger.fits key
      rw [restarted_inFlight]
      show s.stored key + 0 ≤ s.total
      omega
    covered := by
      intro key row hl
      have := h.ledger.covered key row hl
      rw [restarted_inFlight]
      show s.recorded key - s.inFlight key ≤ s.stored key + 0
      omega }
  policy := by
    intro key policy hl
    obtain ⟨row, hrow, hloaded⟩ := loadFromDb_lookup rfl hl
    have hcovered := h.ledger.covered key row hrow
    have hfits := h.ledger.fits key
    have hbound := h.ledger.bound
    rw [stored_of_lookup hrow] at hcovered hfits
    have hsum : row.used = row.rxBytes + row.txBytes := saturatingAdd_eq (by omega)
    rw [hloaded.used, hsum]
    show s.recorded key - s.inFlight key ≤ _ ∧ _ ≤ s.total
    omega
  held := by
    intro admin hadmin
    cases hadmin

theorem behind_recount (a : Resources.Action) {recorded known lost : ResourceKey → Nat}
    (h : ∀ key, recorded key ≤ known key + lost key) (key : ResourceKey) :
    recount a recorded key ≤ recount a known key + forget a lost key := by
  have hkey := h key
  cases a with
  | add k event =>
    simp only [recount, forget, Function.update_apply]
    split
    · rename_i heq
      subst heq
      omega
    · exact hkey
  | create k input =>
    simp only [recount, forget, Function.update_apply]
    split
    · omega
    · exact hkey
  | _ => exact hkey

theorem inv_init : Inv system.init := ⟨usageInv_init, fun _ => Nat.le_refl 0⟩

theorem inv_step {a : Action} {s u : State} (h : Inv s) (hc : Orderly a s) (hstep : step a s = some u) : Inv u := by
  cases a with
  | run a =>
    obtain ⟨life, hlife, rfl⟩ := Option.map_eq_some_iff.mp hstep
    refine ⟨usageInv_step h.usage hc hlife, fun key => ?_⟩
    show recount a s.recorded key ≤ life.recorded key + forget a s.lost key
    rw [step_recorded hlife]
    exact behind_recount a h.behind key
  | restart =>
    cases hstep
    refine ⟨usageInv_restarted h.usage, fun key => ?_⟩
    have := h.behind key
    show s.recorded key ≤ s.life.recorded key - s.life.inFlight key + (s.lost key + s.life.inFlight key)
    omega
  | listTunnels =>
    simp only [step] at hstep
    split at hstep
    · cases hstep
      exact ⟨h.usage, h.behind⟩
    · cases hstep
  | startTunnel now bound =>
    simp only [step] at hstep
    split at hstep
    · rename_i key rest hboot
      cases hstep
      obtain ⟨hledger, hpolicy, hadmins⟩ := start_same s.life key now bound
      refine ⟨h.usage.same hledger hpolicy ?_, ?_⟩
      · intro admin hadmin row hrow
        exact ⟨admin, hadmins ▸ hadmin, rfl, hrow⟩
      · show ∀ k, s.recorded k ≤ (s.life.start key now bound).2.recorded k + s.lost k
        rw [start_recorded]
        exact h.behind
    · cases hstep

/-- A policy that is asked and lets its resource in is below its limit. -/
theorem below_limit {now : Int} {p : PolicyEnforcer} {key : ResourceKey} {policy : PolicyState} {limit : Nat}
    (hpolicy : p.policies.lookup key = some policy) (hlimit : policy.trafficLimitBytes = some limit)
    (h : (p.allowed now key).1 = true) : policy.usedBytes < limit := by
  simp only [PolicyEnforcer.allowed, hpolicy] at h
  split at h
  · cases h
  · split at h
    · cases h
    · split at h
      · cases h
      · rename_i hexhausted
        simp only [PolicyEnforcer.exhausted, hlimit, decide_eq_true_eq] at hexhausted
        omega

instance (a : Action) (s : State) : Decidable (Orderly a s) :=
  match a with
  | .run _ => inferInstanceAs (Decidable (_ ∧ _))
  | .restart | .listTunnels | .startTunnel .. => inferInstanceAs (Decidable True)

/-- A tunnel with a limit of a hundred bytes relays them all; sixty have been flushed when the
process ends. -/
def overrun : List Action :=
  let key := tunnelKey "t"
  [.run (.create key ⟨true, none, some 100⟩), .run (.admin 0 0 true), .run (.admin 0 0 true), .run (.admin 0 0 true),
    .run (.add key ⟨"c", "t", 60, 0⟩), .run (.record 0), .run .recvTraffic, .run .flush, .run (.flushRoute 0),
    .run (.add key ⟨"c", "t", 40, 0⟩), .restart, .listTunnels, .startTunnel 0 true]

end Restarts

end Rps.Controller
