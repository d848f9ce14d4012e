import Rps.Controller.Resources

/-! Revocations, from the flag to the row.

A policy that is found violated gets its flag set, once, and an event with its key
goes into the queue; `policy::run` carries the event out. Two things can go wrong on
the way, and the two theorems say when they do not.

`revocation_pending`: a set flag is matched by a revocation that is queued, in hand
or through, as long as the queue has room when a call sets a flag. The send does not
wait and the flag keeps later calls from trying again (`revocation_lost`).

`revocation_current`: a revocation touches only the registration it was caused by,
and each registration causes one at most, as long as no key is registered while a
revocation of it is pending and no sweep finds a policy due while the queue has
room. An event names its key only, and the sweep queues what it also returns
(`revocation_stale`). -/
namespace Rps.Controller
open Base

namespace Resources

/-! ### What a step does to the policies -/

/-- This step makes a call that sets a flag. -/
def flips (a : Action) (s : State) : Bool :=
  match a with
  | .allowed now key => s.policy.due now key
  | .add _ event => s.policy.exhausts event.tunnelId event.rxBytes event.txBytes
  | .admin i now _ =>
    match s.admins[i]? with
    | some ⟨_, key, .checking⟩ => s.policy.due now key
    | some ⟨_, key, .starting⟩ => (s.active.lookup key).isNone && s.policy.due now key
    | _ => false
  | _ => false

/-- The row a handler is about to register its key from. -/
def Admin.registers (admin : Admin) : Option Row :=
  match admin.phase with
  | .enrolling row => some row
  | .settling row => if row.enabled then some row else none
  | _ => none

/-- The step is not one of `policy::run`. -/
def SameRun (s u : State) : Prop := u.runner = s.runner ∧ u.hits = s.hits ∧ u.carried = s.carried

/-- What a step of `policy::run` does. -/
inductive Runs (a : Action) (s : State) : State → Prop where
  | receive (event : RevokeEvent) (rest : List RevokeEvent) : s.runner = .idle →
      s.policy.revokeTx = event :: rest →
      Runs a s {s with
        policy := {s.policy with revokeTx := rest}
        runner := .disabling event s.policy.registrations []}
  | tick (now : Int) : s.runner = .idle → Runs a s {s with runner := .sweeping now [] []}
  | pass (now : Int) (key : ResourceKey) (visited : List ResourceKey) (found : List RevokeEvent) :
      s.runner = .sweeping now visited found → Runs a s {s with runner := .sweeping now (key :: visited) found}
  | find (now : Int) (key : ResourceKey) (visited : List ResourceKey) (found : List RevokeEvent)
      (policy : PolicyState) : a = .visit key → s.runner = .sweeping now visited found →
      s.policy.policies.lookup key = some policy → policy.revoked = false → s.policy.expires now key = true →
      Runs a s {s with
        policy := s.policy.flip key policy policy.usedBytes .expired
        runner := .sweeping now (key :: visited) (found ++ [⟨key, .expired, policy.registration⟩])}
  | sweepEnd (now : Int) (visited : List ResourceKey) (found : List RevokeEvent) :
      s.runner = .sweeping now visited found → Runs a s {s with runner := .draining found}
  | finish : s.runner = .draining [] → Runs a s {s with runner := .idle}
  | take (event : RevokeEvent) (rest : List RevokeEvent) : s.runner = .draining (event :: rest) →
      Runs a s {s with runner := .disabling event s.policy.registrations rest}
  | disable (now : Int) (event : RevokeEvent) (began : Nat) (rest : List RevokeEvent) :
      s.runner = .disabling event began rest →
      Runs a s {(s.hit event now).disableRow event.key with runner := .halting event began rest}
  | halt (now : Int) (event : RevokeEvent) (began : Nat) (rest : List RevokeEvent) :
      s.runner = .halting event began rest →
      Runs a s {(s.hit event now).halt event.key with
        runner := .draining rest
        carried := s.carried ++ [(event, began)]}

theorem runnerStep_runs {a : Action} {s u : State} (h : runnerStep a s = some u) : Runs a s u := by
  unfold runnerStep at h
  split at h
  · rename_i hrunner
    split at h
    · rename_i event rest hqueue
      cases h
      exact .receive event rest hrunner hqueue
    · cases h
  · cases h
    exact .tick _ ‹_›
  · rename_i key now visited found hrunner
    split at h
    · cases h
    · rcases PolicyEnforcer.expiredKey_cases now s.policy key with heq | ⟨policy, hl, hrev, hexp, heq⟩
      · simp only [heq, Option.some.injEq] at h
        subst h
        exact .pass now key visited found hrunner
      · simp only [heq, Option.some.injEq] at h
        subst h
        exact .find now key visited found policy rfl hrunner hl hrev hexp
  · cases h
    exact .sweepEnd _ _ _ ‹_›
  · cases h
    exact .finish ‹_›
  · cases h
    exact .take _ _ ‹_›
  · cases h
    exact .disable _ _ _ _ ‹_›
  · cases h
    exact .halt _ _ _ _ ‹_›
  · cases h

/-- What a step does to the policies: a call, a registration, a removal, or a step of
`policy::run`. -/
inductive Effect (a : Action) (s u : State) : Prop where
  | call : SameRun s u → s.policy.Call (flips a s = true) u.policy → Effect a s u
  | register (i : Nat) (now : Int) (bound : Bool) (admin : Admin) (row : Row) : a = .admin i now bound →
      s.admins[i]? = some admin → admin.registers = some row → SameRun s u →
      u.policy = s.policy.register admin.key row.expiresAt row.trafficLimitBytes row.used → Effect a s u
  | remove (key : ResourceKey) : SameRun s u → u.policy = s.policy.remove key → Effect a s u
  | run : Runs a s u → Effect a s u

theorem modifyRow_same (s : State) (key : ResourceKey) (f : Row → Row) :
    SameRun s (s.modifyRow key f) ∧ (s.modifyRow key f).policy = s.policy := by
  unfold State.modifyRow
  split <;> exact ⟨⟨rfl, rfl, rfl⟩, rfl⟩

theorem Effect.keep {a : Action} {s u : State} (h : SameRun s u) (hp : u.policy = s.policy) : Effect a s u :=
  .call h (by rw [hp]; exact .keep)

theorem trafficStep_effect {a : Action} {s u : State} (h : trafficStep a s = some u) : Effect a s u := by
  cases a with
  | allowed now key =>
    simp only [trafficStep, Option.some.injEq] at h
    subst h
    exact .call ⟨rfl, rfl, rfl⟩ (PolicyEnforcer.allowed_call now _ key id)
  | add key event =>
    simp only [trafficStep, Option.ite_none_right_eq_some, Option.some.injEq] at h
    obtain ⟨-, rfl⟩ := h
    exact .call ⟨rfl, rfl, rfl⟩ (PolicyEnforcer.recordRouteUsage_call _ _ _ _ id)
  | session key =>
    simp only [trafficStep, Option.some.injEq] at h
    subst h
    exact .keep ⟨rfl, rfl, rfl⟩ rfl
  | record i =>
    simp only [trafficStep] at h
    split at h
    · cases h
      exact .keep ⟨rfl, rfl, rfl⟩ rfl
    · cases h
  | recvTraffic =>
    simp only [trafficStep] at h
    split at h
    · cases h
      exact .keep ⟨rfl, rfl, rfl⟩ rfl
    · cases h
  | flush =>
    simp only [trafficStep, Option.ite_none_right_eq_some, Option.some.injEq] at h
    obtain ⟨-, rfl⟩ := h
    exact .keep ⟨rfl, rfl, rfl⟩ rfl
  | flushRoute i =>
    simp only [trafficStep] at h
    split at h
    · cases h
      unfold State.addResourceTraffic
      split
      · obtain ⟨hsame, hp⟩ := modifyRow_same {s with traffic := {s.traffic with batch := s.traffic.batch.eraseIdx i}} _ _
        exact .keep hsame hp
      · exact .keep ⟨rfl, rfl, rfl⟩ rfl
    · cases h
  | _ => cases h

theorem requestStep_effect {a : Action} {s u : State} (h : requestStep a s = some u) : Effect a s u := by
  cases a with
  | create key input =>
    simp only [requestStep] at h
    split at h
    · cases h
    · cases h
      exact .keep ⟨rfl, rfl, rfl⟩ rfl
  | update key input =>
    simp only [requestStep] at h
    split at h
    · cases h
      exact .keep ⟨rfl, rfl, rfl⟩ rfl
    · cases h
  | delete key =>
    simp only [requestStep] at h
    split at h
    · cases h
      exact .keep ⟨rfl, rfl, rfl⟩ rfl
    · cases h
  | _ => cases h

theorem start_effect (s : State) (key : ResourceKey) (now : Int) (bound : Bool) :
    SameRun s (s.start key now bound).2 ∧
      s.policy.Call (((s.active.lookup key).isNone && s.policy.due now key) = true)
        (s.start key now bound).2.policy := by
  have hcall := PolicyEnforcer.allowed_call now s.policy key (R := s.policy.due now key = true) id
  unfold State.start
  cases hactive : s.active.lookup key with
  | some _ => exact ⟨⟨rfl, rfl, rfl⟩, .keep⟩
  | none =>
    simp only [Option.isSome_none, Bool.false_eq_true, if_false, Option.isNone_none, Bool.true_and]
    cases hallowed : s.policy.allowed now key with
    | mk ok policy =>
      rw [hallowed] at hcall
      cases ok with
      | false => exact ⟨⟨rfl, rfl, rfl⟩, hcall⟩
      | true =>
        simp only
        split <;> exact ⟨⟨rfl, rfl, rfl⟩, hcall⟩

theorem adminStep_effect {s u : State} {i : Nat} {admin : Admin} (hi : s.admins[i]? = some admin) {now : Int}
    {bound : Bool} {phase : AdminPhase} (h : adminStep s admin now bound = some (u, phase)) :
    Effect (.admin i now bound) s {u with admins := u.admins.set i {admin with phase := phase}} := by
  obtain ⟨kind, key, ph⟩ := admin
  cases ph with
  | reading =>
    simp only [adminStep] at h
    split at h <;> (cases h; exact .keep ⟨rfl, rfl, rfl⟩ rfl)
  | halting row =>
    simp only [adminStep, Option.some.injEq, Prod.mk.injEq] at h
    obtain ⟨rfl, rfl⟩ := h
    exact .keep ⟨rfl, rfl, rfl⟩ rfl
  | settling row =>
    simp only [adminStep] at h
    split at h
    · rename_i hen
      cases h
      exact .register i now bound _ row rfl hi (by simp [Admin.registers, hen]) ⟨rfl, rfl, rfl⟩ rfl
    · cases h
      exact .remove key ⟨rfl, rfl, rfl⟩ rfl
  | enrolling row =>
    simp only [adminStep, Option.some.injEq, Prod.mk.injEq] at h
    obtain ⟨rfl, rfl⟩ := h
    exact .register i now bound _ row rfl hi rfl ⟨rfl, rfl, rfl⟩ rfl
  | checking =>
    simp only [adminStep, Option.some.injEq, Prod.mk.injEq] at h
    obtain ⟨rfl, rfl⟩ := h
    exact .call ⟨rfl, rfl, rfl⟩ (PolicyEnforcer.allowed_call now _ key (by simp [flips, hi]))
  | starting =>
    have hflips : flips (.admin i now bound) s = ((s.active.lookup key).isNone && s.policy.due now key) := by
      simp [flips, hi]
    obtain ⟨hsame, hcall⟩ := start_effect s key now bound
    rw [← hflips] at hcall
    simp only [adminStep] at h
    cases hstart : s.start key now bound with
    | mk ok v =>
      rw [hstart] at hsame hcall
      cases ok <;> (simp only [hstart, Option.some.injEq, Prod.mk.injEq] at h; obtain ⟨rfl, rfl⟩ := h; exact .call hsame hcall)
  | failing =>
    simp only [adminStep] at h
    split at h
    · cases h
      exact .keep ⟨rfl, rfl, rfl⟩ rfl
    · cases h
      obtain ⟨hsame, hp⟩ := modifyRow_same s key fun row => {row with enabled := false}
      exact .keep hsame hp
  | deleting =>
    simp only [adminStep, Option.some.injEq, Prod.mk.injEq] at h
    obtain ⟨rfl, rfl⟩ := h
    exact .keep ⟨rfl, rfl, rfl⟩ rfl
  | removing =>
    simp only [adminStep, Option.some.injEq, Prod.mk.injEq] at h
    obtain ⟨rfl, rfl⟩ := h
    exact .remove key ⟨rfl, rfl, rfl⟩ rfl
  | finished => cases h

/-- Every step of the system has one of the four effects. -/
theorem step_effect {a : Action} {s u : State} (h : step a s = some u) : Effect a s u := by
  cases a with
  | admin i now bound =>
    simp only [step] at h
    split at h
    · rename_i admin hi
      obtain ⟨⟨v, phase⟩, hv, rfl⟩ := Option.map_eq_some_iff.mp h
      exact adminStep_effect hi hv
    · cases h
  | allowed now key => exact trafficStep_effect h
  | session key => exact trafficStep_effect h
  | add key event => exact trafficStep_effect h
  | record i => exact trafficStep_effect h
  | recvTraffic => exact trafficStep_effect h
  | flush => exact trafficStep_effect h
  | flushRoute i => exact trafficStep_effect h
  | create key input => exact requestStep_effect h
  | update key input => exact requestStep_effect h
  | delete key => exact requestStep_effect h
  | recvRevoke => exact .run (runnerStep_runs h)
  | tick now => exact .run (runnerStep_runs h)
  | visit key => exact .run (runnerStep_runs h)
  | sweepEnd => exact .run (runnerStep_runs h)
  | revoke now => exact .run (runnerStep_runs h)

/-! ### No revocation is lost -/

/-- Every flag that is set is matched by a revocation that is queued, in hand, or
through since that registration. -/
def RevocationPending (s : State) : Prop :=
  ∀ key policy, s.policy.policies.lookup key = some policy → policy.revoked = true →
    (∃ event ∈ s.events, event.key = key) ∨ ∃ c ∈ s.carried, c.1.key = key ∧ policy.registration < c.2

/-- A call that sets a flag finds room in the queue. -/
def Room (a : Action) (s : State) : Prop := flips a s = true → s.policy.hasRoom = true

/-- The number of registrations when the revocation in hand was taken up. -/
def Runner.Began (runner : Runner) : Prop :=
  match runner with
  | .disabling event began _ | .halting event began _ => event.registration < began
  | _ => True

/-- The invariant, on the policies, the state of `policy::run` and what it is through
with. -/
structure PendingInv (p : PolicyEnforcer) (runner : Runner) (carried : List (RevokeEvent × Nat)) : Prop where
  fresh : ∀ key policy, p.policies.lookup key = some policy → policy.registration < p.registrations
  events : ∀ event ∈ p.revokeTx ++ runner.events, event.registration < p.registrations
  began : runner.Began
  pending : ∀ key policy, p.policies.lookup key = some policy → policy.revoked = true →
    (∃ event ∈ p.revokeTx ++ runner.events, event.key = key ∧ event.registration = policy.registration) ∨
      ∃ c ∈ carried, c.1.key = key ∧ policy.registration < c.2

theorem pendingInv_init : PendingInv {} .idle [] where
  fresh := by
    intro key policy h
    cases h
  events := by simp [Runner.events]
  began := trivial
  pending := by
    intro key policy h
    cases h

section
variable {p : PolicyEnforcer} {runner : Runner} {carried : List (RevokeEvent × Nat)}

/-- A flag is set and its revocation is queued or in hand. -/
theorem pendingInv_flip (h : PendingInv p runner carried) {key : ResourceKey} {policy : PolicyState}
    (hl : p.policies.lookup key = some policy) (used : Nat) (reason : RevokeReason) {runner' : Runner}
    (hkeep : ∀ event ∈ runner.events, event ∈ runner'.events) (hbegan : runner'.Began)
    (hnew : ∀ event ∈ runner'.events, event ∈ runner.events ∨ event = ⟨key, reason, policy.registration⟩)
    (hsent : p.hasRoom = true ∨ ⟨key, reason, policy.registration⟩ ∈ runner'.events) :
    PendingInv (p.flip key policy used reason) runner' carried := by
  have hqueue : ∀ event ∈ p.revokeTx, event ∈ (p.flip key policy used reason).revokeTx := by
    intro event he
    simp only [PolicyEnforcer.flip]
    split
    · exact List.mem_append_left _ he
    · exact he
  have hmem : ∀ event ∈ p.revokeTx ++ runner.events,
      event ∈ (p.flip key policy used reason).revokeTx ++ runner'.events := by
    intro event he
    rcases List.mem_append.mp he with he | he
    · exact List.mem_append_left _ (hqueue event he)
    · exact List.mem_append_right _ (hkeep event he)
  have hself : ⟨key, reason, policy.registration⟩ ∈ (p.flip key policy used reason).revokeTx ++ runner'.events := by
    rcases hsent with hroom | hin
    · refine List.mem_append_left _ ?_
      simp only [PolicyEnforcer.hasRoom, decide_eq_true_eq] at hroom
      simp [PolicyEnforcer.flip, hroom]
    · exact List.mem_append_right _ hin
  refine ⟨?_, ?_, hbegan, ?_⟩
  · intro key' policy' hl'
    simp only [PolicyEnforcer.flip, Table.lookup_insert] at hl'
    split at hl'
    · rw [← Option.some.inj hl']
      exact h.fresh key policy hl
    · exact h.fresh key' policy' hl'
  · intro event he
    have hcase : event ∈ p.revokeTx ++ runner.events ∨ event = ⟨key, reason, policy.registration⟩ := by
      rcases List.mem_append.mp he with he | he
      · simp only [PolicyEnforcer.flip] at he
        split at he
        · rcases List.mem_append.mp he with he | he
          · exact .inl (List.mem_append_left _ he)
          · exact .inr (List.mem_singleton.mp he)
        · exact .inl (List.mem_append_left _ he)
      · exact (hnew event he).imp_left (List.mem_append_right _)
    rcases hcase with he | rfl
    · exact h.events event he
    · exact h.fresh key policy hl
  · intro key' policy' hl' hrev
    simp only [PolicyEnforcer.flip, Table.lookup_insert] at hl'
    split at hl'
    · rename_i hkey
      rw [← Option.some.inj hl']
      exact .inl ⟨_, hself, hkey.symm, rfl⟩
    · refine (h.pending key' policy' hl' hrev).imp_left ?_
      rintro ⟨event, he, hek⟩
      exact ⟨event, hmem event he, hek⟩

theorem pendingInv_call (h : PendingInv p runner carried) {p' : PolicyEnforcer}
    (hcall : p.Call (p.hasRoom = true) p') : PendingInv p' runner carried := by
  cases hcall with
  | keep => exact h
  | count key policy used hl =>
    refine {h with fresh := ?_, pending := ?_}
    · intro key' policy' hl'
      simp only [Table.lookup_insert] at hl'
      split at hl'
      · rw [← Option.some.inj hl']
        exact h.fresh key policy hl
      · exact h.fresh key' policy' hl'
    · intro key' policy' hl' hrev
      simp only [Table.lookup_insert] at hl'
      split at hl'
      · rename_i hkey
        rw [← Option.some.inj hl'] at hrev ⊢
        rw [hkey]
        exact h.pending key policy hl hrev
      · exact h.pending key' policy' hl' hrev
  | flip key policy used reason hl _ hroom =>
    exact pendingInv_flip h hl used reason (fun _ he => he) h.began (fun _ he => .inl he) (.inl hroom)

theorem pendingInv_register (h : PendingInv p runner carried) (key : ResourceKey) (expiresAt : Option Int)
    (limit : Option Nat) (used : Nat) : PendingInv (p.register key expiresAt limit used) runner carried := by
  refine {h with fresh := ?_, events := fun event he => Nat.lt_succ_of_lt (h.events event he), pending := ?_}
  · intro key' policy' hl'
    simp only [PolicyEnforcer.register, Table.lookup_insert] at hl' ⊢
    split at hl'
    · rw [← Option.some.inj hl']
      exact Nat.lt_succ_self _
    · exact Nat.lt_succ_of_lt (h.fresh key' policy' hl')
  · intro key' policy' hl' hrev
    simp only [PolicyEnforcer.register, Table.lookup_insert] at hl'
    split at hl'
    · rw [← Option.some.inj hl'] at hrev
      cases hrev
    · exact h.pending key' policy' hl' hrev

theorem pendingInv_remove (h : PendingInv p runner carried) (key : ResourceKey) :
    PendingInv (p.remove key) runner carried := by
  refine {h with fresh := ?_, pending := ?_}
  · intro key' policy' hl'
    simp only [PolicyEnforcer.remove, Table.lookup_erase] at hl'
    split at hl'
    · cases hl'
    · exact h.fresh key' policy' hl'
  · intro key' policy' hl' hrev
    simp only [PolicyEnforcer.remove, Table.lookup_erase] at hl'
    split at hl'
    · cases hl'
    · exact h.pending key' policy' hl' hrev

/-- The events move between the queue and the task. -/
theorem pendingInv_move (h : PendingInv p runner carried) {queue : List RevokeEvent} {runner' : Runner}
    (hmem : ∀ event, event ∈ queue ++ runner'.events ↔ event ∈ p.revokeTx ++ runner.events)
    (hbegan : runner'.Began) : PendingInv {p with revokeTx := queue} runner' carried where
  fresh := h.fresh
  events := fun event he => h.events event ((hmem event).mp he)
  began := hbegan
  pending := by
    intro key policy hl hrev
    refine (h.pending key policy hl hrev).imp_left ?_
    rintro ⟨event, he, hek⟩
    exact ⟨event, (hmem event).mpr he, hek⟩

/-- A revocation is through: the policy it was for, if it is still there, is older. -/
theorem pendingInv_carried {event : RevokeEvent} {began : Nat} {rest : List RevokeEvent}
    (h : PendingInv p (.halting event began rest) carried) :
    PendingInv p (.draining rest) (carried ++ [(event, began)]) where
  fresh := h.fresh
  events := by
    intro e he
    refine h.events e ?_
    simp only [Runner.events, List.mem_append, List.mem_cons] at he ⊢
    tauto
  began := trivial
  pending := by
    intro key policy hl hrev
    rcases h.pending key policy hl hrev with ⟨e, he, hkey, hreg⟩ | ⟨c, hc, hck⟩
    · simp only [Runner.events, List.mem_append, List.mem_cons] at he
      rcases he with he | rfl | he
      · exact .inl ⟨e, by simp [he], hkey, hreg⟩
      · refine .inr ⟨(e, began), by simp, hkey, ?_⟩
        rw [← hreg]
        exact h.began
      · exact .inl ⟨e, by simp [Runner.events, he], hkey, hreg⟩
    · exact .inr ⟨c, List.mem_append_left _ hc, hck⟩

end

/-- A hit leaves the policies and what is through as they are. -/
theorem disableRow_same (s : State) (event : RevokeEvent) (now : Int) :
    ((s.hit event now).disableRow event.key).policy = s.policy ∧
      ((s.hit event now).disableRow event.key).carried = s.carried ∧
      ((s.hit event now).disableRow event.key).hits = (s.hit event now).hits := by
  obtain ⟨⟨-, hhits, hcarried⟩, hp⟩ := modifyRow_same (s.hit event now) event.key fun row => {row with enabled := false}
  exact ⟨hp, hcarried, hhits⟩

theorem pendingInv_run {a : Action} {s u : State} (h : PendingInv s.policy s.runner s.carried)
    (hrun : Runs a s u) : PendingInv u.policy u.runner u.carried := by
  cases hrun with
  | receive event rest hrunner hqueue =>
    refine pendingInv_move h (fun e => ?_) (h.events event ?_)
    · simp only [hqueue, hrunner, Runner.events, List.mem_append, List.mem_cons, List.not_mem_nil, or_false]
      tauto
    · simp [hqueue]
  | tick now hrunner => exact pendingInv_move h (fun e => by simp [hrunner, Runner.events]) trivial
  | pass now key visited found hrunner =>
    exact pendingInv_move h (fun e => by simp [hrunner, Runner.events]) trivial
  | find now key visited found policy _ hrunner hl hrev _ =>
    refine pendingInv_flip h hl _ _ ?_ trivial ?_ (.inr ?_)
    · intro e he
      rw [hrunner] at he
      exact List.mem_append_left _ he
    · intro e he
      rw [hrunner]
      exact (List.mem_append.mp he).imp_right List.mem_singleton.mp
    · exact List.mem_append_right _ (List.mem_singleton_self _)
  | sweepEnd now visited found hrunner =>
    exact pendingInv_move h (fun e => by simp [hrunner, Runner.events]) trivial
  | finish hrunner => exact pendingInv_move h (fun e => by simp [hrunner, Runner.events]) trivial
  | take event rest hrunner =>
    refine pendingInv_move h (fun e => by simp [hrunner, Runner.events]) (h.events event ?_)
    simp [hrunner, Runner.events]
  | disable now event began rest hrunner =>
    obtain ⟨hp, hcarried, -⟩ := disableRow_same s event now
    simp only [hp, hcarried]
    have hbegan := h.began
    rw [hrunner] at hbegan
    exact pendingInv_move h (fun e => by simp [hrunner, Runner.events]) hbegan
  | halt now event began rest hrunner =>
    rw [hrunner] at h
    exact pendingInv_carried h

theorem pendingInv_step {a : Action} {s u : State} (h : PendingInv s.policy s.runner s.carried)
    (hroom : Room a s) (hstep : step a s = some u) : PendingInv u.policy u.runner u.carried := by
  cases step_effect hstep with
  | call hsame hcall =>
    rw [hsame.1, hsame.2.2]
    exact pendingInv_call h (hcall.mono hroom)
  | register i now bound admin row _ _ _ hsame hp =>
    rw [hsame.1, hsame.2.2, hp]
    exact pendingInv_register h _ _ _ _
  | remove key hsame hp =>
    rw [hsame.1, hsame.2.2, hp]
    exact pendingInv_remove h key
  | run hrun => exact pendingInv_run h hrun

instance (a : Action) (s : State) : Decidable (Room a s) := inferInstanceAs (Decidable (_ → _))

/-- An account is registered with an expiry that has passed, and a client tries it. -/
def expiredAccountRun : List Action :=
  let key := proxyAccountKey "a"
  [.create key ⟨true, some 5, none⟩, .admin 0 0 true, .admin 0 0 true, .allowed 9 key]

/-- One step of a handler that leaves the list of handlers to `step`. -/
theorem admin_advance {s u : State} {i : Nat} {admin : Admin} (hi : s.admins[i]? = some admin) (now : Int)
    {phase : AdminPhase} (h : adminStep s admin now true = some (u, phase)) (hu : u.admins = s.admins) :
    ∃ v, system.step (.admin i now true) s = some v ∧ v.admins[i]? = some {admin with phase := phase} ∧
      v.rows = u.rows ∧ v.policy = u.policy ∧ v.runner = u.runner ∧ v.carried = u.carried := by
  refine ⟨{u with admins := u.admins.set i {admin with phase := phase}}, by simp [system, step, hi, h], ?_,
    rfl, rfl, rfl, rfl⟩
  show (u.admins.set i _)[i]? = _
  rw [hu, Heap.get_set hi, if_pos rfl]

/-- One update of an account to an expiry that has passed: it is registered anew, and
the check at the end of the handler sets its flag. -/
theorem update_expired (s : State) (id : String) {row : Row} (hrow : s.rows.lookup (proxyAccountKey id) = some row) :
    ∃ u, system.Steps (fun _ _ => True) s u ∧ u.runner = s.runner ∧ u.carried = s.carried ∧
      (∀ key, (s.rows.lookup key).isSome → (u.rows.lookup key).isSome) ∧
      (∃ policy, u.policy.policies.lookup (proxyAccountKey id) = some policy ∧ policy.revoked = true) ∧
      u.policy.revokeTx =
        if s.policy.revokeTx.length < revokeQueueCapacity then
          s.policy.revokeTx ++ [⟨proxyAccountKey id, .expired, s.policy.registrations⟩]
        else s.policy.revokeTx := by
  let key := proxyAccountKey id
  let new : Row := RowInput.update ⟨true, some 0, none⟩ row
  let s₁ : State := {s with rows := s.rows.insert key new, admins := s.admins ++ [⟨.update, key, .reading⟩]}
  have h₁ : system.step (.update key ⟨true, some 0, none⟩) s = some s₁ := by
    simp [system, step, requestStep, key, hrow, s₁, new]
  have hget₁ : s₁.admins[s.admins.length]? = some ⟨.update, key, .reading⟩ := by simp [s₁]
  obtain ⟨s₂, h₂, hget₂, hrows₂, hp₂, hrun₂, hcar₂⟩ := admin_advance hget₁ 0
    (show adminStep s₁ _ 0 true = some (s₁, .halting new) by simp [adminStep, s₁]) rfl
  obtain ⟨s₃, h₃, hget₃, hrows₃, hp₃, hrun₃, hcar₃⟩ := admin_advance hget₂ 0
    (show adminStep s₂ _ 0 true = some (s₂.halt key, .settling new) from rfl) rfl
  obtain ⟨s₄, h₄, hget₄, hrows₄, hp₄, hrun₄, hcar₄⟩ := admin_advance hget₃ 0
    (show adminStep s₃ _ 0 true = some (s₃.register key new, .checking) from rfl) rfl
  obtain ⟨s₅, h₅, -, hrows₅, hp₅, hrun₅, hcar₅⟩ := admin_advance hget₄ 0
    (show adminStep s₄ _ 0 true = some ({s₄ with policy := (s₄.policy.allowed 0 key).2}, .finished) from rfl) rfl
  have hpolicy : s₄.policy = s.policy.register key (some 0) none new.used := by
    rw [hp₄, State.register, hp₃, State.halt, hp₂]
    rfl
  have hrows : s₅.rows = s.rows.insert key new := by
    rw [hrows₅, hrows₄, State.register, hrows₃, State.halt, hrows₂]
  refine ⟨s₅, .step (.step (.step (.step (.step .refl trivial h₁) trivial h₂) trivial h₃) trivial h₄) trivial h₅,
    ?_, ?_, ?_, ?_, ?_⟩
  · rw [hrun₅, hrun₄, State.register, hrun₃, State.halt, hrun₂]
  · rw [hcar₅, hcar₄, State.register, hcar₃, State.halt, hcar₂]
  · intro key' hsome
    rw [hrows, Table.lookup_insert]
    split
    · rfl
    · exact hsome
  · refine ⟨⟨some 0, none, new.used, true, s.policy.registrations⟩, ?_, rfl⟩
    rw [hp₅]
    simp [hpolicy, PolicyEnforcer.allowed, PolicyEnforcer.register, PolicyEnforcer.expiredAt,
      PolicyEnforcer.revokeOnce, key]
  · rw [hp₅]
    simp [hpolicy, PolicyEnforcer.allowed, PolicyEnforcer.register, PolicyEnforcer.expiredAt,
      PolicyEnforcer.revokeOnce, key]

/-- The queue holds `n` events, all for one account, and `policy::run` has not got to
any of them. -/
structure Filled (n : Nat) (s : State) : Prop where
  reachable : system.Reachable s
  idle : s.runner = .idle
  carried : s.carried = []
  rows : ∀ id ∈ ["a", "b"], (s.rows.lookup (proxyAccountKey id)).isSome
  length : s.policy.revokeTx.length = n
  keys : ∀ event ∈ s.policy.revokeTx, event.key = proxyAccountKey "a"

theorem filled (n : Nat) (hn : n ≤ revokeQueueCapacity) : ∃ s, Filled n s := by
  induction n with
  | zero =>
    obtain ⟨s, hs, hp⟩ := System.reach_of_run (S := system) (C := fun _ _ => True)
      [.create (proxyAccountKey "a") ⟨true, none, none⟩, .create (proxyAccountKey "b") ⟨true, none, none⟩]
      (fun s => s.runner = .idle ∧ s.carried = [] ∧ s.policy.revokeTx = [] ∧
        ∀ id ∈ ["a", "b"], (s.rows.lookup (proxyAccountKey id)).isSome) (by decide +kernel)
    simp only [decide_eq_true_eq] at hp
    obtain ⟨hidle, hcarried, hqueue, hrows⟩ := hp
    exact ⟨s, hs, hidle, hcarried, hrows, by rw [hqueue]; rfl, by simp [hqueue]⟩
  | succ n ih =>
    obtain ⟨s, hs⟩ := ih (by omega)
    obtain ⟨row, hrow⟩ := Option.isSome_iff_exists.mp (hs.rows "a" (by simp))
    obtain ⟨u, hsteps, hrun, hcar, hrows, -, hqueue⟩ := update_expired s "a" hrow
    have hroom : s.policy.revokeTx.length < revokeQueueCapacity := by
      rw [hs.length]
      omega
    rw [if_pos hroom] at hqueue
    refine ⟨u, hs.reachable.steps hsteps, hrun.trans hs.idle, hcar.trans hs.carried,
      fun id hid => hrows _ (hs.rows id hid), by rw [hqueue]; simp [hs.length], fun event he => ?_⟩
    rw [hqueue] at he
    rcases List.mem_append.mp he with he | he
    · exact hs.keys event he
    · rw [List.mem_singleton.mp he]

/-- The policy gives reason to revoke it, or has been revoked. -/
def violated (now : Int) (policy : PolicyState) : Bool :=
  policy.revoked || PolicyEnforcer.expiredAt now policy || PolicyEnforcer.exhausted policy

/-- No revocation touches an enabled resource under a registration that did not cause
it and is not violated. -/
def NoStaleHit (s : State) : Prop :=
  ∀ h ∈ s.hits, ∀ policy, h.policy = some policy → h.enabled = true → violated h.now policy = false →
    policy.registration = h.event.registration

/-- Each registration causes one revocation at most. -/
def AtMostOnce (s : State) : Prop := ∀ g, s.carried.countP (fun c => c.1.registration = g) ≤ 1

/-- No key is registered while a revocation of it is queued or in hand, and no sweep
finds a policy while the queue has room for its event too. -/
def Orderly (a : Action) (s : State) : Prop :=
  match a with
  | .visit key =>
    match s.runner with
    | .sweeping now _ _ => s.policy.expires now key = true → s.policy.hasRoom = false
    | _ => True
  | .admin i _ _ => ∀ admin ∈ s.admins[i]?, admin.registers.isSome → ∀ event ∈ s.events, event.key ≠ admin.key
  | _ => True

/-- The registrations whose revocations are queued, in hand or through. -/
def caused (queue : List RevokeEvent) (runner : Runner) (carried : List (RevokeEvent × Nat)) : List Nat :=
  (queue ++ runner.events ++ carried.map (·.1)).map (·.registration)

structure CurrentInv (p : PolicyEnforcer) (runner : Runner) (carried : List (RevokeEvent × Nat)) : Prop where
  fresh : ∀ key policy, p.policies.lookup key = some policy → policy.registration < p.registrations
  caused_lt : ∀ g ∈ caused p.revokeTx runner carried, g < p.registrations
  distinct : ∀ key key' policy policy', p.policies.lookup key = some policy →
    p.policies.lookup key' = some policy' → policy.registration = policy'.registration → key = key'
  unflagged : ∀ key policy, p.policies.lookup key = some policy → policy.revoked = false →
    policy.registration ∉ caused p.revokeTx runner carried
  nodup : (caused p.revokeTx runner carried).Nodup
  current : ∀ event ∈ p.revokeTx ++ runner.events, ∀ policy, p.policies.lookup event.key = some policy →
    policy.registration = event.registration

theorem currentInv_init : CurrentInv {} .idle [] where
  fresh := by
    intro key policy h
    cases h
  caused_lt := by simp [caused, Runner.events]
  distinct := by
    intro key key' policy policy' h
    cases h
  unflagged := by simp [caused, Runner.events]
  nodup := by simp [caused, Runner.events]
  current := by simp [Runner.events]

section
variable {p : PolicyEnforcer} {runner : Runner} {carried : List (RevokeEvent × Nat)}

/-- A policy is written back under its own registration, not less revoked than it was. -/
theorem currentInv_rewrite (h : CurrentInv p runner carried) {key : ResourceKey} {policy : PolicyState}
    (hl : p.policies.lookup key = some policy) (policy' : PolicyState) (hreg : policy'.registration = policy.registration)
    (hrev : policy'.revoked = false → policy.revoked = false) :
    CurrentInv {p with policies := p.policies.insert key policy'} runner carried := by
  have hback : ∀ k q, (p.policies.insert key policy').lookup k = some q →
      ∃ q', p.policies.lookup k = some q' ∧ q.registration = q'.registration ∧
        (q.revoked = false → q'.revoked = false) := by
    intro k q hq
    rw [Table.lookup_insert] at hq
    split at hq
    · rename_i hk
      rw [hk, ← Option.some.inj hq]
      exact ⟨policy, hl, hreg, hrev⟩
    · exact ⟨q, hq, rfl, id⟩
  refine {h with fresh := ?_, distinct := ?_, unflagged := ?_, current := ?_}
  · intro k q hq
    obtain ⟨q', hq', heq, -⟩ := hback k q hq
    rw [heq]
    exact h.fresh k q' hq'
  · intro k k' q r hq hr hqr
    obtain ⟨q', hq', heq, -⟩ := hback k q hq
    obtain ⟨r', hr', heq', -⟩ := hback k' r hr
    exact h.distinct k k' q' r' hq' hr' (by rw [← heq, ← heq', hqr])
  · intro k q hq hqr
    obtain ⟨q', hq', heq, himp⟩ := hback k q hq
    rw [heq]
    exact h.unflagged k q' hq' (himp hqr)
  · intro event he q hq
    obtain ⟨q', hq', heq, -⟩ := hback event.key q hq
    rw [heq]
    exact h.current event he q' hq'

/-- The event of a policy whose flag is set joins the queued events or those in hand. -/
theorem currentInv_cause (h : CurrentInv p runner carried) {key : ResourceKey} {policy : PolicyState}
    (hl : p.policies.lookup key = some policy) (hflag : policy.revoked = true) (event : RevokeEvent)
    (hkey : event.key = key) (hreg : event.registration = policy.registration)
    (hnew : policy.registration ∉ caused p.revokeTx runner carried)
    {queue : List RevokeEvent} {runner' : Runner}
    (hperm : (queue ++ runner'.events).Perm (event :: (p.revokeTx ++ runner.events))) :
    CurrentInv {p with revokeTx := queue} runner' carried := by
  have hcaused : (caused queue runner' carried).Perm (event.registration :: caused p.revokeTx runner carried) :=
    (hperm.append_right (carried.map Prod.fst)).map RevokeEvent.registration
  refine ⟨h.fresh, ?_, h.distinct, ?_, ?_, ?_⟩
  · intro g hg
    rcases List.mem_cons.mp (hcaused.mem_iff.mp hg) with rfl | hg
    · rw [hreg]
      exact h.fresh key policy hl
    · exact h.caused_lt g hg
  · intro k q hq hqr hg
    rcases List.mem_cons.mp (hcaused.mem_iff.mp hg) with heq | hg
    · rw [h.distinct k key q policy hq hl (heq.trans hreg), hl] at hq
      rw [← Option.some.inj hq, hflag] at hqr
      cases hqr
    · exact h.unflagged k q hq hqr hg
  · rw [hcaused.nodup_iff, List.nodup_cons, hreg]
    exact ⟨hnew, h.nodup⟩
  · intro e he q hq
    rcases List.mem_cons.mp (hperm.mem_iff.mp he) with rfl | he
    · rw [hkey, hl] at hq
      rw [← Option.some.inj hq, hreg]
    · exact h.current e he q hq

/-- A flag is set, and one event is sent for it, or none. -/
theorem currentInv_flip (h : CurrentInv p runner carried) {key : ResourceKey} {policy : PolicyState}
    (hl : p.policies.lookup key = some policy) (hrev : policy.revoked = false) (used : Nat)
    (reason : RevokeReason) : CurrentInv (p.flip key policy used reason) runner carried := by
  let policy' : PolicyState := {policy with usedBytes := used, revoked := true}
  have hset := currentInv_rewrite h hl policy' rfl (by simp [policy'])
  have hl' : (p.policies.insert key policy').lookup key = some policy' := by rw [Table.lookup_insert, if_pos rfl]
  unfold PolicyEnforcer.flip
  split
  · refine currentInv_cause hset hl' rfl ⟨key, reason, policy.registration⟩ rfl rfl
      (h.unflagged key policy hl hrev) ?_
    rw [List.append_assoc]
    exact List.perm_middle
  · exact hset

theorem currentInv_call (h : CurrentInv p runner carried) {p' : PolicyEnforcer} {R : Prop} (hcall : p.Call R p') :
    CurrentInv p' runner carried := by
  cases hcall with
  | keep => exact h
  | count key policy used hl => exact currentInv_rewrite h hl _ rfl id
  | flip key policy used reason hl hrev _ => exact currentInv_flip h hl hrev used reason

theorem currentInv_register (h : CurrentInv p runner carried) {key : ResourceKey}
    (hquiet : ∀ event ∈ p.revokeTx ++ runner.events, event.key ≠ key) (expiresAt : Option Int)
    (limit : Option Nat) (used : Nat) : CurrentInv (p.register key expiresAt limit used) runner carried := by
  refine ⟨?_, fun g hg => Nat.lt_succ_of_lt (h.caused_lt g hg), ?_, ?_, h.nodup, ?_⟩
  · intro k q hq
    simp only [PolicyEnforcer.register, Table.lookup_insert] at hq ⊢
    split at hq
    · rw [← Option.some.inj hq]
      exact Nat.lt_succ_self _
    · exact Nat.lt_succ_of_lt (h.fresh k q hq)
  · intro k k' q r hq hr hqr
    simp only [PolicyEnforcer.register, Table.lookup_insert] at hq hr
    split at hq <;> split at hr
    · simp_all
    · have := h.fresh k' r hr
      rw [← hqr, ← Option.some.inj hq] at this
      exact absurd this (Nat.lt_irrefl _)
    · have := h.fresh k q hq
      rw [hqr, ← Option.some.inj hr] at this
      exact absurd this (Nat.lt_irrefl _)
    · exact h.distinct k k' q r hq hr hqr
  · intro k q hq hqr
    simp only [PolicyEnforcer.register, Table.lookup_insert] at hq
    split at hq
    · intro hg
      rw [← Option.some.inj hq] at hg
      exact absurd (h.caused_lt _ hg) (Nat.lt_irrefl _)
    · exact h.unflagged k q hq hqr
  · intro event he q hq
    simp only [PolicyEnforcer.register, Table.lookup_insert] at hq
    split at hq
    · rename_i hkey
      exact absurd hkey (hquiet event he)
    · exact h.current event he q hq

theorem currentInv_remove (h : CurrentInv p runner carried) (key : ResourceKey) :
    CurrentInv (p.remove key) runner carried := by
  have hback : ∀ k q, (p.policies.erase key).lookup k = some q → p.policies.lookup k = some q := by
    intro k q hq
    rw [Table.lookup_erase] at hq
    split at hq
    · cases hq
    · exact hq
  exact {h with
    fresh := fun k q hq => h.fresh k q (hback k q hq)
    distinct := fun k k' q r hq hr => h.distinct k k' q r (hback k q hq) (hback k' r hr)
    unflagged := fun k q hq => h.unflagged k q (hback k q hq)
    current := fun event he q hq => h.current event he q (hback event.key q hq)}

/-- The events move on, from the queue to the task and out of it. -/
theorem currentInv_move (h : CurrentInv p runner carried) {queue : List RevokeEvent} {runner' : Runner}
    {carried' : List (RevokeEvent × Nat)}
    (hperm : (queue ++ runner'.events ++ carried'.map (·.1)).Perm
      (p.revokeTx ++ runner.events ++ carried.map (·.1)))
    (hsub : ∀ event ∈ queue ++ runner'.events, event ∈ p.revokeTx ++ runner.events) :
    CurrentInv {p with revokeTx := queue} runner' carried' := by
  have hcaused : (caused queue runner' carried').Perm (caused p.revokeTx runner carried) :=
    hperm.map RevokeEvent.registration
  exact {h with
    caused_lt := fun g hg => h.caused_lt g (hcaused.mem_iff.mp hg)
    unflagged := fun key policy hl hrev hg => h.unflagged key policy hl hrev (hcaused.mem_iff.mp hg)
    nodup := hcaused.nodup_iff.mpr h.nodup
    current := fun event he => h.current event (hsub event he)}

end

/-- The events stay, and only the task moves on. -/
theorem currentInv_stay {s : State} (h : CurrentInv s.policy s.runner s.carried) {runner : Runner}
    (hevents : runner.events = s.runner.events) : CurrentInv s.policy runner s.carried :=
  currentInv_move h (by rw [hevents]) fun _ he => by rwa [hevents] at he

theorem currentInv_run {a : Action} {s u : State} (h : CurrentInv s.policy s.runner s.carried)
    (hord : Orderly a s) (hrun : Runs a s u) : CurrentInv u.policy u.runner u.carried := by
  cases hrun with
  | receive event rest hrunner hqueue =>
    refine currentInv_move h ?_ ?_
    · rw [hqueue, hrunner]
      show (rest ++ [event] ++ s.carried.map (·.1)).Perm (event :: rest ++ [] ++ s.carried.map (·.1))
      rw [List.append_nil]
      exact (List.perm_append_singleton event rest).append_right _
    · intro e he
      simpa [hqueue, hrunner, Runner.events, or_comm] using he
  | tick now hrunner => exact currentInv_stay h (by rw [hrunner]; rfl)
  | pass now key visited found hrunner => exact currentInv_stay h (by rw [hrunner]; rfl)
  | find now key visited found policy ha hrunner hl hrev hexp =>
    -- the queue is full, so the event is returned only
    subst ha
    simp only [Orderly, hrunner, PolicyEnforcer.hasRoom, decide_eq_false_iff_not] at hord
    let policy' : PolicyState := {policy with revoked := true}
    have hset := currentInv_rewrite h hl policy' rfl (by simp [policy'])
    have hl' : (s.policy.policies.insert key policy').lookup key = some policy' := by
      rw [Table.lookup_insert, if_pos rfl]
    have hflip : s.policy.flip key policy policy.usedBytes .expired =
        {s.policy with policies := s.policy.policies.insert key policy'} := by
      rw [PolicyEnforcer.flip, if_neg (hord hexp)]
    rw [hflip]
    refine currentInv_cause hset hl' rfl ⟨key, .expired, policy.registration⟩ rfl rfl
      (h.unflagged key policy hl hrev) ?_
    rw [hrunner]
    show (s.policy.revokeTx ++ (found ++ [_])).Perm (_ :: (s.policy.revokeTx ++ found))
    rw [← List.append_assoc]
    exact List.perm_append_singleton _ _
  | sweepEnd now visited found hrunner => exact currentInv_stay h (by rw [hrunner]; rfl)
  | finish hrunner => exact currentInv_stay h (by rw [hrunner]; rfl)
  | take event rest hrunner => exact currentInv_stay h (by rw [hrunner]; rfl)
  | disable now event began rest hrunner =>
    obtain ⟨hp, hcarried, -⟩ := disableRow_same s event now
    simp only [hp, hcarried]
    exact currentInv_stay h (by rw [hrunner]; rfl)
  | halt now event began rest hrunner =>
    rw [hrunner] at h
    refine currentInv_move h ?_ ?_
    · show (s.policy.revokeTx ++ rest ++ (s.carried ++ [(event, began)]).map (·.1)).Perm
        (s.policy.revokeTx ++ (event :: rest) ++ s.carried.map (·.1))
      rw [List.map_append, ← List.append_assoc]
      refine (List.perm_append_singleton _ _).trans ?_
      exact (List.perm_middle.append_right (s.carried.map (·.1))).symm
    · intro e he
      simp only [Runner.events, List.mem_append, List.mem_cons] at he ⊢
      tauto

/-- What a revocation touches is the registration that caused it. -/
theorem hits_run {a : Action} {s u : State} (h : CurrentInv s.policy s.runner s.carried)
    (hhits : ∀ x ∈ s.hits, ∀ policy, x.policy = some policy → policy.registration = x.event.registration)
    (hrun : Runs a s u) :
    ∀ x ∈ u.hits, ∀ policy, x.policy = some policy → policy.registration = x.event.registration := by
  have hhit (event : RevokeEvent) (now : Int) (he : event ∈ s.runner.events) :
      ∀ x ∈ (s.hit event now).hits, ∀ policy, x.policy = some policy →
        policy.registration = x.event.registration := by
    intro x hx policy hpolicy
    rcases List.mem_append.mp hx with hx | hx
    · exact hhits x hx policy hpolicy
    · rw [List.mem_singleton.mp hx] at hpolicy ⊢
      exact h.current event (List.mem_append_right _ he) policy hpolicy
  cases hrun with
  | disable now event began rest hrunner =>
    obtain ⟨-, -, hsame⟩ := disableRow_same s event now
    simp only [hsame]
    exact hhit event now (by rw [hrunner]; exact List.mem_cons_self ..)
  | halt now event began rest hrunner => exact hhit event now (by rw [hrunner]; exact List.mem_cons_self ..)
  | _ => exact hhits

/-- The invariant on a state: revocations are current, and so was all they touched. -/
structure Current (s : State) : Prop where
  inv : CurrentInv s.policy s.runner s.carried
  hits : ∀ x ∈ s.hits, ∀ policy, x.policy = some policy → policy.registration = x.event.registration

theorem current_step {a : Action} {s u : State} (h : Current s) (hord : Orderly a s) (hstep : step a s = some u) :
    Current u := by
  cases step_effect hstep with
  | call hsame hcall =>
    obtain ⟨hrunner, hhits, hcarried⟩ := hsame
    exact ⟨by rw [hrunner, hcarried]; exact currentInv_call h.inv hcall, by rw [hhits]; exact h.hits⟩
  | register i now bound admin row ha hi hreg hsame hp =>
    obtain ⟨hrunner, hhits, hcarried⟩ := hsame
    rw [ha] at hord
    have hquiet := hord admin (Option.mem_def.mpr hi) (by rw [hreg]; rfl)
    refine ⟨?_, by rw [hhits]; exact h.hits⟩
    rw [hrunner, hcarried, hp]
    exact currentInv_register h.inv hquiet _ _ _
  | remove key hsame hp =>
    obtain ⟨hrunner, hhits, hcarried⟩ := hsame
    refine ⟨?_, by rw [hhits]; exact h.hits⟩
    rw [hrunner, hcarried, hp]
    exact currentInv_remove h.inv key
  | run hrun => exact ⟨currentInv_run h.inv hord hrun, hits_run h.inv h.hits hrun⟩

/-- **A revocation is for the registration that caused it**, and each registration
causes one at most, in every orderly run. -/
theorem revocation_current (s : State) (h : system.Reach Orderly s) : NoStaleHit s ∧ AtMostOnce s := by
  have hinv : Current s :=
    h.invariant ⟨currentInv_init, by simp [system]⟩ fun _ _ _ h ho hs => current_step h ho hs
  refine ⟨fun x hx policy hpolicy _ _ => hinv.hits x hx policy hpolicy, fun g => ?_⟩
  have hnodup : (s.carried.map (fun c => c.1.registration)).Nodup := by
    have := hinv.inv.nodup
    rw [caused, List.map_append, List.map_map] at this
    exact (List.nodup_append.mp this).2.1
  have hcount := List.nodup_iff_count_le_one.mp hnodup g
  rwa [List.count, List.countP_map] at hcount

instance (a : Action) (s : State) : Decidable (Orderly a s) := by
  unfold Orderly
  split
  · split <;> infer_instance
  · infer_instance
  · infer_instance

/-- An expired account is revoked by a client's attempt, then renewed. -/
def renewedRun : List Action :=
  let key := proxyAccountKey "a"
  [.create key ⟨true, some 5, none⟩, .admin 0 0 true, .admin 0 0 true, .allowed 9 key,
    .recvRevoke, .revoke 9, .revoke 9, .revoke 9,
    .update key ⟨true, none, none⟩, .admin 1 9 true, .admin 1 9 true, .admin 1 9 true, .admin 1 9 true]

theorem revocation_current_renewed : ∃ s, system.Reach Orderly s ∧ NoStaleHit s ∧ AtMostOnce s ∧
    s.carried.length = 1 ∧ s.rowEnabled (proxyAccountKey "a") = true := by
  obtain ⟨s, hs, hp⟩ := System.reach_of_run (S := system) (C := Orderly) renewedRun
    (fun s => s.carried.length = 1 ∧ s.rowEnabled (proxyAccountKey "a") = true) (by decide +kernel)
  simp only [decide_eq_true_eq] at hp
  obtain ⟨hstale, honce⟩ := revocation_current s hs
  exact ⟨s, hs, hstale, honce, hp.1, hp.2⟩

/-- The sweep finds an expired account, revokes it, and has queued its event as well;
the account is renewed, and the queued event revokes it again. -/
def sweptTwiceRun : List Action :=
  let key := proxyAccountKey "a"
  [.create key ⟨true, some 5, none⟩, .admin 0 0 true, .admin 0 0 true,
    .tick 9, .visit key, .sweepEnd, .revoke 9, .revoke 9, .revoke 9, .revoke 9,
    .update key ⟨true, none, none⟩, .admin 1 9 true, .admin 1 9 true, .admin 1 9 true, .admin 1 9 true,
    .recvRevoke, .revoke 10, .revoke 10]

/-- The renewed account is disabled, and its first registration has caused two
revocations. -/
theorem revocation_stale :
    (¬ ∀ s, system.Reachable s → NoStaleHit s) ∧ ¬ ∀ s, system.Reachable s → AtMostOnce s := by
  let event : RevokeEvent := ⟨proxyAccountKey "a", .expired, 0⟩
  let renewed : PolicyState := ⟨none, none, 0, false, 1⟩
  obtain ⟨s, hs, hp⟩ := System.reach_of_run (S := system) (C := fun _ _ => True) sweptTwiceRun
    (fun s => ⟨event, 10, some renewed, true⟩ ∈ s.hits ∧ s.carried.map (·.1) = [event, event]) (by decide +kernel)
  simp only [decide_eq_true_eq] at hp
  obtain ⟨hhit, hcarried⟩ := hp
  refine ⟨fun h => ?_, fun h => ?_⟩
  · exact absurd (h s hs _ hhit renewed rfl rfl (by decide)) (by decide)
  · have honce := h s hs 0
    have htwo : s.carried.countP (fun c => c.1.registration = 0) = 2 := by
      rw [show (fun c : RevokeEvent × Nat => decide (c.1.registration = 0)) =
        (fun e : RevokeEvent => decide (e.registration = 0)) ∘ (·.1) from rfl, ← List.countP_map, hcarried]
      rfl
    omega

end Resources

end Rps.Controller
