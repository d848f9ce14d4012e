import Rps.Controller.Policy
import Mathlib.Data.List.Induction

/-! What the policy enforcer decides.

The usage of a policy is a counter that wraps, what is compared with the limit when
bytes are counted is a copy that saturates, and a flag keeps what was once decided.
The flag is set by the call that takes the usage to the limit, by the first question
or sweep after the expiry, and by the first question about a policy that was over its
limit from the start.

`allowed_exact`: for every sequence of calls after a registration the answer is what
the clock values seen so far and the sum of all bytes say, the sum taken without
overflow. As long as the flag is down a limited counter has not wrapped. -/
namespace Rps.Controller.PolicyEnforcer
open Base

/-- One entry of the sweep; `found` are the entries it has returned so far. -/
def visit (now : Int) (found : List RevokeEvent × PolicyEnforcer) (key : ResourceKey) :
    List RevokeEvent × PolicyEnforcer :=
  (found.1 ++ (found.2.expiredKey now key).1.toList, (found.2.expiredKey now key).2)

/-- The sweep over all entries of the map. -/
def expiredKeys (now : Int) (p : PolicyEnforcer) : List RevokeEvent × PolicyEnforcer :=
  p.policies.keys.foldl (visit now) ([], p)

inductive Op where
  | recordRouteUsage (routeId : String) (rxBytes txBytes : UInt64)
  | allowed (now : Int) (key : ResourceKey)
  | expiredKeys (now : Int)
  deriving DecidableEq

def apply (p : PolicyEnforcer) : Op → PolicyEnforcer
  | .recordRouteUsage routeId rxBytes txBytes => p.recordRouteUsage routeId rxBytes.toNat txBytes.toNat
  | .allowed now key => (p.allowed now key).2
  | .expiredKeys now => (p.expiredKeys now).2

def run (p : PolicyEnforcer) (ops : List Op) : PolicyEnforcer := ops.foldl apply p

/-- The bytes a call counts for the key. -/
def Op.delta (key : ResourceKey) : Op → Nat
  | .recordRouteUsage routeId rxBytes txBytes =>
    if resourceKeyFromRoute routeId = some key then saturatingAdd rxBytes.toNat txBytes.toNat else 0
  | _ => 0

/-- The clock value a call sees when it looks at the key. -/
def Op.clock (key : ResourceKey) : Op → Option Int
  | .allowed now k => if k = key then some now else none
  | .expiredKeys now => some now
  | _ => none

def recorded (key : ResourceKey) (ops : List Op) : Nat := (ops.map (Op.delta key)).sum

def clocks (key : ResourceKey) (ops : List Op) : List Int := ops.filterMap (Op.clock key)

/-- No clock value reached the expiry. -/
def Unexpired (expiresAt : Option Int) (clocks : List Int) : Prop := ∀ e ∈ expiresAt, ∀ now ∈ clocks, now < e

def BelowLimit (limit : Option UInt64) (used : Nat) : Prop := ∀ l ∈ limit, used < l.toNat

/-! ### What a call does to one policy -/

/-- The policy after a question. -/
def judged (now : Int) (policy : PolicyState) : PolicyState :=
  {policy with revoked := policy.revoked || expiredAt now policy || exhausted policy}

/-- The policy after a sweep. -/
def swept (now : Int) (policy : PolicyState) : PolicyState :=
  {policy with revoked := policy.revoked || expiredAt now policy}

/-- The counter of the policy, read as one that saturates, is at the limit after `delta` more. -/
def reaches (policy : PolicyState) (delta : Nat) : Bool :=
  match policy.trafficLimitBytes with
  | some limit => limit ≤ saturatingAdd policy.usedBytes delta
  | none => false

/-- The policy after `delta` bytes. -/
def charged (delta : Nat) (policy : PolicyState) : PolicyState :=
  if delta = 0 then policy
  else {policy with
    usedBytes := (policy.usedBytes + delta) % 2 ^ 64
    revoked := policy.revoked || reaches policy delta}

/-- What a call does to the policy of the key. -/
def Op.on (key : ResourceKey) (policy : PolicyState) : Op → PolicyState
  | .recordRouteUsage routeId rxBytes txBytes =>
    charged (Op.delta key (.recordRouteUsage routeId rxBytes txBytes)) policy
  | .allowed now k => if k = key then judged now policy else policy
  | .expiredKeys now => swept now policy

section
variable {p : PolicyEnforcer} {key : ResourceKey} {policy : PolicyState}

theorem lookup_revokeOnce (h : p.policies.lookup key = some policy) (reason : RevokeReason) (k : ResourceKey) :
    (p.revokeOnce key policy reason).policies.lookup k =
      if k = key then some {policy with revoked := true} else p.policies.lookup k := by
  unfold revokeOnce
  split
  · rename_i hrevoked
    split
    · rename_i hk
      rw [hk, h, ← hrevoked]
    · rfl
  · rw [Table.lookup_insert]

/-- Setting the flag where it belongs changes the one policy. -/
theorem lookup_of_revoked (h : p.policies.lookup key = some policy) {policy' : PolicyState} (reason : RevokeReason)
    (hpolicy : policy' = {policy with revoked := true}) (k : ResourceKey) :
    (p.revokeOnce key policy reason).policies.lookup k =
      if k = key then some policy' else p.policies.lookup k := by
  rw [lookup_revokeOnce h, hpolicy]

theorem lookup_of_same (h : p.policies.lookup key = some policy) {policy' : PolicyState} (hpolicy : policy' = policy)
    (k : ResourceKey) : p.policies.lookup k = if k = key then some policy' else p.policies.lookup k := by
  split
  · rename_i hk
    rw [hk, h, hpolicy]
  · rfl

/-- A flag that is set is not set again. -/
theorem setRevoked_eq {b : Bool} (h : policy.revoked = b) : {policy with revoked := b} = policy := by
  rw [← h]

theorem lookup_allowed (now : Int) (p : PolicyEnforcer) (key k : ResourceKey) :
    (p.allowed now key).2.policies.lookup k =
      if k = key then (p.policies.lookup key).map (judged now) else p.policies.lookup k := by
  unfold allowed
  cases h : p.policies.lookup key with
  | none =>
    simp only [Option.map_none]
    split
    · rename_i hk
      rw [hk, h]
    · rfl
  | some policy =>
    simp only [Option.map_some]
    split
    · rename_i hrevoked
      refine lookup_of_same h ?_ k
      rw [judged, hrevoked, Bool.true_or, Bool.true_or, setRevoked_eq hrevoked]
    · split
      · rename_i hexpired
        exact lookup_of_revoked h _ (by simp [judged, hexpired]) k
      · split
        · rename_i hexhausted
          exact lookup_of_revoked h _ (by simp [judged, hexhausted]) k
        · rename_i hrevoked hexpired hexhausted
          refine lookup_of_same h ?_ k
          simp [judged, hexpired, hexhausted]

theorem lookup_expiredKey (now : Int) (p : PolicyEnforcer) (key k : ResourceKey) :
    (p.expiredKey now key).2.policies.lookup k =
      if k = key then (p.policies.lookup key).map (swept now) else p.policies.lookup k := by
  unfold expiredKey
  cases h : p.policies.lookup key with
  | none =>
    simp only [Option.map_none]
    split
    · rename_i hk
      rw [hk, h]
    · rfl
  | some policy =>
    simp only [Option.map_some]
    split
    · rename_i hexpired
      rw [Bool.and_eq_true] at hexpired
      exact lookup_of_revoked h _ (by simp [swept, hexpired.1]) k
    · rename_i hnot
      refine lookup_of_same h ?_ k
      cases hrevoked : policy.revoked with
      | true => rw [swept, hrevoked, Bool.true_or, setRevoked_eq hrevoked]
      | false =>
        have hexpired : expiredAt now policy = false := by simpa [hrevoked] using hnot
        simp [swept, hexpired]

theorem lookup_recordRouteUsage (p : PolicyEnforcer) (routeId : String) (rxBytes txBytes : Nat) (k : ResourceKey) :
    (p.recordRouteUsage routeId rxBytes txBytes).policies.lookup k =
      if resourceKeyFromRoute routeId = some k then
        (p.policies.lookup k).map (charged (saturatingAdd rxBytes txBytes))
      else p.policies.lookup k := by
  unfold recordRouteUsage
  cases hroute : resourceKeyFromRoute routeId with
  | none => simp
  | some key =>
    simp only [Option.some.injEq]
    cases h : p.policies.lookup key with
    | none =>
      simp only
      split
      · rename_i hk
        rw [← hk, h, Option.map_none]
      · rfl
    | some policy =>
      simp only
      generalize saturatingAdd rxBytes txBytes = delta
      -- the policy in its place, charged and not yet judged
      let counted : PolicyState := {policy with usedBytes := (policy.usedBytes + delta) % 2 ^ 64}
      have hother (hk : key ≠ k) : (p.policies.insert key counted).lookup k = p.policies.lookup k := by
        rw [Table.lookup_insert, if_neg (Ne.symm hk)]
      by_cases hk : key = k
      · subst hk
        rw [if_pos rfl, h, Option.map_some]
        by_cases hdelta : delta = 0
        · rw [if_pos hdelta, h, charged, if_pos hdelta]
        · rw [if_neg hdelta, charged, if_neg hdelta]
          cases hlimit : policy.trafficLimitBytes with
          | none => simp [reaches, hlimit]
          | some limit =>
            simp only [reaches, hlimit]
            split
            · rename_i hle
              rw [lookup_revokeOnce (AList.lookup_insert _), if_pos rfl]
              simp [hle]
            · rename_i hle
              simp [hle]
      · rw [if_neg hk]
        split
        · rfl
        · split
          · split
            · rw [lookup_revokeOnce (AList.lookup_insert _), if_neg (Ne.symm hk)]
              exact hother hk
            · exact hother hk
          · exact hother hk

/-- Sweeping an entry twice is sweeping it once. -/
theorem swept_swept (now : Int) (policy : PolicyState) : swept now (swept now policy) = swept now policy := by
  simp [swept, expiredAt]

theorem lookup_sweep (now : Int) (key : ResourceKey) (ks : List ResourceKey)
    (found : List RevokeEvent × PolicyEnforcer) :
    (ks.foldl (visit now) found).2.policies.lookup key =
      if key ∈ ks then (found.2.policies.lookup key).map (swept now) else found.2.policies.lookup key := by
  induction ks generalizing found with
  | nil => simp
  | cons k ks ih =>
    rw [List.foldl_cons, ih, visit, lookup_expiredKey]
    by_cases hkey : key = k
    · subst hkey
      rw [if_pos rfl, if_pos List.mem_cons_self]
      cases found.2.policies.lookup key with
      | none => simp
      | some policy => simp [swept_swept]
    · rw [if_neg hkey]
      simp [hkey]

theorem lookup_expiredKeys (now : Int) (p : PolicyEnforcer) (key : ResourceKey) :
    (p.expiredKeys now).2.policies.lookup key = (p.policies.lookup key).map (swept now) := by
  rw [expiredKeys, lookup_sweep]
  split
  · rfl
  · rename_i hkey
    have hnone : p.policies.lookup key = none := AList.lookup_eq_none.mpr hkey
    rw [hnone, Option.map_none]

theorem lookup_apply (p : PolicyEnforcer) (op : Op) (key : ResourceKey) :
    (p.apply op).policies.lookup key = (p.policies.lookup key).map (op.on key) := by
  cases op with
  | recordRouteUsage routeId rxBytes txBytes =>
    rw [apply, lookup_recordRouteUsage]
    split
    · rename_i hroute
      simp only [Op.on, Op.delta, if_pos hroute]
    · rename_i hroute
      simp [Op.on, Op.delta, hroute, charged]
  | allowed now k =>
    rw [apply, lookup_allowed]
    by_cases hk : key = k
    · subst hk
      simp [Op.on]
    · simp [Op.on, hk, Ne.symm hk]
  | expiredKeys now => exact lookup_expiredKeys now p key

end

/-! ### Histories -/

theorem recorded_snoc (key : ResourceKey) (ops : List Op) (op : Op) :
    recorded key (ops ++ [op]) = recorded key ops + op.delta key := by
  simp [recorded]

theorem clocks_snoc (key : ResourceKey) (ops : List Op) (op : Op) :
    clocks key (ops ++ [op]) = clocks key ops ++ (op.clock key).toList := by
  cases h : op.clock key <;> simp [clocks, h]

theorem Unexpired.append {expiresAt : Option Int} {a b : List Int} :
    Unexpired expiresAt (a ++ b) ↔ Unexpired expiresAt a ∧ Unexpired expiresAt b := by
  simp only [Unexpired, List.mem_append]
  grind

theorem BelowLimit.of_le {limit : Option UInt64} {used used' : Nat} (h : BelowLimit limit used') (hle : used ≤ used') :
    BelowLimit limit used := fun l hl => Nat.lt_of_le_of_lt hle (h l hl)

section
variable {key : ResourceKey} {expiresAt : Option Int} {limit : Option UInt64} {used : UInt64} {ops : List Op}
  {policy : PolicyState}

/-- What the history says: neither expired nor over the limit. -/
def Fits (key : ResourceKey) (expiresAt : Option Int) (limit : Option UInt64) (used : UInt64) (ops : List Op) : Prop :=
  Unexpired expiresAt (clocks key ops) ∧ BelowLimit limit (used.toNat + recorded key ops)

/-- A policy and the calls since its registration. A flag that is up has a cause; while it
is down no clock reached the expiry, and a counter with a limit is the true sum. -/
structure Exact (key : ResourceKey) (expiresAt : Option Int) (limit : Option UInt64) (used : UInt64) (ops : List Op)
    (policy : PolicyState) : Prop where
  expiry : policy.expiresAt = expiresAt
  limited : policy.trafficLimitBytes = limit.map UInt64.toNat
  cause : policy.revoked = true → ¬ Fits key expiresAt limit used ops
  unexpired : policy.revoked = false → Unexpired expiresAt (clocks key ops)
  counted : policy.revoked = false → limit.isSome → policy.usedBytes = used.toNat + recorded key ops

theorem Fits.of_append {later : List Op} (h : Fits key expiresAt limit used (ops ++ later)) :
    Fits key expiresAt limit used ops := by
  refine ⟨?_, h.2.of_le ?_⟩
  · have hclocks := h.1
    rw [clocks, List.filterMap_append] at hclocks
    exact (Unexpired.append.mp hclocks).1
  · rw [recorded, recorded, List.map_append, List.sum_append]
    omega

theorem expiredAt_eq (hexpires : policy.expiresAt = expiresAt) (now : Int) :
    expiredAt now policy = false ↔ Unexpired expiresAt [now] := by
  subst hexpires
  unfold expiredAt Unexpired
  cases policy.expiresAt <;> simp

theorem Exact.exhausted_eq (h : Exact key expiresAt limit used ops policy) (hrevoked : policy.revoked = false) :
    exhausted policy = false ↔ BelowLimit limit (used.toNat + recorded key ops) := by
  unfold exhausted BelowLimit
  rw [h.limited]
  cases hlimit : limit with
  | none => simp
  | some l =>
    have hcounted := h.counted hrevoked (by rw [hlimit]; rfl)
    simp [hcounted]

/-- A counter that has not wrapped reaches the limit when the true sum does. -/
theorem Exact.reaches_eq (h : Exact key expiresAt limit used ops policy) (hrevoked : policy.revoked = false)
    (delta : Nat) : reaches policy delta = false ↔ BelowLimit limit (used.toNat + (recorded key ops + delta)) := by
  unfold reaches BelowLimit
  rw [h.limited]
  cases hlimit : limit with
  | none => simp
  | some l =>
    have hcounted := h.counted hrevoked (by rw [hlimit]; rfl)
    have hl := l.toNat_lt
    simp only [Option.map_some, decide_eq_false_iff_not, Nat.not_le, Option.mem_def, Option.some.injEq, forall_eq',
      saturatingAdd, hcounted]
    omega

/-- The question is answered by what the history says, this question included. -/
theorem Exact.answer (h : Exact key expiresAt limit used ops policy) (now : Int) :
    (judged now policy).revoked = false ↔ Fits key expiresAt limit used (ops ++ [.allowed now key]) := by
  have hfits : Fits key expiresAt limit used (ops ++ [.allowed now key]) ↔
      Unexpired expiresAt (clocks key ops) ∧ Unexpired expiresAt [now] ∧
        BelowLimit limit (used.toNat + recorded key ops) := by
    simp [Fits, clocks_snoc, recorded_snoc, Op.clock, Op.delta, Unexpired.append, and_assoc]
  rw [hfits, judged]
  cases hrevoked : policy.revoked with
  | true =>
    have hcause := h.cause hrevoked
    simp only [Bool.true_or, Bool.true_eq_false, false_iff]
    exact fun hall => hcause ⟨hall.1, hall.2.2⟩
  | false =>
    rw [Bool.false_or, Bool.or_eq_false_iff, expiredAt_eq h.expiry, h.exhausted_eq hrevoked]
    exact (and_iff_right (h.unexpired hrevoked)).symm

theorem exact_register (key : ResourceKey) (expiresAt : Option Int) (limit : Option UInt64) (used : UInt64)
    (registration : Nat) :
    Exact key expiresAt limit used [] ⟨expiresAt, limit.map UInt64.toNat, used.toNat, false, registration⟩ where
  expiry := rfl
  limited := rfl
  cause := nofun
  unexpired := by simp [Unexpired, clocks]
  counted := by simp [recorded]

/-- A call that neither counts nor looks at the clock of this key. -/
theorem Exact.idle (h : Exact key expiresAt limit used ops policy) {op : Op} (hdelta : op.delta key = 0)
    (hclock : op.clock key = none) : Exact key expiresAt limit used (ops ++ [op]) policy where
  expiry := h.expiry
  limited := h.limited
  cause := fun hrevoked hfits => h.cause hrevoked hfits.of_append
  unexpired := by
    rw [clocks_snoc, hclock, Option.toList_none, List.append_nil]
    exact h.unexpired
  counted := by
    rw [recorded_snoc, hdelta, Nat.add_zero]
    exact h.counted

theorem Exact.charged (h : Exact key expiresAt limit used ops policy) {op : Op} {delta : Nat}
    (hdelta : op.delta key = delta) (hclock : op.clock key = none) :
    Exact key expiresAt limit used (ops ++ [op]) (charged delta policy) := by
  unfold PolicyEnforcer.charged
  split
  · rename_i hzero
    exact h.idle (hdelta.trans hzero) hclock
  · have hclocks : clocks key (ops ++ [op]) = clocks key ops := by
      rw [clocks_snoc, hclock, Option.toList_none, List.append_nil]
    have hrecorded : recorded key (ops ++ [op]) = recorded key ops + delta := by
      rw [recorded_snoc, hdelta]
    refine ⟨h.expiry, h.limited, fun hrevoked hfits => ?_, fun hrevoked => ?_, fun hrevoked hsome => ?_⟩
    · cases hold : policy.revoked with
      | true => exact h.cause hold hfits.of_append
      | false =>
        have hbelow := hfits.2
        rw [hrecorded, ← h.reaches_eq hold] at hbelow
        simp [hold, hbelow] at hrevoked
    · rw [hclocks]
      exact h.unexpired (Bool.or_eq_false_iff.mp hrevoked).1
    · -- the sum is below a limit of 64 bits, so the counter has not wrapped
      obtain ⟨hold, hreaches⟩ := Bool.or_eq_false_iff.mp hrevoked
      obtain ⟨l, hl⟩ := Option.isSome_iff_exists.mp hsome
      have hbelow := (h.reaches_eq hold delta).mp hreaches l hl
      have hlt := l.toNat_lt
      rw [h.counted hold hsome, hrecorded]
      exact (Nat.mod_eq_of_lt (by omega)).trans (by omega)

/-- The flag of a policy goes up by what the clock says, or the question about it. -/
theorem Exact.looked (h : Exact key expiresAt limit used ops policy) {op : Op} {now : Int} (hdelta : op.delta key = 0)
    (hclock : op.clock key = some now) {spent : Bool}
    (hover : policy.revoked = false → spent = true → exhausted policy = true) :
    Exact key expiresAt limit used (ops ++ [op])
      {policy with revoked := policy.revoked || expiredAt now policy || spent} := by
  have hclocks : clocks key (ops ++ [op]) = clocks key ops ++ [now] := by
    rw [clocks_snoc, hclock, Option.toList_some]
  have hrecorded : recorded key (ops ++ [op]) = recorded key ops := by
    rw [recorded_snoc, hdelta, Nat.add_zero]
  refine ⟨h.expiry, h.limited, fun hrevoked hfits => ?_, fun hrevoked => ?_, fun hrevoked hsome => ?_⟩
  · cases hold : policy.revoked with
    | true => exact h.cause hold hfits.of_append
    | false =>
      have hseen := hfits.1
      rw [hclocks, Unexpired.append, ← expiredAt_eq h.expiry now] at hseen
      have hbelow := hfits.2
      rw [hrecorded, ← h.exhausted_eq hold] at hbelow
      have hup : spent = true := by simpa [hold, hseen.2] using hrevoked
      rw [hover hold hup] at hbelow
      cases hbelow
  · rw [Bool.or_eq_false_iff, Bool.or_eq_false_iff] at hrevoked
    rw [hclocks, Unexpired.append, ← expiredAt_eq h.expiry now]
    exact ⟨h.unexpired hrevoked.1.1, hrevoked.1.2⟩
  · rw [Bool.or_eq_false_iff, Bool.or_eq_false_iff] at hrevoked
    rw [hrecorded]
    exact h.counted hrevoked.1.1 hsome

theorem Exact.on (h : Exact key expiresAt limit used ops policy) (op : Op) :
    Exact key expiresAt limit used (ops ++ [op]) (op.on key policy) := by
  cases op with
  | recordRouteUsage routeId rxBytes txBytes => exact h.charged rfl rfl
  | allowed now k =>
    simp only [Op.on]
    split
    · rename_i hk
      have hclock : Op.clock key (.allowed now k) = some now := if_pos hk
      exact h.looked rfl hclock fun _ hup => hup
    · rename_i hk
      exact h.idle rfl (if_neg hk)
  | expiredKeys now =>
    have hclock : Op.clock key (.expiredKeys now) = some now := rfl
    have hover : policy.revoked = false → false = true → exhausted policy = true := nofun
    have hlooked := h.looked rfl hclock hover
    simpa [Op.on, swept] using hlooked

theorem exact_run (p : PolicyEnforcer) (key : ResourceKey) (expiresAt : Option Int) (limit : Option UInt64)
    (used : UInt64) (ops : List Op) :
    ∃ policy, ((p.register key expiresAt (limit.map UInt64.toNat) used.toNat).run ops).policies.lookup key =
      some policy ∧ Exact key expiresAt limit used ops policy := by
  induction ops using List.reverseRecOn with
  | nil => exact ⟨_, AList.lookup_insert _, exact_register key expiresAt limit used p.registrations⟩
  | append_singleton ops op ih =>
    obtain ⟨policy, hlookup, hexact⟩ := ih
    refine ⟨op.on key policy, ?_, hexact.on op⟩
    rw [run, List.foldl_append, List.foldl_cons, List.foldl_nil, lookup_apply]
    rw [run] at hlookup
    rw [hlookup, Option.map_some]

theorem allowed_eq (now : Int) {p : PolicyEnforcer} (h : p.policies.lookup key = some policy) :
    (p.allowed now key).1 = !(judged now policy).revoked := by
  simp only [allowed, h, judged]
  split
  · rename_i hrevoked
    simp [hrevoked]
  · split
    · rename_i hexpired
      simp [hexpired]
    · split
      · rename_i hexhausted
        simp [hexhausted]
      · rename_i hrevoked hexpired hexhausted
        simp [hrevoked, hexpired, hexhausted]

end

/-- The answer after any calls, by the history alone. -/
theorem allowed_iff_fits (p : PolicyEnforcer) (key : ResourceKey) (expiresAt : Option Int) (limit : Option UInt64)
    (used : UInt64) (ops : List Op) (now : Int) :
    (((p.register key expiresAt (limit.map UInt64.toNat) used.toNat).run ops).allowed now key).1 = true ↔
      Fits key expiresAt limit used (ops ++ [.allowed now key]) := by
  obtain ⟨policy, hlookup, hexact⟩ := exact_run p key expiresAt limit used ops
  rw [allowed_eq now hlookup, Bool.not_eq_true', hexact.answer now]

/-- **A resource is allowed exactly while no clock value seen reached its expiry and the
true sum of its bytes is below its limit**, and what is not allowed stays so. -/
theorem allowed_exact (p : PolicyEnforcer) (key : ResourceKey) (expiresAt : Option Int) (limit : Option UInt64)
    (used : UInt64) (ops : List Op) (now : Int) :
    let s := (p.register key expiresAt (limit.map UInt64.toNat) used.toNat).run ops
    ((s.allowed now key).1 = true ↔
      Unexpired expiresAt (clocks key ops ++ [now]) ∧ BelowLimit limit (used.toNat + recorded key ops)) ∧
    ((s.allowed now key).1 = false →
      ∀ later now', (((s.allowed now key).2.run later).allowed now' key).1 = false) := by
  intro s
  constructor
  · rw [allowed_iff_fits, Fits, clocks_snoc, recorded_snoc]
    simp [Op.clock, Op.delta]
  · intro hfalse later now'
    have hrun : (s.allowed now key).2.run later =
        (p.register key expiresAt (limit.map UInt64.toNat) used.toNat).run (ops ++ .allowed now key :: later) := by
      simp [s, run, apply]
    rw [hrun, ← Bool.not_eq_true, allowed_iff_fits]
    rw [← Bool.not_eq_true, allowed_iff_fits] at hfalse
    intro hfits
    have hfits' : Fits key expiresAt limit used ((ops ++ [Op.allowed now key]) ++ (later ++ [Op.allowed now' key])) := by
      simpa using hfits
    exact hfalse hfits'.of_append

/-- The counter wraps to 4, and the limit of 10 stays reached. -/
example : (((({} : PolicyEnforcer).register (tunnelKey "t") none (some 10) 0).run
    [.recordRouteUsage "t" (2 ^ 64 - 1) 0, .recordRouteUsage "t" 5 0]).allowed 0 (tunnelKey "t")).1 = false := by
  decide +kernel

end Rps.Controller.PolicyEnforcer
