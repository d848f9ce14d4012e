import Rps.Controller.Enforcement

/-! The usage a policy is enforced against.

A byte that is relayed is counted in the registered policy at once and reaches the
row later, through the traffic queue, the pending map and a flush. A handler that
updates a resource reads the row back and registers the policy anew from it.

`usage_covers`: the registered usage is never less than what was recorded since the
resource was created, as long as a handler reads its row when nothing recorded on
the resource is still on its way, and nothing is recorded on it before the handler
registers. Otherwise the new policy starts from a row that is behind
(`usage_behind`). -/
namespace Rps.Controller
open Base

namespace Resources

/-! ### Bytes on their way -/

/-- What an amount on a route counts for a resource. -/
def weight (key : ResourceKey) (routeId : String) (rxBytes txBytes : Nat) : Nat :=
  if resourceKeyFromRoute routeId = some key then rxBytes + txBytes else 0

/-- The bytes of a resource in the queue, the pending map and the batch. -/
def inTraffic (t : Traffic) (key : ResourceKey) : Nat :=
  (t.queue.map fun e => weight key e.tunnelId e.rxBytes e.txBytes).sum +
    Table.sum (fun route bytes => weight key route.2 bytes.1 bytes.2) t.pending +
    (t.batch.map fun b => weight key b.1.2 b.2.1 b.2.2).sum

/-- The bytes of a resource that are recorded in the policy and not yet in the row. -/
def State.inFlight (s : State) (key : ResourceKey) : Nat :=
  (s.adds.map fun e => weight key e.tunnelId e.rxBytes e.txBytes).sum + inTraffic s.traffic key

/-- The bytes in the row of a resource. -/
def State.stored (s : State) (key : ResourceKey) : Nat :=
  match s.rows.lookup key with
  | some row => row.rxBytes + row.txBytes
  | none => 0

/-- The event finds the queue full and is dropped. -/
def drops (t : Traffic) (event : TrafficEvent) : Bool :=
  !(event.rxBytes = 0 && event.txBytes = 0) && !(t.queue.length < trafficQueueCapacity)

theorem weight_add (key : ResourceKey) (routeId : String) (rx tx rx' tx' : Nat) :
    weight key routeId (rx + rx') (tx + tx') = weight key routeId rx tx + weight key routeId rx' tx' := by
  unfold weight
  split <;> omega

theorem resourceKeyFromRoute_some (routeId : String) : ∃ key, resourceKeyFromRoute routeId = some key := by
  unfold resourceKeyFromRoute
  split <;> exact ⟨_, rfl⟩

theorem saturatingAdd_eq {a b : Nat} (h : a + b < 2 ^ 63) : PolicyEnforcer.saturatingAdd a b = a + b := by
  unfold PolicyEnforcer.saturatingAdd
  omega

theorem inTraffic_record {t : Traffic} {event : TrafficEvent} (hkept : drops t event = false) (key : ResourceKey) :
    inTraffic (t.record event) key = inTraffic t key + weight key event.tunnelId event.rxBytes event.txBytes := by
  unfold Traffic.record
  split
  · rename_i hzero
    simp [weight, hzero.1, hzero.2]
  · rename_i hsome
    split
    · simp only [inTraffic, List.map_append, List.map_cons, List.map_nil, List.sum_append, List.sum_cons, List.sum_nil]
      omega
    · rename_i hfull
      simp [drops, hsome, hfull] at hkept

theorem inTraffic_flush {t : Traffic} (hbatch : t.batch = []) (key : ResourceKey) :
    inTraffic t.flush key = inTraffic t key := by
  have hempty : Table.sum (fun route bytes => weight key route.2 bytes.1 bytes.2)
      (∅ : Table (String × String) (Nat × Nat)) = 0 := rfl
  simp only [inTraffic, Traffic.flush, hbatch, hempty, List.map_map, List.map_nil, List.sum_nil]
  simp only [Function.comp_def, Table.sum]
  omega

/-- Receiving an event moves its bytes into the pending map: they fit, since all the
bytes of a resource do. -/
theorem inTraffic_recv {t : Traffic} {event : TrafficEvent} {rest : List TrafficEvent} (hbatch : t.batch = [])
    (hqueue : t.queue = event :: rest) (hbound : ∀ key, inTraffic t key < 2 ^ 63) (key : ResourceKey) :
    inTraffic (t.recv event rest) key = inTraffic t key := by
  let route := (event.clientId, event.tunnelId)
  let old := (t.pending.lookup route).getD (0, 0)
  have hsum (k : ResourceKey) (v : Nat × Nat) :
      Table.sum (fun route bytes => weight k route.2 bytes.1 bytes.2) (t.pending.insert route v) +
        weight k event.tunnelId old.1 old.2 =
      Table.sum (fun route bytes => weight k route.2 bytes.1 bytes.2) t.pending + weight k event.tunnelId v.1 v.2 := by
    have h := Table.sum_insert (fun route bytes => weight k route.2 bytes.1 bytes.2) t.pending route v
    cases hl : t.pending.lookup route with
    | none =>
      have hold : old = (0, 0) := by simp [old, hl]
      rw [hl] at h
      simp only [hold, weight, Option.map_none, Option.getD_none, Nat.add_zero, ite_self] at h ⊢
      exact h
    | some w =>
      have hold : old = w := by simp [old, hl]
      rw [hl] at h
      rw [hold]
      exact h
  obtain ⟨k, hk⟩ := resourceKeyFromRoute_some event.tunnelId
  have hfit : old.1 + old.2 + (event.rxBytes + event.txBytes) < 2 ^ 63 := by
    have h := hsum k (0, 0)
    have hb := hbound k
    rw [inTraffic, hqueue, hbatch] at hb
    simp only [List.map_cons, List.sum_cons, weight, hk, if_true, List.map_nil, List.sum_nil] at h hb
    omega
  have hentry : (PolicyEnforcer.saturatingAdd old.1 event.rxBytes, PolicyEnforcer.saturatingAdd old.2 event.txBytes) =
      (old.1 + event.rxBytes, old.2 + event.txBytes) := by
    rw [saturatingAdd_eq (by omega), saturatingAdd_eq (by omega)]
  let moved := t.pending.insert route (old.1 + event.rxBytes, old.2 + event.txBytes)
  have hmoved : inTraffic {t with queue := rest, pending := moved} key = inTraffic t key := by
    have h := hsum key (old.1 + event.rxBytes, old.2 + event.txBytes)
    simp only [weight_add] at h
    simp only [inTraffic, hqueue, List.map_cons, List.sum_cons, moved]
    omega
  unfold Traffic.recv
  simp only
  rw [show (t.pending.lookup (event.clientId, event.tunnelId)).getD (0, 0) = old from rfl, hentry]
  split
  · rw [inTraffic_flush (by exact hbatch)]
    exact hmoved
  · exact hmoved

/-! ### Rows and bytes on their way -/

/-- What is recorded on a resource that has a row is in the row or on its way to it,
and nothing else is. -/
structure Ledger (s : State) : Prop where
  bound : s.total < 2 ^ 63
  fits : ∀ key, s.stored key + s.inFlight key ≤ s.total
  covered : ∀ key row, s.rows.lookup key = some row → s.recorded key ≤ s.stored key + s.inFlight key

theorem stored_of_lookup {s : State} {key : ResourceKey} {row : Row} (h : s.rows.lookup key = some row) :
    s.stored key = row.rxBytes + row.txBytes := by
  rw [State.stored, h]

/-- A step that leaves the counters of the rows and what is on its way as they are. -/
structure SameLedger (s u : State) : Prop where
  adds : u.adds = s.adds
  traffic : u.traffic = s.traffic
  total : u.total = s.total
  recorded : ∀ key, u.recorded key ≤ s.recorded key
  rows : ∀ key row, u.rows.lookup key = some row →
    (∃ old, s.rows.lookup key = some old ∧ row.rxBytes = old.rxBytes ∧ row.txBytes = old.txBytes) ∨
      s.rows.lookup key = none ∧ u.recorded key = 0 ∧ row.rxBytes = 0 ∧ row.txBytes = 0

theorem SameLedger.inFlight {s u : State} (h : SameLedger s u) (key : ResourceKey) :
    u.inFlight key = s.inFlight key := by
  unfold State.inFlight
  rw [h.adds, h.traffic]

theorem SameLedger.stored_le {s u : State} (h : SameLedger s u) (key : ResourceKey) :
    u.stored key ≤ s.stored key := by
  cases hl : u.rows.lookup key with
  | none => simp [State.stored, hl]
  | some row =>
    rw [stored_of_lookup hl]
    rcases h.rows key row hl with ⟨old, hold, hrx, htx⟩ | ⟨-, -, hrx, htx⟩
    · rw [stored_of_lookup hold, hrx, htx]
    · omega

theorem Ledger.same {s u : State} (h : Ledger s) (hsame : SameLedger s u) : Ledger u where
  bound := by
    rw [hsame.total]
    exact h.bound
  fits := by
    intro key
    rw [hsame.total, hsame.inFlight]
    exact Nat.le_trans (Nat.add_le_add_right (hsame.stored_le key) _) (h.fits key)
  covered := by
    intro key row hl
    rw [hsame.inFlight, stored_of_lookup hl]
    rcases hsame.rows key row hl with ⟨old, hold, hrx, htx⟩ | ⟨-, hzero, -⟩
    · have hc := h.covered key old hold
      rw [stored_of_lookup hold] at hc
      have := hsame.recorded key
      omega
    · omega

/-- A step that moves bytes along: for a resource with a row, what leaves one place
arrives in the next. -/
theorem Ledger.move {s u : State} (h : Ledger s) (htotal : u.total = s.total) (hrec : u.recorded = s.recorded)
    (hrows : ∀ key row, u.rows.lookup key = some row → ∃ old, s.rows.lookup key = some old)
    (hle : ∀ key, u.stored key + u.inFlight key ≤ s.stored key + s.inFlight key)
    (hge : ∀ key row, s.rows.lookup key = some row →
      s.stored key + s.inFlight key ≤ u.stored key + u.inFlight key) : Ledger u where
  bound := by
    rw [htotal]
    exact h.bound
  fits := by
    intro key
    rw [htotal]
    exact Nat.le_trans (hle key) (h.fits key)
  covered := by
    intro key row hl
    obtain ⟨old, hold⟩ := hrows key row hl
    rw [hrec]
    exact Nat.le_trans (h.covered key old hold) (hge key old hold)

theorem Ledger.inTraffic_lt {s : State} (h : Ledger s) (key : ResourceKey) : inTraffic s.traffic key < 2 ^ 63 := by
  have hfits := h.fits key
  have hbound := h.bound
  unfold State.inFlight at hfits
  omega

theorem ledger_add {s : State} (h : Ledger s) {key : ResourceKey} {event : TrafficEvent} {p : PolicyEnforcer}
    (hkey : resourceKeyFromRoute event.tunnelId = some key)
    (hfit : s.total + event.rxBytes + event.txBytes < 2 ^ 63) :
    Ledger {s with
      policy := p
      adds := s.adds ++ [event]
      recorded := Function.update s.recorded key (s.recorded key + event.rxBytes + event.txBytes)
      total := s.total + event.rxBytes + event.txBytes} := by
  let u : State := {s with
    policy := p
    adds := s.adds ++ [event]
    recorded := Function.update s.recorded key (s.recorded key + event.rxBytes + event.txBytes)
    total := s.total + event.rxBytes + event.txBytes}
  have hflight (k : ResourceKey) :
      u.inFlight k = s.inFlight k + weight k event.tunnelId event.rxBytes event.txBytes := by
    simp only [u, State.inFlight, List.map_append, List.map_cons, List.map_nil, List.sum_append, List.sum_cons,
      List.sum_nil]
    omega
  have hstored (k : ResourceKey) : u.stored k = s.stored k := rfl
  refine ⟨hfit, ?_, ?_⟩
  · intro k
    show u.stored k + u.inFlight k ≤ s.total + event.rxBytes + event.txBytes
    rw [hflight, hstored]
    have := h.fits k
    unfold weight
    split <;> omega
  · intro k row hl
    show u.recorded k ≤ u.stored k + u.inFlight k
    rw [hflight, hstored]
    have := h.covered k row hl
    by_cases hk : k = key
    · subst hk
      simp only [u, weight, hkey, if_true, Function.update_self]
      omega
    · rw [show u.recorded k = s.recorded k from Function.update_of_ne hk _ _]
      omega

theorem ledger_record {s : State} (h : Ledger s) {i : Nat} {event : TrafficEvent} (hi : s.adds[i]? = some event)
    (hkept : drops s.traffic event = false) :
    Ledger {s with adds := s.adds.eraseIdx i, traffic := s.traffic.record event} := by
  have hflight (k : ResourceKey) :
      State.inFlight {s with adds := s.adds.eraseIdx i, traffic := s.traffic.record event} k = s.inFlight k := by
    have hsum := Heap.sum_eraseIdx hi fun e => weight k e.tunnelId e.rxBytes e.txBytes
    simp only [State.inFlight, inTraffic_record hkept]
    omega
  exact h.move rfl rfl (fun _ row hl => ⟨row, hl⟩) (fun k => by rw [hflight]; rfl) fun k _ _ => by rw [hflight]; rfl

theorem ledger_traffic {s : State} (h : Ledger s) {t : Traffic}
    (hsame : ∀ key, inTraffic t key = inTraffic s.traffic key) : Ledger {s with traffic := t} := by
  have hflight (k : ResourceKey) : State.inFlight {s with traffic := t} k = s.inFlight k := by
    simp only [State.inFlight, hsame]
  exact h.move rfl rfl (fun _ row hl => ⟨row, hl⟩) (fun k => by rw [hflight]; rfl) fun k _ _ => by rw [hflight]; rfl

/-- A flushed entry goes from the batch to its row. -/
theorem ledger_flushRoute {s : State} (h : Ledger s) {i : Nat} {clientId route : String} {rxBytes txBytes : Nat}
    (hi : s.traffic.batch[i]? = some ((clientId, route), (rxBytes, txBytes))) :
    Ledger (State.addResourceTraffic {s with traffic := {s.traffic with batch := s.traffic.batch.eraseIdx i}}
      route rxBytes txBytes) := by
  let v : State := {s with traffic := {s.traffic with batch := s.traffic.batch.eraseIdx i}}
  obtain ⟨key, hkey⟩ := resourceKeyFromRoute_some route
  have hflight (k : ResourceKey) : v.inFlight k + weight k route rxBytes txBytes = s.inFlight k := by
    have hsum := Heap.sum_eraseIdx hi fun b => weight k b.1.2 b.2.1 b.2.2
    simp only [v, State.inFlight, inTraffic] at hsum ⊢
    omega
  have hfit : rxBytes + txBytes < 2 ^ 63 := by
    have h1 := hflight key
    have h2 := h.fits key
    have h3 := h.bound
    rw [weight, if_pos hkey] at h1
    omega
  show Ledger (v.addResourceTraffic route rxBytes txBytes)
  unfold State.addResourceTraffic State.modifyRow
  simp only [hkey]
  cases hl : v.rows.lookup key with
  | none =>
    -- the resource is gone, and its bytes go nowhere
    refine h.move rfl rfl (fun _ row hl => ⟨row, hl⟩) (fun k => ?_) (fun k row hrow => ?_)
    · show s.stored k + v.inFlight k ≤ _
      have := hflight k
      omega
    · show _ ≤ s.stored k + v.inFlight k
      have hk : k ≠ key := by
        rintro rfl
        rw [show s.rows.lookup k = none from hl] at hrow
        cases hrow
      have := hflight k
      rw [weight, hkey, if_neg (fun heq => hk (Option.some.inj heq).symm)] at this
      omega
  | some row =>
    let row' : Row := {row with rxBytes := row.rxBytes + u64ToI64 rxBytes, txBytes := row.txBytes + u64ToI64 txBytes}
    let u : State := {v with rows := v.rows.insert key row'}
    have hstored (k : ResourceKey) : u.stored k = s.stored k + weight k route rxBytes txBytes := by
      simp only [u, State.stored, Table.lookup_insert, weight, hkey, Option.some.injEq]
      by_cases hk : k = key
      · subst hk
        rw [show s.rows.lookup k = some row from hl]
        simp only [if_true, row', u64ToI64]
        omega
      · rw [if_neg hk, if_neg (Ne.symm hk)]
        rfl
    have hmoved (k : ResourceKey) : u.stored k + u.inFlight k = s.stored k + s.inFlight k := by
      have : u.inFlight k = v.inFlight k := rfl
      have := hflight k
      rw [hstored]
      omega
    refine h.move (u := u) rfl rfl (fun k r hr => ?_) (fun k => Nat.le_of_eq (hmoved k))
      fun k _ _ => Nat.le_of_eq (hmoved k).symm
    simp only [u, Table.lookup_insert] at hr
    split at hr
    · rename_i hk
      exact ⟨row, hk ▸ hl⟩
    · exact ⟨r, hr⟩

/-! ### The registered usage -/

/-- No policy is new or counts another usage. -/
def SameUsage (p p' : PolicyEnforcer) : Prop :=
  ∀ key policy', p'.policies.lookup key = some policy' →
    ∃ policy, p.policies.lookup key = some policy ∧ policy'.usedBytes = policy.usedBytes

theorem sameUsage_refl (p : PolicyEnforcer) : SameUsage p p := fun _ policy h => ⟨policy, h, rfl⟩

theorem sameUsage_flip {p : PolicyEnforcer} {key : ResourceKey} {policy : PolicyState}
    (hl : p.policies.lookup key = some policy) (reason : RevokeReason) :
    SameUsage p (p.flip key policy policy.usedBytes reason) := by
  intro k policy' h
  simp only [PolicyEnforcer.flip, Table.lookup_insert] at h
  split at h
  · rename_i hk
    rw [← Option.some.inj h]
    exact ⟨policy, hk ▸ hl, rfl⟩
  · exact ⟨policy', h, rfl⟩

theorem sameUsage_revokeOnce {p : PolicyEnforcer} {key : ResourceKey} {policy : PolicyState}
    (hl : p.policies.lookup key = some policy) (reason : RevokeReason) :
    SameUsage p (p.revokeOnce key policy reason) := by
  cases hr : policy.revoked with
  | true =>
    rw [PolicyEnforcer.revokeOnce, if_pos hr]
    exact sameUsage_refl p
  | false =>
    rw [PolicyEnforcer.revokeOnce_eq_flip hr]
    exact sameUsage_flip hl reason

theorem sameUsage_allowed (now : Int) (p : PolicyEnforcer) (key : ResourceKey) :
    SameUsage p (p.allowed now key).2 := by
  unfold PolicyEnforcer.allowed
  cases hl : p.policies.lookup key with
  | none => exact sameUsage_refl p
  | some policy =>
    simp only
    split
    · exact sameUsage_refl p
    · split
      · exact sameUsage_revokeOnce hl .expired
      · split
        · exact sameUsage_revokeOnce hl .trafficExhausted
        · exact sameUsage_refl p

theorem sameUsage_remove (p : PolicyEnforcer) (key : ResourceKey) : SameUsage p (p.remove key) := by
  intro k policy' h
  simp only [PolicyEnforcer.remove, Table.lookup_erase] at h
  split at h
  · cases h
  · exact ⟨policy', h, rfl⟩

/-- Once the bytes are counted, `record_route_usage` sets the flag at most. -/
theorem sameUsage_recordRouteUsage {p : PolicyEnforcer} {routeId : String} {key : ResourceKey}
    {policy : PolicyState} {rxBytes txBytes : Nat} (hkey : resourceKeyFromRoute routeId = some key)
    (hl : p.policies.lookup key = some policy) (hfit : policy.usedBytes + rxBytes + txBytes < 2 ^ 63) :
    SameUsage
      {p with policies := p.policies.insert key {policy with usedBytes := policy.usedBytes + (rxBytes + txBytes)}}
      (p.recordRouteUsage routeId rxBytes txBytes) := by
  have hdelta : PolicyEnforcer.saturatingAdd rxBytes txBytes = rxBytes + txBytes := saturatingAdd_eq (by omega)
  have hmod : (policy.usedBytes + (rxBytes + txBytes)) % 2 ^ 64 = policy.usedBytes + (rxBytes + txBytes) :=
    Nat.mod_eq_of_lt (by omega)
  unfold PolicyEnforcer.recordRouteUsage
  simp only [hkey, hl, hdelta, hmod]
  split
  · rename_i hzero
    intro k policy' h
    rw [Table.lookup_insert]
    by_cases hk : k = key
    · subst hk
      obtain rfl : policy = policy' := Option.some.inj (hl.symm.trans h)
      exact ⟨_, if_pos rfl, by rw [hzero, Nat.add_zero]⟩
    · exact ⟨policy', by rw [if_neg hk, h], rfl⟩
  · cases hlimit : policy.trafficLimitBytes with
    | none => exact sameUsage_refl _
    | some limit =>
      simp only
      split
      · exact sameUsage_revokeOnce (by rw [Table.lookup_insert, if_pos rfl]) .trafficExhausted
      · exact sameUsage_refl _

/-- The bytes of a route are added to the usage of the resource it belongs to. -/
theorem recordRouteUsage_used {p : PolicyEnforcer} {routeId : String} {key : ResourceKey} {rxBytes txBytes : Nat}
    (hkey : resourceKeyFromRoute routeId = some key)
    (hfit : ∀ policy, p.policies.lookup key = some policy → policy.usedBytes + rxBytes + txBytes < 2 ^ 63)
    {k : ResourceKey} {policy' : PolicyState}
    (h : (p.recordRouteUsage routeId rxBytes txBytes).policies.lookup k = some policy') :
    ∃ policy, p.policies.lookup k = some policy ∧
      policy'.usedBytes = policy.usedBytes + weight k routeId rxBytes txBytes := by
  have hother : k ≠ key → weight k routeId rxBytes txBytes = 0 := by
    intro hk
    rw [weight, hkey, if_neg]
    exact fun heq => hk (Option.some.inj heq).symm
  cases hl : p.policies.lookup key with
  | none =>
    simp only [PolicyEnforcer.recordRouteUsage, hkey, hl] at h
    have hk : k ≠ key := by
      rintro rfl
      rw [hl] at h
      cases h
    exact ⟨policy', h, by rw [hother hk, Nat.add_zero]⟩
  | some policy =>
    obtain ⟨counted, hcounted, hused⟩ := sameUsage_recordRouteUsage hkey hl (hfit policy hl) k policy' h
    rw [Table.lookup_insert] at hcounted
    rw [hused]
    split at hcounted
    · rename_i hk
      subst hk
      rw [← Option.some.inj hcounted]
      exact ⟨policy, hl, by rw [weight, if_pos hkey]⟩
    · rename_i hk
      exact ⟨counted, hcounted, by rw [hother hk, Nat.add_zero]⟩

/-! ### The invariant -/

/-- Every enabled resource is enforced against at least what was recorded on it since
it was created. -/
def UsageCovers (s : State) : Prop :=
  ∀ key row policy, s.rows.lookup key = some row → row.enabled = true →
    s.policy.policies.lookup key = some policy → s.recorded key ≤ policy.usedBytes

/-- No traffic event is dropped. -/
def Undropped (a : Action) (s : State) : Prop :=
  match a with
  | .record i => ∀ event ∈ s.adds[i]?, drops s.traffic event = false
  | _ => True

/-- The row that a handler has read and will register its key from. -/
def Admin.holds (admin : Admin) : Option Row :=
  match admin.phase with
  | .enrolling row => some row
  | .halting row | .settling row => if row.enabled then some row else none
  | _ => none

/-- A handler reads the row it registers from when nothing recorded on the resource
is on its way, and nothing is recorded on it while the handler holds the row. Besides,
a route belongs to the resource it was made for, and the bytes fit the row's counters. -/
def Settled (a : Action) (s : State) : Prop :=
  match a with
  | .add key event =>
    (∀ admin ∈ s.admins, admin.key = key → admin.holds = none) ∧
      resourceKeyFromRoute event.tunnelId = some key ∧ s.total + event.rxBytes + event.txBytes < 2 ^ 63
  | .admin i _ _ =>
    ∀ admin ∈ s.admins[i]?, admin.phase = .reading →
      ∀ row ∈ s.rows.lookup admin.key, (admin.kind = .create ∨ row.enabled = true) → s.inFlight admin.key = 0
  | _ => True

structure UsageInv (s : State) : Prop where
  ledger : Ledger s
  policy : ∀ key policy, s.policy.policies.lookup key = some policy →
    s.recorded key ≤ policy.usedBytes ∧ policy.usedBytes ≤ s.total
  held : ∀ admin ∈ s.admins, ∀ row, admin.holds = some row →
    s.recorded admin.key ≤ row.rxBytes + row.txBytes ∧ row.rxBytes + row.txBytes ≤ s.total

theorem usageInv_init : UsageInv system.init where
  ledger := ⟨by decide, fun _ => Nat.le_refl 0, fun _ _ h => by cases h⟩
  policy := by
    intro key policy h
    cases h
  held := by
    intro admin h
    cases h

/-- Every row that is held was held before, for the same key. -/
def SameHeld (s u : State) : Prop :=
  ∀ admin ∈ u.admins, ∀ row, admin.holds = some row → ∃ old ∈ s.admins, old.key = admin.key ∧ old.holds = some row

theorem sameHeld_refl (s : State) : SameHeld s s := fun admin h _ hrow => ⟨admin, h, rfl, hrow⟩

theorem sameHeld_push {s u : State} {admin : Admin} (hnew : admin.holds = none)
    (hu : u.admins = s.admins ++ [admin]) : SameHeld s u := by
  intro a ha row hrow
  rw [hu] at ha
  rcases List.mem_append.mp ha with ha | ha
  · exact ⟨a, ha, rfl, hrow⟩
  · rw [List.mem_singleton.mp ha, hnew] at hrow
    cases hrow

/-- A handler moves on with the row it held, or with none. -/
theorem sameHeld_set {s u : State} {i : Nat} {admin : Admin} {phase : AdminPhase} (hi : s.admins[i]? = some admin)
    (hu : u.admins = s.admins.set i {admin with phase := phase})
    (hnew : ∀ row, Admin.holds {admin with phase := phase} = some row → admin.holds = some row) : SameHeld s u := by
  intro a ha row hrow
  rw [hu] at ha
  rcases List.mem_or_eq_of_mem_set ha with ha | rfl
  · exact ⟨a, ha, rfl, hrow⟩
  · exact ⟨admin, List.mem_of_getElem? hi, rfl, hnew row hrow⟩

/-- A step that moves no bytes, counts none and holds no new row. -/
theorem UsageInv.same {s u : State} (h : UsageInv s) (hledger : SameLedger s u) (hp : SameUsage s.policy u.policy)
    (hheld : SameHeld s u) : UsageInv u where
  ledger := h.ledger.same hledger
  policy := by
    intro key policy' hl
    obtain ⟨policy, hold, hused⟩ := hp key policy' hl
    rw [hused, hledger.total]
    have := h.policy key policy hold
    exact ⟨Nat.le_trans (hledger.recorded key) this.1, this.2⟩
  held := by
    intro admin hadmin row hrow
    obtain ⟨old, hold, hkey, hholds⟩ := hheld admin hadmin row hrow
    rw [hledger.total, ← hkey]
    have := h.held old hold row hholds
    exact ⟨Nat.le_trans (hledger.recorded old.key) this.1, this.2⟩

/-- A step that only moves bytes along. -/
theorem UsageInv.moved {s u : State} (h : UsageInv s) (hledger : Ledger u) (hp : u.policy = s.policy)
    (hadmins : u.admins = s.admins) (hrec : u.recorded = s.recorded) (htotal : u.total = s.total) : UsageInv u where
  ledger := hledger
  policy := by
    rw [hp, hrec, htotal]
    exact h.policy
  held := by
    rw [hadmins, hrec, htotal]
    exact h.held

/-- A step that leaves the rows, the counters and what is on its way alone. -/
theorem sameLedger_of_eq {s u : State} (hrows : u.rows = s.rows) (hadds : u.adds = s.adds)
    (htraffic : u.traffic = s.traffic) (hrec : u.recorded = s.recorded) (htotal : u.total = s.total) :
    SameLedger s u :=
  ⟨hadds, htraffic, htotal, fun _ => by rw [hrec], fun key row hl => .inl ⟨row, by rw [← hrows, hl], rfl, rfl⟩⟩

theorem sameLedger_erase (s : State) (key : ResourceKey) : SameLedger s {s with rows := s.rows.erase key} := by
  refine ⟨rfl, rfl, rfl, fun _ => Nat.le_refl _, fun k row hl => ?_⟩
  rw [Table.lookup_erase] at hl
  split at hl
  · cases hl
  · exact .inl ⟨row, hl, rfl, rfl⟩

/-- A row is changed in other columns than its counters. -/
theorem sameLedger_modifyRow (s : State) (key : ResourceKey) {f : Row → Row} (hrx : ∀ row, (f row).rxBytes = row.rxBytes)
    (htx : ∀ row, (f row).txBytes = row.txBytes) : SameLedger s (s.modifyRow key f) := by
  unfold State.modifyRow
  cases hl : s.rows.lookup key with
  | none => exact sameLedger_of_eq rfl rfl rfl rfl rfl
  | some row =>
    refine ⟨rfl, rfl, rfl, fun _ => Nat.le_refl _, fun k row' hl' => ?_⟩
    rw [Table.lookup_insert] at hl'
    split at hl'
    · rename_i hk
      rw [← Option.some.inj hl']
      exact .inl ⟨row, hk ▸ hl, hrx row, htx row⟩
    · exact .inl ⟨row', hl', rfl, rfl⟩

theorem modifyRow_admins (s : State) (key : ResourceKey) (f : Row → Row) : (s.modifyRow key f).admins = s.admins := by
  unfold State.modifyRow
  split <;> rfl

/-! ### Steps -/

theorem usageInv_add {s : State} (h : UsageInv s) {key : ResourceKey} {event : TrafficEvent}
    (hset : Settled (.add key event) s) :
    UsageInv {s with
      policy := s.policy.recordRouteUsage event.tunnelId event.rxBytes event.txBytes
      adds := s.adds ++ [event]
      recorded := Function.update s.recorded key (s.recorded key + event.rxBytes + event.txBytes)
      total := s.total + event.rxBytes + event.txBytes} := by
  obtain ⟨hnone, hkey, hfit⟩ := hset
  have hroom : ∀ policy, s.policy.policies.lookup key = some policy →
      policy.usedBytes + event.rxBytes + event.txBytes < 2 ^ 63 := by
    intro policy hl
    have := (h.policy key policy hl).2
    omega
  refine ⟨ledger_add h.ledger hkey hfit, fun k policy' hl => ?_, fun admin hadmin row hrow => ?_⟩
  · obtain ⟨policy, hold, hused⟩ := recordRouteUsage_used hkey hroom hl
    have hpolicy := h.policy k policy hold
    rw [hused, weight, hkey]
    by_cases hk : k = key
    · subst hk
      simp only [if_true, Function.update_self]
      omega
    · rw [if_neg (fun heq => hk (Option.some.inj heq).symm)]
      simp only [Function.update_of_ne hk]
      omega
  · have hk : admin.key ≠ key := by
      intro hk
      rw [hnone admin hadmin hk] at hrow
      cases hrow
    have := h.held admin hadmin row hrow
    simp only [Function.update_of_ne hk]
    omega

theorem usageInv_traffic {a : Action} {s u : State} (h : UsageInv s) (hkept : Undropped a s) (hset : Settled a s)
    (hstep : trafficStep a s = some u) : UsageInv u := by
  cases a with
  | allowed now key =>
    simp only [trafficStep, Option.some.injEq] at hstep
    subst hstep
    exact h.same (sameLedger_of_eq rfl rfl rfl rfl rfl) (sameUsage_allowed now _ key) (sameHeld_refl s)
  | session key =>
    simp only [trafficStep, Option.some.injEq] at hstep
    subst hstep
    exact h.moved (h.ledger.same (sameLedger_of_eq rfl rfl rfl rfl rfl)) rfl rfl rfl rfl
  | add key event =>
    simp only [trafficStep, Option.ite_none_right_eq_some, Option.some.injEq] at hstep
    obtain ⟨-, rfl⟩ := hstep
    exact usageInv_add h hset
  | record i =>
    simp only [trafficStep] at hstep
    split at hstep
    · rename_i event hi
      cases hstep
      exact h.moved (ledger_record h.ledger hi (hkept event hi)) rfl rfl rfl rfl
    · cases hstep
  | recvTraffic =>
    simp only [trafficStep] at hstep
    split at hstep
    · rename_i event rest hbatch hqueue
      cases hstep
      have hsame := inTraffic_recv hbatch hqueue h.ledger.inTraffic_lt
      exact h.moved (ledger_traffic h.ledger hsame) rfl rfl rfl rfl
    · cases hstep
  | flush =>
    simp only [trafficStep, Option.ite_none_right_eq_some, Option.some.injEq] at hstep
    obtain ⟨hbatch, rfl⟩ := hstep
    exact h.moved (ledger_traffic h.ledger (inTraffic_flush hbatch)) rfl rfl rfl rfl
  | flushRoute i =>
    simp only [trafficStep] at hstep
    split at hstep
    · rename_i clientId route rxBytes txBytes hi
      cases hstep
      obtain ⟨key, hkey⟩ := resourceKeyFromRoute_some route
      have hledger := ledger_flushRoute h.ledger hi
      unfold State.addResourceTraffic State.modifyRow at hledger ⊢
      simp only [hkey] at hledger ⊢
      split
      · rename_i row hl
        simp only [hl] at hledger
        exact h.moved hledger rfl rfl rfl rfl
      · rename_i hl
        simp only [hl] at hledger
        exact h.moved hledger rfl rfl rfl rfl
    · cases hstep
  | _ => cases hstep

theorem usageInv_request {a : Action} {s u : State} (h : UsageInv s) (hstep : requestStep a s = some u) :
    UsageInv u := by
  cases a with
  | create key input =>
    simp only [requestStep] at hstep
    split at hstep
    · cases hstep
    · rename_i hnone
      cases hstep
      refine h.same ⟨rfl, rfl, rfl, fun k => ?_, fun k row hl => ?_⟩ (sameUsage_refl _) (sameHeld_push rfl rfl)
      · by_cases hk : k = key
        · subst hk
          simp
        · simp [Function.update_of_ne hk]
      · rw [Table.lookup_insert] at hl
        split at hl
        · rename_i hk
          subst hk
          rw [← Option.some.inj hl]
          exact .inr ⟨hnone, Function.update_self .., rfl, rfl⟩
        · exact .inl ⟨row, hl, rfl, rfl⟩
  | update key input =>
    simp only [requestStep] at hstep
    split at hstep
    · rename_i row hl
      cases hstep
      have hmod := sameLedger_modifyRow s key (f := input.update) (fun _ => rfl) fun _ => rfl
      rw [State.modifyRow, hl] at hmod
      exact h.same ⟨rfl, rfl, rfl, fun _ => Nat.le_refl _, hmod.rows⟩ (sameUsage_refl _) (sameHeld_push rfl rfl)
    · cases hstep
  | delete key =>
    simp only [requestStep] at hstep
    split at hstep
    · cases hstep
      have herase := sameLedger_erase s key
      exact h.same ⟨rfl, rfl, rfl, fun _ => Nat.le_refl _, herase.rows⟩ (sameUsage_refl _) (sameHeld_push rfl rfl)
    · cases hstep
  | _ => cases hstep

/-- `policy::run` moves no bytes: it sets flags, disables rows and stops runtimes. -/
theorem usageInv_run {a : Action} {s u : State} (h : UsageInv s) (hrun : Runs a s u) : UsageInv u := by
  cases hrun with
  | find now key visited found policy _ _ hl _ _ =>
    exact h.same (sameLedger_of_eq rfl rfl rfl rfl rfl) (sameUsage_flip hl .expired) (sameHeld_refl s)
  | disable now event began rest _ =>
    let f : Row → Row := fun row => {row with enabled := false}
    have hmod := sameLedger_modifyRow (s.hit event now) event.key (f := f) (fun _ => rfl) fun _ => rfl
    obtain ⟨hp, -, -⟩ := disableRow_same s event now
    refine h.same ⟨hmod.adds, hmod.traffic, hmod.total, hmod.recorded, hmod.rows⟩ ?_ ?_
    · simp only [hp]
      exact sameUsage_refl _
    · intro admin hadmin row hrow
      have hadmins : ((s.hit event now).disableRow event.key).admins = s.admins := modifyRow_admins ..
      exact ⟨admin, hadmins ▸ hadmin, rfl, hrow⟩
  | _ => exact h.same (sameLedger_of_eq rfl rfl rfl rfl rfl) (sameUsage_refl s.policy) (sameHeld_refl s)

/-- A handler registers its key from the row it holds. -/
theorem usageInv_register {s : State} (h : UsageInv s) {i : Nat} {admin : Admin} (hi : s.admins[i]? = some admin)
    {row : Row} (hholds : admin.holds = some row) {phase : AdminPhase}
    (hnew : Admin.holds {admin with phase := phase} = none) :
    UsageInv {s.register admin.key row with admins := s.admins.set i {admin with phase := phase}} := by
  have hsame : SameHeld s {s.register admin.key row with admins := s.admins.set i {admin with phase := phase}} :=
    sameHeld_set hi rfl fun r hr => by rw [hnew] at hr; cases hr
  have hinv : UsageInv {s with admins := s.admins.set i {admin with phase := phase}} :=
    h.same (sameLedger_of_eq rfl rfl rfl rfl rfl) (sameUsage_refl _) hsame
  have hrow := h.held admin (List.mem_of_getElem? hi) row hholds
  have hbound := h.ledger.bound
  have hused : row.used = row.rxBytes + row.txBytes := saturatingAdd_eq (by omega)
  refine ⟨hinv.ledger.same (sameLedger_of_eq rfl rfl rfl rfl rfl), fun key policy hl => ?_, hinv.held⟩
  simp only [State.register, PolicyEnforcer.register, Table.lookup_insert] at hl
  split at hl
  · rename_i hk
    subst hk
    rw [← Option.some.inj hl, hused]
    exact hrow
  · exact h.policy key policy hl

/-- A handler reads its row: with nothing on its way, the row is all there is. -/
theorem usageInv_read {s : State} (h : UsageInv s) {i : Nat} {admin : Admin} {row : Row}
    (hl : s.rows.lookup admin.key = some row) {phase : AdminPhase}
    (hnew : ∀ r, Admin.holds {admin with phase := phase} = some r → r = row ∧ s.inFlight admin.key = 0) :
    UsageInv {s with admins := s.admins.set i {admin with phase := phase}} := by
  refine ⟨h.ledger.same (sameLedger_of_eq rfl rfl rfl rfl rfl), h.policy, fun a ha r hr => ?_⟩
  rcases List.mem_or_eq_of_mem_set ha with ha | rfl
  · exact h.held a ha r hr
  · obtain ⟨rfl, hzero⟩ := hnew r hr
    have hcovered := h.ledger.covered admin.key r hl
    have hfits := h.ledger.fits admin.key
    rw [stored_of_lookup hl, hzero] at hcovered hfits
    exact ⟨hcovered, hfits⟩

theorem start_same (s : State) (key : ResourceKey) (now : Int) (bound : Bool) :
    SameLedger s (s.start key now bound).2 ∧ SameUsage s.policy (s.start key now bound).2.policy ∧
      (s.start key now bound).2.admins = s.admins := by
  have hallowed := sameUsage_allowed now s.policy key
  unfold State.start
  split
  · exact ⟨sameLedger_of_eq rfl rfl rfl rfl rfl, sameUsage_refl _, rfl⟩
  · split
    · rename_i policy heq
      rw [heq] at hallowed
      exact ⟨sameLedger_of_eq rfl rfl rfl rfl rfl, hallowed, rfl⟩
    · rename_i policy heq
      rw [heq] at hallowed
      split <;> exact ⟨sameLedger_of_eq rfl rfl rfl rfl rfl, hallowed, rfl⟩

theorem usageInv_admin {s u : State} (h : UsageInv s) {i : Nat} {admin : Admin} {now : Int} {bound : Bool}
    {phase : AdminPhase} (hset : Settled (.admin i now bound) s) (hi : s.admins[i]? = some admin)
    (hstep : adminStep s admin now bound = some (u, phase)) :
    UsageInv {u with admins := u.admins.set i {admin with phase := phase}} := by
  have hdone {p : AdminPhase} {v : State} (hp : Admin.holds {admin with phase := p} = none)
      (hv : v.admins = s.admins.set i {admin with phase := p}) : SameHeld s v :=
    sameHeld_set hi hv fun r hr => by rw [hp] at hr; cases hr
  obtain ⟨kind, key, ph⟩ := admin
  cases ph with
  | reading =>
    simp only [adminStep] at hstep
    split at hstep
    · rename_i row hl
      cases hstep
      refine usageInv_read h hl fun r hr => ?_
      have hzero := hset _ hi rfl row hl
      split at hr
      · rename_i hkind
        exact ⟨(Option.some.inj hr).symm, hzero (.inl hkind)⟩
      · simp only [Admin.holds, Option.ite_none_right_eq_some] at hr
        exact ⟨(Option.some.inj hr.2).symm, hzero (.inr hr.1)⟩
    · cases hstep
      exact h.same (sameLedger_of_eq rfl rfl rfl rfl rfl) (sameUsage_refl _) (hdone rfl rfl)
  | halting row =>
    simp only [adminStep, Option.some.injEq, Prod.mk.injEq] at hstep
    obtain ⟨rfl, rfl⟩ := hstep
    exact h.same (sameLedger_of_eq rfl rfl rfl rfl rfl) (sameUsage_refl s.policy) (sameHeld_set hi rfl fun _ hr => hr)
  | settling row =>
    simp only [adminStep] at hstep
    split at hstep
    · rename_i hen
      cases hstep
      refine usageInv_register h hi (by simp [Admin.holds, hen]) ?_
      split <;> rfl
    · cases hstep
      exact h.same (sameLedger_of_eq rfl rfl rfl rfl rfl) (sameUsage_remove _ key) (hdone rfl rfl)
  | enrolling row =>
    simp only [adminStep, Option.some.injEq, Prod.mk.injEq] at hstep
    obtain ⟨rfl, rfl⟩ := hstep
    refine usageInv_register h hi rfl ?_
    split <;> rfl
  | checking =>
    simp only [adminStep, Option.some.injEq, Prod.mk.injEq] at hstep
    obtain ⟨rfl, rfl⟩ := hstep
    exact h.same (sameLedger_of_eq rfl rfl rfl rfl rfl) (sameUsage_allowed now _ key) (hdone rfl rfl)
  | starting =>
    obtain ⟨hledger, hp, hadmins⟩ := start_same s key now bound
    have hgone {p : AdminPhase} (hp' : Admin.holds ⟨kind, key, p⟩ = none) :
        UsageInv {(s.start key now bound).2 with admins := (s.start key now bound).2.admins.set i ⟨kind, key, p⟩} := by
      refine h.same ⟨hledger.adds, hledger.traffic, hledger.total, hledger.recorded, hledger.rows⟩ hp (hdone hp' ?_)
      rw [hadmins]
    simp only [adminStep] at hstep
    split at hstep
    · rename_i v hv
      cases hstep
      rw [hv] at hgone
      exact hgone rfl
    · rename_i v hv
      cases hstep
      rw [hv] at hgone
      exact hgone rfl
  | failing =>
    simp only [adminStep] at hstep
    split at hstep
    · cases hstep
      have herase := sameLedger_erase s key
      exact h.same ⟨rfl, rfl, rfl, fun _ => Nat.le_refl _, herase.rows⟩ (sameUsage_refl _) (hdone rfl rfl)
    · cases hstep
      let f : Row → Row := fun row => {row with enabled := false}
      have hmod := sameLedger_modifyRow s key (f := f) (fun _ => rfl) fun _ => rfl
      have hp := (modifyRow_same s key f).2
      refine h.same ⟨hmod.adds, hmod.traffic, hmod.total, hmod.recorded, hmod.rows⟩ ?_ (hdone (p := .removing) rfl ?_)
      · show SameUsage s.policy (s.modifyRow key f).policy
        rw [hp]
        exact sameUsage_refl _
      · show (s.modifyRow key f).admins.set i _ = _
        rw [modifyRow_admins]
  | deleting =>
    simp only [adminStep, Option.some.injEq, Prod.mk.injEq] at hstep
    obtain ⟨rfl, rfl⟩ := hstep
    exact h.same (sameLedger_of_eq rfl rfl rfl rfl rfl) (sameUsage_refl s.policy) (hdone rfl rfl)
  | removing =>
    simp only [adminStep, Option.some.injEq, Prod.mk.injEq] at hstep
    obtain ⟨rfl, rfl⟩ := hstep
    exact h.same (sameLedger_of_eq rfl rfl rfl rfl rfl) (sameUsage_remove _ key) (hdone rfl rfl)
  | finished => cases hstep

theorem usageInv_step {a : Action} {s u : State} (h : UsageInv s) (hc : Undropped a s ∧ Settled a s)
    (hstep : step a s = some u) : UsageInv u := by
  cases a with
  | admin i now bound =>
    simp only [step] at hstep
    split at hstep
    · rename_i admin hi
      obtain ⟨⟨v, phase⟩, hv, rfl⟩ := Option.map_eq_some_iff.mp hstep
      exact usageInv_admin h hc.2 hi hv
    · cases hstep
  | allowed now key => exact usageInv_traffic h hc.1 hc.2 hstep
  | session key => exact usageInv_traffic h hc.1 hc.2 hstep
  | add key event => exact usageInv_traffic h hc.1 hc.2 hstep
  | record i => exact usageInv_traffic h hc.1 hc.2 hstep
  | recvTraffic => exact usageInv_traffic h hc.1 hc.2 hstep
  | flush => exact usageInv_traffic h hc.1 hc.2 hstep
  | flushRoute i => exact usageInv_traffic h hc.1 hc.2 hstep
  | create key input => exact usageInv_request (a := .create key input) h hstep
  | update key input => exact usageInv_request (a := .update key input) h hstep
  | delete key => exact usageInv_request (a := .delete key) h hstep
  | recvRevoke => exact usageInv_run h (runnerStep_runs hstep)
  | tick now => exact usageInv_run h (runnerStep_runs hstep)
  | visit key => exact usageInv_run h (runnerStep_runs hstep)
  | sweepEnd => exact usageInv_run h (runnerStep_runs hstep)
  | revoke now => exact usageInv_run h (runnerStep_runs hstep)

/-- **The enforced usage covers the recorded one**, in every run in which no event is
dropped and handlers register from settled rows. -/
theorem usage_covers (s : State) (h : system.Reach (fun a s => Undropped a s ∧ Settled a s) s) : UsageCovers s := by
  have hinv : UsageInv s := h.invariant usageInv_init fun _ _ _ h hc hs => usageInv_step h hc hs
  exact fun key _ policy _ _ hl => (hinv.policy key policy hl).1

instance (a : Action) (s : State) : Decidable (Undropped a s) := by
  unfold Undropped
  split <;> infer_instance

instance (a : Action) (s : State) : Decidable (Settled a s) :=
  match a with
  | .add .. => inferInstanceAs (Decidable (_ ∧ _ ∧ _))
  | .admin i .. => inferInstanceAs (Decidable (∀ admin ∈ s.admins[i]?, _))
  | .allowed .. | .session .. | .record .. | .recvTraffic | .flush | .flushRoute .. | .create .. | .update ..
  | .delete .. | .recvRevoke | .tick .. | .visit .. | .sweepEnd | .revoke .. => inferInstanceAs (Decidable True)

/-- A tunnel relays bytes, they are flushed into its row, and then it is updated. -/
def flushedRun : List Action :=
  let key := tunnelKey "t"
  [.create key ⟨true, none, some 500⟩, .admin 0 0 true, .admin 0 0 true, .admin 0 0 true,
    .add key ⟨"c", "t", 60, 40⟩, .record 0, .recvTraffic, .flush, .flushRoute 0,
    .update key ⟨true, none, some 900⟩, .admin 1 9 true, .admin 1 9 true, .admin 1 9 true, .admin 1 9 true,
    .add key ⟨"c", "t", 0, 7⟩]

theorem usage_covers_flushed : ∃ s, system.Reach (fun a s => Undropped a s ∧ Settled a s) s ∧ UsageCovers s ∧
    s.recorded (tunnelKey "t") = 107 ∧ s.rowEnabled (tunnelKey "t") = true ∧
    (s.policy.policies.lookup (tunnelKey "t")).map (·.usedBytes) = some 107 := by
  obtain ⟨s, hs, hp⟩ := System.reach_of_run (S := system) (C := fun a s => Undropped a s ∧ Settled a s) flushedRun
    (fun s => s.recorded (tunnelKey "t") = 107 ∧ s.rowEnabled (tunnelKey "t") = true ∧
      (s.policy.policies.lookup (tunnelKey "t")).map (·.usedBytes) = some 107) (by decide +kernel)
  simp only [decide_eq_true_eq] at hp
  exact ⟨s, hs, usage_covers s hs, hp⟩

/-- The tunnel is updated while its bytes are still in the queue. -/
def unflushedRun : List Action :=
  let key := tunnelKey "t"
  [.create key ⟨true, none, some 500⟩, .admin 0 0 true, .admin 0 0 true, .admin 0 0 true,
    .add key ⟨"c", "t", 60, 40⟩, .record 0,
    .update key ⟨true, none, some 500⟩, .admin 1 9 true, .admin 1 9 true, .admin 1 9 true]

/-- A hundred bytes are recorded, and the policy registered anew starts from none. -/
theorem usage_behind : ¬ ∀ s, system.Reach Undropped s → UsageCovers s := by
  intro h
  obtain ⟨s, hs, hp⟩ := System.reach_of_run (S := system) (C := Undropped) unflushedRun
    (fun s => s.recorded (tunnelKey "t") = 100 ∧
      s.rows.lookup (tunnelKey "t") = some ⟨true, none, some 500, 0, 0⟩ ∧
      s.policy.policies.lookup (tunnelKey "t") = some ⟨none, some 500, 0, false, 1⟩) (by decide +kernel)
  simp only [decide_eq_true_eq] at hp
  obtain ⟨hrec, hrow, hpolicy⟩ := hp
  have := h s hs _ _ _ hrow rfl hpolicy
  rw [hrec] at this
  exact absurd this (by decide)

end Resources

end Rps.Controller
