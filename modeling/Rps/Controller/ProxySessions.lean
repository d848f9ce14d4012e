import Rps.Controller.ProxyRevocation

/-! The bookkeeping of the `ProxyManager`.

Every proxied connection holds a guard; the guard of an account's connection has an entry in a
concurrent map, which three parties remove by its id: the guard when it is dropped, a revocation
of the account, and another revocation at the same time. A revocation scans the map shard by
shard, removes what it has collected one by one, and sends the signal to whatever it has removed
itself.

`sessions_bookkept`: along every run entries, guards and signals agree. Whoever removes an entry
first decides: a session is counted until then, and is sent the signal by the revocation that
removed it, by no other, and once. -/
namespace Rps.Controller
open Base

def ProxyManager.activeCount (m : ProxyManager) (accountId : String) : Nat :=
  (m.sessions.entries.filter fun e => e.2.accountId = accountId).length

namespace ProxySessions

/-- A guard, and what has happened to it: `revokedBy` is the revocation that removed its entry,
`signals` counts what was sent to its receiver. -/
structure Guard where
  account : Option String
  session : Option Nat
  dropped : Bool := false
  revokedBy : Option Nat := none
  signals : Nat := 0
  deriving DecidableEq

/-- Where `revoke_account` stands. `sending` has removed the entry of a guard and not sent yet. -/
inductive Phase where
  | collecting (shard : Nat) (ids : List Nat)
  | removing (ids : List Nat)
  | sending (guard : Nat) (ids : List Nat)
  | done
  deriving DecidableEq

/-- A call of `revoke_account`; `before` counts the guards there were when it began, `collected` the
sessions it has found, which is what it returns. -/
structure Revoke where
  account : String
  before : Nat
  phase : Phase
  collected : Nat := 0
  deriving DecidableEq

structure State where
  manager : ProxyManager := {}
  guards : List Guard := []
  revokes : List Revoke := []

inductive Action where
  | register (account : Option String)
  | drop (c : Nat)
  | revokeAccount (account : String)
  | revoke (r : Nat)
  deriving DecidableEq

/-- An anonymous connection has a receiver and no entry. -/
def register (s : State) (account : Option String) : State :=
  match account with
  | none => {s with guards := s.guards ++ [{account := none, session := none}]}
  | some a =>
    let (manager, id) := s.manager.register a s.guards.length
    {s with manager := manager, guards := s.guards ++ [{account := some a, session := some id}]}

/-- `Drop` of a guard. -/
def drop (s : State) (c : Nat) (g : Guard) : State :=
  let s := {s with guards := s.guards.set c {g with dropped := true}}
  match g.session with
  | some id => {s with manager := s.manager.remove id}
  | none => s

def setPhase (s : State) (r : Nat) (rev : Revoke) (phase : Phase) : State :=
  {s with revokes := s.revokes.set r {rev with phase := phase}}

variable (D : Sharding Nat)

/-- One step of `revoke_account`: a shard, a removal, or a signal. -/
def revokeStep (s : State) (r : Nat) (rev : Revoke) : Option State :=
  match rev.phase with
  | .collecting k ids =>
    if k < D.shards then some (setPhase s r rev (.collecting (k + 1) (ids ++ s.manager.collect D rev.account k)))
    else some (setPhase s r {rev with collected := ids.length} (.removing ids))
  | .removing (id :: ids) =>
    match s.manager.sessions.lookup id with
    | some entry =>
      some (setPhase
        {s with
          manager := s.manager.remove id
          guards := s.guards.modify entry.conn fun g => {g with revokedBy := some r}}
        r rev (.sending entry.conn ids))
    | none => some (setPhase s r rev (.removing ids))
  | .removing [] => some (setPhase s r rev .done)
  | .sending c ids =>
    some (setPhase {s with guards := s.guards.modify c fun g => {g with signals := g.signals + 1}} r rev (.removing ids))
  | .done => none

def step (a : Action) (s : State) : Option State :=
  match a with
  | .register account => some (register s account)
  | .drop c =>
    match s.guards[c]? with
    | some g => if g.dropped then none else some (drop s c g)
    | none => none
  | .revokeAccount account => some {s with revokes := s.revokes ++ [⟨account, s.guards.length, .collecting 0 [], 0⟩]}
  | .revoke r =>
    match s.revokes[r]? with
    | some rev => revokeStep D s r rev
    | none => none

def system : System State Action where
  init := {}
  step := step D

/-! ### Entries and guards -/

/-- The guard is there and nobody has removed its entry. -/
def Guard.Held (g : Guard) : Prop := g.dropped = false ∧ g.revokedBy = none

instance (g : Guard) : Decidable g.Held := inferInstanceAs (Decidable (_ ∧ _))

/-- The guards `active_count` is about. -/
def Counted (a : String) (g : Guard) : Prop := g.account = some a ∧ g.Held

instance (a : String) (g : Guard) : Decidable (Counted a g) := inferInstanceAs (Decidable (_ ∧ _))

/-- Every entry is that of a held guard, and every held guard with a session has its entry. -/
structure Tied (m : ProxyManager) (guards : List Guard) : Prop where
  ids : Heap.Guards Guard.session id guards m.nextId
  account : ∀ g ∈ guards, g.session.isSome = g.account.isSome
  entry : ∀ (id : Nat) (e : ProxySessionEntry), m.sessions.lookup id = some e ↔
    ∃ g, guards[e.conn]? = some g ∧ g.session = some id ∧ g.account = some e.accountId ∧ g.Held
  count : ∀ a, m.activeCount a = guards.countP fun g => Counted a g

theorem activeCount_eq_sum (m : ProxyManager) (a : String) :
    m.activeCount a = Table.sum (fun _ e => if e.accountId = a then 1 else 0) m.sessions := by
  rw [ProxyManager.activeCount, Table.sum, ← List.countP_eq_length_filter]
  induction m.sessions.entries with
  | nil => rfl
  | cons e rest ih =>
    rw [List.countP_cons, ih, List.map_cons, List.sum_cons, Nat.add_comm]
    simp

theorem activeCount_register {m : ProxyManager} (h : m.sessions.lookup m.nextId = none) (a : String) (c : Nat)
    (b : String) : (m.register a c).1.activeCount b = m.activeCount b + if a = b then 1 else 0 := by
  have hsum := Table.sum_insert (fun _ (e : ProxySessionEntry) => if e.accountId = b then 1 else 0) m.sessions m.nextId
    ⟨a, c⟩
  rw [h] at hsum
  rw [activeCount_eq_sum, activeCount_eq_sum]
  exact hsum

theorem activeCount_remove (m : ProxyManager) (id : Nat) (b : String) :
    (m.remove id).activeCount b + ((m.sessions.lookup id).map fun e => if e.accountId = b then 1 else 0).getD 0 =
      m.activeCount b := by
  rw [activeCount_eq_sum, activeCount_eq_sum]
  exact Table.sum_kerase (fun _ (e : ProxySessionEntry) => if e.accountId = b then 1 else 0) id m.sessions.entries

theorem Tied.lookup_next {m : ProxyManager} {guards : List Guard} (h : Tied m guards) :
    m.sessions.lookup m.nextId = none := by
  cases hl : m.sessions.lookup m.nextId with
  | none => rfl
  | some e =>
    obtain ⟨g, hg, hid, -⟩ := (h.entry _ _).mp hl
    exact absurd (h.ids.bound _ _ _ hg hid) (Nat.lt_irrefl _)

section
variable {m m' : ProxyManager} {guards : List Guard} {c : Nat} {g g' : Guard}

/-- The entry of a session tells its guard. -/
theorem Tied.lookup (h : Tied m guards) (hc : guards[c]? = some g) {id : Nat} (hid : g.session = some id) :
    m.sessions.lookup id = if g.Held then g.account.map fun a => ⟨a, c⟩ else none := by
  cases hl : m.sessions.lookup id with
  | some e =>
    obtain ⟨x, hx, hxid, haccount, hheld⟩ := (h.entry id e).mp hl
    obtain rfl : e.conn = c := h.ids.distinct _ _ x g id hx hc hxid hid
    obtain rfl : x = g := Option.some.inj (hx.symm.trans hc)
    rw [if_pos hheld, haccount]
    rfl
  | none =>
    split
    · rename_i hheld
      cases haccount : g.account with
      | none => rfl
      | some a =>
        have hentry := (h.entry id ⟨a, c⟩).mpr ⟨g, hc, hid, haccount, hheld⟩
        rw [hl] at hentry
        cases hentry
    · rfl

/-- What a guard may become, and what has to become of its entry. -/
theorem Tied.set (h : Tied m guards) (hc : guards[c]? = some g) (hsession : g'.session = g.session)
    (haccount : g'.account = g.account) (hheld : g'.Held → g.Held) (hnext : m'.nextId = m.nextId)
    (hlookup : ∀ id, m'.sessions.lookup id = if g.session = some id ∧ ¬ g'.Held then none else m.sessions.lookup id)
    (hcount : ∀ a, m'.activeCount a + (if Counted a g then 1 else 0) = m.activeCount a + if Counted a g' then 1 else 0) :
    Tied m' (guards.set c g') where
  ids := by
    refine h.ids.set hc (Nat.le_of_eq hnext.symm) ?_
    intro k hk
    exact .inl (hsession ▸ hk)
  account := by
    apply Heap.forall_set h.account
    rw [hsession, haccount]
    exact h.account g (List.mem_of_getElem? hc)
  entry := by
    intro id e
    rw [hlookup, Heap.get_set hc]
    constructor
    · intro hl
      split at hl
      · cases hl
      · rename_i hkept
        obtain ⟨x, hx, hxid, hxaccount, hxheld⟩ := (h.entry id e).mp hl
        split
        · rename_i hec
          obtain rfl : x = g := Option.some.inj (hx.symm.trans (hec ▸ hc))
          refine ⟨g', rfl, hsession.trans hxid, haccount.trans hxaccount, ?_⟩
          by_contra hgone
          exact hkept ⟨hxid, hgone⟩
        · exact ⟨x, hx, hxid, hxaccount, hxheld⟩
    · intro hex
      obtain ⟨x, hx, hxid, hxaccount, hxheld⟩ := hex
      split at hx
      · rename_i hec
        cases hx
        rw [if_neg fun hgone => hgone.2 hxheld]
        refine (h.entry id e).mpr ⟨g, hec ▸ hc, hsession ▸ hxid, haccount ▸ hxaccount, hheld hxheld⟩
      · rename_i hec
        rw [if_neg fun hgone => hec (h.ids.distinct _ _ x g id hx hc hxid hgone.1)]
        exact (h.entry id e).mpr ⟨x, hx, hxid, hxaccount, hxheld⟩
  count := by
    intro a
    have hset := Heap.countP_set hc g' fun g => Counted a g
    have := h.count a
    have := hcount a
    simp only [decide_eq_true_eq] at hset
    omega

/-- The entry of a guard is removed. -/
theorem Tied.release (h : Tied m guards) (hc : guards[c]? = some g) (hsession : g'.session = g.session)
    (haccount : g'.account = g.account) (hgone : ¬ g'.Held) {id : Nat} (hid : g.session = some id) :
    Tied (m.remove id) (guards.set c g') := by
  refine h.set hc hsession haccount (fun hheld => absurd hheld hgone) rfl ?_ ?_
  · intro id'
    rw [ProxyManager.remove, Table.lookup_erase, hid]
    simp [hgone, eq_comm]
  · intro a
    have hremove := activeCount_remove m id a
    rw [h.lookup hc hid] at hremove
    have hnot : ¬ Counted a g' := fun hcounted => hgone hcounted.2
    rw [if_neg hnot, Nat.add_zero, ← hremove]
    congr 1
    by_cases hheld : g.Held
    · rw [if_pos hheld]
      cases ha : g.account with
      | none => simp [Counted, ha]
      | some b => simp [Counted, ha, hheld]
    · simp [Counted, hheld]

/-- A guard changes, and its entry, if it has one, stays. -/
theorem Tied.keep (h : Tied m guards) (hc : guards[c]? = some g) (hsession : g'.session = g.session)
    (haccount : g'.account = g.account) (hheld : g.session = none ∨ (g'.Held ↔ g.Held)) (hle : g'.Held → g.Held) :
    Tied m (guards.set c g') := by
  refine h.set hc hsession haccount hle rfl ?_ ?_
  · intro id
    split
    · rename_i hgone
      rcases hheld with hnone | hiff
      · rw [hnone] at hgone
        cases hgone.1
      · rw [h.lookup hc hgone.1, if_neg fun hg => hgone.2 (hiff.mpr hg)]
    · rfl
  · intro a
    congr 1
    rcases hheld with hnone | hiff
    · have hanonymous := h.account g (List.mem_of_getElem? hc)
      rw [hnone, Option.isSome_none, eq_comm, Option.isSome_eq_false_iff, Option.isNone_iff_eq_none] at hanonymous
      simp [Counted, haccount, hanonymous]
    · refine if_congr ?_ rfl rfl
      rw [Counted, Counted, haccount, hiff]

end

theorem Tied.push_anonymous {m : ProxyManager} {guards : List Guard} (h : Tied m guards) :
    Tied m (guards ++ [{account := none, session := none}]) where
  ids := h.ids.push rfl
  account := by
    apply Heap.forall_push h.account
    rfl
  entry := by
    intro id e
    rw [h.entry, Heap.get_push]
    split
    · rename_i hlast
      have hnone : guards[e.conn]? = none := List.getElem?_eq_none (Nat.le_of_eq hlast.symm)
      simp [hnone]
    · rfl
  count := by
    intro a
    rw [List.countP_append, h.count]
    simp [Counted]

theorem Tied.push {m : ProxyManager} {guards : List Guard} (h : Tied m guards) (a : String) :
    Tied (m.register a guards.length).1 (guards ++ [{account := some a, session := some m.nextId}]) where
  ids := by
    have hlast : (guards ++ [({account := none, session := none} : Guard)])[guards.length]? =
        some {account := none, session := none} := by
      simp
    have hset : Heap.Guards Guard.session id
        ((guards ++ [({account := none, session := none} : Guard)]).set guards.length
          {account := some a, session := some m.nextId}) (m.nextId + 1) := by
      refine (h.ids.push rfl).set hlast (Nat.le_succ m.nextId) ?_
      intro k hk
      obtain rfl : m.nextId = k := Option.some.inj hk
      exact .inr ⟨rfl, Nat.lt_succ_self _⟩
    rw [List.set_append_right _ _ (Nat.le_refl _), Nat.sub_self] at hset
    exact hset
  account := by
    apply Heap.forall_push h.account
    rfl
  entry := by
    intro id e
    show (m.sessions.insert m.nextId ⟨a, guards.length⟩).lookup id = some e ↔ _
    rw [Table.lookup_insert, Heap.get_push]
    split
    · rename_i hid
      rw [hid]
      constructor
      · intro he
        cases he
        exact ⟨_, if_pos rfl, rfl, rfl, rfl, rfl⟩
      · intro hex
        obtain ⟨x, hx, hxid, hxaccount, -⟩ := hex
        split at hx
        · rename_i hlast
          cases hx
          obtain rfl : a = e.accountId := Option.some.inj hxaccount
          rw [← hlast]
        · exact absurd (h.ids.bound _ _ _ hx hxid) (Nat.lt_irrefl _)
    · rename_i hid
      rw [h.entry]
      constructor
      · intro hex
        obtain ⟨x, hx, hrest⟩ := hex
        refine ⟨x, ?_, hrest⟩
        rw [if_neg, hx]
        intro hlast
        rw [hlast] at hx
        simp at hx
      · intro hex
        obtain ⟨x, hx, hxid, hrest⟩ := hex
        split at hx
        · cases hx
          exact absurd (Option.some.inj hxid).symm hid
        · exact ⟨x, hx, hxid, hrest⟩
  count := by
    intro b
    rw [activeCount_register h.lookup_next, h.count, List.countP_append]
    simp [Counted, Guard.Held]

/-! ### Revocations -/

/-- The sessions a revocation has still to remove. -/
def Phase.ids : Phase → List Nat
  | collecting _ ids => ids
  | removing ids => ids
  | sending _ ids => ids
  | done => []

/-- A session the revocation has to remove is on its list or in a shard to come. -/
def Phase.Covers (D : Sharding Nat) (id : Nat) : Phase → Prop
  | collecting k ids => id ∈ ids ∨ k ≤ (D.shard id).val
  | removing ids => id ∈ ids
  | sending _ ids => id ∈ ids
  | done => False

def Phase.sendingTo : Phase → Option Nat
  | sending c _ => some c
  | _ => none

/-- A guard got one signal if a revocation has removed its entry and is not about to send it. -/
def Sent (revokes : List Revoke) (c : Nat) (g : Guard) : Prop :=
  match g.revokedBy with
  | none => g.signals = 0
  | some r => ∃ rev, revokes[r]? = some rev ∧ g.account = some rev.account ∧
      g.signals = if rev.phase.sendingTo = some c then 0 else 1

structure Tracked (D : Sharding Nat) (nextId : Nat) (guards : List Guard) (revokes : List Revoke) : Prop where
  before : ∀ rev ∈ revokes, rev.before ≤ guards.length
  collected : ∀ rev ∈ revokes, ∀ id ∈ rev.phase.ids, id < nextId ∧
    ∀ g ∈ guards, g.session = some id → g.account = some rev.account
  covered : ∀ rev ∈ revokes, ∀ (c : Nat) (g : Guard) (id : Nat), guards[c]? = some g → c < rev.before →
    g.account = some rev.account → g.session = some id → g.Held → rev.phase.Covers D id
  sent : ∀ (c : Nat) (g : Guard), guards[c]? = some g → Sent revokes c g
  sending : ∀ (r : Nat) (rev : Revoke) (c : Nat), revokes[r]? = some rev → rev.phase.sendingTo = some c →
    ∃ g, guards[c]? = some g ∧ g.revokedBy = some r

section
variable {D : Sharding Nat} {nextId : Nat} {guards : List Guard} {revokes : List Revoke} {c r : Nat} {g g' : Guard}
  {rev rev' : Revoke}

theorem Sent.set (h : Sent revokes c g) (hr : revokes[r]? = some rev) (haccount : rev'.account = rev.account)
    (hsending : rev'.phase.sendingTo = some c ↔ rev.phase.sendingTo = some c) : Sent (revokes.set r rev') c g := by
  unfold Sent at h ⊢
  cases hby : g.revokedBy with
  | none => simpa [hby] using h
  | some q =>
    rw [hby] at h
    obtain ⟨x, hx, hxaccount, hsignals⟩ := h
    simp only [Heap.get_set hr]
    by_cases hq : q = r
    · obtain rfl : x = rev := Option.some.inj (hx.symm.trans (hq ▸ hr))
      refine ⟨rev', if_pos hq, haccount ▸ hxaccount, ?_⟩
      rw [hsignals]
      exact if_congr hsending.symm rfl rfl
    · exact ⟨x, by rw [if_neg hq, hx], hxaccount, hsignals⟩

theorem Sent.push (h : Sent revokes c g) (x : Revoke) : Sent (revokes ++ [x]) c g := by
  unfold Sent at h ⊢
  cases hby : g.revokedBy with
  | none => simpa [hby] using h
  | some q =>
    rw [hby] at h
    obtain ⟨y, hy, hrest⟩ := h
    exact ⟨y, Heap.get_push_of_some hy, hrest⟩

/-- A new guard is behind every revocation that has begun, and its id on no list. -/
theorem Tracked.push_guard (h : Tracked D nextId guards revokes) {x : Guard} {nextId' : Nat} (hnext : nextId ≤ nextId')
    (hsession : ∀ id, x.session = some id → nextId ≤ id) (hby : x.revokedBy = none) (hsignals : x.signals = 0) :
    Tracked D nextId' (guards ++ [x]) revokes where
  before := by
    intro rev hrev
    rw [List.length_append]
    exact Nat.le_add_right_of_le (h.before rev hrev)
  collected := by
    intro rev hrev id hid
    obtain ⟨hlt, hall⟩ := h.collected rev hrev id hid
    refine ⟨Nat.lt_of_lt_of_le hlt hnext, ?_⟩
    apply Heap.forall_push hall
    intro hxid
    have := hsession id hxid
    omega
  covered := by
    intro rev hrev c y id hc hlt
    have hlen := h.before rev hrev
    rw [Heap.get_push, if_neg (by omega)] at hc
    exact h.covered rev hrev c y id hc hlt
  sent := by
    intro c y hc
    rw [Heap.get_push] at hc
    split at hc
    · cases hc
      rw [Sent, hby]
      exact hsignals
    · exact h.sent c y hc
  sending := by
    intro r rev c hr hto
    obtain ⟨y, hy, hyby⟩ := h.sending r rev c hr hto
    exact ⟨y, Heap.get_push_of_some hy, hyby⟩

theorem Tracked.push_revoke (h : Tracked D nextId guards revokes) (account : String) :
    Tracked D nextId guards (revokes ++ [⟨account, guards.length, .collecting 0 [], 0⟩]) where
  before := by
    apply Heap.forall_push h.before
    exact Nat.le_refl _
  collected := by
    apply Heap.forall_push h.collected
    intro id hid
    cases hid
  covered := by
    apply Heap.forall_push h.covered
    intro c g id _ _ _ _ _
    exact .inr (Nat.zero_le _)
  sent := by
    intro c g hc
    exact (h.sent c g hc).push _
  sending := by
    intro r rev c hr hto
    rw [Heap.get_push] at hr
    split at hr
    · cases hr
      cases hto
    · exact h.sending r rev c hr hto

/-- The sessions on a list keep their account where a guard keeps both. -/
theorem Tracked.collected_set (h : Tracked D nextId guards revokes) (hc : guards[c]? = some g)
    (hsession : g'.session = g.session) (haccount : g'.account = g.account) (hrev : rev ∈ revokes) {id : Nat}
    (hid : id ∈ rev.phase.ids) :
    id < nextId ∧ ∀ y ∈ guards.set c g', y.session = some id → y.account = some rev.account := by
  obtain ⟨hlt, hall⟩ := h.collected rev hrev id hid
  refine ⟨hlt, ?_⟩
  apply Heap.forall_set hall
  rw [hsession, haccount]
  exact hall g (List.mem_of_getElem? hc)

/-- A guard changes in what no revocation knows of it. -/
theorem Tracked.set_guard (h : Tracked D nextId guards revokes) (hc : guards[c]? = some g)
    (hsession : g'.session = g.session) (haccount : g'.account = g.account) (hheld : g'.Held → g.Held)
    (hby : g'.revokedBy = g.revokedBy) (hsignals : g'.signals = g.signals) :
    Tracked D nextId (guards.set c g') revokes where
  before := by
    intro rev hrev
    rw [List.length_set]
    exact h.before rev hrev
  collected := by
    intro rev hrev id hid
    exact h.collected_set hc hsession haccount hrev hid
  covered := by
    intro rev hrev d y id hd hlt hyaccount hyid hyheld
    rw [Heap.get_set hc] at hd
    split at hd
    · rename_i hdc
      cases hd
      exact h.covered rev hrev c g id hc (hdc ▸ hlt) (haccount ▸ hyaccount) (hsession ▸ hyid) (hheld hyheld)
    · exact h.covered rev hrev d y id hd hlt hyaccount hyid hyheld
  sent := by
    intro d y hd
    rw [Heap.get_set hc] at hd
    split at hd
    · rename_i hdc
      cases hd
      have hsent := h.sent c g hc
      rw [hdc]
      unfold Sent at hsent ⊢
      rw [hby, hsignals, haccount]
      exact hsent
    · exact h.sent d y hd
  sending := by
    intro r rev d hr hto
    obtain ⟨y, hy, hyby⟩ := h.sending r rev d hr hto
    rw [Heap.get_set hc]
    split
    · rename_i hdc
      obtain rfl : y = g := Option.some.inj (hy.symm.trans (hdc ▸ hc))
      exact ⟨g', rfl, hby.trans hyby⟩
    · exact ⟨y, hy, hyby⟩

/-- A revocation goes on and touches no guard. -/
theorem Tracked.set_revoke (h : Tracked D nextId guards revokes) (hr : revokes[r]? = some rev)
    (haccount : rev'.account = rev.account) (hbefore : rev'.before = rev.before)
    (hold : rev.phase.sendingTo = none) (hnew : rev'.phase.sendingTo = none)
    (hids : ∀ id ∈ rev'.phase.ids, id < nextId ∧ ∀ g ∈ guards, g.session = some id → g.account = some rev.account)
    (hcovers : ∀ (c : Nat) (g : Guard) (id : Nat), guards[c]? = some g → g.account = some rev.account →
      g.session = some id → g.Held → rev.phase.Covers D id → rev'.phase.Covers D id) :
    Tracked D nextId guards (revokes.set r rev') where
  before := by
    apply Heap.forall_set h.before
    rw [hbefore]
    exact h.before rev (List.mem_of_getElem? hr)
  collected := by
    apply Heap.forall_set h.collected
    rw [haccount]
    exact hids
  covered := by
    intro x hx c g id hc hlt hg hid hheld
    rcases List.mem_or_eq_of_mem_set hx with hx | rfl
    · exact h.covered x hx c g id hc hlt hg hid hheld
    · rw [haccount] at hg
      exact hcovers c g id hc hg hid hheld
        (h.covered rev (List.mem_of_getElem? hr) c g id hc (hbefore ▸ hlt) hg hid hheld)
  sent := by
    intro c g hc
    exact (h.sent c g hc).set hr haccount (by rw [hold, hnew])
  sending := by
    intro q x c hq hto
    rw [Heap.get_set hr] at hq
    split at hq
    · cases hq
      rw [hnew] at hto
      cases hto
    · exact h.sending q x c hq hto

/-- A revocation goes on with the guard `c`, whose entry it removes or has removed. -/
theorem Tracked.set_both (h : Tracked D nextId guards revokes)
    (hdistinct : ∀ (d : Nat) (x : Guard) (id : Nat), guards[d]? = some x → x.session = some id → g.session = some id →
      d = c)
    (hc : guards[c]? = some g) (hr : revokes[r]? = some rev)
    (hsession : g'.session = g.session) (hgaccount : g'.account = g.account)
    (hgby : g.revokedBy = none ∨ g.revokedBy = some r) (hby : g'.revokedBy = some r)
    (haccount : rev'.account = rev.account) (hbefore : rev'.before = rev.before)
    (hold : ∀ d, rev.phase.sendingTo = some d → d = c) (hnew : ∀ d, rev'.phase.sendingTo = some d → d = c)
    (hids : ∀ id ∈ rev'.phase.ids, id ∈ rev.phase.ids)
    (hcovers : ∀ id, rev.phase.Covers D id → g.session = some id ∨ rev'.phase.Covers D id)
    (hsent : Sent (revokes.set r rev') c g') : Tracked D nextId (guards.set c g') (revokes.set r rev') := by
  have hgone : ¬ g'.Held := by
    intro hheld
    rw [hheld.2] at hby
    cases hby
  have hold_mem := List.mem_of_getElem? hr
  refine ⟨?_, ?_, ?_, ?_, ?_⟩
  · rw [List.length_set]
    apply Heap.forall_set h.before
    rw [hbefore]
    exact h.before rev hold_mem
  · refine Heap.forall_set (fun x hx id hid => h.collected_set hc hsession hgaccount hx hid) ?_ r
    intro id hid
    rw [haccount]
    exact h.collected_set hc hsession hgaccount hold_mem (hids id hid)
  · intro x hx d y id hd hlt hy hyid hheld
    rw [Heap.get_set hc] at hd
    split at hd
    · cases hd
      exact absurd hheld hgone
    · rename_i hdc
      rcases List.mem_or_eq_of_mem_set hx with hx | rfl
      · exact h.covered x hx d y id hd hlt hy hyid hheld
      · rw [haccount] at hy
        rcases hcovers id (h.covered rev hold_mem d y id hd (hbefore ▸ hlt) hy hyid hheld) with hown | hcovered
        · exact absurd (hdistinct d y id hd hyid hown) hdc
        · exact hcovered
  · intro d y hd
    rw [Heap.get_set hc] at hd
    split at hd
    · rename_i hdc
      cases hd
      rw [hdc]
      exact hsent
    · rename_i hdc
      refine (h.sent d y hd).set hr haccount ⟨?_, ?_⟩
      · intro hto
        exact absurd (hnew d hto) hdc
      · intro hto
        exact absurd (hold d hto) hdc
  · intro q x d hq hto
    rw [Heap.get_set hr] at hq
    split at hq
    · rename_i hqr
      cases hq
      obtain rfl := hnew d hto
      refine ⟨g', ?_, hqr ▸ hby⟩
      rw [Heap.get_set hc, if_pos rfl]
    · rename_i hqr
      obtain ⟨y, hy, hyby⟩ := h.sending q x d hq hto
      refine ⟨y, ?_, hyby⟩
      rw [Heap.get_set hc, if_neg, hy]
      intro hdc
      obtain rfl : y = g := Option.some.inj (hy.symm.trans (hdc ▸ hc))
      rcases hgby with hnone | hsome
      · rw [hnone] at hyby
        cases hyby
      · exact hqr (Option.some.inj (hyby.symm.trans hsome))

end

/-! ### Steps -/

structure Inv (s : State) : Prop where
  tied : Tied s.manager s.guards
  tracked : Tracked D s.manager.nextId s.guards s.revokes

theorem inv_init : Inv D {} where
  tied := ⟨Heap.guards_nil, by simp, by simp, fun _ => rfl⟩
  tracked := ⟨by simp, by simp, by simp, by simp, by simp⟩

variable {D} {s : State}

theorem inv_register (h : Inv D s) (account : Option String) : Inv D (register s account) := by
  cases account with
  | none => exact ⟨h.tied.push_anonymous, h.tracked.push_guard (Nat.le_refl _) (by simp) rfl rfl⟩
  | some a =>
    refine ⟨h.tied.push a, h.tracked.push_guard (Nat.le_succ _) ?_ rfl rfl⟩
    intro id hid
    obtain rfl : s.manager.nextId = id := Option.some.inj hid
    exact Nat.le_refl _

theorem inv_drop (h : Inv D s) {c : Nat} {g : Guard} (hc : s.guards[c]? = some g) : Inv D (drop s c g) := by
  have hgone : ¬ ({g with dropped := true} : Guard).Held := fun hheld => by cases hheld.1
  have htracked : Tracked D s.manager.nextId (s.guards.set c {g with dropped := true}) s.revokes :=
    h.tracked.set_guard hc rfl rfl (fun hheld => absurd hheld hgone) rfl rfl
  unfold drop
  split
  · rename_i id hid
    have htied : Tied (s.manager.remove id) (s.guards.set c {g with dropped := true}) := by
      refine h.tied.release hc ?_ ?_ hgone hid <;> rfl
    exact ⟨htied, htracked⟩
  · rename_i hnone
    have htied : Tied s.manager (s.guards.set c {g with dropped := true}) :=
      h.tied.keep hc rfl rfl (.inl hnone) fun hheld => absurd hheld hgone
    exact ⟨htied, htracked⟩

theorem lookup_of_collect {m : ProxyManager} {account : String} {k id : Nat} (h : id ∈ m.collect D account k) :
    ∃ c, m.sessions.lookup id = some ⟨account, c⟩ := by
  obtain ⟨e, he, rfl⟩ := List.mem_map.mp h
  obtain ⟨hmem, hmatch⟩ := List.mem_filter.mp he
  simp only [Bool.and_eq_true, decide_eq_true_eq] at hmatch
  refine ⟨e.2.conn, ?_⟩
  rw [← hmatch.1]
  exact AList.mem_lookup_iff.mpr hmem

/-- An entry tells the account of every guard with its id. -/
theorem Inv.account_of_lookup (h : Inv D s) {id : Nat} {e : ProxySessionEntry}
    (hl : s.manager.sessions.lookup id = some e) :
    id < s.manager.nextId ∧ ∀ g ∈ s.guards, g.session = some id → g.account = some e.accountId := by
  obtain ⟨x, hx, hxid, hxaccount, -⟩ := (h.tied.entry id e).mp hl
  refine ⟨h.tied.ids.bound _ _ _ hx hxid, ?_⟩
  intro g hg hgid
  obtain ⟨d, hd⟩ := List.mem_iff_getElem?.mp hg
  obtain rfl : e.conn = d := h.tied.ids.distinct _ _ x g id hx hd hxid hgid
  obtain rfl : x = g := Option.some.inj (hx.symm.trans hd)
  exact hxaccount

theorem Inv.lookup_of_held (h : Inv D s) {c id : Nat} {g : Guard} {a : String} (hc : s.guards[c]? = some g)
    (haccount : g.account = some a) (hid : g.session = some id) (hheld : g.Held) :
    s.manager.sessions.lookup id = some ⟨a, c⟩ :=
  (h.tied.entry id ⟨a, c⟩).mpr ⟨g, hc, hid, haccount, hheld⟩

theorem inv_collect (h : Inv D s) {r k : Nat} {ids : List Nat} {rev : Revoke} (hr : s.revokes[r]? = some rev)
    (hphase : rev.phase = .collecting k ids) :
    Inv D (setPhase s r rev (.collecting (k + 1) (ids ++ s.manager.collect D rev.account k))) := by
  refine ⟨h.tied, h.tracked.set_revoke hr rfl rfl (by rw [hphase]; rfl) rfl ?_ ?_⟩
  · intro id hid
    rcases List.mem_append.mp hid with hid | hid
    · exact h.tracked.collected rev (List.mem_of_getElem? hr) id (by rw [hphase]; exact hid)
    · obtain ⟨c, hl⟩ := lookup_of_collect hid
      exact h.account_of_lookup hl
  · intro c g id hc haccount hid hheld hcovers
    rw [hphase] at hcovers
    rcases hcovers with hmem | hle
    · exact .inl (List.mem_append_left _ hmem)
    · by_cases hk : (D.shard id).val = k
      · have hmem := ProxyRevocation.mem_collect (h.lookup_of_held hc haccount hid hheld) (D := D)
        rw [hk] at hmem
        exact .inl (List.mem_append_right _ hmem)
      · exact .inr (by omega)

/-- Behind the last shard every session it has to remove is on the list. -/
theorem inv_collected (h : Inv D s) {r k : Nat} {ids : List Nat} {rev : Revoke} (hr : s.revokes[r]? = some rev)
    (hphase : rev.phase = .collecting k ids) (hlast : ¬ k < D.shards) :
    Inv D (setPhase s r {rev with collected := ids.length} (.removing ids)) := by
  refine ⟨h.tied, h.tracked.set_revoke hr rfl rfl (by rw [hphase]; rfl) rfl ?_ ?_⟩
  · intro id hid
    exact h.tracked.collected rev (List.mem_of_getElem? hr) id (by rw [hphase]; exact hid)
  · intro c g id _ _ _ _ hcovers
    rw [hphase] at hcovers
    rcases hcovers with hmem | hle
    · exact hmem
    · have := (D.shard id).isLt
      omega

theorem inv_skip (h : Inv D s) {r id : Nat} {ids : List Nat} {rev : Revoke} (hr : s.revokes[r]? = some rev)
    (hphase : rev.phase = .removing (id :: ids)) (hl : s.manager.sessions.lookup id = none) :
    Inv D (setPhase s r rev (.removing ids)) := by
  refine ⟨h.tied, h.tracked.set_revoke hr rfl rfl (by rw [hphase]; rfl) rfl ?_ ?_⟩
  · intro id' hid
    exact h.tracked.collected rev (List.mem_of_getElem? hr) id' (by rw [hphase]; exact List.mem_cons_of_mem _ hid)
  · intro c g id' hc haccount hid hheld hcovers
    rw [hphase] at hcovers
    rcases List.mem_cons.mp hcovers with rfl | hmem
    · rw [h.lookup_of_held hc haccount hid hheld] at hl
      cases hl
    · exact hmem

theorem inv_finish (h : Inv D s) {r : Nat} {rev : Revoke} (hr : s.revokes[r]? = some rev)
    (hphase : rev.phase = .removing []) : Inv D (setPhase s r rev .done) := by
  refine ⟨h.tied, h.tracked.set_revoke hr rfl rfl (by rw [hphase]; rfl) rfl (by simp [Phase.ids]) ?_⟩
  intro c g id _ _ _ _ hcovers
  rw [hphase] at hcovers
  cases hcovers

/-- The entry is there: its guard is the revocation's from now on. -/
theorem inv_remove (h : Inv D s) {r id : Nat} {ids : List Nat} {rev : Revoke} (hr : s.revokes[r]? = some rev)
    (hphase : rev.phase = .removing (id :: ids)) {e : ProxySessionEntry}
    (hl : s.manager.sessions.lookup id = some e) :
    Inv D (setPhase
      {s with
        manager := s.manager.remove id
        guards := s.guards.modify e.conn fun g => {g with revokedBy := some r}}
      r rev (.sending e.conn ids)) := by
  obtain ⟨g, hc, hid, haccount, hheld⟩ := (h.tied.entry id e).mp hl
  have hmodify := Heap.modify_eq_set hc fun g => {g with revokedBy := some r}
  have hgone : ¬ ({g with revokedBy := some r} : Guard).Held := fun hheld => by cases hheld.2
  have hmine : g.account = some rev.account := by
    obtain ⟨-, hall⟩ := h.tracked.collected rev (List.mem_of_getElem? hr) id (by rw [hphase]; exact List.mem_cons_self ..)
    exact hall g (List.mem_of_getElem? hc) hid
  have hunsent : g.signals = 0 := by
    have hsent := h.tracked.sent e.conn g hc
    rwa [Sent, hheld.2] at hsent
  constructor
  · show Tied (s.manager.remove id) (s.guards.modify e.conn _)
    rw [hmodify]
    refine h.tied.release hc ?_ ?_ hgone hid <;> rfl
  · show Tracked D s.manager.nextId (s.guards.modify e.conn _) (s.revokes.set r {rev with phase := .sending e.conn ids})
    rw [hmodify]
    refine h.tracked.set_both ?_ hc hr rfl rfl (.inl hheld.2) rfl rfl rfl ?_ ?_ ?_ ?_ ?_
    · intro d x id' hd hx hgid
      exact h.tied.ids.distinct d e.conn x g id' hd hc hx hgid
    · intro d hto
      rw [hphase] at hto
      cases hto
    · intro d hto
      exact (Option.some.inj hto).symm
    · intro id' hid'
      rw [hphase]
      exact List.mem_cons_of_mem _ hid'
    · intro id' hcovers
      rw [hphase] at hcovers
      rcases List.mem_cons.mp hcovers with rfl | hmem
      · exact .inl hid
      · exact .inr hmem
    · refine ⟨{rev with phase := .sending e.conn ids}, ?_, hmine, ?_⟩
      · rw [Heap.get_set hr, if_pos rfl]
      · rw [if_pos (show (Phase.sending e.conn ids).sendingTo = some e.conn from rfl)]
        exact hunsent

/-- The signal is sent to the guard whose entry the revocation has removed. -/
theorem inv_send (h : Inv D s) {r c : Nat} {ids : List Nat} {rev : Revoke} (hr : s.revokes[r]? = some rev)
    (hphase : rev.phase = .sending c ids) :
    Inv D (setPhase {s with guards := s.guards.modify c fun g => {g with signals := g.signals + 1}} r rev
      (.removing ids)) := by
  obtain ⟨g, hc, hby⟩ := h.tracked.sending r rev c hr (by rw [hphase]; rfl)
  have hmodify := Heap.modify_eq_set hc fun g => {g with signals := g.signals + 1}
  obtain ⟨hmine, hunsent⟩ : g.account = some rev.account ∧ g.signals = 0 := by
    have hsent := h.tracked.sent c g hc
    rw [Sent, hby] at hsent
    obtain ⟨x, hx, haccount, hsignals⟩ := hsent
    obtain rfl : x = rev := Option.some.inj (hx.symm.trans hr)
    rw [hphase, if_pos (show (Phase.sending c ids).sendingTo = some c from rfl)] at hsignals
    exact ⟨haccount, hsignals⟩
  constructor
  · show Tied s.manager (s.guards.modify c _)
    rw [hmodify]
    exact h.tied.keep hc rfl rfl (.inr Iff.rfl) id
  · show Tracked D s.manager.nextId (s.guards.modify c _) (s.revokes.set r {rev with phase := .removing ids})
    rw [hmodify]
    refine h.tracked.set_both ?_ hc hr rfl rfl (.inr hby) hby rfl rfl ?_ ?_ ?_ ?_ ?_
    · intro d x id hd hx hgid
      exact h.tied.ids.distinct d c x g id hd hc hx hgid
    · intro d hto
      rw [hphase] at hto
      exact (Option.some.inj hto).symm
    · intro d hto
      cases hto
    · intro id hid
      rw [hphase]
      exact hid
    · intro id hcovers
      rw [hphase] at hcovers
      exact .inr hcovers
    · show Sent _ c _
      rw [Sent]
      show match g.revokedBy with | none => _ | some r => _
      rw [hby]
      refine ⟨{rev with phase := .removing ids}, ?_, hmine, ?_⟩
      · rw [Heap.get_set hr, if_pos rfl]
      · show g.signals + 1 = _
        rw [hunsent]
        rfl

theorem revoke_inv (h : Inv D s) {r : Nat} {rev : Revoke} (hr : s.revokes[r]? = some rev) {u : State}
    (hstep : revokeStep D s r rev = some u) : Inv D u := by
  unfold revokeStep at hstep
  split at hstep
  · rename_i k ids hphase
    split at hstep
    · cases hstep
      exact inv_collect h hr hphase
    · rename_i hlast
      cases hstep
      exact inv_collected h hr hphase hlast
  · rename_i id ids hphase
    split at hstep
    · rename_i e hl
      cases hstep
      exact inv_remove h hr hphase hl
    · rename_i hl
      cases hstep
      exact inv_skip h hr hphase hl
  · rename_i hphase
    cases hstep
    exact inv_finish h hr hphase
  · rename_i c ids hphase
    cases hstep
    exact inv_send h hr hphase
  · cases hstep

theorem step_inv {a : Action} {u : State} (h : Inv D s) (hstep : step D a s = some u) : Inv D u := by
  cases a with
  | register account =>
    cases hstep
    exact inv_register h account
  | drop c =>
    simp only [step] at hstep
    split at hstep
    · rename_i g hc
      split at hstep
      · cases hstep
      · cases hstep
        exact inv_drop h hc
    · cases hstep
  | revokeAccount account =>
    cases hstep
    exact ⟨h.tied, h.tracked.push_revoke account⟩
  | revoke r =>
    simp only [step] at hstep
    split at hstep
    · rename_i rev hr
      exact revoke_inv h hr hstep
    · cases hstep

theorem inv_of_reachable (h : (system D).Reachable s) : Inv D s :=
  h.invariant (inv_init D) fun _ _ _ hinv _ hstep => step_inv hinv hstep

/-! ### What the bookkeeping says -/

theorem remove_absent {m : ProxyManager} {id : Nat} (h : m.sessions.lookup id = none) : m.remove id = m := by
  have herase : m.sessions.erase id = m.sessions := by
    apply AList.ext
    exact List.kerase_of_notMem_keys (AList.lookup_eq_none.mp h)
  rw [ProxyManager.remove, herase]

/-- A completed revocation has seen to every session it began with. -/
theorem Inv.done (h : Inv D s) {r : Nat} {rev : Revoke} (hr : s.revokes[r]? = some rev) (hdone : rev.phase = .done)
    {c : Nat} {g : Guard} (hc : s.guards[c]? = some g) (hlt : c < rev.before) (haccount : g.account = some rev.account) :
    g.revokedBy = some r ∧ g.signals = 1 ∨ (∃ q, q ≠ r ∧ g.revokedBy = some q) ∨
      g.revokedBy = none ∧ g.dropped = true := by
  cases hby : g.revokedBy with
  | some q =>
    by_cases hq : q = r
    · have hsent := h.tracked.sent c g hc
      rw [Sent, hby, hq] at hsent
      obtain ⟨x, hx, -, hsignals⟩ := hsent
      obtain rfl : x = rev := Option.some.inj (hx.symm.trans hr)
      rw [hdone] at hsignals
      exact .inl ⟨by rw [hq], hsignals⟩
    · exact .inr (.inl ⟨q, hq, rfl⟩)
  | none =>
    refine .inr (.inr ⟨rfl, ?_⟩)
    rw [← Bool.not_eq_false]
    intro hdropped
    -- a guard that is held has a session, which the revocation would still have to remove
    have hsession : g.session.isSome = true := by
      rw [h.tied.account g (List.mem_of_getElem? hc), haccount]
      rfl
    obtain ⟨id, hid⟩ := Option.isSome_iff_exists.mp hsession
    have hcovers := h.tracked.covered rev (List.mem_of_getElem? hr) c g id hc hlt haccount hid ⟨hdropped, hby⟩
    rw [hdone] at hcovers
    exact hcovers

theorem Inv.signals (h : Inv D s) {g : Guard} (hg : g ∈ s.guards) :
    g.signals ≤ 1 ∧ (0 < g.signals → ∃ r, g.revokedBy = some r) ∧
      ∀ r, g.revokedBy = some r → ∃ rev, s.revokes[r]? = some rev ∧ g.account = some rev.account := by
  obtain ⟨c, hc⟩ := List.mem_iff_getElem?.mp hg
  have hsent := h.tracked.sent c g hc
  unfold Sent at hsent
  cases hby : g.revokedBy with
  | none =>
    rw [hby] at hsent
    have hzero : g.signals = 0 := hsent
    exact ⟨by omega, by omega, by simp⟩
  | some q =>
    rw [hby] at hsent
    obtain ⟨rev, hrev, haccount, hsignals⟩ := hsent
    refine ⟨?_, fun _ => ⟨q, rfl⟩, ?_⟩
    · rw [hsignals]
      split <;> decide
    · intro r hr
      cases hr
      exact ⟨rev, hrev, haccount⟩

/-- The entry of a guard that is dropped or revoked is gone. -/
theorem Inv.lookup_none (h : Inv D s) {g : Guard} (hg : g ∈ s.guards) {id : Nat} (hid : g.session = some id)
    (hgone : ¬ g.Held) : s.manager.sessions.lookup id = none := by
  obtain ⟨c, hc⟩ := List.mem_iff_getElem?.mp hg
  rw [h.tied.lookup hc hid, if_neg hgone]

/-- **Entries, guards and signals agree along every run.** -/
theorem sessions_bookkept (D : Sharding Nat) (s : State) (h : (system D).Reachable s) :
    (∀ a, s.manager.activeCount a =
      s.guards.countP fun g => g.account = some a ∧ g.dropped = false ∧ g.revokedBy = none) ∧
    (∀ (r : Nat) (rev : Revoke), s.revokes[r]? = some rev → rev.phase = .done → ∀ (c : Nat) (g : Guard),
      s.guards[c]? = some g → c < rev.before → g.account = some rev.account →
      g.revokedBy = some r ∧ g.signals = 1 ∨ (∃ q, q ≠ r ∧ g.revokedBy = some q) ∨
        g.revokedBy = none ∧ g.dropped = true) ∧
    (∀ g ∈ s.guards, g.signals ≤ 1 ∧ (0 < g.signals → ∃ r, g.revokedBy = some r) ∧
      ∀ r, g.revokedBy = some r → ∃ rev, s.revokes[r]? = some rev ∧ g.account = some rev.account) ∧
    (∀ (c : Nat) (g : Guard) (u : State), s.guards[c]? = some g → g.revokedBy ≠ none → step D (.drop c) s = some u →
      u = {s with guards := s.guards.set c {g with dropped := true}}) ∧
    (∀ (r : Nat) (rev : Revoke) (id : Nat) (ids : List Nat) (u : State), s.revokes[r]? = some rev →
      rev.phase = .removing (id :: ids) → (∃ g ∈ s.guards, g.session = some id ∧ g.dropped = true) →
      step D (.revoke r) s = some u → u = setPhase s r rev (.removing ids)) := by
  have hinv := inv_of_reachable h
  refine ⟨hinv.tied.count, fun r rev hr hdone c g hc hlt => hinv.done hr hdone hc hlt, fun g => hinv.signals, ?_, ?_⟩
  · intro c g u hc hby hstep
    have hgone : ¬ g.Held := fun hheld => hby hheld.2
    simp only [step, hc] at hstep
    split at hstep
    · cases hstep
    · cases hstep
      unfold drop
      split
      · rename_i id hid
        simp only [remove_absent (hinv.lookup_none (List.mem_of_getElem? hc) hid hgone)]
      · rfl
  · intro r rev id ids u hr hphase hdropped hstep
    obtain ⟨g, hg, hid, hgdropped⟩ := hdropped
    have hgone : ¬ g.Held := by
      intro hheld
      rw [hheld.1] at hgdropped
      cases hgdropped
    simp only [step, hr, revokeStep, hphase, hinv.lookup_none hg hid hgone, Option.some.injEq] at hstep
    exact hstep.symm

/-- Sessions of two accounts and an anonymous one; the first account is revoked. -/
def revokeOneRun : List Action :=
  [.register (some "a"), .register (some "b"), .register none, .revokeAccount "a", .revoke 0, .revoke 0, .revoke 0,
    .revoke 0, .revoke 0]

theorem sessions_bookkept_revokeOneRun :
    ∃ s, (system ProxyRevocation.oneShard).Reachable s ∧ s.guards.map (·.signals) = [1, 0, 0] ∧
      s.revokes.map (·.phase) = [.done] ∧ s.manager.activeCount "b" =
        s.guards.countP fun g => g.account = some "b" ∧ g.dropped = false ∧ g.revokedBy = none := by
  obtain ⟨s, hs, hp⟩ := System.reach_of_run (S := system ProxyRevocation.oneShard) (C := fun _ _ => True) revokeOneRun
    (fun s => s.guards.map (·.signals) = [1, 0, 0] ∧ s.revokes.map (·.phase) = [.done]) (by decide +kernel)
  simp only [decide_eq_true_eq] at hp
  exact ⟨s, hs, hp.1, hp.2, (sessions_bookkept ProxyRevocation.oneShard s hs).1 "b"⟩

end ProxySessions

end Rps.Controller
