import Rps.Base.Table
import Mathlib.Data.List.Induction
import Mathlib.Order.Defs.LinearOrder

/-! Leases: entries that hold until they are revoked or their time is over.

Nobody waits for the time of a lease to be over. A look at a lease compares its end
with the clock, and a lease that is found to be over is dropped later, by a step of
its own. So the table holds leases that are over, and a drop may come when its key
has moved on.

`find_eq_some` says that neither shows, if keys are not granted twice and the looks
see a clock that does not go back: a look finds a lease exactly when it was granted,
was not revoked since and is not over. -/
namespace Rps.Base

/-- The table, and the keys whose lease was found to be over and is to be dropped. -/
structure Leases (K V : Type) where
  held : Table K V
  late : List K

namespace Leases
variable {K V T : Type}

inductive Event (K V T : Type) where
  | grant (key : K) (lease : V)
  | revoke (key : K)
  | look (key : K) (now : T)
  | drop (i : Nat)

def Event.granted : Event K V T → Option K
  | .grant key _ => some key
  | _ => none

def Event.clock : Event K V T → Option T
  | .look _ now => some now
  | _ => none

/-- The keys granted, in order. -/
def keys (past : List (Event K V T)) : List K := past.filterMap Event.granted

/-- The clock values the looks saw, in order. -/
def clocks (past : List (Event K V T)) : List T := past.filterMap Event.clock

/-- The lease was granted for the key, and not revoked since. -/
def Granted (past : List (Event K V T)) (key : K) (lease : V) : Prop :=
  ∃ before after, past = before ++ .grant key lease :: after ∧ Event.revoke key ∉ after

def empty : Leases K V := ⟨∅, []⟩

section
variable [DecidableEq K]

def grant (s : Leases K V) (key : K) (lease : V) : Leases K V := {s with held := s.held.insert key lease}

def revoke (s : Leases K V) (key : K) : Leases K V := {s with held := s.held.erase key}

/-- Remove the `i`-th of the keys to be dropped, whatever its lease is by now. -/
def drop (s : Leases K V) (i : Nat) : Leases K V :=
  match s.late[i]? with
  | none => s
  | some key => ⟨s.held.erase key, s.late.eraseIdx i⟩

variable [LinearOrder T] (ends : V → T)

/-- What a look finds. -/
def find (s : Leases K V) (key : K) (now : T) : Option V :=
  match s.held.lookup key with
  | none => none
  | some lease => if ends lease < now then none else some lease

/-- What a look leaves behind. -/
def look (s : Leases K V) (key : K) (now : T) : Leases K V :=
  match s.held.lookup key with
  | none => s
  | some lease => if ends lease < now then {s with late := s.late ++ [key]} else s

def step (s : Leases K V) : Event K V T → Leases K V
  | .grant key lease => s.grant key lease
  | .revoke key => s.revoke key
  | .look key now => s.look ends key now
  | .drop i => s.drop i

def run (past : List (Event K V T)) : Leases K V := past.foldl (step ends) empty

@[simp] theorem run_snoc (past : List (Event K V T)) (e : Event K V T) :
    run ends (past ++ [e]) = step ends (run ends past) e := by
  simp [run]

@[simp] theorem look_held (s : Leases K V) (key : K) (now : T) : (s.look ends key now).held = s.held := by
  unfold look
  split
  · rfl
  · split <;> rfl

/-- A look marks a key only if its lease is over. -/
theorem mem_late_look {s : Leases K V} {key k : K} {now : T} (h : k ∈ (s.look ends key now).late) :
    k ∈ s.late ∨ k = key ∧ ∃ lease, s.held.lookup key = some lease ∧ ends lease < now := by
  unfold look at h
  split at h
  · exact .inl h
  · rename_i lease hlookup
    split at h
    · rename_i hover
      rcases List.mem_append.mp h with hold | hnew
      · exact .inl hold
      · exact .inr ⟨List.mem_singleton.mp hnew, lease, hlookup, hover⟩
    · exact .inl h

theorem lookup_drop (s : Leases K V) (i : Nat) (k : K) :
    (s.drop i).held.lookup k = if s.late[i]? = some k then none else s.held.lookup k := by
  unfold drop
  cases hi : s.late[i]? with
  | none => simp
  | some key =>
    simp only [Table.lookup_erase, Option.some.injEq]
    by_cases hk : k = key
    · rw [if_pos hk, if_pos hk.symm]
    · rw [if_neg hk, if_neg (Ne.symm hk)]

theorem mem_late_drop {s : Leases K V} {i : Nat} {k : K} (h : k ∈ (s.drop i).late) : k ∈ s.late := by
  unfold drop at h
  split at h
  · exact h
  · exact List.mem_of_mem_eraseIdx h

end

/-! ### Histories -/

theorem keys_snoc (past : List (Event K V T)) (e : Event K V T) : keys (past ++ [e]) = keys past ++ e.granted.toList := by
  cases h : e.granted <;> simp [keys, h]

theorem clocks_snoc (past : List (Event K V T)) (e : Event K V T) :
    clocks (past ++ [e]) = clocks past ++ e.clock.toList := by
  cases h : e.clock <;> simp [clocks, h]

theorem granted_snoc {past : List (Event K V T)} {e : Event K V T} {key : K} {lease : V} :
    Granted (past ++ [e]) key lease ↔ e = .grant key lease ∨ Granted past key lease ∧ e ≠ .revoke key := by
  constructor
  · intro hboth
    obtain ⟨before, after, heq, hafter⟩ := hboth
    rcases List.eq_nil_or_concat' after with rfl | ⟨rest, last, rfl⟩
    · exact .inl (List.append_inj_right' heq rfl |> List.singleton_inj.mp)
    · rw [← List.cons_append, ← List.append_assoc] at heq
      obtain ⟨rfl, hlast⟩ := List.append_inj' heq rfl
      obtain rfl := List.singleton_inj.mp hlast
      refine .inr ⟨⟨before, rest, rfl, fun h => hafter (List.mem_append_left _ h)⟩, ?_⟩
      rintro rfl
      exact hafter (by simp)
  · intro hboth
    obtain rfl | ⟨⟨before, after, rfl, hafter⟩, hne⟩ := hboth
    · exact ⟨past, [], rfl, by simp⟩
    · refine ⟨before, after ++ [e], by simp, ?_⟩
      intro h
      rcases List.mem_append.mp h with h | h
      · exact hafter h
      · exact hne (List.mem_singleton.mp h).symm

theorem Granted.mem {past : List (Event K V T)} {key : K} {lease : V} (h : Granted past key lease) :
    Event.grant key lease ∈ past := by
  obtain ⟨before, after, rfl, -⟩ := h
  simp

theorem mem_keys {past : List (Event K V T)} {key : K} {lease : V} (h : Event.grant key lease ∈ past) :
    key ∈ keys past :=
  List.mem_filterMap.mpr ⟨_, h, rfl⟩

/-- A key that is granted once is granted one lease. -/
theorem grant_unique {past : List (Event K V T)} {key : K} {a b : V} (hkeys : (keys past).Nodup)
    (ha : Event.grant key a ∈ past) (hb : Event.grant key b ∈ past) : a = b := by
  induction past with
  | nil => simp at ha
  | cons e rest ih =>
    have hrest : (keys rest).Nodup := hkeys.sublist ((List.sublist_cons_self e rest).filterMap _)
    -- a grant at the head has a key that no later one has
    have hhead {l : V} (he : e = .grant key l) {l' : V} : Event.grant key l' ∉ rest := by
      intro hin
      subst he
      have hkeys : (key :: keys rest).Nodup := hkeys
      exact (List.nodup_cons.mp hkeys).1 (mem_keys hin)
    rcases List.mem_cons.mp ha with ha | ha <;> rcases List.mem_cons.mp hb with hb | hb
    · rw [← ha] at hb
      cases hb
      rfl
    · exact (hhead ha.symm hb).elim
    · exact (hhead hb.symm ha).elim
    · exact ih hrest ha hb

/-! ### The invariant -/

section
variable [LinearOrder T] (ends : V → T)

/-- Some look saw the clock past the end of the lease. -/
def Over (past : List (Event K V T)) (lease : V) : Prop := ∃ t ∈ clocks past, ends lease < t

theorem Over.snoc {past : List (Event K V T)} {lease : V} (h : Over ends past lease) (e : Event K V T) :
    Over ends (past ++ [e]) lease := by
  obtain ⟨t, ht, hlt⟩ := h
  exact ⟨t, by rw [clocks_snoc]; exact List.mem_append_left _ ht, hlt⟩

theorem Over.lt {past : List (Event K V T)} {lease : V} {now : T} (h : Over ends past lease)
    (hclocks : (clocks past ++ [now]).Pairwise (· ≤ ·)) : ends lease < now := by
  obtain ⟨t, ht, hlt⟩ := h
  exact lt_of_lt_of_le hlt ((List.pairwise_append.mp hclocks).2.2 t ht now (by simp))

variable [DecidableEq K]

/-- What the table holds is granted; what is granted and not held is over, and so is
what is to be dropped. -/
structure Inv (past : List (Event K V T)) (s : Leases K V) : Prop where
  held : ∀ k v, s.held.lookup k = some v → Granted past k v
  kept : ∀ k v, Granted past k v → s.held.lookup k = some v ∨ Over ends past v
  late : ∀ k ∈ s.late, ∃ v, Event.grant k v ∈ past ∧ Over ends past v

section
variable {past : List (Event K V T)} {s : Leases K V}

/-- What is to be dropped stays over. -/
theorem Inv.late_snoc (h : Inv ends past s) (e : Event K V T) {k : K} (hk : k ∈ s.late) :
    ∃ v, Event.grant k v ∈ past ++ [e] ∧ Over ends (past ++ [e]) v := by
  obtain ⟨v, hgrant, hover⟩ := h.late k hk
  exact ⟨v, List.mem_append_left _ hgrant, hover.snoc ends e⟩

theorem Inv.kept_snoc (h : Inv ends past s) (e : Event K V T) {k : K} {v : V} (hk : Granted past k v) :
    s.held.lookup k = some v ∨ Over ends (past ++ [e]) v :=
  (h.kept k v hk).imp_right (·.snoc ends e)

theorem Inv.grant (h : Inv ends past s) {key : K} {lease : V} (hfresh : key ∉ keys past) :
    Inv ends (past ++ [.grant key lease]) (s.grant key lease) := by
  refine ⟨fun k v hk => ?_, fun k v hk => ?_, fun k hk => h.late_snoc ends _ hk⟩
  · simp only [Leases.grant, Table.lookup_insert] at hk
    split at hk
    · rename_i hkey
      cases hk
      exact granted_snoc.mpr (.inl (by rw [hkey]))
    · exact granted_snoc.mpr (.inr ⟨h.held k v hk, by simp⟩)
  · simp only [Leases.grant, Table.lookup_insert]
    rcases granted_snoc.mp hk with hnew | ⟨hold, -⟩
    · cases hnew
      exact .inl (if_pos rfl)
    · have hne : k ≠ key := by
        rintro rfl
        exact hfresh (mem_keys hold.mem)
      rw [if_neg hne]
      exact h.kept_snoc ends _ hold

theorem Inv.revoke (h : Inv ends past s) (key : K) : Inv ends (past ++ [.revoke key]) (s.revoke key) := by
  refine ⟨fun k v hk => ?_, fun k v hk => ?_, fun k hk => h.late_snoc ends _ hk⟩
  · simp only [Leases.revoke, Table.lookup_erase] at hk
    split at hk
    · cases hk
    · rename_i hne
      refine granted_snoc.mpr (.inr ⟨h.held k v hk, ?_⟩)
      intro heq
      cases heq
      exact hne rfl
  · rcases granted_snoc.mp hk with hnew | ⟨hold, hne⟩
    · cases hnew
    · simp only [Leases.revoke, Table.lookup_erase]
      rw [if_neg (fun heq => hne (by rw [heq]))]
      exact h.kept_snoc ends _ hold

theorem Inv.look (h : Inv ends past s) (key : K) (now : T) :
    Inv ends (past ++ [.look key now]) (s.look ends key now) := by
  refine ⟨fun k v hk => ?_, fun k v hk => ?_, fun k hk => ?_⟩
  · rw [look_held] at hk
    exact granted_snoc.mpr (.inr ⟨h.held k v hk, by simp⟩)
  · rw [look_held]
    rcases granted_snoc.mp hk with hnew | ⟨hold, -⟩
    · cases hnew
    · exact h.kept_snoc ends _ hold
  · rcases mem_late_look ends hk with hold | ⟨rfl, lease, hlookup, hover⟩
    · exact h.late_snoc ends _ hold
    · refine ⟨lease, List.mem_append_left _ (h.held k lease hlookup).mem, now, ?_, hover⟩
      simp [clocks_snoc, Event.clock]

theorem Inv.drop (h : Inv ends past s) (hkeys : (keys past).Nodup) (i : Nat) :
    Inv ends (past ++ [.drop i]) (s.drop i) := by
  refine ⟨fun k v hk => ?_, fun k v hk => ?_, fun k hk => h.late_snoc ends _ (mem_late_drop hk)⟩
  · rw [lookup_drop] at hk
    split at hk
    · cases hk
    · exact granted_snoc.mpr (.inr ⟨h.held k v hk, by simp⟩)
  · rw [lookup_drop]
    rcases granted_snoc.mp hk with hnew | ⟨hold, -⟩
    · cases hnew
    · split
      · -- the key was marked for the only lease it ever had
        rename_i hi
        obtain ⟨v', hgrant, hover⟩ := h.late k (List.mem_of_getElem? hi)
        obtain rfl := grant_unique hkeys hold.mem hgrant
        exact .inr (hover.snoc ends _)
      · exact h.kept_snoc ends _ hold

end

theorem inv_run {past : List (Event K V T)} (hkeys : (keys past).Nodup) : Inv ends past (run ends past) := by
  induction past using List.reverseRecOn with
  | nil => exact ⟨by simp [run, empty], by simp [Granted], by simp [run, empty]⟩
  | append_singleton past e ih =>
    rw [keys_snoc] at hkeys
    have hpast := List.Nodup.of_append_left hkeys
    rw [run_snoc]
    cases e with
    | grant key lease =>
      refine (ih hpast).grant ends fun hkey => ?_
      exact List.disjoint_of_nodup_append hkeys hkey (by simp [Event.granted])
    | revoke key => exact (ih hpast).revoke ends key
    | look key now => exact (ih hpast).look ends key now
    | drop i => exact (ih hpast).drop ends hpast i

variable {past : List (Event K V T)} {now : T}

/-- A look finds the leases that were granted, are not revoked and are not over. -/
theorem find_eq_some (hkeys : (keys past).Nodup) (hclocks : (clocks past ++ [now]).Pairwise (· ≤ ·)) {key : K}
    {lease : V} : (run ends past).find ends key now = some lease ↔ Granted past key lease ∧ now ≤ ends lease := by
  have hinv := inv_run ends hkeys
  unfold find
  constructor
  · intro h
    split at h
    · cases h
    · rename_i v hlookup
      split at h
      · cases h
      · rename_i hnot
        cases h
        exact ⟨hinv.held key lease hlookup, not_lt.mp hnot⟩
  · intro hboth
    obtain ⟨hgranted, hle⟩ := hboth
    rcases hinv.kept key lease hgranted with hlookup | hover
    · simp only [hlookup]
      exact if_neg (not_lt.mpr hle)
    · exact absurd (hover.lt ends hclocks) (not_lt.mpr hle)

/-- A drop removes a lease only if it is over. -/
theorem drop_over (hkeys : (keys past).Nodup) (hclocks : (clocks past ++ [now]).Pairwise (· ≤ ·)) {i : Nat} {key : K}
    {lease : V} (hi : (run ends past).late[i]? = some key) (hlookup : (run ends past).held.lookup key = some lease) :
    ends lease < now := by
  have hinv := inv_run ends hkeys
  obtain ⟨v, hgrant, hover⟩ := hinv.late key (List.mem_of_getElem? hi)
  obtain rfl := grant_unique hkeys (hinv.held key lease hlookup).mem hgrant
  exact hover.lt ends hclocks

end

end Leases

end Rps.Base
