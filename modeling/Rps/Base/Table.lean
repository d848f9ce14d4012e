import Mathlib.Data.List.AList
import Mathlib.Data.List.Basic
import Mathlib.Tactic.Ring

/-! Concurrent maps and heaps of shared objects.

A concurrent hash map is an association list without duplicate keys; an object
behind a shared pointer is an entry of a list that only grows, and its index is
the pointer. The lemmas say what one lookup sees after one update.

A task that registers somewhere holds a guard, which gives its registration up when
the task ends. `Guards` says that guards are numbered as they are given out and that
no two tasks hold the same. -/
namespace Rps.Base

abbrev Table (K V : Type) := AList (fun _ : K => V)

/-- How keys fall into the shards of a concurrent map. An iteration visits the
shards in order, and only the shard it is at is locked. -/
structure Sharding (K : Type) where
  shards : Nat
  shard : K → Fin shards

namespace Table
variable {K V : Type} [DecidableEq K]

theorem lookup_insert (t : Table K V) (k k' : K) (v : V) :
    (t.insert k v).lookup k' = if k' = k then some v else t.lookup k' := by
  by_cases h : k' = k
  · subst h
    simp
  · simp [h, AList.lookup_insert_ne h]

theorem lookup_erase (t : Table K V) (k k' : K) :
    (t.erase k).lookup k' = if k' = k then none else t.lookup k' := by
  by_cases h : k' = k
  · subst h
    simp
  · simp [h, AList.lookup_erase_ne h]

/-- The sum of a quantity over the entries. -/
def sum (f : K → V → Nat) (t : Table K V) : Nat := (t.entries.map fun e => f e.1 e.2).sum

theorem sum_kerase (f : K → V → Nat) (k : K) (l : List (Sigma fun _ : K => V)) :
    ((l.kerase k).map fun e => f e.1 e.2).sum + ((l.dlookup k).map (f k)).getD 0 =
      (l.map fun e => f e.1 e.2).sum := by
  induction l with
  | nil => rfl
  | cons e rest ih =>
    obtain ⟨k', v⟩ := e
    by_cases h : k = k'
    · subst h
      simp
      omega
    · have hne : k ≠ (⟨k', v⟩ : Sigma fun _ : K => V).1 := h
      rw [List.kerase_cons_ne hne, List.dlookup_cons_ne rest (⟨k', v⟩ : Sigma fun _ : K => V) h]
      simp only [List.map_cons, List.sum_cons]
      omega

/-- An insertion puts its entry in the place of the old one. -/
theorem sum_insert (f : K → V → Nat) (t : Table K V) (k : K) (v : V) :
    sum f (t.insert k v) + ((t.lookup k).map (f k)).getD 0 = sum f t + f k v := by
  have h := sum_kerase f k t.entries
  simp only [sum, AList.entries_insert, List.map_cons, List.sum_cons]
  rw [AList.lookup]
  omega

end Table

namespace Heap
variable {α : Type}

theorem get_push (l : List α) (a : α) (i : Nat) :
    (l ++ [a])[i]? = if i = l.length then some a else l[i]? := by
  by_cases h : i = l.length
  · subst h
    simp
  · rw [if_neg h]
    by_cases hlt : i < l.length
    · exact List.getElem?_append_left hlt
    · rw [List.getElem?_eq_none (by simp; omega), List.getElem?_eq_none (by omega)]

theorem get_push_of_some {l : List α} {a b : α} {i : Nat} (h : l[i]? = some b) :
    (l ++ [a])[i]? = some b := by
  rw [get_push, if_neg, h]
  rintro rfl
  simp at h

theorem get_set {l : List α} {i : Nat} {b : α} (h : l[i]? = some b) (a : α) (j : Nat) :
    (l.set i a)[j]? = if j = i then some a else l[j]? := by
  rw [List.getElem?_set]
  by_cases hj : i = j
  · subst hj
    simp [(List.getElem?_eq_some_iff.mp h).1]
  · rw [if_neg hj, if_neg (Ne.symm hj)]

theorem modify_eq_set {l : List α} {i : Nat} {a : α} (h : l[i]? = some a) (f : α → α) :
    l.modify i f = l.set i (f a) := by
  apply List.ext_getElem?
  intro j
  rw [List.getElem?_modify, get_set h]
  by_cases hj : j = i
  · rw [hj, h]
    simp
  · rw [if_neg hj]
    simp [Ne.symm hj]

/-- What holds of all entries and of the new one holds of all behind the change. -/
theorem forall_push {P : α → Prop} {l : List α} (h : ∀ x ∈ l, P x) {a : α} (ha : P a) : ∀ x ∈ l ++ [a], P x := by
  rw [List.forall_mem_append, List.forall_mem_singleton]
  exact ⟨h, ha⟩

theorem forall_set {P : α → Prop} {l : List α} (h : ∀ x ∈ l, P x) {a : α} (ha : P a) (i : Nat) :
    ∀ x ∈ l.set i a, P x := by
  intro x hx
  rcases List.mem_or_eq_of_mem_set hx with hold | hnew
  · exact h x hold
  · rw [hnew]
    exact ha

theorem mem_set_self {l : List α} {i : Nat} {b : α} (h : l[i]? = some b) (a : α) : a ∈ l.set i a :=
  List.mem_of_getElem? (by rw [get_set h, if_pos rfl])

/-- Replacing one entry keeps the others. -/
theorem mem_set_of_mem {l : List α} {i : Nat} {b x : α} (h : l[i]? = some b) (a : α) (hx : x ∈ l) :
    x = b ∨ x ∈ l.set i a := by
  obtain ⟨j, hj⟩ := List.mem_iff_getElem?.mp hx
  by_cases hji : j = i
  · subst hji
    exact .inl (Option.some.inj (hj.symm.trans h))
  · exact .inr (List.mem_of_getElem? (by rw [get_set h, if_neg hji, hj]))

/-- How replacing one entry changes a count. -/
theorem countP_set {l : List α} {i : Nat} {b : α} (h : l[i]? = some b) (a : α) (p : α → Bool) :
    (l.set i a).countP p + (if p b then 1 else 0) = l.countP p + (if p a then 1 else 0) := by
  obtain ⟨hi, rfl⟩ := List.getElem?_eq_some_iff.mp h
  have hpos : p l[i] = true → 0 < l.countP p := fun hp =>
    List.countP_pos_iff.mpr ⟨l[i], List.getElem_mem hi, hp⟩
  rw [List.countP_set hi]
  by_cases hp : p l[i] = true
  · have := hpos hp
    simp only [hp, if_true]
    omega
  · simp only [hp, Bool.false_eq_true, if_false]
    omega

/-- How replacing one entry changes a sum. -/
theorem sum_set {l : List α} {i : Nat} {b : α} (h : l[i]? = some b) (a : α) (f : α → Nat) :
    ((l.set i a).map f).sum + f b = (l.map f).sum + f a := by
  induction l generalizing i with
  | nil => simp at h
  | cons x rest ih =>
    cases i with
    | zero =>
      obtain rfl : x = b := by simpa using h
      simp
      omega
    | succ i =>
      have := ih (by simpa using h)
      simp only [List.set_cons_succ, List.map_cons, List.sum_cons]
      omega

/-- Taking one entry out takes its part out of a sum. -/
theorem sum_eraseIdx {l : List α} {i : Nat} {b : α} (h : l[i]? = some b) (f : α → Nat) :
    ((l.eraseIdx i).map f).sum + f b = (l.map f).sum := by
  induction l generalizing i with
  | nil => simp at h
  | cons a rest ih =>
    cases i with
    | zero =>
      obtain rfl : a = b := by simpa using h
      simp
      omega
    | succ i =>
      have := ih (by simpa using h)
      simp only [List.eraseIdx_cons_succ, List.map_cons, List.sum_cons]
      omega

/-! ### Guards -/

/-- `held` is the guard an entry holds, `serial` its number, below `next`. -/
structure Guards {K : Type} (held : α → Option K) (serial : K → Nat) (l : List α) (next : Nat) : Prop where
  bound : ∀ (i : Nat) (a : α) (k : K), l[i]? = some a → held a = some k → serial k < next
  distinct : ∀ (i j : Nat) (a b : α) (k : K), l[i]? = some a → l[j]? = some b → held a = some k → held b = some k →
    i = j

section
variable {K : Type} {held : α → Option K} {serial : K → Nat} {l : List α} {next : Nat}

theorem guards_nil : Guards held serial [] next := ⟨by simp, by simp⟩

/-- An entry keeps its guard, gives it up, or gets the next one. -/
theorem Guards.set (h : Guards held serial l next) {i : Nat} {a a' : α} (hi : l[i]? = some a) {next' : Nat}
    (hnext : next ≤ next')
    (hheld : ∀ k, held a' = some k → held a = some k ∨ serial k = next ∧ next < next') :
    Guards held serial (l.set i a') next' where
  bound := by
    intro j x k hj hx
    rw [get_set hi] at hj
    split at hj
    · cases hj
      rcases hheld k hx with hold | ⟨hk, hlt⟩
      · exact Nat.lt_of_lt_of_le (h.bound i a k hi hold) hnext
      · rw [hk]
        exact hlt
    · exact Nat.lt_of_lt_of_le (h.bound j x k hj hx) hnext
  distinct := by
    -- a new guard has a number that no other has
    have hother {j : Nat} {x : α} {k : K} (hj : l[j]? = some x) (hne : j ≠ i) (hx : held x = some k)
        (hk : held a' = some k) : False := by
      rcases hheld k hk with hold | ⟨hserial, -⟩
      · exact hne (h.distinct j i x a k hj hi hx hold)
      · exact Nat.lt_irrefl next (hserial ▸ h.bound j x k hj hx)
    intro j j' x x' k hj hj' hx hx'
    rw [get_set hi] at hj hj'
    split at hj <;> split at hj'
    · simp_all
    · rename_i hji hji'
      cases hj
      exact (hother hj' hji' hx' hx).elim
    · rename_i hji hji'
      cases hj'
      exact (hother hj hji hx hx').elim
    · exact h.distinct j j' x x' k hj hj' hx hx'

/-- The entries change, and each holds what it held; new ones hold nothing. -/
theorem Guards.of_get (h : Guards held serial l next) {l' : List α}
    (hget : ∀ (i : Nat) (a : α), l'[i]? = some a → held a = none ∨ ∃ b, l[i]? = some b ∧ held a = held b) :
    Guards held serial l' next := by
  have hback (i : Nat) (a : α) (k : K) (hi : l'[i]? = some a) (ha : held a = some k) :
      ∃ b, l[i]? = some b ∧ held b = some k := by
    rcases hget i a hi with hnone | ⟨b, hb, hab⟩
    · rw [hnone] at ha
      cases ha
    · exact ⟨b, hb, by rw [← hab, ha]⟩
  refine ⟨fun i a k hi ha => ?_, fun i j a b k hi hj ha hb => ?_⟩
  · obtain ⟨b, hb, hk⟩ := hback i a k hi ha
    exact h.bound i b k hb hk
  · obtain ⟨a', ha', hk⟩ := hback i a k hi ha
    obtain ⟨b', hb', hk'⟩ := hback j b k hj hb
    exact h.distinct i j a' b' k ha' hb' hk hk'

theorem Guards.push (h : Guards held serial l next) {a : α} (ha : held a = none) :
    Guards held serial (l ++ [a]) next := by
  refine h.of_get fun i x hx => ?_
  rw [get_push] at hx
  split at hx
  · cases hx
    exact .inl ha
  · exact .inr ⟨x, hx, rfl⟩

end

end Heap

end Rps.Base
