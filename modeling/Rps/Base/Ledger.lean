import Mathlib.Algebra.Group.Prod
import Mathlib.Data.List.Perm.Basic
import Rps.Base.Table

/-! Ledgers: balances that only ever get added to.

A ledger says of each account what its balance is, if it has one. An amount is posted
to the accounts a predicate picks, which opens them where they are not open yet
(`post`), or it is charged to those of them that exist (`charge`). Either way the order
of two entries does not matter, and two entries for the same accounts are as good as
one over the sum. So entries may be gathered in a table and booked later, in the order
the table is walked through (`foldl_gather`). -/
namespace Rps.Base

section
variable {K A : Type} [AddCommMonoid A]

/-- The accounts of `p` get `a`, and are opened for it. -/
def post (p : K → Bool) (a : A) (f : K → Option A) : K → Option A :=
  fun k => if p k then some ((f k).getD 0 + a) else f k

/-- The accounts of `p` that are open get `a`. -/
def charge (p : K → Bool) (a : A) (f : K → Option A) : K → Option A :=
  fun k => if p k then (f k).map (· + a) else f k

theorem post_comm (p q : K → Bool) (a b : A) (f : K → Option A) :
    post p a (post q b f) = post q b (post p a f) := by
  funext k
  simp only [post]
  cases p k <;> cases q k
  · rfl
  · rfl
  · rfl
  · simp only [if_true, Option.getD_some]
    rw [add_right_comm]

theorem post_post (p : K → Bool) (a b : A) (f : K → Option A) :
    post p b (post p a f) = post p (a + b) f := by
  funext k
  simp only [post]
  cases p k
  · rfl
  · simp only [if_true, Option.getD_some]
    rw [add_assoc]

theorem charge_comm (p q : K → Bool) (a b : A) (f : K → Option A) :
    charge p a (charge q b f) = charge q b (charge p a f) := by
  funext k
  simp only [charge]
  cases p k <;> cases q k
  · rfl
  · rfl
  · rfl
  · cases f k with
    | none => rfl
    | some x =>
      simp only [if_true, Option.map_some]
      rw [add_right_comm]

theorem charge_charge (p : K → Bool) (a b : A) (f : K → Option A) :
    charge p b (charge p a f) = charge p (a + b) f := by
  funext k
  simp only [charge]
  cases p k
  · rfl
  · cases f k with
    | none => rfl
    | some x =>
      simp only [if_true, Option.map_some]
      rw [add_assoc]

end

namespace Table
variable {K A : Type} [DecidableEq K] [AddCommMonoid A]

/-- Insert a row, or add to the one that is there. -/
def upsert (t : Table K A) (k : K) (a : A) : Table K A := t.insert k ((t.lookup k).getD 0 + a)

/-- Add to a row, where there is one. -/
def increase (t : Table K A) (k : K) (a : A) : Table K A :=
  match t.lookup k with
  | some b => t.insert k (b + a)
  | none => t

theorem lookup_upsert (t : Table K A) (k : K) (a : A) :
    (fun k' => (t.upsert k a).lookup k') = post (fun k' => k' = k) a (fun k' => t.lookup k') := by
  funext k'
  rw [upsert, lookup_insert]
  by_cases h : k' = k
  · subst h
    simp [post]
  · simp [post, h]

theorem lookup_increase (t : Table K A) (k : K) (a : A) :
    (fun k' => (t.increase k a).lookup k') = charge (fun k' => k' = k) a (fun k' => t.lookup k') := by
  funext k'
  unfold increase
  by_cases h : k' = k
  · subst h
    cases hk : t.lookup k' with
    | none => simp [charge, hk]
    | some b => simp [charge, hk]
  · cases hk : t.lookup k with
    | none => simp [charge, h]
    | some b => simp [charge, h]

end Table

/-! ### Gathering entries -/

section
variable {R A V : Type} [DecidableEq R]

/-- The entries of a table, as they are walked through. -/
def Table.list (t : Table R A) : List (R × A) := t.entries.map fun e => (e.1, e.2)

/-- A table is one of its entries and the rest, in some order. -/
theorem Table.list_perm {t : Table R A} {r : R} {b : A} (h : t.lookup r = some b) :
    t.list.Perm ((r, b) :: ((t.entries.kerase r).map fun e => (e.1, e.2))) := by
  have hmem : r ∈ t.entries.keys := List.dlookup_isSome.mp (by rw [← AList.lookup, h]; rfl)
  obtain ⟨b', l₁, l₂, -, hl, hk⟩ := List.exists_of_kerase hmem
  obtain rfl : b' = b := by
    have hb' : t.lookup r = some b' :=
      AList.mem_lookup_iff.mpr (by rw [hl]; simp)
    exact Option.some.inj (hb'.symm.trans h)
  rw [Table.list, hk, hl]
  simp only [List.map_append, List.map_cons]
  exact List.perm_middle

/-- To book what was gathered with one entry more is to book that entry, too: `c`
is what stands for `r` after it. -/
theorem foldl_gather {act : V → R × A → V} (hcomm : ∀ v x y, act (act v x) y = act (act v y) x)
    (t : Table R A) (r : R) (a c : A) (hnew : t.lookup r = none → c = a)
    (hfuse : ∀ b, t.lookup r = some b → ∀ v, act (act v (r, b)) (r, a) = act v (r, c)) (v : V) :
    (Table.list (t.insert r c)).foldl act v = (t.list ++ [(r, a)]).foldl act v := by
  have hperm {l l' : List (R × A)} (h : l.Perm l') : ∀ v, l.foldl act v = l'.foldl act v :=
    h.foldl_eq' fun x _ y _ z => hcomm z x y
  have hlast : (t.list ++ [(r, a)]).foldl act v = t.list.foldl act (act v (r, a)) := by
    rw [hperm (List.perm_append_singleton (r, a) t.list)]
    rfl
  have hinsert : Table.list (t.insert r c) = (r, c) :: (t.entries.kerase r).map fun e => (e.1, e.2) := by
    simp [Table.list]
  rw [hinsert, hlast, List.foldl_cons]
  cases h : t.lookup r with
  | none =>
    have hnot : r ∉ t.entries.keys := by
      intro hmem
      have := List.dlookup_isSome.mpr hmem
      rw [← AList.lookup, h] at this
      cases this
    rw [hnew h, List.kerase_of_notMem_keys hnot]
    rfl
  | some b =>
    rw [hperm (Table.list_perm h), List.foldl_cons, ← hfuse b h, hcomm]

end

end Rps.Base
