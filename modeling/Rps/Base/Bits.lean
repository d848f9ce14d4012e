import Mathlib.Algebra.Order.Group.Nat
import Mathlib.Data.List.Basic
import Mathlib.Data.List.Induction
import Mathlib.Tactic.Ring

/-! Strings of bits, the first bit the most significant.

A number of `w` bits is a string of length `w` and back. `groups w` cuts a string into numbers of
`w` bits, from the front, and leaves out what is short of a group at the end; `flatten_groups` is its
inverse where nothing is short. -/
namespace Rps.Base.Bits

/-- The low `w` bits of `n`. -/
def toBits : Nat → Nat → List Bool
  | 0, _ => []
  | w + 1, n => toBits w (n / 2) ++ [decide (n % 2 = 1)]

def ofBits (bits : List Bool) : Nat := bits.foldl (fun n b => 2 * n + b.toNat) 0

/-- The `i`-th group is the bits from `w * i` on. -/
def groups (w : Nat) (bits : List Bool) : List Nat :=
  (List.range (bits.length / w)).map fun i => ofBits ((bits.drop (w * i)).take w)

@[simp] theorem length_toBits (w n : Nat) : (toBits w n).length = w := by
  induction w generalizing n with
  | zero => rfl
  | succ w ih => simp [toBits, ih]

theorem ofBits_snoc (bits : List Bool) (b : Bool) : ofBits (bits ++ [b]) = 2 * ofBits bits + b.toNat := by
  simp [ofBits]

theorem ofBits_append (a b : List Bool) : ofBits (a ++ b) = ofBits a * 2 ^ b.length + ofBits b := by
  induction b using List.reverseRecOn with
  | nil => simp [ofBits]
  | append_singleton b x ih =>
    rw [← List.append_assoc, ofBits_snoc, ih, ofBits_snoc, List.length_append, List.length_singleton]
    ring

theorem ofBits_lt (bits : List Bool) : ofBits bits < 2 ^ bits.length := by
  induction bits using List.reverseRecOn with
  | nil => decide
  | append_singleton bits b ih =>
    have hb : b.toNat < 2 := b.toNat_lt
    rw [ofBits_snoc, List.length_append, List.length_singleton, Nat.pow_succ]
    omega

theorem ofBits_toBits (w n : Nat) : ofBits (toBits w n) = n % 2 ^ w := by
  induction w generalizing n with
  | zero => simp [toBits, ofBits, Nat.mod_one]
  | succ w ih =>
    have hbit : (decide (n % 2 = 1)).toNat = n % 2 := by
      rcases Nat.mod_two_eq_zero_or_one n with h | h <;> simp [h]
    rw [toBits, ofBits_snoc, ih, hbit, Nat.pow_succ, Nat.mul_comm (2 ^ w) 2, Nat.mod_mul]
    omega

theorem toBits_ofBits (bits : List Bool) : toBits bits.length (ofBits bits) = bits := by
  induction bits using List.reverseRecOn with
  | nil => rfl
  | append_singleton bits b ih =>
    have hb : b.toNat < 2 := b.toNat_lt
    have hdiv : (2 * ofBits bits + b.toNat) / 2 = ofBits bits := by omega
    have hmod : (2 * ofBits bits + b.toNat) % 2 = b.toNat := by omega
    rw [List.length_append, List.length_singleton, toBits, ofBits_snoc, hdiv, hmod, ih]
    cases b <;> rfl

/-! ### Groups -/

theorem length_groups (w : Nat) (bits : List Bool) : (groups w bits).length = bits.length / w := by
  simp [groups]

theorem groups_of_lt {w : Nat} {bits : List Bool} (h : bits.length < w) : groups w bits = [] := by
  rw [groups, Nat.div_eq_of_lt h]
  rfl

/-- The first group, and those of the rest. -/
theorem groups_append {w : Nat} {a : List Bool} (ha : a.length = w) (hw : 0 < w) (b : List Bool) :
    groups w (a ++ b) = ofBits a :: groups w b := by
  have hcount : (a ++ b).length / w = b.length / w + 1 := by
    rw [List.length_append, ha, Nat.add_div_left _ hw]
  rw [groups, hcount, List.range_succ_eq_map, List.map_cons, List.map_map, groups]
  congr 1
  · rw [Nat.mul_zero, List.drop_zero, ← ha, List.take_left]
  · apply List.map_congr_left
    intro i _
    show ofBits (((a ++ b).drop (w * (i + 1))).take w) = _
    rw [Nat.mul_succ, Nat.add_comm, ← List.drop_drop, ← ha, List.drop_left]

/-- Numbers of `w` bits, one behind the other, are the groups of their bits. -/
theorem groups_flatMap {w : Nat} (hw : 0 < w) {values : List Nat} (h : ∀ v ∈ values, v < 2 ^ w) {rest : List Bool}
    (hrest : rest.length < w) : groups w (values.flatMap (toBits w) ++ rest) = values := by
  induction values with
  | nil => exact groups_of_lt hrest
  | cons v values ih =>
    rw [List.forall_mem_cons] at h
    rw [List.flatMap_cons, List.append_assoc, groups_append (length_toBits w v) hw, ih h.2, ofBits_toBits,
      Nat.mod_eq_of_lt h.1]

/-- The bits of all groups are the string, if nothing is short of a group. -/
theorem flatten_groups {w n : Nat} (hw : 0 < w) {bits : List Bool} (h : bits.length = w * n) :
    (groups w bits).flatMap (toBits w) = bits := by
  induction n generalizing bits with
  | zero =>
    obtain rfl : bits = [] := List.eq_nil_of_length_eq_zero h
    rw [groups_of_lt hw]
    rfl
  | succ n ih =>
    have hle : w ≤ bits.length := by
      rw [h, Nat.mul_succ]
      omega
    have htake : (bits.take w).length = w := List.length_take_of_le hle
    have hdrop : (bits.drop w).length = w * n := by
      rw [List.length_drop, h, Nat.mul_succ]
      omega
    conv_lhs => rw [← List.take_append_drop w bits]
    rw [groups_append htake hw, List.flatMap_cons, ih hdrop]
    have hfirst := toBits_ofBits (bits.take w)
    rw [htake] at hfirst
    rw [hfirst, List.take_append_drop]

theorem groups_lt (w : Nat) (bits : List Bool) : ∀ v ∈ groups w bits, v < 2 ^ w := by
  intro v hv
  obtain ⟨i, -, rfl⟩ := List.mem_map.mp hv
  refine (ofBits_lt _).trans_le (Nat.pow_le_pow_right (by decide) ?_)
  rw [List.length_take]
  exact Nat.min_le_left ..

end Rps.Base.Bits
