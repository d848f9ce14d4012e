import Mathlib.Data.List.GetD
import Rps.Base.Bits
import Rps.Base.Bytes

/-! Base 32 with the letters and the digits 2 to 7.

The bits of some bytes, filled up with zeros to groups of five, are written one symbol for each
group; the text may be filled up with the padding symbol to eight symbols at a time. `decode` takes
the bytes out of the bits of the symbols, `decode_values` says that they are the bytes again. -/
namespace Rps.Base.Base32
open Bits

/-- The bits of bytes, one after the other. -/
def bitsOf (bytes : Bytes) : List Bool := bytes.flatMap fun b => toBits 8 b.toNat

/-- What is short of a group of five. -/
def fill (bits : List Bool) : List Bool := List.replicate ((5 - bits.length % 5) % 5) false

/-- The values of the symbols bytes are written with. -/
def values (bytes : Bytes) : List Nat := groups 5 (bitsOf bytes ++ fill (bitsOf bytes))

def symbol (upper : Bool) (v : Nat) : Char :=
  if v < 26 then (if upper then Char.ofNat (65 + v) else Char.ofNat (97 + v)) else Char.ofNat (24 + v)

/-- The `j`-th symbol is a capital if it is a letter and `upper j`. -/
def spell (upper : Nat → Bool) : List Nat → List Char
  | [] => []
  | v :: rest => symbol (upper 0) v :: spell (fun j => upper (j + 1)) rest

def padding (n : Nat) : List Char := List.replicate ((8 - n % 8) % 8) '='

def encode (upper : Nat → Bool) (padded : Bool) (bytes : Bytes) : List Char :=
  spell upper (values bytes) ++ if padded then padding (values bytes).length else []

/-- The whole bytes among the bits of the values. -/
def decode (values : List Nat) : Bytes := (groups 8 (values.flatMap (toBits 5))).map UInt8.ofNat

theorem values_lt (bytes : Bytes) : ∀ v ∈ values bytes, v < 32 := groups_lt 5 _

theorem length_flatMap_toBits (w : Nat) (values : List Nat) :
    (values.flatMap (toBits w)).length = w * values.length := by
  induction values with
  | nil => rfl
  | cons v values ih =>
    rw [List.flatMap_cons, List.length_append, length_toBits, ih, List.length_cons, Nat.mul_succ, Nat.add_comm]

theorem length_decode (values : List Nat) : (decode values).length = 5 * values.length / 8 := by
  rw [decode, List.length_map, length_groups, length_flatMap_toBits]

/-- The `i`-th byte is the bits from `8 * i` on. -/
theorem getD_decode {values : List Nat} {i : Nat} (hi : i < (decode values).length) :
    ((decode values).getD i 0).toNat = ofBits (((values.flatMap (toBits 5)).drop (8 * i)).take 8) := by
  have hlt := ofBits_lt (((values.flatMap (toBits 5)).drop (8 * i)).take 8)
  have hle : (((values.flatMap (toBits 5)).drop (8 * i)).take 8).length ≤ 8 := List.length_take_le ..
  have hbyte := hlt.trans_le (Nat.pow_le_pow_right (by decide) hle)
  rw [List.getD_eq_getElem _ _ hi]
  simp only [decode, groups, List.getElem_map, List.getElem_range, UInt8.toNat_ofNat']
  exact Nat.mod_eq_of_lt hbyte

theorem decode_values (bytes : Bytes) : decode (values bytes) = bytes := by
  have hbits : bitsOf bytes = (bytes.map UInt8.toNat).flatMap (toBits 8) := by
    rw [bitsOf, List.flatMap_map]
  obtain ⟨n, hn⟩ : ∃ n, (bitsOf bytes ++ fill (bitsOf bytes)).length = 5 * n := by
    refine ⟨((bitsOf bytes).length + 4) / 5, ?_⟩
    rw [List.length_append, fill, List.length_replicate]
    omega
  have hfill : (fill (bitsOf bytes)).length < 8 := by
    rw [fill, List.length_replicate]
    omega
  have hbyte : ∀ v ∈ bytes.map UInt8.toNat, v < 2 ^ 8 := by
    intro v hv
    obtain ⟨b, -, rfl⟩ := List.mem_map.mp hv
    exact b.toNat_lt
  rw [decode, values, flatten_groups (by decide) hn]
  nth_rewrite 1 [hbits]
  rw [groups_flatMap (by decide) hbyte hfill, List.map_map]
  refine (List.map_congr_left ?_).trans (List.map_id bytes)
  intro b _
  exact UInt8.ofNat_toNat

end Rps.Base.Base32
