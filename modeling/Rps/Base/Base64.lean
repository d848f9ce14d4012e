import Rps.Base.Bytes

/-! Base64 with the standard alphabet and padding.

Three bytes are four symbols of six bits; two bytes or one at the end are filled up with the
padding symbol. `decode_encode`: what is encoded is decoded to the bytes it was made of. -/
namespace Rps.Base.Base64

/-- The symbol of six bits. -/
def symbol (n : Nat) : Char :=
  if n < 26 then Char.ofNat (65 + n)
  else if n < 52 then Char.ofNat (71 + n)
  else if n < 62 then Char.ofNat (n - 4)
  else if n = 62 then '+'
  else '/'

def value (c : Char) : Option Nat :=
  if c.isUpper then some (c.toNat - 65)
  else if c.isLower then some (c.toNat - 71)
  else if c.isDigit then some (c.toNat + 4)
  else if c = '+' then some 62
  else if c = '/' then some 63
  else none

def encode : Bytes → List Char
  | a :: b :: c :: rest =>
    symbol (a.toNat / 4) :: symbol (a.toNat % 4 * 16 + b.toNat / 16) :: symbol (b.toNat % 16 * 4 + c.toNat / 64) ::
      symbol (c.toNat % 64) :: encode rest
  | [a, b] => [symbol (a.toNat / 4), symbol (a.toNat % 4 * 16 + b.toNat / 16), symbol (b.toNat % 16 * 4), '=']
  | [a] => [symbol (a.toNat / 4), symbol (a.toNat % 4 * 16), '=', '=']
  | [] => []

/-- Padding only at the end, and the bits it stands for are zero. -/
def decode : List Char → Option Bytes
  | [] => some []
  | s :: t :: u :: v :: rest => do
    let s ← value s
    let t ← value t
    let first := UInt8.ofNat (s * 4 + t / 16)
    if u = '=' ∧ v = '=' ∧ rest = [] then
      if t % 16 = 0 then some [first] else none
    else do
      let u ← value u
      let second := UInt8.ofNat (t % 16 * 16 + u / 4)
      if v = '=' ∧ rest = [] then
        if u % 4 = 0 then some [first, second] else none
      else do
        let v ← value v
        let rest ← decode rest
        some (first :: second :: UInt8.ofNat (u % 4 * 64 + v) :: rest)
  | _ => none

theorem value_symbol {n : Nat} (h : n < 64) : value (symbol n) = some n := by
  revert n
  decide

theorem symbol_ne_pad {n : Nat} (h : n < 64) : symbol n ≠ '=' := by
  revert n
  decide

/-- Symbols and padding are visible characters. -/
theorem symbol_visible {n : Nat} (h : n < 64) : 0x21 ≤ (symbol n).toNat ∧ (symbol n).toNat ≤ 0x7e := by
  revert n
  decide

theorem encode_visible (bytes : Bytes) : ∀ c ∈ encode bytes, 0x21 ≤ c.toNat ∧ c.toNat ≤ 0x7e := by
  have hpad : 0x21 ≤ '='.toNat ∧ '='.toNat ≤ 0x7e := by decide
  fun_induction encode bytes with
  | case1 a b c rest ih =>
    have := a.toNat_lt
    have := b.toNat_lt
    have := c.toNat_lt
    simp only [List.forall_mem_cons]
    exact ⟨symbol_visible (by omega), symbol_visible (by omega), symbol_visible (by omega),
      symbol_visible (by omega), ih⟩
  | case2 a b =>
    have := a.toNat_lt
    have := b.toNat_lt
    simp only [List.forall_mem_cons]
    exact ⟨symbol_visible (by omega), symbol_visible (by omega), symbol_visible (by omega), hpad, by simp⟩
  | case3 a =>
    have := a.toNat_lt
    simp only [List.forall_mem_cons]
    exact ⟨symbol_visible (by omega), symbol_visible (by omega), hpad, hpad, by simp⟩
  | case4 => simp

theorem ofNat_eq {n : Nat} {b : UInt8} (h : n = b.toNat) : UInt8.ofNat n = b := by
  rw [h, UInt8.ofNat_toNat]

theorem decode_encode (bytes : Bytes) : decode (encode bytes) = some bytes := by
  fun_induction encode bytes with
  | case1 a b c rest ih =>
    have ha := a.toNat_lt
    have hb := b.toNat_lt
    have hc := c.toNat_lt
    have hu := symbol_ne_pad (n := b.toNat % 16 * 4 + c.toNat / 64) (by omega)
    have hv := symbol_ne_pad (n := c.toNat % 64) (by omega)
    simp only [decode, value_symbol (show a.toNat / 4 < 64 by omega),
      value_symbol (show a.toNat % 4 * 16 + b.toNat / 16 < 64 by omega),
      value_symbol (show b.toNat % 16 * 4 + c.toNat / 64 < 64 by omega),
      value_symbol (show c.toNat % 64 < 64 by omega), hu, hv, false_and, if_false, ih, Option.bind_eq_bind,
      Option.bind_some]
    congr
    · exact ofNat_eq (by omega)
    · exact ofNat_eq (by omega)
    · exact ofNat_eq (by omega)
  | case2 a b =>
    have ha := a.toNat_lt
    have hb := b.toNat_lt
    have hu := symbol_ne_pad (n := b.toNat % 16 * 4) (by omega)
    simp only [decode, value_symbol (show a.toNat / 4 < 64 by omega),
      value_symbol (show a.toNat % 4 * 16 + b.toNat / 16 < 64 by omega),
      value_symbol (show b.toNat % 16 * 4 < 64 by omega), hu, false_and, true_and, if_false, if_true,
      Option.bind_eq_bind, Option.bind_some]
    rw [if_pos (by omega)]
    congr
    · exact ofNat_eq (by omega)
    · exact ofNat_eq (by omega)
  | case3 a =>
    have ha := a.toNat_lt
    simp only [decode, value_symbol (show a.toNat / 4 < 64 by omega),
      value_symbol (show a.toNat % 4 * 16 < 64 by omega), true_and, if_true, Option.bind_eq_bind, Option.bind_some]
    rw [if_pos (by omega)]
    congr
    exact ofNat_eq (by omega)
  | case4 => rfl

end Rps.Base.Base64
