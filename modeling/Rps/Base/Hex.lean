import Rps.Base.Bytes

/-! Hexadecimal texts.

A byte is two digits, the high one first, and a letter digit may be written in either case.
`decode_eq_some` says which texts decode and to what; `decode_text` that every spelling of
some bytes gives them back, `decode_eq_decode` that spellings of the same bytes differ in the
case of letters and in nothing else. -/
namespace Rps.Base.Hex

def IsDigit (c : Char) : Prop := '0' ≤ c ∧ c ≤ '9' ∨ 'a' ≤ c ∧ c ≤ 'f' ∨ 'A' ≤ c ∧ c ≤ 'F'

instance (c : Char) : Decidable (IsDigit c) := by
  unfold IsDigit
  infer_instance

/-- The value of a digit; any other character counts as zero. -/
def value (c : Char) : Nat :=
  if '0' ≤ c ∧ c ≤ '9' then c.toNat - 48
  else if 'a' ≤ c ∧ c ≤ 'f' then c.toNat - 87
  else if 'A' ≤ c ∧ c ≤ 'F' then c.toNat - 55
  else 0

def digit (upper : Bool) (n : Nat) : Char :=
  if n < 10 then Char.ofNat (48 + n) else if upper then Char.ofNat (55 + n) else Char.ofNat (87 + n)

/-- The digits of `bytes`, the `j`-th of them a capital if it is a letter and `upper j`. -/
def text (upper : Nat → Bool) : Bytes → List Char
  | [] => []
  | b :: bytes =>
    digit (upper 0) (b.toNat / 16) :: digit (upper 1) (b.toNat % 16) :: text (fun j => upper (j + 2)) bytes

def decode : List Char → Option Bytes
  | [] => some []
  | [_] => none
  | hi :: lo :: rest =>
    if IsDigit hi ∧ IsDigit lo then (decode rest).map (UInt8.ofNat (16 * value hi + value lo) :: ·) else none

/-! ### Digits -/

/-- A digit is one of twenty-two ASCII characters. -/
theorem isDigit_cases {c : Char} (h : IsDigit c) :
    ∃ n < 103, c = Char.ofNat n ∧ IsDigit (Char.ofNat n) := by
  refine ⟨c.toNat, ?_, (Char.ofNat_toNat c).symm, by rwa [Char.ofNat_toNat]⟩
  have hle : ∀ d : Char, c ≤ d → c.toNat ≤ d.toNat := fun d hd => hd
  rcases h with ⟨-, h⟩ | ⟨-, h⟩ | ⟨-, h⟩
  · exact (hle '9' h).trans_lt (by decide)
  · exact (hle 'f' h).trans_lt (by decide)
  · exact (hle 'F' h).trans_lt (by decide)

theorem value_lt (c : Char) : value c < 16 := by
  by_cases h : IsDigit c
  · obtain ⟨n, hn, rfl, hd⟩ := isDigit_cases h
    revert n
    decide
  · simp only [IsDigit, not_or] at h
    simp [value, h.1, h.2.1, h.2.2]

theorem isDigit_digit (upper : Bool) {n : Nat} (h : n < 16) : IsDigit (digit upper n) := by
  revert n
  cases upper <;> decide

theorem value_digit (upper : Bool) {n : Nat} (h : n < 16) : value (digit upper n) = n := by
  revert n
  cases upper <;> decide

/-- Digits of one value are one letter in two cases, or the same character. -/
theorem value_eq_value {c d : Char} (hc : IsDigit c) (hd : IsDigit d) :
    value c = value d ↔ c.toLower = d.toLower := by
  obtain ⟨m, hm, rfl, hcm⟩ := isDigit_cases hc
  obtain ⟨n, hn, rfl, hdn⟩ := isDigit_cases hd
  have hlower : ∀ n < 103, IsDigit (Char.ofNat n) → (Char.ofNat n).toLower = digit false (value (Char.ofNat n)) := by
    decide
  rw [hlower m hm hcm, hlower n hn hdn]
  constructor
  · intro h
    rw [h]
  · intro h
    have := congrArg value h
    rwa [value_digit false (value_lt _), value_digit false (value_lt _)] at this

/-! ### Texts -/

theorem decode_cons {hi lo : Char} {rest : List Char} {bytes : Bytes} (h : decode (hi :: lo :: rest) = some bytes) :
    ∃ tail, IsDigit hi ∧ IsDigit lo ∧ decode rest = some tail ∧
      bytes = UInt8.ofNat (16 * value hi + value lo) :: tail := by
  rw [decode] at h
  split at h
  · rename_i hdigits
    obtain ⟨tail, htail, rfl⟩ := Option.map_eq_some_iff.mp h
    exact ⟨tail, hdigits.1, hdigits.2, htail, rfl⟩
  · cases h

theorem pair_toNat (hi lo : Char) : (UInt8.ofNat (16 * value hi + value lo)).toNat = 16 * value hi + value lo := by
  have := value_lt hi
  have := value_lt lo
  rw [UInt8.toNat_ofNat']
  omega

/-- What decodes is two digits for each byte, and the byte is the value of the two. -/
theorem decode_eq_some {t : List Char} {bytes : Bytes} (h : decode t = some bytes) :
    t.length = 2 * bytes.length ∧ (∀ c ∈ t, IsDigit c) ∧
      ∀ i < bytes.length, (bytes.getD i 0).toNat = 16 * value (t.getD (2 * i) '0') + value (t.getD (2 * i + 1) '0') := by
  induction t using decode.induct generalizing bytes with
  | case1 =>
    cases h
    simp
  | case2 => cases h
  | case3 hi lo rest hdigits ih =>
    obtain ⟨tail, -, -, htail, rfl⟩ := decode_cons h
    obtain ⟨hlen, hall, hvalues⟩ := ih htail
    refine ⟨by simp [hlen]; omega, ?_, ?_⟩
    · simp only [List.forall_mem_cons]
      exact ⟨hdigits.1, hdigits.2, hall⟩
    · intro i hi'
      cases i with
      | zero => exact pair_toNat hi lo
      | succ i => exact hvalues i (Nat.lt_of_succ_lt_succ hi')
  | case4 hi lo rest hdigits =>
    rw [decode, if_neg hdigits] at h
    cases h

/-- An even number of digits decodes. -/
theorem decode_of_digits {t : List Char} {n : Nat} (hlen : t.length = 2 * n) (hdigits : ∀ c ∈ t, IsDigit c) :
    ∃ bytes, decode t = some bytes ∧ bytes.length = n := by
  induction n generalizing t with
  | zero =>
    rw [List.eq_nil_of_length_eq_zero hlen]
    exact ⟨[], rfl, rfl⟩
  | succ n ih =>
    match t, hlen with
    | hi :: lo :: rest, hlen =>
      simp only [List.forall_mem_cons] at hdigits
      obtain ⟨tail, htail, rfl⟩ := ih (by simp at hlen; omega) hdigits.2.2
      refine ⟨UInt8.ofNat (16 * value hi + value lo) :: tail, ?_, rfl⟩
      rw [decode, if_pos ⟨hdigits.1, hdigits.2.1⟩, htail]
      rfl

/-- Every spelling of some bytes decodes to them. -/
theorem decode_text (upper : Nat → Bool) (bytes : Bytes) : decode (text upper bytes) = some bytes := by
  induction bytes generalizing upper with
  | nil => rfl
  | cons b bytes ih =>
    have hb := b.toNat_lt
    have hhi : b.toNat / 16 < 16 := by omega
    have hlo : b.toNat % 16 < 16 := by omega
    rw [text, decode, if_pos ⟨isDigit_digit _ hhi, isDigit_digit _ hlo⟩, ih, value_digit _ hhi, value_digit _ hlo,
      Nat.div_add_mod, UInt8.ofNat_toNat]
    rfl

/-- Two spellings of the same bytes differ in the case of letters only. -/
theorem decode_eq_decode {s t : List Char} {a b : Bytes} (ha : decode s = some a) (hb : decode t = some b) :
    a = b ↔ s.map Char.toLower = t.map Char.toLower := by
  induction s using decode.induct generalizing t a b with
  | case1 =>
    cases ha
    obtain ⟨hlen, -, -⟩ := decode_eq_some hb
    rw [List.map_nil, List.nil_eq, List.nil_eq, List.map_eq_nil_iff, ← List.length_eq_zero_iff,
      ← List.length_eq_zero_iff]
    omega
  | case2 => cases ha
  | case3 hi lo rest hdigits ih =>
    obtain ⟨tail, -, -, htail, rfl⟩ := decode_cons ha
    match t, hb with
    | [], hb =>
      cases hb
      simp
    | hi' :: lo' :: rest', hb =>
      obtain ⟨tail', hhi, hlo, htail', rfl⟩ := decode_cons hb
      have hpair : UInt8.ofNat (16 * value hi + value lo) = UInt8.ofNat (16 * value hi' + value lo') ↔
          value hi = value hi' ∧ value lo = value lo' := by
        have := value_lt lo
        have := value_lt lo'
        rw [← UInt8.toNat_inj, pair_toNat, pair_toNat]
        omega
      rw [List.cons.injEq, hpair, ih htail htail', value_eq_value hdigits.1 hhi, value_eq_value hdigits.2 hlo,
        List.map_cons, List.map_cons, List.map_cons, List.map_cons, List.cons.injEq, List.cons.injEq, and_assoc]
  | case4 hi lo rest hdigits =>
    rw [decode, if_neg hdigits] at ha
    cases ha

end Rps.Base.Hex
