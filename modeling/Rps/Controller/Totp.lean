import Rps.Base.Base32
import Rps.Controller.WebSessions

/-! The secret of the second factor.

The configured secret is a text in base 32, as an authenticator shows it: in either case, with or
without padding. `decode_base32` shifts symbols into 32 bits from below and takes a byte out as
soon as there are eight bits; bits that were taken stay above and fall out in the end.

`decodeWith` is the same loop with an accumulator and a counter that lose what `truncate` and
`wrap` drop. `decodeWith_eq` says what it decodes as long as twelve bits are kept: that is base 32,
for the widths of the source as for numbers without a bound. -/
namespace Rps.Controller.Totp
open Base WebSessions Bits

def beforePadding (bytes : Bytes) : Bytes := bytes.takeWhile fun b => b ≠ 61

/-- The bytes in front of the padding. -/
def symbols (input : List Char) : Bytes := beforePadding (encode input)

/-- A letter of either case, or one of the digits 2 to 7. -/
def IsSymbol (b : UInt8) : Prop := 65 ≤ b ∧ b ≤ 90 ∨ 97 ≤ b ∧ b ≤ 122 ∨ 50 ≤ b ∧ b ≤ 55

instance (b : UInt8) : Decidable (IsSymbol b) := inferInstanceAs (Decidable (_ ∨ _))

def AllSymbols (bytes : Bytes) : Prop := ∀ b ∈ bytes, IsSymbol b

instance (bytes : Bytes) : Decidable (AllSymbols bytes) := List.decidableBAll IsSymbol bytes

/-- The value of a symbol: letters from zero on, behind them the digits. -/
def symbolValue (b : UInt8) : Nat :=
  if b ≤ 55 then b.toNat - 24 else if b ≤ 90 then b.toNat - 65 else b.toNat - 97

/-! ### The loop with other widths -/

def drainWith (bits : Nat) : Nat → Nat → Nat × Bytes
  | 0, bitCount => (bitCount, [])
  | turns + 1, bitCount =>
    if 8 ≤ bitCount then
      let (left, out) := drainWith bits turns (bitCount - 8)
      (left, UInt8.ofNat ((bits >>> (bitCount - 8)) &&& 0xff) :: out)
    else (bitCount, [])

def decodeWithLoop (truncate wrap : Nat → Nat) (bits bitCount : Nat) (out : Bytes) : Bytes → Except ApiError Bytes
  | [] => .ok out
  | byte :: rest =>
    if byte = 61 then .ok out
    else
      match base32Value byte with
      | none => .error invalidTotpSecret
      | some value =>
        let bits := truncate ((bits <<< 5) ||| value.toNat)
        let (left, whole) := drainWith bits (wrap (bitCount + 5)) (wrap (bitCount + 5))
        decodeWithLoop truncate wrap bits left (out ++ whole) rest

def decodeWith (truncate wrap : Nat → Nat) (input : List Char) : Except ApiError Bytes :=
  match decodeWithLoop truncate wrap 0 0 [] (encode input) with
  | .error error => .error error
  | .ok out => if out = [] then .error invalidTotpSecret else .ok out

/-! ### Symbols -/

theorem base32Value_eq (b : UInt8) :
    base32Value b = if IsSymbol b then some (UInt8.ofNat (symbolValue b)) else none := by
  revert b
  apply forall_byte
  decide +kernel

theorem symbolValue_lt {b : UInt8} (h : IsSymbol b) : symbolValue b < 32 := by
  revert b
  apply forall_byte
  decide +kernel

theorem ofNat_symbolValue {b : UInt8} (h : IsSymbol b) : (UInt8.ofNat (symbolValue b)).toNat = symbolValue b := by
  have := symbolValue_lt h
  rw [UInt8.toNat_ofNat']
  omega

/-! ### One symbol -/

/-- The accumulator ends with the bits that are still to be written. -/
structure Pending (bits bitCount : Nat) (pending : List Bool) : Prop where
  length : pending.length = bitCount
  low : bits % 2 ^ bitCount = ofBits pending

theorem Pending.push {truncate : Nat → Nat} (htruncate : ∀ n, truncate n % 2 ^ 12 = n % 2 ^ 12) {bits bitCount : Nat}
    {pending : List Bool} (h : Pending bits bitCount pending) (hcount : bitCount < 8) {v : Nat} (hv : v < 32) :
    Pending (truncate ((bits <<< 5) ||| v)) (bitCount + 5) (pending ++ toBits 5 v) where
  length := by rw [List.length_append, length_toBits, h.length]
  low := by
    have hdvd : 2 ^ (bitCount + 5) ∣ 2 ^ 12 := Nat.pow_dvd_pow 2 (by omega)
    have hpow : 2 ^ (bitCount + 5) = 32 * 2 ^ bitCount := by rw [Nat.pow_add, Nat.mul_comm]
    have hlow : (bits * 2 ^ 5 + v) % 32 = v := by omega
    have hhigh : (bits * 2 ^ 5 + v) / 32 = bits := by omega
    rw [← Nat.mod_mod_of_dvd _ hdvd, htruncate, Nat.mod_mod_of_dvd _ hdvd, ofBits_append, length_toBits, ofBits_toBits,
      ← h.low, ← Nat.shiftLeft_add_eq_or_of_lt hv, Nat.shiftLeft_eq, Nat.mod_eq_of_lt (show v < 2 ^ 5 from hv), hpow,
      Nat.mod_mul, hlow, hhigh]
    ring

theorem drainWith_of_lt (bits turns : Nat) {bitCount : Nat} (h : bitCount < 8) :
    drainWith bits turns bitCount = (bitCount, []) := by
  cases turns with
  | zero => rfl
  | succ turns => rw [drainWith, if_neg (by omega)]

/-- Eight bits are taken at most once for each symbol. -/
theorem Pending.drain {bits bitCount : Nat} {pending : List Bool} (h : Pending bits bitCount pending)
    (hle : bitCount ≤ 12) :
    ∃ left whole rest, drainWith bits bitCount bitCount = (left, whole) ∧ left < 8 ∧ Pending bits left rest ∧
      ∀ more, (groups 8 (pending ++ more)).map UInt8.ofNat = whole ++ (groups 8 (rest ++ more)).map UInt8.ofNat := by
  by_cases hcount : bitCount < 8
  · exact ⟨bitCount, [], pending, drainWith_of_lt _ _ hcount, hcount, h, fun _ => rfl⟩
  · obtain ⟨k, rfl⟩ : ∃ k, bitCount = k + 8 := ⟨bitCount - 8, by omega⟩
    have htake : (pending.take 8).length = 8 := List.length_take_of_le (by rw [h.length]; omega)
    have hdrop : (pending.drop 8).length = k := by
      rw [List.length_drop, h.length]
      omega
    have hbits : bits % (2 ^ k * 2 ^ 8) = ofBits (pending.take 8) * 2 ^ k + ofBits (pending.drop 8) := by
      rw [← Nat.pow_add, h.low]
      nth_rewrite 1 [← List.take_append_drop 8 pending]
      rw [ofBits_append, hdrop]
    have hrest := ofBits_lt (pending.drop 8)
    rw [hdrop] at hrest
    have hbyte : (bits >>> k) &&& 0xff = ofBits (pending.take 8) := by
      have hmask := Nat.and_two_pow_sub_one_eq_mod (bits >>> k) 8
      have hdiv : (ofBits (pending.take 8) * 2 ^ k + ofBits (pending.drop 8)) / 2 ^ k = ofBits (pending.take 8) := by
        rw [Nat.mul_comm, Nat.mul_add_div (Nat.two_pow_pos k), Nat.div_eq_of_lt hrest, Nat.add_zero]
      rw [← hdiv, ← hbits, Nat.mod_mul_right_div_self, ← Nat.shiftRight_eq_div_pow]
      exact hmask
    refine ⟨k, [UInt8.ofNat (ofBits (pending.take 8))], pending.drop 8, ?_, by omega, ⟨hdrop, ?_⟩, ?_⟩
    · rw [drainWith, if_pos (by omega), Nat.add_sub_cancel, drainWith_of_lt _ _ (by omega), hbyte]
    · rw [← Nat.mod_mul_right_mod bits (2 ^ k) (2 ^ 8), hbits, Nat.mul_comm, Nat.mul_add_mod, Nat.mod_eq_of_lt hrest]
    · intro more
      nth_rewrite 1 [← List.take_append_drop 8 pending]
      rw [List.append_assoc, groups_append htake (by decide)]
      rfl

/-! ### All symbols -/

section
variable {truncate wrap : Nat → Nat} (htruncate : ∀ n, truncate n % 2 ^ 12 = n % 2 ^ 12) (hwrap : ∀ n ≤ 12, wrap n = n)
include htruncate hwrap

/-- The loop writes the bytes of the bits that are pending and of those to come. -/
theorem decodeWithLoop_eq {bits bitCount : Nat} {pending : List Bool} (h : Pending bits bitCount pending)
    (hcount : bitCount < 8) (out bytes : Bytes) :
    decodeWithLoop truncate wrap bits bitCount out bytes =
      if AllSymbols (beforePadding bytes) then
        .ok (out ++ (groups 8 (pending ++
          ((beforePadding bytes).map symbolValue).flatMap (toBits 5))).map UInt8.ofNat)
      else .error invalidTotpSecret := by
  induction bytes generalizing bits bitCount pending out with
  | nil =>
    have hshort : groups 8 pending = [] := groups_of_lt (by rw [h.length]; exact hcount)
    simp [decodeWithLoop, AllSymbols, beforePadding, hshort]
  | cons byte rest ih =>
    by_cases hpad : byte = 61
    · have hshort : groups 8 pending = [] := groups_of_lt (by rw [h.length]; exact hcount)
      simp [decodeWithLoop, AllSymbols, beforePadding, hpad, hshort]
    · have hcons : beforePadding (byte :: rest) = byte :: beforePadding rest :=
        List.takeWhile_cons_of_pos (by simpa using hpad)
      rw [decodeWithLoop, if_neg hpad, hcons, base32Value_eq]
      by_cases hsymbol : IsSymbol byte
      · obtain ⟨left, whole, after, hdrain, hleft, hpending, hgroups⟩ :=
          (h.push htruncate hcount (symbolValue_lt hsymbol)).drain (by omega)
        simp only [if_pos hsymbol, ofNat_symbolValue hsymbol, hwrap (bitCount + 5) (by omega), hdrain]
        have hall : AllSymbols (beforePadding rest) ↔ AllSymbols (byte :: beforePadding rest) := by
          rw [AllSymbols, AllSymbols, List.forall_mem_cons, and_iff_right hsymbol]
        rw [ih hpending hleft, List.map_cons, List.flatMap_cons, ← List.append_assoc pending, hgroups, List.append_assoc]
        exact if_congr hall rfl rfl
      · simp only [if_neg hsymbol]
        rw [if_neg]
        intro hall
        exact hsymbol (hall byte (List.mem_cons_self ..))

/-- What the loop decodes with any widths that keep twelve bits. -/
theorem decodeWith_eq (input : List Char) :
    decodeWith truncate wrap input =
      if AllSymbols (symbols input) ∧ 2 ≤ (symbols input).length then
        .ok (Base32.decode ((symbols input).map symbolValue))
      else .error invalidTotpSecret := by
  have hstart : Pending 0 0 [] := ⟨rfl, rfl⟩
  rw [decodeWith, decodeWithLoop_eq htruncate hwrap hstart (by decide)]
  by_cases hall : AllSymbols (symbols input)
  · have hempty : Base32.decode ((symbols input).map symbolValue) = [] ↔ ¬ 2 ≤ (symbols input).length := by
      rw [← List.length_eq_zero_iff, Base32.length_decode, List.length_map]
      omega
    rw [if_pos (show AllSymbols (beforePadding (encode input)) from hall)]
    show (if Base32.decode ((symbols input).map symbolValue) = [] then _ else _) = _
    by_cases hlen : 2 ≤ (symbols input).length
    · rw [if_neg (by rw [hempty]; exact not_not.mpr hlen), if_pos ⟨hall, hlen⟩]
      rfl
    · rw [if_pos (hempty.mpr hlen), if_neg fun h => hlen h.2]
  · rw [if_neg (show ¬ AllSymbols (beforePadding (encode input)) from hall), if_neg fun h => hall h.1]

end

/-! ### The widths of the source -/

theorem drainBits_eq (bits : UInt32) (turns : Nat) {bitCount : Nat} (h : bitCount ≤ 12) :
    drainBits bits turns bitCount = drainWith bits.toNat turns bitCount := by
  induction turns generalizing bitCount with
  | zero => rfl
  | succ turns ih =>
    rw [drainBits, drainWith]
    split
    · have hbyte : ((bits >>> UInt32.ofNat (bitCount - 8)) &&& 0xff).toUInt8 =
          UInt8.ofNat ((bits.toNat >>> (bitCount - 8)) &&& 0xff) := by
        have hshift : (UInt32.ofNat (bitCount - 8)).toNat % 32 = bitCount - 8 := by
          rw [UInt32.toNat_ofNat']
          omega
        rw [← UInt8.toNat_inj, UInt32.toNat_toUInt8, UInt32.toNat_and, UInt32.toNat_shiftRight, hshift,
          UInt8.toNat_ofNat']
        rfl
      rw [ih (by omega), hbyte]
    · rfl

theorem push_toNat (bits : UInt32) (value : UInt8) :
    ((bits <<< 5) ||| value.toUInt32).toNat = ((bits.toNat <<< 5) ||| value.toNat) % 2 ^ 32 := by
  have hvalue : value.toNat % 2 ^ 32 = value.toNat := Nat.mod_eq_of_lt (value.toNat_lt.trans (by decide))
  rw [UInt32.toNat_or, UInt32.toNat_shiftLeft, UInt8.toNat_toUInt32, Nat.or_mod_two_pow, hvalue]
  rfl

theorem drainWith_lt (bits : Nat) {turns bitCount : Nat} (h : bitCount ≤ turns) : (drainWith bits turns bitCount).1 < 8 := by
  induction turns generalizing bitCount with
  | zero =>
    show bitCount < 8
    omega
  | succ turns ih =>
    rw [drainWith]
    split
    · exact ih (by omega)
    · show bitCount < 8
      omega

theorem decodeBase32Loop_eq (bits : UInt32) {bitCount : Nat} (h : bitCount < 8) (out bytes : Bytes) :
    decodeBase32Loop bits bitCount out bytes =
      decodeWithLoop (fun n => n % 2 ^ 32) (fun n => n % 2 ^ 8) bits.toNat bitCount out bytes := by
  induction bytes generalizing bits bitCount out with
  | nil => rfl
  | cons byte rest ih =>
    have hwrap : (bitCount + 5) % 2 ^ 8 = bitCount + 5 := Nat.mod_eq_of_lt (by omega)
    rw [decodeBase32Loop, decodeWithLoop]
    split
    · rfl
    · cases base32Value byte with
      | none => rfl
      | some value =>
        simp only [hwrap, drainBits_eq _ _ (show bitCount + 5 ≤ 12 by omega), push_toNat]
        rw [ih _ (drainWith_lt _ (Nat.le_refl _)), push_toNat]

/-- The code is the loop with 32 bits and a counter of eight. -/
theorem decodeBase32_eq_decodeWith (input : List Char) :
    decodeBase32 input = decodeWith (fun n => n % 2 ^ 32) (fun n => n % 2 ^ 8) input := by
  rw [decodeBase32, decodeBase32Loop_eq 0 (by decide)]
  rfl

theorem decodeBase32_eq (input : List Char) :
    decodeBase32 input =
      if AllSymbols (symbols input) ∧ 2 ≤ (symbols input).length then
        .ok (Base32.decode ((symbols input).map symbolValue))
      else .error invalidTotpSecret := by
  rw [decodeBase32_eq_decodeWith]
  apply decodeWith_eq
  · intro n
    exact Nat.mod_mod_of_dvd n (Nat.pow_dvd_pow 2 (by decide))
  · intro n hn
    exact Nat.mod_eq_of_lt (by omega)

/-! ### Encodings -/

/-- A symbol of the alphabet in either case is one byte and has its value. -/
theorem symbol_byte (upper : Bool) {v : Nat} (h : v < 32) :
    ∃ b, String.utf8EncodeChar (Base32.symbol upper v) = [b] ∧ IsSymbol b ∧ symbolValue b = v := by
  refine ⟨UInt8.ofNat (Base32.symbol upper v).toNat, ?_⟩
  revert v
  cases upper <;> decide +kernel

theorem encode_spell {values : List Nat} (h : ∀ v ∈ values, v < 32) (upper : Nat → Bool) :
    (∀ b ∈ encode (Base32.spell upper values), IsSymbol b) ∧
      (encode (Base32.spell upper values)).map symbolValue = values := by
  induction values generalizing upper with
  | nil => simp [Base32.spell]
  | cons v values ih =>
    rw [List.forall_mem_cons] at h
    obtain ⟨b, hb, hsymbol, hvalue⟩ := symbol_byte (upper 0) h.1
    obtain ⟨hall, hvalues⟩ := ih h.2 fun j => upper (j + 1)
    rw [Base32.spell, encode_cons, hb]
    refine ⟨?_, ?_⟩
    · rw [List.singleton_append, List.forall_mem_cons]
      exact ⟨hsymbol, hall⟩
    · rw [List.singleton_append, List.map_cons, hvalue, hvalues]

/-- Padding at the end is not looked at. -/
theorem symbols_padded {text : List Char} (h : ∀ b ∈ encode text, IsSymbol b) (n : Nat) :
    symbols (text ++ List.replicate n '=') = encode text := by
  have hne : ∀ b ∈ encode text, decide (b ≠ 61) = true := by
    have hpad : ¬ IsSymbol 61 := by decide
    intro b hb
    rw [decide_eq_true_iff]
    intro hb'
    rw [hb'] at hb
    exact hpad (h 61 hb)
  rw [symbols, beforePadding, encode_append, List.takeWhile_append_of_pos hne]
  cases n with
  | zero => simp
  | succ n =>
    have hequals : String.utf8EncodeChar '=' = [61] := by decide
    rw [List.replicate_succ, encode_cons, hequals]
    simp

theorem decodeBase32_encode {bytes : Bytes} (h : bytes ≠ []) (upper : Nat → Bool) (padded : Bool) :
    decodeBase32 (Base32.encode upper padded bytes) = .ok bytes := by
  obtain ⟨hall, hvalues⟩ := encode_spell (Base32.values_lt bytes) upper
  have hsymbols : symbols (Base32.encode upper padded bytes) = encode (Base32.spell upper (Base32.values bytes)) := by
    cases padded with
    | false => simpa [Base32.encode] using symbols_padded hall 0
    | true => exact symbols_padded hall _
  have hlen : 2 ≤ (encode (Base32.spell upper (Base32.values bytes))).length := by
    have hdecoded := Base32.length_decode (Base32.values bytes)
    have hpos := List.length_pos_iff.mpr h
    have hcount := congrArg List.length hvalues
    rw [Base32.decode_values] at hdecoded
    rw [List.length_map] at hcount
    omega
  rw [decodeBase32_eq, hsymbols, if_pos ⟨hall, hlen⟩, hvalues, Base32.decode_values]

/-- **Secrets are decoded as base 32, whatever falls out of the accumulator.** -/
theorem base32_secrets :
    (∀ bytes : Bytes, bytes ≠ [] → ∀ (upper : Nat → Bool) (padded : Bool),
      decodeBase32 (Base32.encode upper padded bytes) = .ok bytes) ∧
    (∀ input : List Char, (∃ error, decodeBase32 input = .error error) ↔
      (∃ b ∈ symbols input, ¬ IsSymbol b) ∨ (symbols input).length < 2) ∧
    (∀ (input : List Char) (out : Bytes), decodeBase32 input = .ok out →
      out.length = 5 * (symbols input).length / 8 ∧
        ∀ i < out.length, (out.getD i 0).toNat =
          ofBits (((((symbols input).map symbolValue).flatMap (toBits 5)).drop (8 * i)).take 8)) ∧
    (∀ input : List Char, decodeWith (fun n => n % 2 ^ 32) (fun n => n % 2 ^ 8) input = decodeBase32 input ∧
      decodeWith id id input = decodeBase32 input) := by
  refine ⟨fun bytes h upper padded => decodeBase32_encode h upper padded, ?_, ?_, ?_⟩
  · intro input
    rw [decodeBase32_eq]
    split
    · rename_i h
      simp only [reduceCtorEq, exists_false, false_iff, not_or, not_exists, not_and, not_not, Nat.not_lt]
      exact h
    · rename_i h
      simp only [Except.error.injEq, exists_eq', true_iff]
      by_contra hnot
      simp only [not_or, not_exists, not_and, not_not, Nat.not_lt] at hnot
      exact h hnot
  · intro input out hout
    rw [decodeBase32_eq] at hout
    split at hout
    · cases hout
      have hlen := Base32.length_decode ((symbols input).map symbolValue)
      rw [List.length_map] at hlen
      exact ⟨hlen, fun i hi => Base32.getD_decode hi⟩
    · cases hout
  · intro input
    refine ⟨(decodeBase32_eq_decodeWith input).symm, ?_⟩
    rw [decodeBase32_eq]
    exact decodeWith_eq (fun _ => rfl) (fun _ _ => rfl) input

end Rps.Controller.Totp
