import Rps.Base.Cursor
import Rps.Base.Hex
import Rps.Base.Text
import Rps.Controller.ProxyAuth

/-! The pre-shared key of a client.

A key is 32 bytes and is written as 64 hexadecimal digits. `decode_psk` takes a text of any
characters, compares its length in bytes and then looks at the bytes by index, so a text that
is no ASCII could pass the comparison with fewer characters. `decodePsk_eq` says what comes
out for every text: the key its digits spell, or one of the two errors, and never a panic. -/
namespace Rps.Core
open Base Controller

def pskLen : Nat := 32
def pskHexLen : Nat := pskLen * 2

def decodeHexNibble (value : UInt8) : Except String UInt8 :=
  if 0x30 ≤ value ∧ value ≤ 0x39 then .ok (value - 0x30)
  else if 0x61 ≤ value ∧ value ≤ 0x66 then .ok (value - 0x61 + 10)
  else if 0x41 ≤ value ∧ value ≤ 0x46 then .ok (value - 0x41 + 10)
  else .error "psk must contain only hex chars"

/-- The loop over `out`, with `n` bytes still to be written. -/
def decodePskLoop (psk : Bytes) (index : Nat) (out : Bytes) : Nat → Checked Bytes
  | 0 => .ok out
  | n + 1 => do
    let offset := index * 2
    let hi ← Checked.index psk offset
    let hi ← Checked.ofExcept (decodeHexNibble hi)
    let lo ← Checked.index psk (offset + 1)
    let lo ← Checked.ofExcept (decodeHexNibble lo)
    decodePskLoop psk (index + 1) (out.set index ((hi <<< 4) ||| lo)) n

def decodePsk (psk : String) : Checked Bytes :=
  let psk := trim psk.toList
  if (encode psk).length ≠ pskHexLen then .failed s!"psk must be {pskHexLen} hex chars"
  else decodePskLoop (encode psk) 0 (List.replicate pskLen 0) pskLen

/-! ### Nibbles -/

/-- A byte that is no ASCII is taken for the character of that number, which is no digit either. -/
theorem decodeHexNibble_eq (b : UInt8) :
    decodeHexNibble b = if Hex.IsDigit (Char.ofNat b.toNat) then .ok (UInt8.ofNat (Hex.value (Char.ofNat b.toNat)))
      else .error "psk must contain only hex chars" := by
  have hvalue : (decodeHexNibble b).toOption =
      if Hex.IsDigit (Char.ofNat b.toNat) then some (UInt8.ofNat (Hex.value (Char.ofNat b.toNat))) else none := by
    revert b
    apply forall_byte
    decide +kernel
  by_cases hdigit : Hex.IsDigit (Char.ofNat b.toNat)
  · rw [if_pos hdigit] at hvalue ⊢
    cases h : decodeHexNibble b with
    | ok value =>
      rw [h] at hvalue
      exact congrArg Except.ok (Option.some.inj hvalue)
    | error error =>
      rw [h] at hvalue
      cases hvalue
  · rw [if_neg hdigit] at hvalue ⊢
    unfold decodeHexNibble at hvalue ⊢
    split_ifs at hvalue ⊢
    · cases hvalue
    · cases hvalue
    · cases hvalue
    · rfl

theorem nibbles_or {hi lo : Nat} (hhi : hi < 16) (hlo : lo < 16) :
    (UInt8.ofNat hi <<< 4) ||| UInt8.ofNat lo = UInt8.ofNat (16 * hi + lo) := by
  have hall : ∀ hi < 16, ∀ lo < 16, (UInt8.ofNat hi <<< 4) ||| UInt8.ofNat lo = UInt8.ofNat (16 * hi + lo) := by
    decide +kernel
  exact hall hi hhi lo hlo

theorem index_nibble {psk rest : Bytes} {i : Nat} {b : UInt8} (h : psk.drop i = b :: rest) {β : Type}
    (f : UInt8 → Checked β) :
    (Checked.index psk i >>= fun b => Checked.ofExcept (decodeHexNibble b) >>= f) =
      if Hex.IsDigit (Char.ofNat b.toNat) then f (UInt8.ofNat (Hex.value (Char.ofNat b.toNat)))
      else .failed "psk must contain only hex chars" := by
  rw [Checked.index_eq h, Checked.ok_bind, decodeHexNibble_eq]
  split
  · rfl
  · rfl

/-! ### The loop -/

/-- Behind `index` bytes of the key the loop decodes what is left of the text. -/
theorem decodePskLoop_eq {psk : Bytes} {index n : Nat} {out : Bytes} (hpsk : psk.length = 2 * (index + n))
    (hout : out.length = index + n) :
    decodePskLoop psk index out n =
      match Hex.decode (ascii (psk.drop (2 * index))) with
      | some tail => .ok (out.take index ++ tail)
      | none => .failed "psk must contain only hex chars" := by
  induction n generalizing index out with
  | zero =>
    have hdrop : psk.drop (2 * index) = [] := List.drop_eq_nil_of_le (by omega)
    have htake : out.take index = out := List.take_of_length_le (by omega)
    rw [decodePskLoop, hdrop, ascii_nil, Hex.decode, htake]
    simp only [List.append_nil]
  | succ n ih =>
    obtain ⟨hi, lo, hdrop⟩ : ∃ hi lo, psk.drop (2 * index) = hi :: lo :: psk.drop (2 * (index + 1)) := by
      refine ⟨psk[2 * index], psk[2 * index + 1], ?_⟩
      rw [List.drop_eq_getElem_cons (by omega), List.drop_eq_getElem_cons (by omega)]
      rfl
    have hhi : psk.drop (index * 2) = hi :: lo :: psk.drop (2 * (index + 1)) := by
      rw [Nat.mul_comm, hdrop]
    have hlo : psk.drop (index * 2 + 1) = lo :: psk.drop (2 * (index + 1)) := by
      rw [← List.drop_drop, hhi]
      rfl
    have hlength : ∀ byte, (out.set index byte).length = index + 1 + n := by
      intro byte
      rw [List.length_set]
      omega
    have hnext := fun byte => ih (show psk.length = 2 * (index + 1 + n) by omega) (hlength byte)
    have htake : ∀ byte, (out.set index byte).take (index + 1) = out.take index ++ [byte] := by
      intro byte
      rw [List.take_succ_eq_append_getElem (by rw [List.length_set]; omega), List.getElem_set_self,
        List.take_set_of_le (Nat.le_refl _)]
    have hascii : ascii (psk.drop (2 * index)) =
        Char.ofNat hi.toNat :: Char.ofNat lo.toNat :: ascii (psk.drop (2 * (index + 1))) := by
      rw [hdrop]
      rfl
    rw [decodePskLoop, index_nibble hhi, hascii]
    simp only [index_nibble hlo]
    by_cases hdigits : Hex.IsDigit (Char.ofNat hi.toNat) ∧ Hex.IsDigit (Char.ofNat lo.toNat)
    · rw [if_pos hdigits.1, if_pos hdigits.2, hnext, nibbles_or (Hex.value_lt _) (Hex.value_lt _), htake,
        Hex.decode, if_pos hdigits]
      cases Hex.decode (ascii (psk.drop (2 * (index + 1)))) with
      | none => rfl
      | some tail => simp
    · rw [Hex.decode, if_neg hdigits]
      split
      · rename_i hhi'
        rw [if_neg fun hlo' => hdigits ⟨hhi', hlo'⟩]
      · rfl

/-! ### The key of a text -/

theorem isDigit_lt {c : Char} (h : Hex.IsDigit c) : c.toNat < 128 := by
  obtain ⟨n, hn, rfl, -⟩ := Hex.isDigit_cases h
  revert n
  decide

theorem isDigit_not_whitespace {c : Char} (h : Hex.IsDigit c) : isWhitespace c = false := by
  obtain ⟨n, hn, rfl, hdigit⟩ := Hex.isDigit_cases h
  revert n
  decide

/-- Bytes that are taken for digits are ASCII. -/
theorem lt_of_isDigit {b : UInt8} (h : Hex.IsDigit (Char.ofNat b.toNat)) : b.toNat < 128 := by
  revert b
  apply forall_byte
  decide +kernel

theorem decode_ascii {text : List Char} {key : Bytes} (h : Hex.decode (ascii (encode text)) = some key) :
    ascii (encode text) = text := by
  obtain ⟨-, hdigits, -⟩ := Hex.decode_eq_some h
  apply encode_injective
  apply encode_ascii
  intro b hb
  exact lt_of_isDigit (hdigits _ (List.mem_map.mpr ⟨b, hb, rfl⟩))

/-- The key a text is decoded to. -/
theorem decodePsk_eq_ok {s : String} {key : Bytes} :
    decodePsk s = .ok key ↔ (trim s.toList).length = pskHexLen ∧ Hex.decode (trim s.toList) = some key := by
  constructor
  · intro h
    simp only [decodePsk] at h
    split at h
    · cases h
    · rename_i hlen
      rw [not_not] at hlen
      rw [decodePskLoop_eq (by rw [hlen]; rfl) (by simp)] at h
      split at h
      · rename_i tail htail
        obtain rfl : tail = key := by simpa using h
        rw [Nat.mul_zero, List.drop_zero] at htail
        have hascii := decode_ascii htail
        rw [hascii] at htail
        refine ⟨?_, htail⟩
        rw [← hascii, ascii, List.length_map, hlen]
      · cases h
  · intro h
    obtain ⟨hlen, hdecode⟩ := h
    obtain ⟨-, hdigits, -⟩ := Hex.decode_eq_some hdecode
    obtain ⟨hascii, hbytes⟩ := ascii_of_lt fun c hc => isDigit_lt (hdigits c hc)
    have hsize : (encode (trim s.toList)).length = pskHexLen := hbytes.trans hlen
    simp only [decodePsk]
    rw [if_neg (by rw [not_not]; exact hsize), decodePskLoop_eq (by rw [hsize]; rfl) (by simp), Nat.mul_zero,
      List.drop_zero, hascii, hdecode]
    rfl

theorem decodePsk_isOk {s : String} :
    (∃ key, decodePsk s = .ok key) ↔
      (trim s.toList).length = pskHexLen ∧ ∀ c ∈ trim s.toList, Hex.IsDigit c := by
  constructor
  · intro h
    obtain ⟨key, hkey⟩ := h
    obtain ⟨hlen, hdecode⟩ := decodePsk_eq_ok.mp hkey
    exact ⟨hlen, (Hex.decode_eq_some hdecode).2.1⟩
  · intro h
    obtain ⟨key, hkey, -⟩ := Hex.decode_of_digits (n := pskLen) (by rw [h.1]; rfl) h.2
    exact ⟨key, decodePsk_eq_ok.mpr ⟨h.1, hkey⟩⟩

/-- Every index is inside the text. -/
theorem decodePsk_ne_panicked (s : String) : decodePsk s ≠ .panicked := by
  simp only [decodePsk]
  split
  · simp
  · rename_i hlen
    rw [decodePskLoop_eq (by rw [not_not.mp hlen]; rfl) (by simp)]
    split <;> simp

theorem decodePsk_failed {s : String} (h : ¬ ∃ key, decodePsk s = .ok key) : ∃ error, decodePsk s = .failed error := by
  cases hs : decodePsk s with
  | ok key => exact absurd ⟨key, hs⟩ h
  | failed error => exact ⟨error, rfl⟩
  | panicked => exact absurd hs (decodePsk_ne_panicked s)

example : decodePsk "g123456789abcdef0123456789abcdef0123456789abcdef0123456789abcdef" =
    .failed "psk must contain only hex chars" := by decide +kernel

/-- What `trim` takes away stands at the two ends. -/
theorem trim_split (s : List Char) : ∃ leading trailing, s = leading ++ trim s ++ trailing := by
  refine ⟨s.takeWhile isWhitespace, ((s.dropWhile isWhitespace).reverse.takeWhile isWhitespace).reverse, ?_⟩
  rw [trim, List.append_assoc, ← List.reverse_append, List.takeWhile_append_dropWhile, List.reverse_reverse,
    List.takeWhile_append_dropWhile]

theorem trim_eq_of_size {s : List Char} (h : (encode s).length ≤ (encode (trim s)).length) : trim s = s := by
  obtain ⟨leading, trailing, hs⟩ := trim_split s
  have hsize := congrArg (fun t => (encode t).length) hs
  simp only [encode_append, List.length_append] at hsize
  have hleading : encode leading = [] := List.eq_nil_of_length_eq_zero (by omega)
  have htrailing : encode trailing = [] := List.eq_nil_of_length_eq_zero (by omega)
  rw [encode_eq_nil] at hleading htrailing
  rw [hleading, htrailing, List.nil_append, List.append_nil] at hs
  exact hs.symm

theorem trim_digits {text : List Char} (h : ∀ c ∈ text, Hex.IsDigit c) : trim text = text :=
  trim_eq_self (fun c hc => isDigit_not_whitespace (h c (List.mem_of_mem_head? hc)))
    fun c hc => isDigit_not_whitespace (h c (List.mem_of_getLast? hc))

/-- The digits of a key, whichever of them are capitals, decode to it. -/
theorem decodePsk_text {key : Bytes} (hkey : key.length = pskLen) (upper : Nat → Bool) :
    decodePsk (String.ofList (Hex.text upper key)) = .ok key := by
  have hdecode := Hex.decode_text upper key
  obtain ⟨hsize, hdigits, -⟩ := Hex.decode_eq_some hdecode
  rw [decodePsk_eq_ok, String.toList_ofList, trim_digits hdigits]
  refine ⟨?_, hdecode⟩
  rw [hsize, hkey]
  rfl

/-- A character of several bytes is no digit. -/
theorem decodePsk_of_wide {s : String} (h : ∃ c ∈ trim s.toList, 1 < (encode [c]).length) :
    ∃ error, decodePsk s = .failed error := by
  apply decodePsk_failed
  intro hok
  obtain ⟨-, hdigits⟩ := decodePsk_isOk.mp hok
  obtain ⟨c, hc, hwide⟩ := h
  have hone : (encode [c]).length = 1 := (ascii_of_lt (by simpa using isDigit_lt (hdigits c hc))).2
  omega

/-- **A text is a key exactly if it is 64 hexadecimal digits, and the key is what they spell.** -/
theorem psk_is_hex_text :
    (∀ s : String, (∃ key, decodePsk s = .ok key) ↔
      (trim s.toList).length = 64 ∧ ∀ c ∈ trim s.toList, Hex.IsDigit c) ∧
    (∀ (s : String) (key : Bytes), decodePsk s = .ok key → key.length = 32 ∧
      ∀ i < 32, (key.getD i 0).toNat =
        16 * Hex.value ((trim s.toList).getD (2 * i) '0') + Hex.value ((trim s.toList).getD (2 * i + 1) '0')) ∧
    (∀ (key : Bytes) (upper : Nat → Bool), key.length = 32 →
      decodePsk (String.ofList (Hex.text upper key)) = .ok key) ∧
    (∀ s : String, (encode s.toList).length = 64 → (∃ c ∈ s.toList, 1 < (encode [c]).length) →
      ∃ error, decodePsk s = .failed error) ∧
    (∀ s : String, (∃ c ∈ trim s.toList, 1 < (encode [c]).length) → ∃ error, decodePsk s = .failed error) ∧
    (∀ s : String, decodePsk s ≠ .panicked) := by
  refine ⟨fun s => decodePsk_isOk, ?_, fun key upper hkey => decodePsk_text hkey upper, ?_,
    fun s => decodePsk_of_wide, decodePsk_ne_panicked⟩
  · intro s key h
    obtain ⟨hlen, hdecode⟩ := decodePsk_eq_ok.mp h
    obtain ⟨hsize, -, hvalues⟩ := Hex.decode_eq_some hdecode
    have hkey : key.length = 32 := by
      rw [hlen, pskHexLen, pskLen] at hsize
      omega
    rw [hkey] at hvalues
    exact ⟨hkey, hvalues⟩
  · intro s hsize hwide
    by_cases htrim : trim s.toList = s.toList
    · rw [← htrim] at hwide
      exact decodePsk_of_wide hwide
    · -- less than 64 bytes are left
      apply decodePsk_failed
      intro h
      obtain ⟨hlen, hdigits⟩ := decodePsk_isOk.mp h
      have hbytes := (ascii_of_lt fun c hc => isDigit_lt (hdigits c hc)).2
      rw [hlen] at hbytes
      exact htrim (trim_eq_of_size (by rw [hsize, hbytes]; rfl))

end Rps.Core
