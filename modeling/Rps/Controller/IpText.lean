import Mathlib.Data.List.TakeWhile
import Rps.Controller.Socks5

/-! The text of an IP address, read back.

A response to a datagram is encoded from the text of its address (`encode_udp_response`
parses `host`). What `str::parse` has to do for this is `IpText.ParsesBack`; here is a reader
that does it, for the texts that the standard library writes: octets between dots, segments
between colons, one run of zero segments left out, and a mapped IPv4 address. -/
namespace Rps.Controller.Socks5
open Base

/-- `str::parse` for the two address types of the standard library, as octets. -/
structure IpText where
  parseIpv4 : String → Except String Bytes
  parseIpv6 : String → Except String Bytes

/-- The text of an address is read back as the address. -/
structure IpText.ParsesBack (ip : IpText) : Prop where
  ipv4 : ∀ octets, octets.length = 4 → ip.parseIpv4 (ipv4ToString octets) = .ok octets
  ipv6 : ∀ octets, octets.length = 16 → ip.parseIpv6 (ipv6ToString octets) = .ok octets

/-! ### Digits -/

def digitValue (c : Char) : Nat := if c.isDigit then c.toNat - 48 else c.toNat - 87

def readDigits (base : Nat) (digits : List Char) : Nat :=
  digits.foldl (fun n c => base * n + digitValue c) 0

theorem digitValue_digitChar {n : Nat} (h : n < 16) : digitValue n.digitChar = n := by
  revert n
  decide

theorem readDigits_toDigits {base : Nat} (hbase : 1 < base) (hle : base ≤ 16) (n : Nat) :
    readDigits base (Nat.toDigits base n) = n := by
  induction n using Nat.strongRecOn with
  | ind n ih =>
    rw [Nat.toDigits_eq_if hbase]
    split
    · rename_i hlt
      simp [readDigits, digitValue_digitChar (show n < 16 by omega)]
    · rename_i hge
      have hdiv := ih (n / base) (Nat.div_lt_self (by omega) hbase)
      have hmod : n % base < 16 := lt_of_lt_of_le (Nat.mod_lt n (by omega)) hle
      rw [readDigits] at hdiv ⊢
      rw [List.foldl_append, hdiv]
      simp [digitValue_digitChar hmod, Nat.div_add_mod]

/-- A digit of a base up to sixteen is neither a dot nor a colon. -/
theorem not_mem_toDigits {c : Char} (hc : c = '.' ∨ c = ':') {base : Nat} (hbase : 1 < base) (hle : base ≤ 16) (n : Nat) :
    c ∉ Nat.toDigits base n := by
  have hdigit : ∀ d < 16, Nat.digitChar d ≠ c := by
    rcases hc with rfl | rfl <;> decide
  induction n using Nat.strongRecOn with
  | ind n ih =>
    rw [Nat.toDigits_eq_if hbase]
    split
    · rename_i hlt
      simpa using (hdigit n (by omega)).symm
    · rename_i hge
      have hmod := hdigit (n % base) (lt_of_lt_of_le (Nat.mod_lt n (by omega)) hle)
      have hdiv := ih (n / base) (Nat.div_lt_self (by omega) hbase)
      simp [hdiv, hmod.symm]

/-! ### Dotted decimals -/

/-- The octets of dotted decimals. -/
def readIpv4 (text : List Char) : Bytes := (text.splitOn '.').map fun part => UInt8.ofNat (readDigits 10 part)

theorem readIpv4_ipv4ToString {octets : Bytes} (h : octets ≠ []) : readIpv4 (ipv4ToString octets).toList = octets := by
  have htext : (ipv4ToString octets).toList = ['.'].intercalate (octets.map fun b => Nat.toDigits 10 b.toNat) := by
    rw [ipv4ToString, String.toList_intercalate, List.map_map]
    congr 1
    refine List.map_congr_left fun b _ => ?_
    show (toString b.toNat).toList = _
    rw [Nat.toString_eq_ofList_toDigits, String.toList_ofList]
  rw [readIpv4, htext, List.splitOn_intercalate]
  · rw [List.map_map]
    conv_rhs => rw [← List.map_id octets]
    refine List.map_congr_left fun b _ => ?_
    simp [readDigits_toDigits]
  · intro part hpart
    obtain ⟨b, -, rfl⟩ := List.mem_map.mp hpart
    exact not_mem_toDigits (.inl rfl) (by omega) (by omega) _
  · simpa using h

/-! ### Segments -/

/-- The segments between colons; an empty one stands for the zeroes that are missing. -/
def readSegments (text : List Char) : List Nat :=
  let parts := text.splitOn ':'
  let head := parts.takeWhile (· ≠ [])
  let tail := (parts.reverse.takeWhile (· ≠ [])).reverse
  if head = parts then parts.map (readDigits 16)
  else
    head.map (readDigits 16) ++ List.replicate (8 - head.length - tail.length) 0 ++ tail.map (readDigits 16)

def hexDigits (segment : Nat) : List Char := Nat.toDigits 16 segment

/-- The parts of segments, of which there is one even if there are no segments. -/
def colonParts (chunk : List Nat) : List (List Char) := if chunk = [] then [[]] else chunk.map hexDigits

theorem colonParts_ne_nil (chunk : List Nat) : colonParts chunk ≠ [] := by
  unfold colonParts
  split
  · simp
  · simpa

theorem not_colon_of_mem_colonParts {chunk : List Nat} {part : List Char} (h : part ∈ colonParts chunk) :
    ':' ∉ part := by
  unfold colonParts at h
  split at h
  · simp_all
  · obtain ⟨n, -, rfl⟩ := List.mem_map.mp h
    exact not_mem_toDigits (.inr rfl) (by omega) (by omega) _

theorem fmtSubslice_toList (chunk : List Nat) : (fmtSubslice chunk).toList = [':'].intercalate (colonParts chunk) := by
  rw [fmtSubslice, String.toList_intercalate, List.map_map, colonParts]
  split
  · rename_i h
    rw [h]
    rfl
  · congr 1
    refine List.map_congr_left fun n _ => ?_
    simp [hexDigits]

/-- Up to the first part that is empty, the segments before it are read. -/
theorem takeWhile_colonParts (chunk : List Nat) (rest : List (List Char)) :
    (colonParts chunk ++ [] :: rest).takeWhile (· ≠ []) = chunk.map hexDigits := by
  have hne : ∀ part ∈ chunk.map hexDigits, decide (part ≠ []) = true := by
    intro part hpart
    obtain ⟨n, -, rfl⟩ := List.mem_map.mp hpart
    simp [hexDigits]
  unfold colonParts
  split
  · rename_i h
    simp [h]
  · rw [List.takeWhile_append_of_pos hne]
    simp

theorem reverse_colonParts (chunk : List Nat) : (colonParts chunk).reverse = colonParts chunk.reverse := by
  unfold colonParts
  split
  · rename_i h
    simp [h]
  · rename_i h
    simp [h]

theorem map_readDigits (chunk : List Nat) : (chunk.map hexDigits).map (readDigits 16) = chunk := by
  rw [List.map_map]
  conv_rhs => rw [← List.map_id chunk]
  refine List.map_congr_left fun n _ => ?_
  exact readDigits_toDigits (by omega) (by omega) n

theorem readSegments_plain {chunk : List Nat} (h : chunk ≠ []) : readSegments (fmtSubslice chunk).toList = chunk := by
  have hparts : ([':'].intercalate (colonParts chunk)).splitOn ':' = chunk.map hexDigits := by
    rw [List.splitOn_intercalate _ (fun _ => not_colon_of_mem_colonParts) (colonParts_ne_nil chunk), colonParts, if_neg h]
  have hall : (chunk.map hexDigits).takeWhile (· ≠ []) = chunk.map hexDigits := by
    rw [List.takeWhile_eq_self_iff]
    intro part hpart
    obtain ⟨n, -, rfl⟩ := List.mem_map.mp hpart
    simp [hexDigits]
  rw [fmtSubslice_toList, readSegments, hparts]
  simp only [hall, if_true]
  exact map_readDigits chunk

theorem intercalate_append {sep : List Char} {l m : List (List Char)} (hl : l ≠ []) (hm : m ≠ []) :
    sep.intercalate (l ++ m) = sep.intercalate l ++ sep ++ sep.intercalate m := by
  induction l with
  | nil => exact absurd rfl hl
  | cons part l ih =>
    cases l with
    | nil => rw [List.singleton_append, List.intercalate_cons_of_ne_nil hm, List.intercalate_singleton]
    | cons next l =>
      rw [List.cons_append, List.intercalate_cons_of_ne_nil (by simp), ih (by simp), List.intercalate_cons_cons]
      simp only [List.append_assoc]

theorem readSegments_compressed (a b : List Nat) :
    readSegments (fmtSubslice a ++ "::" ++ fmtSubslice b).toList =
      a ++ List.replicate (8 - a.length - b.length) 0 ++ b := by
  have htext : (fmtSubslice a ++ "::" ++ fmtSubslice b).toList =
      [':'].intercalate (colonParts a ++ [] :: colonParts b) := by
    rw [intercalate_append (colonParts_ne_nil a) (by simp), List.intercalate_cons_of_ne_nil (colonParts_ne_nil b),
      String.toList_append, String.toList_append, fmtSubslice_toList, fmtSubslice_toList]
    simp
  have hparts : ([':'].intercalate (colonParts a ++ [] :: colonParts b)).splitOn ':' = colonParts a ++ [] :: colonParts b := by
    refine List.splitOn_intercalate _ (fun part hpart => ?_) (by simp)
    rcases List.mem_append.mp hpart with hpart | hpart
    · exact not_colon_of_mem_colonParts hpart
    · rcases List.mem_cons.mp hpart with rfl | hpart
      · simp
      · exact not_colon_of_mem_colonParts hpart
  have htail : (colonParts a ++ [] :: colonParts b).reverse = colonParts b.reverse ++ [] :: colonParts a.reverse := by
    simp [reverse_colonParts]
  have hnot : a.map hexDigits ≠ colonParts a ++ [] :: colonParts b := by
    intro heq
    have hmem : [] ∈ a.map hexDigits := by
      rw [heq]
      simp
    obtain ⟨n, -, hn⟩ := List.mem_map.mp hmem
    simp [hexDigits] at hn
  rw [htext, readSegments, hparts]
  simp only [takeWhile_colonParts, htail, if_neg hnot, ← List.map_reverse, List.reverse_reverse, List.length_map,
    map_readDigits]

/-- One more segment of the search for the longest run. -/
theorem zeroes_fold : ∃ f : Span × Span → Nat × Nat → Span × Span,
    (∀ segments, zeroes segments = (segments.zipIdx.foldl f ({}, {})).1) ∧
      (∀ longest current i, f (longest, current) (0, i) =
        let next : Span := ⟨if current.len = 0 then i else current.start, current.len + 1⟩
        (if next.len > longest.len then next else longest, next)) ∧
      ∀ longest current segment i, segment ≠ 0 → f (longest, current) (segment, i) = (longest, {}) := by
  refine ⟨_, fun _ => rfl, fun _ _ _ => rfl, fun longest current segment i h => ?_⟩
  exact if_neg h

/-- The run that is found is one of zeroes. -/
theorem zeroes_eq (segments : List Nat) : ∃ a b, segments = a ++ List.replicate (zeroes segments).len 0 ++ b ∧
    a.length = (zeroes segments).start := by
  obtain ⟨f, hzeroes, hzero, hother⟩ := zeroes_fold
  -- the longest run so far, and the run at the end
  have hfold : ∀ (longest current : Span), segments.zipIdx.foldl f ({}, {}) = (longest, current) →
      (∃ a b, segments = a ++ List.replicate longest.len 0 ++ b ∧ a.length = longest.start) ∧
        ∃ a, segments = a ++ List.replicate current.len 0 ∧ (current.len ≠ 0 → a.length = current.start) := by
    induction segments using List.reverseRecOn with
    | nil =>
      intro longest current h
      cases h
      exact ⟨⟨[], [], rfl, rfl⟩, [], rfl, fun _ => rfl⟩
    | append_singleton segments segment ih =>
      intro longest' current' h
      rw [List.zipIdx_append, List.foldl_append] at h
      generalize segments.zipIdx.foldl f _ = before at h ih
      obtain ⟨longest, current⟩ := before
      obtain ⟨⟨a, b, hlongest, ha⟩, c, hcurrent, hc⟩ := ih longest current rfl
      simp only [List.zipIdx_cons, List.zipIdx_nil, List.foldl_cons, List.foldl_nil, Nat.zero_add] at h
      by_cases hsegment : segment = 0
      · subst hsegment
        rw [hzero] at h
        obtain ⟨rfl, rfl⟩ := Prod.mk.inj h
        have hrun : segments ++ [0] = c ++ List.replicate (current.len + 1) 0 := by
          rw [hcurrent, List.replicate_succ', List.append_assoc]
        have hstart : c.length = if current.len = 0 then segments.length else current.start := by
          split
          · rename_i hlen
            rw [hcurrent, hlen]
            simp
          · rename_i hlen
            exact hc hlen
        refine ⟨?_, c, hrun, fun _ => hstart⟩
        by_cases hlonger : current.len + 1 > longest.len
        · rw [if_pos hlonger]
          exact ⟨c, [], by rw [hrun, List.append_nil], hstart⟩
        · rw [if_neg hlonger]
          exact ⟨a, b ++ [0], by rw [hlongest]; simp, ha⟩
      · rw [hother _ _ _ _ hsegment] at h
        obtain ⟨rfl, rfl⟩ := Prod.mk.inj h
        exact ⟨⟨a, b ++ [segment], by rw [hlongest]; simp, ha⟩, segments ++ [segment], by simp, fun h => absurd rfl h⟩
  rw [hzeroes]
  exact (hfold _ _ rfl).1

theorem segments_flatMap {octets : Bytes} {n : Nat} (h : octets.length = 2 * n) :
    (segments octets).length = n ∧ (segments octets).flatMap (toBe 2) = octets := by
  induction n generalizing octets with
  | zero =>
    obtain rfl := List.length_eq_zero_iff.mp h
    exact ⟨rfl, rfl⟩
  | succ n ih =>
    match octets, h with
    | high :: low :: rest, h =>
      obtain ⟨hlen, hflat⟩ := @ih rest (by simp at h; omega)
      have hbe : toBe 2 (ofBe [high, low]) = [high, low] := toBe_ofBe rfl
      rw [segments]
      exact ⟨by rw [List.length_cons, hlen], by rw [List.flatMap_cons, hbe, hflat]; rfl⟩

/-! ### IPv6 addresses -/

/-- The octets of the text of an IPv6 address. -/
def readIpv6 (text : List Char) : Bytes :=
  if '.' ∈ text then List.replicate 10 0 ++ [0xff, 0xff] ++ readIpv4 (text.drop 7)
  else (readSegments text).flatMap (toBe 2)

theorem dot_not_mem_fmtSubslice (chunk : List Nat) : '.' ∉ (fmtSubslice chunk).toList := by
  rw [fmtSubslice, String.toList_intercalate, List.map_map]
  intro hmem
  have hall : ∀ l : List Nat, '.' ∉ ":".toList.intercalate (l.map fun n => Nat.toDigits 16 n) := by
    intro l
    induction l with
    | nil => simp
    | cons n l ih =>
      have hn : '.' ∉ Nat.toDigits 16 n := not_mem_toDigits (.inl rfl) (by omega) (by omega) n
      cases l with
      | nil => simpa using hn
      | cons m l =>
        rw [List.map_cons, List.intercalate_cons_of_ne_nil (by simp), List.mem_append, List.mem_append]
        rintro ((h | h) | h)
        · exact hn h
        · exact absurd h (by decide)
        · exact ih h
  refine hall chunk ?_
  simpa [Function.comp_def] using hmem

theorem dot_mem_ipv4ToString {octets : Bytes} (h : octets.length = 4) : '.' ∈ (ipv4ToString octets).toList := by
  match octets, h with
  | [a, b, c, d], _ =>
    rw [ipv4ToString, String.toList_intercalate]
    simp

theorem readIpv6_ipv6ToString {octets : Bytes} (h : octets.length = 16) :
    readIpv6 (ipv6ToString octets).toList = octets := by
  unfold ipv6ToString
  split
  · rename_i hmapped
    have hlen : (octets.drop 12).length = 4 := by rw [List.length_drop, h]
    have hdrop : ("::ffff:" ++ ipv4ToString (octets.drop 12)).toList.drop 7 = (ipv4ToString (octets.drop 12)).toList := by
      rw [String.toList_append]
      rfl
    rw [readIpv6, if_pos, hdrop, readIpv4_ipv4ToString (by rw [← List.length_pos_iff]; omega), ← hmapped,
      List.take_append_drop]
    rw [String.toList_append]
    exact List.mem_append_right _ (dot_mem_ipv4ToString hlen)
  · obtain ⟨hsegments, hflat⟩ := segments_flatMap (n := 8) h
    simp only
    split
    · obtain ⟨a, b, hsplit, ha⟩ := zeroes_eq (segments octets)
      generalize zeroes (segments octets) = span at hsplit ha
      have htake : (segments octets).take span.start = a := by
        rw [← ha, hsplit, List.append_assoc, List.take_left]
      have hdrop : (segments octets).drop (span.start + span.len) = b := by
        rw [← ha, hsplit]
        exact List.drop_left' (by simp)
      have hcount : 8 - a.length - b.length = span.len := by
        have := congrArg List.length hsplit
        simp only [List.length_append, List.length_replicate] at this
        omega
      rw [htake, hdrop, readIpv6, if_neg, readSegments_compressed, hcount, ← hsplit, hflat]
      rw [String.toList_append, String.toList_append, List.mem_append, List.mem_append]
      rintro ((h | h) | h)
      · exact dot_not_mem_fmtSubslice _ h
      · exact absurd h (by decide)
      · exact dot_not_mem_fmtSubslice _ h
    · rw [readIpv6, if_neg (dot_not_mem_fmtSubslice _), readSegments_plain (by rw [← List.length_pos_iff]; omega), hflat]

/-! ### The reader -/

/-- The texts that the standard library writes, and no others, are read. -/
def IpText.canonical : IpText where
  parseIpv4 text :=
    let octets := readIpv4 text.toList
    if octets.length = 4 ∧ ipv4ToString octets = text then .ok octets else .error "invalid IPv4 address syntax"
  parseIpv6 text :=
    let octets := readIpv6 text.toList
    if octets.length = 16 ∧ ipv6ToString octets = text then .ok octets else .error "invalid IPv6 address syntax"

theorem IpText.canonical_parsesBack : IpText.canonical.ParsesBack := by
  constructor
  · intro octets h
    have hread : readIpv4 (ipv4ToString octets).toList = octets :=
      readIpv4_ipv4ToString (by rw [← List.length_pos_iff]; omega)
    simp [IpText.canonical, hread, h]
  · intro octets h
    simp [IpText.canonical, readIpv6_ipv6ToString h, h]

end Rps.Controller.Socks5
