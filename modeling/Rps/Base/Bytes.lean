import Mathlib.Data.List.Basic
import Mathlib.Data.List.Induction
import Mathlib.Tactic.Ring

/-! Reading framed messages off a byte stream.

A task that reads a stream with `read_exact` consumes exactly the bytes it asks
for and waits while they have not arrived. A `Reader` is that task as a function
of the bytes that have arrived and are not consumed: it is done with a value and
the rest, or it waits for more, or the bytes cannot be what it reads. Waiting
consumes nothing here: bytes taken early by a waiting `read_exact` are seen by
nobody else.

A reader is `Stable` when bytes that arrive later do not change an outcome it has
already reached. For a stable reader that inverts an encoder (`Delimits`), a
stream cut anywhere yields the encoded values in order and nothing else
(`Delimits.head_of_done`). -/
namespace Rps.Base

abbrev Bytes := List UInt8

/-- What holds of the numbers below 256 holds of every byte. -/
theorem forall_byte {P : UInt8 → Prop} (h : ∀ n < 256, P (UInt8.ofNat n)) (b : UInt8) : P b := by
  have hb := h b.toNat b.toNat_lt
  rwa [UInt8.ofNat_toNat] at hb

/-- The outcome of a read on the bytes that have arrived. -/
inductive Read (α : Type) where
  | more
  | invalid (error : String)
  | done (value : α) (rest : Bytes)
  deriving DecidableEq

def Reader (α : Type) := Bytes → Read α

namespace Reader
variable {α β : Type}

protected def pure (a : α) : Reader α := fun bs => .done a bs

protected def bind (r : Reader α) (f : α → Reader β) : Reader β := fun bs =>
  match r bs with
  | .more => .more
  | .invalid error => .invalid error
  | .done a rest => f a rest

instance : Monad Reader where
  pure := Reader.pure
  bind := Reader.bind

/-- The bytes read so far are refused. -/
def fail (error : String) : Reader α := fun _ => .invalid error

/-- A value computed from what was read, or its error. -/
def ofExcept : Except String α → Reader α
  | .ok a => pure a
  | .error error => fail error

def readExact (n : Nat) : Reader Bytes := fun bs =>
  if bs.length < n then .more else .done (bs.take n) (bs.drop n)

@[simp] theorem pure_apply (a : α) (bs : Bytes) : (pure a : Reader α) bs = .done a bs := rfl

theorem bind_apply (r : Reader α) (f : α → Reader β) (bs : Bytes) :
    (r >>= f) bs = match r bs with
      | .more => .more
      | .invalid error => .invalid error
      | .done a rest => f a rest := rfl

theorem bind_of_done {r : Reader α} {f : α → Reader β} {bs rest : Bytes} {a : α}
    (h : r bs = .done a rest) : (r >>= f) bs = f a rest := by
  rw [bind_apply, h]

@[simp] theorem fail_apply (error : String) (bs : Bytes) :
    (fail error : Reader α) bs = .invalid error := rfl

theorem readExact_append (a b : Bytes) : readExact a.length (a ++ b) = .done a b := by
  simp [readExact]

theorem readExact_of_length {a : Bytes} {n : Nat} (h : a.length = n) (b : Bytes) :
    readExact n (a ++ b) = .done a b := by
  rw [← h]
  exact readExact_append a b

/-! ### Later bytes do not change an outcome -/

structure Stable (r : Reader α) : Prop where
  done : ∀ bs later a rest, r bs = .done a rest → r (bs ++ later) = .done a (rest ++ later)
  invalid : ∀ bs later error, r bs = .invalid error → r (bs ++ later) = .invalid error

theorem Stable.pure (a : α) : Stable (Pure.pure a : Reader α) where
  done := by
    intro bs later b rest h
    simp only [pure_apply, Read.done.injEq] at h ⊢
    exact ⟨h.1, by rw [h.2]⟩
  invalid := by
    intro bs later error h
    simp at h

theorem Stable.fail (error : String) : Stable (Reader.fail error : Reader α) where
  done := by
    intro bs later b rest h
    simp at h
  invalid := by
    intro bs later error' h
    exact h

theorem Stable.readExact (n : Nat) : Stable (Reader.readExact n) where
  done := by
    intro bs later a rest h
    unfold Reader.readExact at h ⊢
    by_cases hn : bs.length < n
    · simp [hn] at h
    · simp only [hn, if_false, Read.done.injEq] at h
      have hn' : ¬ (bs ++ later).length < n := by
        simp only [List.length_append]
        omega
      rw [if_neg hn', List.take_append_of_le_length (by omega), List.drop_append_of_le_length (by omega),
        h.1, h.2]
  invalid := by
    intro bs later error h
    unfold Reader.readExact at h
    split at h <;> cases h

theorem Stable.ofExcept (e : Except String α) : Stable (Reader.ofExcept e) := by
  cases e with
  | ok a => exact Stable.pure a
  | error error => exact Stable.fail error

theorem Stable.bind {r : Reader α} {f : α → Reader β} (hr : Stable r) (hf : ∀ a, Stable (f a)) :
    Stable (r >>= f) where
  done := by
    intro bs later b rest h
    rw [bind_apply] at h ⊢
    cases hbs : r bs with
    | more => simp [hbs] at h
    | invalid error => simp [hbs] at h
    | done a mid =>
      rw [hr.done bs later a mid hbs]
      simp only [hbs] at h
      exact (hf a).done mid later b rest h
  invalid := by
    intro bs later error h
    rw [bind_apply] at h ⊢
    cases hbs : r bs with
    | more => simp [hbs] at h
    | invalid error' =>
      rw [hr.invalid bs later error' hbs]
      simpa [hbs] using h
    | done a mid =>
      rw [hr.done bs later a mid hbs]
      simp only [hbs] at h
      exact (hf a).invalid mid later error h

theorem Stable.ite {c : Prop} [Decidable c] {r r' : Reader α} (hr : Stable r) (hr' : Stable r') :
    Stable (if c then r else r') := by
  split
  · exact hr
  · exact hr'

/-! ### Self-delimiting encodings -/

/-- The encodings of a list of messages, one after another. -/
def encodeAll (encode : α → Bytes) (messages : List α) : Bytes := messages.flatMap encode

@[simp] theorem encodeAll_nil (encode : α → Bytes) : encodeAll encode [] = [] := rfl

@[simp] theorem encodeAll_cons (encode : α → Bytes) (a : α) (rest : List α) :
    encodeAll encode (a :: rest) = encode a ++ encodeAll encode rest := rfl

@[simp] theorem encodeAll_append (encode : α → Bytes) (a b : List α) :
    encodeAll encode (a ++ b) = encodeAll encode a ++ encodeAll encode b := by
  simp [encodeAll]

/-- The outputs of a writer that accepts every message are their encodings. -/
theorem mapM_write {write : α → Except String Bytes} {encode : α → Bytes} (messages : List α)
    (hwrite : ∀ a ∈ messages, write a = .ok (encode a)) :
    ∃ outputs, messages.mapM write = .ok outputs ∧ outputs.flatten = encodeAll encode messages := by
  induction messages with
  | nil => exact ⟨[], rfl, rfl⟩
  | cons a rest ih =>
    obtain ⟨outputs, houtputs, hflat⟩ := ih fun b hb => hwrite b (List.mem_cons_of_mem a hb)
    refine ⟨encode a :: outputs, ?_, by rw [List.flatten_cons, hflat, encodeAll_cons]⟩
    rw [List.mapM_cons, hwrite a (List.mem_cons_self ..), houtputs]
    rfl

/-- On the messages `ok` admits, `r` reads one encoding off the front of a stream
and leaves the rest; with nothing arrived it waits. -/
structure Delimits (ok : α → Prop) (encode : α → Bytes) (r : Reader α) : Prop where
  stable : Stable r
  nil : r [] = .more
  read : ∀ a rest, ok a → r (encode a ++ rest) = .done a rest

variable {ok : α → Prop} {encode : α → Bytes} {r : Reader α}

/-- **What a cut stream yields.** `arrived` is what the reader can see of a stream
of encodings, `later` the part still on its way: a read that is done took the
first message, exactly. -/
theorem Delimits.head_of_done (hd : Delimits ok encode r) {messages : List α}
    (hok : ∀ a ∈ messages, ok a) {arrived later rest : Bytes} {a : α}
    (hs : arrived ++ later = encodeAll encode messages) (h : r arrived = .done a rest) :
    ∃ tail, messages = a :: tail ∧ rest ++ later = encodeAll encode tail := by
  have h' := hd.stable.done arrived later a rest h
  rw [hs] at h'
  cases messages with
  | nil => simp [hd.nil] at h'
  | cons b tail =>
    rw [encodeAll_cons, hd.read b _ (hok b (List.mem_cons_self ..))] at h'
    simp only [Read.done.injEq] at h'
    exact ⟨tail, by rw [h'.1], h'.2.symm⟩

/-- A stream of encodings is never refused. -/
theorem Delimits.not_invalid (hd : Delimits ok encode r) {messages : List α}
    (hok : ∀ a ∈ messages, ok a) {arrived later : Bytes} {error : String}
    (hs : arrived ++ later = encodeAll encode messages) : r arrived ≠ .invalid error := by
  intro h
  have h' := hd.stable.invalid arrived later error h
  rw [hs] at h'
  cases messages with
  | nil => simp [hd.nil] at h'
  | cons b tail =>
    rw [encodeAll_cons, hd.read b _ (hok b (List.mem_cons_self ..))] at h'
    cases h'

/-- A cut encoding is not read: the reader waits for the rest of it. -/
theorem Delimits.more_of_cut (hd : Delimits ok encode r) {a : α} (ha : ok a) {cut missing : Bytes}
    (hs : cut ++ missing = encode a) (hne : missing ≠ []) : r cut = .more := by
  have hread : r (cut ++ missing) = .done a [] := by
    have := hd.read a [] ha
    rwa [List.append_nil, ← hs] at this
  cases hcut : r cut with
  | more => rfl
  | invalid error =>
    rw [hd.stable.invalid cut missing error hcut] at hread
    cases hread
  | done b rest =>
    rw [hd.stable.done cut missing b rest hcut] at hread
    simp only [Read.done.injEq, List.append_eq_nil_iff] at hread
    exact absurd hread.2.2 hne

/-! ### Reading one message after another -/

/-- `n` reads, one after another. -/
def readMany (r : Reader α) : Nat → Reader (List α)
  | 0 => pure []
  | n + 1 => do
    let a ← r
    let rest ← readMany r n
    pure (a :: rest)

/-- The messages written one after another are read back, and what is behind the last
one is left. -/
theorem Delimits.readMany (hd : Delimits ok encode r) (messages : List α) (hok : ∀ a ∈ messages, ok a)
    (suffix : Bytes) :
    Reader.readMany r messages.length (encodeAll encode messages ++ suffix) = .done messages suffix := by
  induction messages with
  | nil => rfl
  | cons a rest ih =>
    have hrest := ih fun b hb => hok b (List.mem_cons_of_mem a hb)
    rw [encodeAll_cons, List.append_assoc, List.length_cons, Reader.readMany,
      bind_of_done (hd.read a _ (hok a (List.mem_cons_self ..))), bind_of_done hrest, pure_apply]

/-- What a writer put on the stream is read back, and what is behind it is left. -/
theorem Delimits.readMany_written (hd : Delimits ok encode r) {write : α → Except String Bytes}
    (hwrite : ∀ a, ok a → write a = .ok (encode a)) (messages : List α) (hok : ∀ a ∈ messages, ok a)
    (suffix : Bytes) :
    ∃ outputs, messages.mapM write = .ok outputs ∧
      Reader.readMany r messages.length (outputs.flatten ++ suffix) = .done messages suffix := by
  obtain ⟨outputs, houtputs, hflat⟩ := mapM_write messages fun a ha => hwrite a (hok a ha)
  exact ⟨outputs, houtputs, by rw [hflat]; exact hd.readMany messages hok suffix⟩

/-- The reader on a stream that has ended: where it still waits, `read_exact` reports
the early end. -/
def closed (r : Reader α) : Reader α := fun bs =>
  match r bs with
  | .more => .invalid "early eof"
  | .invalid error => .invalid error
  | .done a rest => .done a rest

theorem closed_of_more {bs : Bytes} (h : r bs = .more) : r.closed bs = .invalid "early eof" := by
  rw [closed, h]

theorem closed_of_invalid {bs : Bytes} {error : String} (h : r bs = .invalid error) :
    r.closed bs = .invalid error := by
  rw [closed, h]

theorem closed_eq_done {bs rest : Bytes} {a : α} :
    r.closed bs = .done a rest ↔ r bs = .done a rest := by
  unfold closed
  cases r bs with
  | more => simp
  | invalid error => simp
  | done b mid => exact Iff.rfl

theorem readExact_eq_done {n : Nat} {bs a rest : Bytes} (h : readExact n bs = .done a rest) :
    a.length = n ∧ bs = a ++ rest := by
  unfold readExact at h
  split at h
  · cases h
  · rename_i hn
    simp only [Read.done.injEq] at h
    obtain ⟨rfl, rfl⟩ := h
    exact ⟨List.length_take_of_le (Nat.le_of_not_lt hn), (List.take_append_drop n bs).symm⟩

/-- A finished read of two parts is a finished read of each. -/
theorem bind_eq_done {r : Reader α} {f : α → Reader β} {bs rest : Bytes} {b : β}
    (h : (r >>= f) bs = .done b rest) : ∃ a mid, r bs = .done a mid ∧ f a mid = .done b rest := by
  rw [bind_apply] at h
  cases hr : r bs with
  | more => simp [hr] at h
  | invalid error => simp [hr] at h
  | done a mid =>
    simp only [hr] at h
    exact ⟨a, mid, rfl, h⟩

theorem ofExcept_eq_done {e : Except String α} {bs rest : Bytes} {a : α}
    (h : ofExcept e bs = .done a rest) : e = .ok a ∧ rest = bs := by
  cases e with
  | error error => cases h
  | ok b =>
    simp only [ofExcept, pure_apply, Read.done.injEq] at h
    exact ⟨by rw [h.1], h.2.symm⟩

end Reader

/-! ### Big-endian integers -/

/-- The `w` bytes of `n`, most significant first; higher bytes are cut off. -/
def toBe : Nat → Nat → Bytes
  | 0, _ => []
  | w + 1, n => toBe w (n / 256) ++ [UInt8.ofNat (n % 256)]

def ofBe (bs : Bytes) : Nat := bs.foldl (fun n b => n * 256 + b.toNat) 0

@[simp] theorem length_toBe (w n : Nat) : (toBe w n).length = w := by
  induction w generalizing n with
  | zero => rfl
  | succ w ih => simp [toBe, ih]

theorem ofBe_append (a : Bytes) (b : UInt8) : ofBe (a ++ [b]) = ofBe a * 256 + b.toNat := by
  simp [ofBe]

theorem ofBe_toBe (w n : Nat) (h : n < 256 ^ w) : ofBe (toBe w n) = n := by
  induction w generalizing n with
  | zero =>
    obtain rfl : n = 0 := by simpa using h
    rfl
  | succ w ih =>
    have hdiv : n / 256 < 256 ^ w := by
      rw [Nat.div_lt_iff_lt_mul (by omega), ← Nat.pow_succ]
      exact h
    rw [toBe, ofBe_append, ih _ hdiv]
    simp only [UInt8.toNat_ofNat', Nat.reducePow]
    omega

theorem toBe_ofBe {bs : Bytes} {w : Nat} (h : bs.length = w) : toBe w (ofBe bs) = bs := by
  subst h
  induction bs using List.reverseRecOn with
  | nil => rfl
  | append_singleton a b ih =>
    have hb : b.toNat < 256 := b.toNat_lt
    have hdiv : (ofBe a * 256 + b.toNat) / 256 = ofBe a := by omega
    have hmod : (ofBe a * 256 + b.toNat) % 256 = b.toNat := by omega
    rw [List.length_append, List.length_singleton, toBe, ofBe_append, hdiv, hmod, ih, UInt8.ofNat_toNat]

theorem ofBe_lt (bs : Bytes) : ofBe bs < 256 ^ bs.length := by
  induction bs using List.reverseRecOn with
  | nil => decide
  | append_singleton a b ih =>
    have hb : b.toNat < 256 := b.toNat_lt
    rw [ofBe_append, List.length_append, List.length_singleton, Nat.pow_succ]
    omega

/-! ### Length-prefixed messages -/

/-- `read_u32`. -/
def Reader.readU32 : Reader Nat := do
  let bytes ← Reader.readExact 4
  pure (ofBe bytes)

/-- A `u32` length, then that many bytes; a length above the limit is refused
before the message is read. -/
def Reader.prefixed (limit : Nat) (error : String) : Reader Bytes := do
  let len ← Reader.readU32
  if len > limit then Reader.fail error else Reader.readExact len

/-- The length in `u32`, then the message. -/
def withPrefix (message : Bytes) : Bytes := toBe 4 message.length ++ message

theorem withPrefix_ne_nil (message : Bytes) : withPrefix message ≠ [] := by
  intro h
  have := congrArg List.length h
  simp [withPrefix] at this

theorem Reader.prefixed_stable (limit : Nat) (error : String) :
    Reader.Stable (Reader.prefixed limit error) := by
  refine .bind (.bind (.readExact _) fun _ => .pure _) fun len => ?_
  exact .ite (.fail _) (.readExact _)

/-- Messages within a limit below 2^32 delimit themselves. -/
theorem Reader.prefixed_delimits {limit : Nat} (hlimit : limit < 2 ^ 32) (error : String) :
    Reader.Delimits (fun m : Bytes => m.length ≤ limit) withPrefix (Reader.prefixed limit error) where
  stable := Reader.prefixed_stable limit error
  nil := rfl
  read := by
    intro m rest hm
    have hlen : Reader.readU32 (withPrefix m ++ rest) = .done m.length (m ++ rest) := by
      unfold Reader.readU32 withPrefix
      rw [List.append_assoc, Reader.bind_of_done (Reader.readExact_of_length (length_toBe ..) _),
        Reader.pure_apply, ofBe_toBe _ _ (by omega)]
    unfold Reader.prefixed
    rw [Reader.bind_of_done hlen, if_neg (by omega), Reader.readExact_append]

end Rps.Base
