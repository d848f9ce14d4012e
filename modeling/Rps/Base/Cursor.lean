import Rps.Base.Bytes

/-! Parsing by index.

A parser that holds all of its input looks at it by index, behind checks of its own. An
access beyond the input is no error it could return: the program panics. So a `Checked`
computation has three outcomes.

`Follows` compares such a parser with a `Reader` of the same format that is given the
rest of the input and then the end of the stream: either both are done, with one value
and behind the same bytes, or both fail. The rules go through a parser check by check. -/
namespace Rps.Base

inductive Checked (α : Type) where
  | ok (value : α)
  | failed (error : String)
  | panicked
  deriving DecidableEq

namespace Checked
variable {α β : Type}

protected def pure (a : α) : Checked α := .ok a

protected def bind (c : Checked α) (f : α → Checked β) : Checked β :=
  match c with
  | .ok a => f a
  | .failed error => .failed error
  | .panicked => .panicked

instance : Monad Checked where
  pure := Checked.pure
  bind := Checked.bind

def ensure (c : Prop) [Decidable c] (error : String) : Checked Unit := if c then .ok () else .failed error

def ofExcept : Except String α → Checked α
  | .ok a => .ok a
  | .error error => .failed error

/-- `bytes[i]`. -/
def index (bytes : Bytes) (i : Nat) : Checked UInt8 :=
  match bytes[i]? with
  | some b => .ok b
  | none => .panicked

/-- `bytes[start..stop]`. -/
def slice (bytes : Bytes) (start stop : Nat) : Checked Bytes :=
  if start ≤ stop ∧ stop ≤ bytes.length then .ok ((bytes.drop start).take (stop - start)) else .panicked

@[simp] theorem ok_bind (a : α) (f : α → Checked β) : ((.ok a : Checked α) >>= f) = f a := rfl

@[simp] theorem pure_eq (a : α) : (pure a : Checked α) = .ok a := rfl

@[simp] theorem failed_bind (error : String) (f : α → Checked β) : ((.failed error : Checked α) >>= f) = .failed error :=
  rfl

theorem ensure_bind {c : Prop} [Decidable c] (h : c) (error : String) (f : Unit → Checked β) :
    (ensure c error >>= f) = f () := by
  rw [ensure, if_pos h, ok_bind]

theorem ensure_bind_of_not {c : Prop} [Decidable c] (h : ¬ c) (error : String) (f : Unit → Checked β) :
    (ensure c error >>= f) = .failed error := by
  rw [ensure, if_neg h, failed_bind]

theorem index_eq {bytes : Bytes} {i : Nat} {b : UInt8} {rest : Bytes} (h : bytes.drop i = b :: rest) :
    index bytes i = .ok b := by
  have hget : bytes[i]? = some b := by
    rw [← List.head?_drop, h, List.head?_cons]
  rw [index, hget]

theorem slice_eq {bytes : Bytes} {start n : Nat} (h : start + n ≤ bytes.length) :
    slice bytes start (start + n) = .ok ((bytes.drop start).take n) := by
  rw [slice, if_pos ⟨Nat.le_add_right .., h⟩, Nat.add_sub_cancel_left]

/-! ### Against a reader -/

/-- `p` does with `bytes` what the reader's outcome `r` says, when no more bytes come. -/
def Follows (bytes : Bytes) (p : Checked (α × Nat)) (r : Read α) : Prop :=
  match r with
  | .done a rest => ∃ stop ≤ bytes.length, p = .ok (a, stop) ∧ rest = bytes.drop stop
  | _ => ∃ error, p = .failed error

theorem Follows.done {bytes : Bytes} {a : α} {stop : Nat} (h : stop ≤ bytes.length) :
    Follows bytes (.ok (a, stop)) (.done a (bytes.drop stop)) :=
  ⟨stop, h, rfl, rfl⟩

/-- A parser goes on from where its first part stopped. -/
theorem Follows.bind {bytes : Bytes} {p : Checked (α × Nat)} {q : α × Nat → Checked (β × Nat)} {r : Reader α}
    {f : α → Reader β} {input : Bytes} (hp : Follows bytes p (r input))
    (hq : ∀ a, ∀ stop ≤ bytes.length, Follows bytes (q (a, stop)) (f a (bytes.drop stop))) :
    Follows bytes (p >>= q) ((r >>= f) input) := by
  rw [Reader.bind_apply]
  cases hr : r input with
  | more =>
    rw [hr] at hp
    obtain ⟨error, rfl⟩ := hp
    exact ⟨error, rfl⟩
  | invalid error =>
    rw [hr] at hp
    obtain ⟨error, rfl⟩ := hp
    exact ⟨error, rfl⟩
  | done a rest =>
    rw [hr] at hp
    obtain ⟨stop, hstop, rfl, rfl⟩ := hp
    exact hq a stop hstop

/-- The next `n` bytes, behind a check that they are there. -/
theorem Follows.take {bytes : Bytes} {cursor n : Nat} (hcursor : cursor ≤ bytes.length) (error : String)
    {p : Bytes → Checked (α × Nat)} {f : Bytes → Reader α}
    (h : ∀ raw, cursor + n ≤ bytes.length → Follows bytes (p raw) (f raw (bytes.drop (cursor + n)))) :
    Follows bytes
      (do
        ensure (bytes.length ≥ cursor + n) error
        let raw ← slice bytes cursor (cursor + n)
        p raw)
      ((Reader.readExact n >>= f) (bytes.drop cursor)) := by
  rw [Reader.bind_apply]
  unfold Reader.readExact
  by_cases hn : cursor + n ≤ bytes.length
  · rw [ensure_bind hn, slice_eq hn, ok_bind, if_neg (by rw [List.length_drop]; omega), List.drop_drop]
    exact h _ hn
  · rw [ensure_bind_of_not hn, if_pos (by rw [List.length_drop]; omega)]
    exact ⟨error, rfl⟩

/-- The next byte, behind a check that there is one. -/
theorem Follows.next {bytes : Bytes} {cursor : Nat} (error : String) {r : Reader UInt8}
    (hnil : r [] = .more) (hcons : ∀ b rest, r (b :: rest) = .done b rest) {p : UInt8 → Checked (α × Nat)}
    {f : UInt8 → Reader α}
    (h : ∀ b, cursor + 1 ≤ bytes.length → Follows bytes (p b) (f b (bytes.drop (cursor + 1)))) :
    Follows bytes
      (do
        ensure (bytes.length > cursor) error
        let b ← index bytes cursor
        p b)
      ((r >>= f) (bytes.drop cursor)) := by
  rw [Reader.bind_apply]
  cases hdrop : bytes.drop cursor with
  | nil =>
    have hlen := List.drop_eq_nil_iff.mp hdrop
    rw [ensure_bind_of_not (by omega), hnil]
    exact ⟨error, rfl⟩
  | cons b rest =>
    have hlen : cursor < bytes.length := by
      by_contra hnot
      rw [List.drop_eq_nil_of_le (by omega)] at hdrop
      cases hdrop
    have hrest : rest = bytes.drop (cursor + 1) := by
      rw [← List.drop_drop, hdrop]
      rfl
    rw [ensure_bind hlen, index_eq hdrop, ok_bind, hcons, hrest]
    exact h b hlen

/-- A value computed from what was read, or its error. -/
theorem Follows.ofExcept {bytes : Bytes} {e : Except String α} {stop : Nat} (h : stop ≤ bytes.length) :
    Follows bytes
      (do
        let a ← Checked.ofExcept e
        pure (a, stop))
      (Reader.ofExcept e (bytes.drop stop)) := by
  cases e with
  | ok a => exact .done h
  | error error => exact ⟨error, rfl⟩

/-- Where both are done. -/
theorem Follows.ok_iff {bytes : Bytes} {p : Checked (α × Nat)} {r : Read α} (h : Follows bytes p r) (a : α)
    (stop : Nat) : p = .ok (a, stop) ↔ stop ≤ bytes.length ∧ r = .done a (bytes.drop stop) := by
  cases r with
  | more =>
    obtain ⟨error, rfl⟩ := h
    simp
  | invalid error =>
    obtain ⟨error, rfl⟩ := h
    simp
  | done b rest =>
    obtain ⟨stop', hle, rfl, rfl⟩ := h
    simp only [Checked.ok.injEq, Prod.mk.injEq, Read.done.injEq]
    constructor
    · intro hboth
      obtain ⟨rfl, rfl⟩ := hboth
      exact ⟨hle, rfl, rfl⟩
    · intro hboth
      obtain ⟨hle', rfl, hdrop⟩ := hboth
      -- what is left tells where they stopped
      have := congrArg List.length hdrop
      simp only [List.length_drop] at this
      exact ⟨rfl, by omega⟩

/-- Where both fail. -/
theorem Follows.failed_iff {bytes : Bytes} {p : Checked (α × Nat)} {r : Read α} (h : Follows bytes p r) :
    (∃ error, p = .failed error) ↔ ∀ a rest, r ≠ .done a rest := by
  cases r with
  | more => exact ⟨fun _ => nofun, fun _ => h⟩
  | invalid error => exact ⟨fun _ => nofun, fun _ => h⟩
  | done a rest =>
    obtain ⟨stop, -, rfl, -⟩ := h
    constructor
    · intro hboth
      obtain ⟨error, herror⟩ := hboth
      cases herror
    · intro hne
      exact absurd rfl (hne a rest)

end Checked

end Rps.Base
