import Rps.Base.Bytes

/-! Readers that answer while they read, and the grammars they accept.

A `Dialog` is a task on a connection: it reads the peer's bytes and writes replies in
between. What it writes does not change what it reads, so its reading side is a
`Reader` (`Dialog.reader`) and is composed like one.

`Reader.Exact r L` says that `r` accepts the language `L` and nothing else: it is done
with `a`, leaving `rest`, exactly if the stream is a word of `a` followed by `rest`.
The rules below build the language of a reader from its parts. -/
namespace Rps.Base

/-- What a task has written when it stops or waits, and where its reading stands. -/
structure Turn (α : Type) where
  written : Bytes
  read : Read α

/-- `ended` tells whether the stream ends behind the bytes. -/
def Dialog (α : Type) := (ended : Bool) → Bytes → Turn α

namespace Dialog
variable {α β : Type}

protected def pure (a : α) : Dialog α := fun _ bs => ⟨[], .done a bs⟩

protected def bind (d : Dialog α) (f : α → Dialog β) : Dialog β := fun ended bs =>
  match d ended bs with
  | ⟨written, .more⟩ => ⟨written, .more⟩
  | ⟨written, .invalid error⟩ => ⟨written, .invalid error⟩
  | ⟨written, .done a rest⟩ => ⟨written ++ (f a ended rest).written, (f a ended rest).read⟩

instance : Monad Dialog where
  pure := Dialog.pure
  bind := Dialog.bind

def write (bytes : Bytes) : Dialog Unit := fun _ bs => ⟨bytes, .done () bs⟩

/-- A read without an answer; at the end of the stream it does not wait. -/
def ofReader (r : Reader α) : Dialog α := fun ended bs =>
  ⟨[], if ended then r.closed bs else r bs⟩

def fail (error : String) : Dialog α := ofReader (Reader.fail error)

def ofExcept (e : Except String α) : Dialog α := ofReader (Reader.ofExcept e)

/-- A task that fails sends a last answer before it returns its error. -/
def onError (d : Dialog α) (answer : String → Bytes) : Dialog α := fun ended bs =>
  match d ended bs with
  | ⟨written, .invalid error⟩ => ⟨written ++ answer error, .invalid error⟩
  | turn => turn

theorem write_bind (bytes : Bytes) (f : Unit → Dialog β) (ended : Bool) (bs : Bytes) :
    (write bytes >>= f) ended bs = ⟨bytes ++ (f () ended bs).written, (f () ended bs).read⟩ := rfl

theorem ofReader_bind (r : Reader α) (f : α → Dialog β) (bs : Bytes) :
    (ofReader r >>= f) true bs = match r bs with
      | .more => ⟨[], .invalid "early eof"⟩
      | .invalid error => ⟨[], .invalid error⟩
      | .done a rest => f a true rest := by
  show Dialog.bind (ofReader r) f true bs = _
  unfold Dialog.bind ofReader Reader.closed
  cases r bs <;> rfl

theorem ofExcept_ok_bind (a : α) (f : α → Dialog β) : (ofExcept (.ok a) >>= f) = f a := by
  funext ended bs
  cases ended <;> rfl

/-- The reading side of a task. -/
def reader (d : Dialog α) (ended : Bool) : Reader α := fun bs => (d ended bs).read

theorem reader_bind (d : Dialog α) (f : α → Dialog β) (ended : Bool) :
    (d >>= f).reader ended = d.reader ended >>= fun a => (f a).reader ended := by
  funext bs
  show (Dialog.bind d f ended bs).read = _
  unfold Dialog.bind
  rw [Reader.bind_apply]
  simp only [reader]
  cases d ended bs with
  | mk written read => cases read <;> rfl

end Dialog

/-! ### Languages -/

/-- The words of each value. -/
abbrev Grammar (α : Type) := α → Bytes → Prop

namespace Reader
variable {α β : Type}

/-- `r` accepts the words of `L`, each as the value it is a word of, and stops behind
them. -/
def Exact (r : Reader α) (L : Grammar α) : Prop :=
  ∀ bs a rest, r bs = .done a rest ↔ ∃ word, L a word ∧ bs = word ++ rest

theorem Exact.pure (a : α) : Exact (Pure.pure a) fun b word => b = a ∧ word = [] := by
  intro bs b rest
  simp only [pure_apply, Read.done.injEq]
  constructor
  · intro h
    obtain ⟨rfl, rfl⟩ := h
    exact ⟨[], ⟨rfl, rfl⟩, rfl⟩
  · intro h
    obtain ⟨word, ⟨rfl, rfl⟩, rfl⟩ := h
    exact ⟨rfl, rfl⟩

theorem Exact.fail (error : String) : Exact (Reader.fail error : Reader α) fun _ _ => False := by
  intro bs a rest
  constructor
  · intro h
    cases h
  · intro hboth
    obtain ⟨word, hword, -⟩ := hboth
    exact hword.elim

theorem Exact.readExact (n : Nat) : Exact (Reader.readExact n) fun a word => a = word ∧ word.length = n := by
  intro bs a rest
  constructor
  · intro h
    obtain ⟨hlen, hbs⟩ := readExact_eq_done h
    exact ⟨a, ⟨rfl, hlen⟩, hbs⟩
  · intro hboth
    obtain ⟨word, ⟨rfl, hlen⟩, rfl⟩ := hboth
    exact readExact_of_length hlen rest

theorem Exact.ofExcept (e : Except String α) :
    Exact (Reader.ofExcept e) fun a word => e = .ok a ∧ word = [] := by
  cases e with
  | ok a =>
    intro bs b rest
    rw [Reader.ofExcept, Exact.pure a bs b rest]
    simp only [Except.ok.injEq, eq_comm]
  | error error =>
    intro bs b rest
    rw [Reader.ofExcept, Exact.fail error bs b rest]
    simp

theorem Exact.bind {r : Reader α} {f : α → Reader β} {L : Grammar α} {M : α → Grammar β}
    (hr : Exact r L) (hf : ∀ a, Exact (f a) (M a)) :
    Exact (r >>= f) fun b word => ∃ a first second, L a first ∧ M a b second ∧ word = first ++ second := by
  intro bs b rest
  constructor
  · intro h
    obtain ⟨a, mid, ha, hb⟩ := bind_eq_done h
    obtain ⟨first, hfirst, rfl⟩ := (hr bs a mid).mp ha
    obtain ⟨second, hsecond, rfl⟩ := (hf a mid b rest).mp hb
    exact ⟨first ++ second, ⟨a, first, second, hfirst, hsecond, rfl⟩, by rw [List.append_assoc]⟩
  · intro hboth
    obtain ⟨word, ⟨a, first, second, hfirst, hsecond, rfl⟩, rfl⟩ := hboth
    have ha := (hr (first ++ (second ++ rest)) a (second ++ rest)).mpr ⟨first, hfirst, rfl⟩
    rw [List.append_assoc, bind_of_done ha]
    exact (hf a _ b rest).mpr ⟨second, hsecond, rfl⟩

/-- A check that refuses what was read. -/
theorem Exact.guarded {c : Prop} [Decidable c] {r : Reader α} {L : Grammar α} (error : String)
    (hr : Exact r L) : Exact (if c then Reader.fail error else r) fun a word => ¬ c ∧ L a word := by
  intro bs a rest
  by_cases hc : c
  · rw [if_pos hc, Exact.fail error bs a rest]
    simp [hc]
  · rw [if_neg hc, hr bs a rest]
    simp [hc]

/-- The same language in other words. -/
theorem Exact.congr {r : Reader α} {L M : Grammar α} (hr : Exact r L)
    (h : ∀ a word, L a word ↔ M a word) : Exact r M := by
  intro bs a rest
  rw [hr bs a rest]
  simp only [h]

end Reader

namespace Dialog
variable {α β : Type}

/-- Answers aside, the task accepts `L`; whether the stream has ended is no matter. -/
def Exact (d : Dialog α) (L : Grammar α) : Prop := ∀ ended, (d.reader ended).Exact L

theorem Exact.pure (a : α) : Exact (Pure.pure a) fun b word => b = a ∧ word = [] :=
  fun _ => Reader.Exact.pure a

theorem Exact.ofReader {r : Reader α} {L : Grammar α} (hr : r.Exact L) : Exact (Dialog.ofReader r) L := by
  intro ended bs a rest
  rw [← hr bs a rest]
  cases ended with
  | false => exact Iff.rfl
  | true => exact Reader.closed_eq_done

theorem Exact.fail (error : String) : Exact (Dialog.fail error : Dialog α) fun _ _ => False :=
  .ofReader (.fail error)

theorem Exact.ofExcept (e : Except String α) :
    Exact (Dialog.ofExcept e) fun a word => e = .ok a ∧ word = [] :=
  .ofReader (.ofExcept e)

theorem Exact.congr {d : Dialog α} {L M : Grammar α} (hd : Exact d L)
    (h : ∀ a word, L a word ↔ M a word) : Exact d M :=
  fun ended => (hd ended).congr h

theorem Exact.write (bytes : Bytes) : Exact (Dialog.write bytes) fun _ word => word = [] := by
  intro ended
  have hunit : (Pure.pure () : Reader Unit).Exact fun _ word => word = [] :=
    (Reader.Exact.pure ()).congr fun _ _ => ⟨And.right, fun hword => ⟨rfl, hword⟩⟩
  exact hunit

theorem Exact.bind {d : Dialog α} {f : α → Dialog β} {L : Grammar α} {M : α → Grammar β}
    (hd : Exact d L) (hf : ∀ a, Exact (f a) (M a)) :
    Exact (d >>= f) fun b word => ∃ a first second, L a first ∧ M a b second ∧ word = first ++ second := by
  intro ended
  rw [reader_bind]
  exact (hd ended).bind fun a => hf a ended

/-- An answer before the task goes on reads nothing. -/
theorem Exact.write_then {bytes : Bytes} {f : Unit → Dialog α} {L : Grammar α} (hf : Exact (f ()) L) :
    Exact (Dialog.write bytes >>= f) L := by
  refine ((Exact.write bytes).bind (M := fun _ => L) fun _ => hf).congr fun a word => ?_
  constructor
  · intro h
    obtain ⟨-, first, second, rfl, hsecond, rfl⟩ := h
    exact hsecond
  · intro hword
    exact ⟨(), [], word, rfl, hword, rfl⟩

/-- An answer and the end of the task, with a value or with an error. -/
theorem Exact.answered (bytes : Bytes) (a : α) :
    Exact (Dialog.write bytes >>= fun _ => Pure.pure a) fun b word => b = a ∧ word = [] :=
  .write_then (.pure a)

theorem Exact.refused (bytes : Bytes) (error : String) :
    Exact (Dialog.write bytes >>= fun _ => Dialog.fail error : Dialog α) fun _ _ => False :=
  .write_then (.fail error)

/-- A check behind which the task sends an answer and fails. -/
theorem Exact.guarded {c : Prop} [Decidable c] {d : Dialog α} {L : Grammar α} (hd : Exact d L)
    {refuse : Dialog α} (hrefuse : Exact refuse fun _ _ => False) :
    Exact (if c then refuse else d) fun a word => ¬ c ∧ L a word := by
  by_cases hc : c
  · rw [if_pos hc]
    exact hrefuse.congr fun a word => by simp [hc]
  · rw [if_neg hc]
    exact hd.congr fun a word => by simp [hc]

theorem Exact.onError {d : Dialog α} {answer : String → Bytes} {L : Grammar α} (hd : Exact d L) :
    Exact (d.onError answer) L := by
  intro ended bs a rest
  rw [← hd ended bs a rest]
  unfold reader Dialog.onError
  generalize d ended bs = turn
  cases turn with
  | mk written read => cases read <;> simp

end Dialog

end Rps.Base
