import Rps.Base.Bytes

/-! Copy loops between byte streams.

A copy loop reads a chunk of whatever has arrived, writes all of it, and starts
over; it ends at the end of its source, at a failed read or write, or where it is
aborted. A `Copy` is the state of one such loop. A write of a chunk takes as many
steps as the sink likes, and the last one completes the chunk.

The buffer of a loop that has ended is kept: what it had read and not written goes
nowhere, and `step_spec` can say of every step that nothing else is lost, doubled
or put out of order. -/
namespace Rps.Base

/-- How a loop ended. -/
inductive CopyEnd where
  | eof
  | failed
  | aborted
  deriving DecidableEq

/-- `put` and `rest` are the two parts of the chunk in hand, written and not yet
written; `completed` are the chunks that were written in full. -/
structure Copy where
  completed : List Bytes := []
  put : Bytes := []
  rest : Bytes := []
  aborting : Bool := false
  ended : Option CopyEnd := none
  deriving DecidableEq

inductive CopyAction where
  | read (n : Nat)
  | write (n : Nat)
  | eof
  | fail
  | abort
  deriving DecidableEq

/-- What a step leaves: the loop, its source, the bytes it put into the sink, and the
size of the chunk it completed, if it did. -/
structure Copied where
  copy : Copy
  source : Bytes
  out : Bytes := []
  size : Nat := 0

namespace Copy

/-- All that was put into the sink. -/
def written (c : Copy) : Bytes := c.completed.flatten ++ c.put

/-- All that was taken from the source. -/
def taken (c : Copy) : Bytes := c.written ++ c.rest

/-- The sizes of the completed chunks, added up. -/
def size (c : Copy) : Nat := (c.completed.map List.length).sum

/-- An error or an abort, as the task that waits for the loop sees it. -/
def broken (c : Copy) : Bool := c.ended = some .failed || c.ended = some .aborted

def step (limit : Nat) (a : CopyAction) (source : Bytes) (c : Copy) : Option Copied :=
  if c.ended ≠ none then none
  else
    match a with
    | .read n =>
      if c.rest = [] ∧ 0 < n ∧ n ≤ limit ∧ n ≤ source.length then
        some {copy := {c with rest := source.take n}, source := source.drop n}
      else none
    | .write n =>
      if 0 < n ∧ n < c.rest.length then
        some {
          copy := {c with put := c.put ++ c.rest.take n, rest := c.rest.drop n}
          source := source
          out := c.rest.take n}
      else if 0 < n ∧ n = c.rest.length then
        some {
          copy := {c with completed := c.completed ++ [c.put ++ c.rest], put := [], rest := []}
          source := source
          out := c.rest
          size := (c.put ++ c.rest).length}
      else none
    | .eof => if c.rest = [] then some {copy := {c with ended := some .eof}, source := source} else none
    | .fail => some {copy := {c with ended := some .failed}, source := source}
    | .abort => if c.aborting then some {copy := {c with ended := some .aborted}, source := source} else none

/-- What leaves the source is in hand, and what leaves the hand is in the sink. -/
structure Spec (c : Copy) (source : Bytes) (r : Copied) : Prop where
  taken : r.copy.taken ++ r.source = c.taken ++ source
  written : r.copy.written = c.written ++ r.out
  size : r.copy.size = c.size + r.size

theorem step_spec {limit : Nat} {a : CopyAction} {source : Bytes} {c : Copy} {r : Copied}
    (h : c.step limit a source = some r) : Spec c source r := by
  unfold step at h
  split at h
  · cases h
  · cases a with
    | read n =>
      simp only [Option.ite_none_right_eq_some, Option.some.injEq] at h
      obtain ⟨⟨hrest, -⟩, rfl⟩ := h
      refine ⟨?_, ?_, rfl⟩
      · simp [Copy.taken, Copy.written, hrest]
      · simp [Copy.written]
    | write n =>
      simp only at h
      split at h
      · cases h
        refine ⟨?_, ?_, rfl⟩
        · simp [Copy.taken, Copy.written]
        · simp [Copy.written]
      · simp only [Option.ite_none_right_eq_some, Option.some.injEq] at h
        obtain ⟨-, rfl⟩ := h
        refine ⟨?_, ?_, ?_⟩
        · simp [Copy.taken, Copy.written]
        · simp [Copy.written]
        · simp [Copy.size]
    | eof =>
      simp only [Option.ite_none_right_eq_some, Option.some.injEq] at h
      obtain ⟨-, rfl⟩ := h
      exact ⟨rfl, (List.append_nil _).symm, rfl⟩
    | fail =>
      cases h
      exact ⟨rfl, (List.append_nil _).symm, rfl⟩
    | abort =>
      simp only [Option.ite_none_right_eq_some, Option.some.injEq] at h
      obtain ⟨-, rfl⟩ := h
      exact ⟨rfl, (List.append_nil _).symm, rfl⟩

/-- A loop that has ended takes no step, and a step does not abort. -/
theorem step_running {limit : Nat} {a : CopyAction} {source : Bytes} {c : Copy} {r : Copied}
    (h : c.step limit a source = some r) : c.ended = none ∧ r.copy.aborting = c.aborting := by
  unfold step at h
  split at h
  · cases h
  · rename_i hended
    refine ⟨not_not.mp hended, ?_⟩
    cases a with
    | read n =>
      simp only [Option.ite_none_right_eq_some, Option.some.injEq] at h
      rw [← h.2]
    | write n =>
      simp only at h
      split at h
      · cases h
        rfl
      · simp only [Option.ite_none_right_eq_some, Option.some.injEq] at h
        rw [← h.2]
    | eof =>
      simp only [Option.ite_none_right_eq_some, Option.some.injEq] at h
      rw [← h.2]
    | fail =>
      cases h
      rfl
    | abort =>
      simp only [Option.ite_none_right_eq_some, Option.some.injEq] at h
      rw [← h.2]

theorem step_abort {c : Copy} (hended : c.ended = none) (haborting : c.aborting = true) (limit : Nat) (source : Bytes) :
    c.step limit .abort source = some {copy := {c with ended := some .aborted}, source := source} := by
  simp [step, hended, haborting]

theorem aborting_of_step {limit : Nat} {source : Bytes} {c : Copy} {r : Copied}
    (h : c.step limit .abort source = some r) : c.aborting = true := by
  simp only [step, Option.ite_none_left_eq_some, Option.ite_none_right_eq_some] at h
  exact h.2.1

end Copy

end Rps.Base
