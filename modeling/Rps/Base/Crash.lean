import Mathlib.Data.List.Basic

/-! Programs of atomic statements that may be cut off.

A program that keeps its state in a database acts by statements, each of which happens
as a whole; when its process dies, what the statements so far have done stays. A
`Program` is the sequence of states it leaves behind, statement by statement, and its
result if it gets to its end; a statement that fails ends it. `cut n` is the state
after a run that was stopped behind `n` statements, `complete` the state after a run
that was not.

`Keeps` is the rule for what no cut can break. -/
namespace Rps.Base

/-- The states behind each statement, and the result. -/
structure Trace (σ α : Type) where
  states : List σ
  result : Option α

def Program (σ α : Type) := σ → Trace σ α

namespace Program
variable {σ α β : Type}

def lastState (t : Trace σ α) (s : σ) : σ := t.states.getLast?.getD s

protected def pure (a : α) : Program σ α := fun _ => ⟨[], some a⟩

protected def bind (p : Program σ α) (f : α → Program σ β) : Program σ β := fun s =>
  match (p s).result with
  | none => ⟨(p s).states, none⟩
  | some a =>
    let rest := f a (lastState (p s) s)
    ⟨(p s).states ++ rest.states, rest.result⟩

instance : Monad (Program σ) where
  pure := Program.pure
  bind := Program.bind

/-- One statement; `none` is an error, and changes nothing. -/
def execute (f : σ → Option σ) : Program σ Unit := fun s =>
  match f s with
  | none => ⟨[], none⟩
  | some t => ⟨[t], some ()⟩

/-- A statement that only reads. -/
def query (f : σ → α) : Program σ α := fun s => ⟨[s], some (f s)⟩

/-- Statements one after another. -/
def all : List (σ → Option σ) → Program σ Unit
  | [] => pure ()
  | f :: rest => do
    execute f
    all rest

/-- The state a run leaves that is stopped behind `n` statements. -/
def cut (p : Program σ α) (n : Nat) (s : σ) : σ := ((p s).states.take n).getLast?.getD s

/-- The state a run leaves that is not stopped. -/
def complete (p : Program σ α) (s : σ) : σ := lastState (p s) s

/-- Runs stopped behind the given numbers of statements, one after another. -/
def cuts (p : Program σ α) : List Nat → σ → σ
  | [], s => s
  | n :: rest, s => cuts p rest (p.cut n s)

/-! ### Statement by statement -/

theorem bind_of_result {p : Program σ α} {f : α → Program σ β} {s : σ} {a : α}
    (h : (p s).result = some a) :
    (p >>= f) s = ⟨(p s).states ++ (f a (lastState (p s) s)).states, (f a (lastState (p s) s)).result⟩ := by
  show Program.bind p f s = _
  unfold Program.bind
  rw [h]

theorem query_bind (f : σ → α) (g : α → Program σ β) (s : σ) :
    (query f >>= g) s = ⟨s :: (g (f s) s).states, (g (f s) s).result⟩ := rfl

theorem execute_bind {f : σ → Option σ} {s t : σ} (h : f s = some t) (g : Unit → Program σ β) :
    (execute f >>= g) s = ⟨t :: (g () t).states, (g () t).result⟩ := by
  have hf : execute f s = ⟨[t], some ()⟩ := by rw [execute, h]
  rw [bind_of_result (by rw [hf]), hf]
  rfl

theorem mem_states_or_self (p : Program σ α) (s : σ) :
    lastState (p s) s = s ∨ lastState (p s) s ∈ (p s).states := by
  unfold lastState
  cases h : (p s).states.getLast? with
  | none => exact .inl rfl
  | some t => exact .inr (List.mem_of_getLast? h)

theorem cut_eq_or_mem (p : Program σ α) (n : Nat) (s : σ) : p.cut n s = s ∨ p.cut n s ∈ (p s).states := by
  unfold cut
  cases h : ((p s).states.take n).getLast? with
  | none => exact .inl rfl
  | some t => exact .inr (List.mem_of_mem_take (List.mem_of_getLast? h))

/-- The state behind the `n`-th statement. -/
theorem cut_eq_getElem {p : Program σ α} {n : Nat} {s t : σ} (h : (p s).states[n]? = some t) :
    p.cut (n + 1) s = t := by
  unfold cut
  rw [List.take_add_one, h, Option.toList_some, List.getLast?_concat]
  rfl

/-- A cut within the first statements leaves one of their states. -/
theorem cut_of_le {p : Program σ α} {s : σ} {first rest : List σ} (h : (p s).states = first ++ rest) {n : Nat}
    (hn : n ≤ first.length) : p.cut n s = s ∨ p.cut n s ∈ first := by
  unfold cut
  rw [h, List.take_append_of_le_length hn]
  cases hl : (first.take n).getLast? with
  | none => exact .inl rfl
  | some t => exact .inr (List.mem_of_mem_take (List.mem_of_getLast? hl))

/-- A cut behind the first statements leaves one of the later states. -/
theorem cut_of_lt {p : Program σ α} {s : σ} {first rest : List σ} (h : (p s).states = first ++ rest)
    (hne : rest ≠ []) {n : Nat} (hn : first.length < n) : p.cut n s ∈ rest := by
  have htake : (rest.take (n - first.length)).getLast? ≠ none := by
    rw [ne_eq, List.getLast?_eq_none_iff, List.take_eq_nil_iff]
    intro hboth
    obtain hzero | hnil := hboth
    · omega
    · exact hne hnil
  obtain ⟨t, ht⟩ := Option.ne_none_iff_exists'.mp htake
  unfold cut
  rw [h, List.take_append, List.getLast?_append, ht]
  exact List.mem_of_mem_take (List.mem_of_getLast? ht)

theorem complete_mem {p : Program σ α} {s : σ} {first rest : List σ} (h : (p s).states = first ++ rest)
    (hne : rest ≠ []) : p.complete s ∈ rest := by
  obtain ⟨t, ht⟩ := Option.ne_none_iff_exists'.mp (mt List.getLast?_eq_none_iff.mp hne)
  unfold complete lastState
  rw [h, List.getLast?_append, ht]
  exact List.mem_of_getLast? ht

/-- Statements none of which can fail while `I` holds, and which keep it. -/
theorem all_of_total {I : σ → Prop} {statements : List (σ → Option σ)}
    (h : ∀ f ∈ statements, ∀ s, I s → ∃ t, f s = some t ∧ I t) {s : σ} (hs : I s) :
    (all statements s).result = some () ∧ (all statements s).states.length = statements.length ∧
      ∀ t ∈ (all statements s).states, I t := by
  induction statements generalizing s with
  | nil => exact ⟨rfl, rfl, by simp [all, Pure.pure, Program.pure]⟩
  | cons f rest ih =>
    obtain ⟨t, hf, ht⟩ := h f (List.mem_cons_self ..) s hs
    obtain ⟨hresult, hlength, hstates⟩ := ih (fun g hg => h g (List.mem_cons_of_mem f hg)) ht
    rw [all, execute_bind hf]
    refine ⟨hresult, by simp [hlength], fun u hu => ?_⟩
    rcases List.mem_cons.mp hu with rfl | hu
    · exact ht
    · exact hstates u hu

/-! ### What no cut can break -/

/-- From a state where `I` holds, every statement leaves a state where it holds. -/
def Keeps (I : σ → Prop) (p : Program σ α) : Prop := ∀ s, I s → ∀ t ∈ (p s).states, I t

variable {I : σ → Prop}

theorem Keeps.last {p : Program σ α} (hp : Keeps I p) {s : σ} (hs : I s) : I (lastState (p s) s) := by
  rcases mem_states_or_self p s with h | h
  · rw [h]
    exact hs
  · exact hp s hs _ h

theorem Keeps.cut {p : Program σ α} (hp : Keeps I p) {s : σ} (hs : I s) (n : Nat) : I (p.cut n s) := by
  rcases cut_eq_or_mem p n s with h | h
  · rw [h]
    exact hs
  · exact hp s hs _ h

theorem Keeps.pure (a : α) : Keeps I (Pure.pure a : Program σ α) := by
  intro s _ t ht
  cases ht

theorem Keeps.bind {p : Program σ α} {f : α → Program σ β} (hp : Keeps I p) (hf : ∀ a, Keeps I (f a)) :
    Keeps I (p >>= f) := by
  intro s hs t ht
  change t ∈ (Program.bind p f s).states at ht
  unfold Program.bind at ht
  cases hr : (p s).result with
  | none =>
    rw [hr] at ht
    exact hp s hs t ht
  | some a =>
    rw [hr] at ht
    rcases List.mem_append.mp ht with ht | ht
    · exact hp s hs t ht
    · exact hf a _ (hp.last hs) t ht

/-- What a program does behind another one starts where that one ended. -/
theorem bind_states (p : Program σ α) {f : α → Program σ β} (hf : ∀ a, Keeps I (f a)) {s : σ}
    (hs : I (lastState (p s) s)) :
    ∃ later, ((p >>= f) s).states = (p s).states ++ later ∧ ∀ t ∈ later, I t := by
  cases hr : (p s).result with
  | none =>
    refine ⟨[], ?_, by simp⟩
    show (Program.bind p f s).states = _
    rw [Program.bind, hr, List.append_nil]
  | some a =>
    rw [bind_of_result hr]
    exact ⟨_, rfl, hf a _ hs⟩

theorem Keeps.query (f : σ → α) : Keeps I (Program.query f) := by
  intro s hs t ht
  obtain rfl := List.mem_singleton.mp ht
  exact hs

/-- What follows a query need only keep `I` for the answers it can get. -/
theorem Keeps.query_bind {f : σ → α} {g : α → Program σ β} (h : ∀ s, I s → Keeps I (g (f s))) :
    Keeps I (Program.query f >>= g) := by
  intro s hs t ht
  rw [Program.query_bind] at ht
  rcases List.mem_cons.mp ht with rfl | ht
  · exact hs
  · exact h s hs s hs t ht

theorem Keeps.execute {f : σ → Option σ} (h : ∀ s t, I s → f s = some t → I t) : Keeps I (Program.execute f) := by
  intro s hs t ht
  unfold Program.execute at ht
  cases hf : f s with
  | none =>
    rw [hf] at ht
    cases ht
  | some u =>
    rw [hf] at ht
    obtain rfl := List.mem_singleton.mp ht
    exact h s t hs hf

theorem Keeps.all {statements : List (σ → Option σ)}
    (h : ∀ f ∈ statements, ∀ s t, I s → f s = some t → I t) : Keeps I (Program.all statements) := by
  induction statements with
  | nil => exact .pure ()
  | cons f rest ih =>
    refine .bind (.execute (h f (List.mem_cons_self ..))) fun _ => ih fun g hg => ?_
    exact h g (List.mem_cons_of_mem f hg)

theorem Keeps.ite {c : Prop} [Decidable c] {p q : Program σ α} (hp : Keeps I p) (hq : Keeps I q) :
    Keeps I (if c then p else q) := by
  split
  · exact hp
  · exact hq

end Program

end Rps.Base
