import Rps.Base.System
import Rps.Base.Table

/-! The warm pool of an agent.

An agent runs one session after the other. The manager of a session hands out the permits of a
semaphore of its own, one to each task that dials a pooled connection, and the task gives its permit
back when the connection is assigned a target or lost. The end of the data connection ends the
session: the tasks it keeps track of are aborted and `run_agent` returns, but the manager is the only
one of the pool among these; what it has spawned goes on, and the next session begins with a new
semaphore.

`warm_slots`: within each session the permits bound the warm tasks, and every task gives its permit
back once. The agent as a whole stays within the bound, and leaves nothing behind, exactly as long as
sessions end when none of their tasks is warm and no manager goes on behind the end of its session. -/
namespace Rps.Agent
open Base

def poolSize : Nat := 32

/-- Where a task of `run_pool_manager` stands. The first three hold the permit. -/
inductive TaskPhase where
  | connecting
  | backingOff
  | waiting
  | relaying
  | ended
  deriving DecidableEq

def TaskPhase.warm : TaskPhase → Bool
  | connecting | backingOff | waiting => true
  | relaying | ended => false

/-- `released` counts how often the permit was given back. -/
structure PoolTask where
  session : Nat
  phase : TaskPhase
  released : Nat
  deriving DecidableEq

/-- An aborted manager runs on until it next waits. -/
inductive Manager where
  | unstarted
  | running
  | aborted
  | cancelled
  deriving DecidableEq

/-- A call of `run_agent`; `permits` are those left in the semaphore of its manager. -/
structure Session where
  permits : Nat
  manager : Manager
  returned : Bool
  deriving DecidableEq

structure State where
  sessions : List Session := []
  tasks : List PoolTask := []
  deriving DecidableEq

/-- What happens to a task: its connection is set up or not, the pause after a failure is over, the
idle connection is lost, it reads an `OpenRequest`, or the relay ends. -/
inductive TaskEvent where
  | connected
  | connectFailed
  | paused
  | recycled
  | assigned
  | relayEnded
  deriving DecidableEq

/-- What happens in a session: its two connections are set up or not, its manager gets a permit, the data
connection ends, or the manager stops as it was told to. -/
inductive SessionEvent where
  | connectRoles (ok : Bool)
  | acquire
  | muxEnded
  | cancelled
  deriving DecidableEq

inductive Action where
  | runAgent
  | session (i : Nat) (e : SessionEvent)
  | task (k : Nat) (e : TaskEvent)
  deriving DecidableEq

/-- The next phase of a task, and whether it drops its permit on the way. -/
def TaskPhase.next : TaskPhase → TaskEvent → Option (TaskPhase × Bool)
  | connecting, .connected => some (waiting, false)
  | connecting, .connectFailed => some (backingOff, false)
  | backingOff, .paused => some (ended, true)
  | waiting, .recycled => some (ended, true)
  | waiting, .assigned => some (relaying, true)
  | relaying, .relayEnded => some (ended, false)
  | _, _ => none

def setSession (s : State) (i : Nat) (x : Session) : State := {s with sessions := s.sessions.set i x}

/-- The semaphore of a session gets a permit back. -/
def release (s : State) (i : Nat) : State :=
  {s with sessions := s.sessions.modify i fun x => {x with permits := x.permits + 1}}

/-- One step of a call of `run_agent` or of its manager. -/
def sessionStep (s : State) (i : Nat) (x : Session) (e : SessionEvent) : Option State :=
  match e, x.manager with
  | .connectRoles ok, .unstarted =>
    if x.returned then none
    else if ok then some (setSession s i {x with permits := poolSize, manager := .running})
    else some (setSession s i {x with returned := true})
  | .acquire, .running | .acquire, .aborted =>
    if 0 < x.permits then
      some {setSession s i {x with permits := x.permits - 1} with tasks := s.tasks ++ [⟨i, .connecting, 0⟩]}
    else none
  | .muxEnded, .running => some (setSession s i {x with manager := .aborted, returned := true})
  | .cancelled, .aborted => some (setSession s i {x with manager := .cancelled})
  | _, _ => none

def taskStep (s : State) (k : Nat) (t : PoolTask) (e : TaskEvent) : Option State :=
  match t.phase.next e with
  | some (phase, true) =>
    some {release s t.session with tasks := s.tasks.set k {t with phase := phase, released := t.released + 1}}
  | some (phase, false) => some {s with tasks := s.tasks.set k {t with phase := phase}}
  | none => none

def step (a : Action) (s : State) : Option State :=
  match a with
  | .runAgent =>
    if ∀ x ∈ s.sessions, x.returned = true then some {s with sessions := s.sessions ++ [⟨0, .unstarted, false⟩]}
    else none
  | .session i e =>
    match s.sessions[i]? with
    | some x => sessionStep s i x e
    | none => none
  | .task k e =>
    match s.tasks[k]? with
    | some t => taskStep s k t e
    | none => none

def system : System State Action where
  init := {}
  step := step

/-! ### What is asked of the pool -/

/-- The warm tasks of a session. -/
def warmOf (s : State) (i : Nat) : Nat := s.tasks.countP fun t => t.session = i && t.phase.warm

/-- No task of a session that is over is warm. -/
def Over (s : State) : Prop :=
  ∀ (i : Nat) (x : Session), s.sessions[i]? = some x → x.returned = true →
    ∀ t ∈ s.tasks, t.session = i → t.phase.warm = false

/-- At most as many warm tasks as there are slots, every slot given back once, and nothing warm left of
a session that is over. -/
structure Sound (s : State) : Prop where
  bound : s.tasks.countP (fun t => t.phase.warm) ≤ poolSize
  once : ∀ t ∈ s.tasks, t.released = if t.phase.warm then 0 else 1
  gone : Over s

/-- A session ends when none of its tasks is warm, and its manager takes permits before that only. -/
def Orderly (a : Action) (s : State) : Prop :=
  match a with
  | .session i .muxEnded => ∀ t ∈ s.tasks, t.session = i → t.phase.warm = false
  | .session i .acquire => ∀ x ∈ s.sessions[i]?, x.manager = .running
  | _ => True

/-! ### What every step keeps -/

structure Inv (s : State) : Prop where
  once : ∀ t ∈ s.tasks, t.released = if t.phase.warm then 0 else 1
  known : ∀ t ∈ s.tasks, ∃ x, s.sessions[t.session]? = some x ∧ x.manager ≠ .unstarted
  permits : ∀ (i : Nat) (x : Session), s.sessions[i]? = some x → x.manager ≠ .unstarted →
    x.permits + warmOf s i = poolSize
  last : ∀ (i : Nat) (x : Session), s.sessions[i]? = some x → x.returned = false → i + 1 = s.sessions.length
  running : ∀ (i : Nat) (x : Session), s.sessions[i]? = some x →
    (x.manager = .running → x.returned = false) ∧ (x.manager = .aborted → x.returned = true)

theorem inv_init : Inv {} := ⟨by simp, by simp, by simp, by simp, by simp⟩

variable {s : State}

theorem inv_runAgent (h : Inv s) (hall : ∀ x ∈ s.sessions, x.returned = true) :
    Inv {s with sessions := s.sessions ++ [⟨0, .unstarted, false⟩]} where
  once := h.once
  known := by
    intro t ht
    obtain ⟨x, hx, hstarted⟩ := h.known t ht
    exact ⟨x, Heap.get_push_of_some hx, hstarted⟩
  permits := by
    intro i x hx hstarted
    rw [Heap.get_push] at hx
    split at hx
    · cases hx
      exact absurd rfl hstarted
    · exact h.permits i x hx hstarted
  last := by
    intro i x hx hreturned
    rw [Heap.get_push] at hx
    split at hx
    · rename_i hi
      rw [hi, List.length_append]
      rfl
    · rw [hall x (List.mem_of_getElem? hx)] at hreturned
      cases hreturned
  running := by
    intro i x hx
    rw [Heap.get_push] at hx
    split at hx
    · cases hx
      simp
    · exact h.running i x hx

/-- A session whose manager has not started has no tasks. -/
theorem warmOf_unstarted (h : Inv s) {i : Nat} {x : Session} (hi : s.sessions[i]? = some x)
    (hx : x.manager = .unstarted) : warmOf s i = 0 := by
  rw [warmOf, List.countP_eq_zero]
  intro t ht hwarm
  simp only [Bool.and_eq_true, decide_eq_true_eq] at hwarm
  obtain ⟨y, hy, hstarted⟩ := h.known t ht
  rw [hwarm.1, hi, Option.some.injEq] at hy
  rw [← hy] at hstarted
  exact hstarted hx

/-- A session changes and its tasks do not. -/
theorem inv_setSession (h : Inv s) {i : Nat} {x x' : Session} (hi : s.sessions[i]? = some x)
    (hstarted : x.manager ≠ .unstarted → x'.manager ≠ .unstarted)
    (hpermits : x'.manager ≠ .unstarted → x'.permits + warmOf s i = poolSize)
    (hlast : x'.returned = false → x.returned = false)
    (hrunning : (x'.manager = .running → x'.returned = false) ∧ (x'.manager = .aborted → x'.returned = true)) :
    Inv (setSession s i x') where
  once := h.once
  known := by
    intro t ht
    obtain ⟨y, hy, hyx⟩ := h.known t ht
    simp only [setSession, Heap.get_set hi]
    split
    · rename_i hti
      obtain rfl : x = y := Option.some.inj (hi.symm.trans (hti ▸ hy))
      exact ⟨x', rfl, hstarted hyx⟩
    · exact ⟨y, hy, hyx⟩
  permits := by
    intro j y hj hy
    simp only [setSession, Heap.get_set hi] at hj
    split at hj
    · rename_i hji
      cases hj
      rw [hji]
      exact hpermits hy
    · exact h.permits j y hj hy
  last := by
    intro j y hj hy
    simp only [setSession, Heap.get_set hi, List.length_set] at hj ⊢
    split at hj
    · rename_i hji
      cases hj
      rw [hji]
      exact h.last i x hi (hlast hy)
    · exact h.last j y hj hy
  running := by
    intro j y hj
    simp only [setSession, Heap.get_set hi] at hj
    split at hj
    · cases hj
      exact hrunning
    · exact h.running j y hj

theorem inv_acquire (h : Inv s) {i : Nat} {x : Session} (hi : s.sessions[i]? = some x)
    (hstarted : x.manager ≠ .unstarted) (hpos : 0 < x.permits) :
    Inv {setSession s i {x with permits := x.permits - 1} with tasks := s.tasks ++ [⟨i, .connecting, 0⟩]} where
  once := by
    apply Heap.forall_push h.once
    rfl
  known := by
    intro t ht
    simp only [setSession, Heap.get_set hi]
    rcases List.mem_append.mp ht with ht | ht
    · obtain ⟨y, hy, hyx⟩ := h.known t ht
      split
      · exact ⟨_, rfl, hstarted⟩
      · exact ⟨y, hy, hyx⟩
    · rw [List.mem_singleton.mp ht, if_pos rfl]
      exact ⟨_, rfl, hstarted⟩
  permits := by
    intro j y hj hy
    have hcount : warmOf {setSession s i {x with permits := x.permits - 1} with
        tasks := s.tasks ++ [⟨i, .connecting, 0⟩]} j = warmOf s j + if i = j then 1 else 0 := by
      simp [warmOf, List.countP_append, List.countP_cons, TaskPhase.warm]
    simp only [setSession, Heap.get_set hi] at hj
    rw [hcount]
    split at hj
    · rename_i hji
      cases hj
      have := h.permits i x hi hstarted
      rw [if_pos hji.symm, hji]
      show x.permits - 1 + (warmOf s i + 1) = poolSize
      omega
    · rename_i hji
      rw [if_neg (Ne.symm hji)]
      exact h.permits j y hj hy
  last := by
    intro j y hj hy
    simp only [setSession, Heap.get_set hi, List.length_set] at hj ⊢
    split at hj
    · rename_i hji
      cases hj
      rw [hji]
      exact h.last i x hi hy
    · exact h.last j y hj hy
  running := by
    intro j y hj
    simp only [setSession, Heap.get_set hi] at hj
    split at hj
    · cases hj
      exact h.running i x hi
    · exact h.running j y hj

/-- The event of a task says whether it stays warm, and it gives its permit up where it does not. -/
theorem next_warm {phase phase' : TaskPhase} {e : TaskEvent} {released : Bool}
    (h : phase.next e = some (phase', released)) :
    (released = true → phase.warm = true ∧ phase'.warm = false) ∧ (released = false → phase'.warm = phase.warm) := by
  cases phase <;> cases e <;> simp [TaskPhase.next] at h <;> obtain ⟨rfl, rfl⟩ := h <;> decide

/-- How a task that changes counts for its session. -/
theorem warmOf_set {k : Nat} {t : PoolTask} (hk : s.tasks[k]? = some t) (t' : PoolTask)
    (hsession : t'.session = t.session) (sessions : List Session) (j : Nat) :
    warmOf ⟨sessions, s.tasks.set k t'⟩ j + (if t.session = j ∧ t.phase.warm = true then 1 else 0) =
      warmOf s j + if t.session = j ∧ t'.phase.warm = true then 1 else 0 := by
  have hset := Heap.countP_set hk t' fun t => t.session = j && t.phase.warm
  simp only [Bool.and_eq_true, decide_eq_true_eq, hsession] at hset
  exact hset

/-- A task goes on and keeps its permit, or has none. -/
theorem inv_task (h : Inv s) {k : Nat} {t : PoolTask} (hk : s.tasks[k]? = some t) {phase : TaskPhase}
    (hwarm : phase.warm = t.phase.warm) : Inv {s with tasks := s.tasks.set k {t with phase := phase}} where
  once := by
    apply Heap.forall_set h.once
    rw [hwarm]
    exact h.once t (List.mem_of_getElem? hk)
  known := by
    apply Heap.forall_set h.known
    exact h.known t (List.mem_of_getElem? hk)
  permits := by
    intro j y hj hy
    have hset := warmOf_set hk {t with phase := phase} rfl s.sessions j
    rw [hwarm, Nat.add_right_cancel_iff] at hset
    rw [hset]
    exact h.permits j y hj hy
  last := h.last
  running := h.running

/-- A warm task gives its permit back. -/
theorem inv_release (h : Inv s) {k : Nat} {t : PoolTask} (hk : s.tasks[k]? = some t) {phase : TaskPhase}
    (hold : t.phase.warm = true) (hnew : phase.warm = false) :
    Inv {release s t.session with tasks := s.tasks.set k {t with phase := phase, released := t.released + 1}} := by
  obtain ⟨x, hx, hstarted⟩ := h.known t (List.mem_of_getElem? hk)
  have hsessions : (release s t.session).sessions = s.sessions.set t.session {x with permits := x.permits + 1} :=
    Heap.modify_eq_set hx fun x => {x with permits := x.permits + 1}
  refine ⟨?_, ?_, ?_, ?_, ?_⟩
  · apply Heap.forall_set h.once
    have hone := h.once t (List.mem_of_getElem? hk)
    rw [if_pos hold] at hone
    show t.released + 1 = if phase.warm then 0 else 1
    rw [hnew, hone]
    rfl
  · intro y hy
    simp only [hsessions, Heap.get_set hx]
    split
    · exact ⟨_, rfl, hstarted⟩
    · rename_i hne
      rcases List.mem_or_eq_of_mem_set hy with hy | rfl
      · exact h.known y hy
      · exact absurd rfl hne
  · intro j y hj hy
    have hset := warmOf_set hk {t with phase := phase, released := t.released + 1} rfl (release s t.session).sessions j
    simp only [hold, hnew, and_true, Bool.false_eq_true, and_false, if_false, Nat.add_zero] at hset
    simp only [hsessions, Heap.get_set hx] at hj
    split at hj
    · rename_i hji
      cases hj
      have := h.permits t.session x hx hstarted
      rw [hji] at hset ⊢
      rw [if_pos rfl] at hset
      show x.permits + 1 + warmOf ⟨(release s t.session).sessions, s.tasks.set k _⟩ t.session = poolSize
      omega
    · rename_i hji
      have := h.permits j y hj hy
      rw [if_neg (Ne.symm hji)] at hset
      show y.permits + warmOf ⟨(release s t.session).sessions, s.tasks.set k _⟩ j = poolSize
      omega
  · intro j y hj hy
    simp only [hsessions, Heap.get_set hx, List.length_set] at hj ⊢
    split at hj
    · rename_i hji
      cases hj
      rw [hji]
      exact h.last t.session x hx hy
    · exact h.last j y hj hy
  · intro j y hj
    simp only [hsessions, Heap.get_set hx] at hj
    split at hj
    · cases hj
      exact h.running t.session x hx
    · exact h.running j y hj

theorem task_inv (h : Inv s) {k : Nat} {t : PoolTask} (hk : s.tasks[k]? = some t) {e : TaskEvent} {u : State}
    (hstep : taskStep s k t e = some u) : Inv u := by
  unfold taskStep at hstep
  split at hstep
  · rename_i phase hnext
    cases hstep
    obtain ⟨hold, hnew⟩ := (next_warm hnext).1 rfl
    exact inv_release h hk hold hnew
  · rename_i phase hnext
    cases hstep
    exact inv_task h hk ((next_warm hnext).2 rfl)
  · cases hstep

/-- Everything a session can do. -/
theorem sessionStep_cases {i : Nat} {x : Session} {e : SessionEvent} {u : State} (h : sessionStep s i x e = some u) :
    (e = .connectRoles true ∧ x.manager = .unstarted ∧ x.returned = false ∧
      u = setSession s i {x with permits := poolSize, manager := .running}) ∨
    (e = .connectRoles false ∧ x.manager = .unstarted ∧ u = setSession s i {x with returned := true}) ∨
    (e = .acquire ∧ (x.manager = .running ∨ x.manager = .aborted) ∧ 0 < x.permits ∧
      u = {setSession s i {x with permits := x.permits - 1} with tasks := s.tasks ++ [⟨i, .connecting, 0⟩]}) ∨
    (e = .muxEnded ∧ x.manager = .running ∧ u = setSession s i {x with manager := .aborted, returned := true}) ∨
    (e = .cancelled ∧ x.manager = .aborted ∧ u = setSession s i {x with manager := .cancelled}) := by
  unfold sessionStep at h
  split at h
  · rename_i ok hm
    split at h
    · cases h
    · rename_i hreturned
      rw [Bool.not_eq_true] at hreturned
      cases ok with
      | true => exact .inl ⟨rfl, hm, hreturned, (Option.some.inj h).symm⟩
      | false => exact .inr (.inl ⟨rfl, hm, (Option.some.inj h).symm⟩)
  · rename_i hm
    split at h
    · rename_i hpos
      exact .inr (.inr (.inl ⟨rfl, .inl hm, hpos, (Option.some.inj h).symm⟩))
    · cases h
  · rename_i hm
    split at h
    · rename_i hpos
      exact .inr (.inr (.inl ⟨rfl, .inr hm, hpos, (Option.some.inj h).symm⟩))
    · cases h
  · rename_i hm
    exact .inr (.inr (.inr (.inl ⟨rfl, hm, (Option.some.inj h).symm⟩)))
  · rename_i hm
    exact .inr (.inr (.inr (.inr ⟨rfl, hm, (Option.some.inj h).symm⟩)))
  · cases h

theorem session_inv (h : Inv s) {i : Nat} {x : Session} (hi : s.sessions[i]? = some x) {e : SessionEvent} {u : State}
    (hstep : sessionStep s i x e = some u) : Inv u := by
  obtain ⟨-, hm, hreturned, rfl⟩ | ⟨-, hm, rfl⟩ | ⟨-, hm, hpos, rfl⟩ | ⟨-, hm, rfl⟩ | ⟨-, hm, rfl⟩ :=
    sessionStep_cases hstep
  · refine inv_setSession h hi (by simp) ?_ (fun _ => hreturned) ⟨fun _ => hreturned, by simp⟩
    intro _
    show poolSize + warmOf s i = poolSize
    rw [warmOf_unstarted h hi hm, Nat.add_zero]
  · exact inv_setSession h hi id (fun hx => absurd hm hx) (by simp) (by simp [hm])
  · exact inv_acquire h hi (by rcases hm with hm | hm <;> simp [hm]) hpos
  · exact inv_setSession h hi (by simp) (fun _ => h.permits i x hi (by simp [hm])) (by simp) (by simp)
  · exact inv_setSession h hi (by simp) (fun _ => h.permits i x hi (by simp [hm])) id (by simp)

theorem step_inv {a : Action} {u : State} (h : Inv s) (hstep : step a s = some u) : Inv u := by
  cases a with
  | runAgent =>
    simp only [step] at hstep
    split at hstep
    · rename_i hall
      cases hstep
      exact inv_runAgent h hall
    · cases hstep
  | session i e =>
    simp only [step] at hstep
    split at hstep
    · rename_i x hi
      exact session_inv h hi hstep
    · cases hstep
  | task k e =>
    simp only [step] at hstep
    split at hstep
    · rename_i t hk
      exact task_inv h hk hstep
    · cases hstep

theorem inv_of_trace {as : List Action} (h : system.Trace as s) : Inv s := by
  induction h with
  | nil => exact inv_init
  | snoc _ hstep ih => exact step_inv ih hstep

/-! ### Orderly runs -/

/-- With nothing warm left of the sessions that are over, the last session has all that is warm. -/
theorem sound_of_over (h : Inv s) (hover : Over s) : Sound s := by
  refine ⟨?_, h.once, hover⟩
  have hlast (t : PoolTask) (ht : t ∈ s.tasks) (hwarm : t.phase.warm = true) : t.session + 1 = s.sessions.length := by
    obtain ⟨x, hx, -⟩ := h.known t ht
    apply h.last _ x hx
    rw [← Bool.not_eq_true]
    intro hreturned
    rw [hover _ x hx hreturned t ht rfl] at hwarm
    cases hwarm
  by_cases hany : ∃ t ∈ s.tasks, t.phase.warm = true
  · obtain ⟨t, ht, hwarm⟩ := hany
    obtain ⟨x, hx, hstarted⟩ := h.known t ht
    have hall : s.tasks.countP (fun t => t.phase.warm) = warmOf s t.session := by
      apply List.countP_congr
      intro y hy
      rw [Bool.and_eq_true, decide_eq_true_eq]
      constructor
      · intro hywarm
        have := hlast t ht hwarm
        have := hlast y hy hywarm
        exact ⟨by omega, hywarm⟩
      · exact And.right
    have := h.permits t.session x hx hstarted
    rw [hall]
    omega
  · have hzero : s.tasks.countP (fun t => t.phase.warm) = 0 := by
      rw [List.countP_eq_zero]
      intro t ht hwarm
      exact hany ⟨t, ht, hwarm⟩
    rw [hzero]
    exact Nat.zero_le _

/-- What is warm was warm, and what is over was over. -/
theorem Over.mono (h : Over s) {u : State}
    (hsessions : ∀ (i : Nat) (y : Session), u.sessions[i]? = some y → y.returned = true →
      ∃ x, s.sessions[i]? = some x ∧ x.returned = true)
    (htasks : ∀ t ∈ u.tasks, t.phase.warm = true → ∃ t₀ ∈ s.tasks, t₀.session = t.session ∧ t₀.phase.warm = true) :
    Over u := by
  intro i y hi hreturned t ht hsession
  rw [← Bool.not_eq_true]
  intro hwarm
  obtain ⟨x, hx, hxreturned⟩ := hsessions i y hi hreturned
  obtain ⟨t₀, ht₀, hsame, hwarm₀⟩ := htasks t ht hwarm
  rw [h i x hx hxreturned t₀ ht₀ (hsame.trans hsession)] at hwarm₀
  cases hwarm₀

/-- A session goes on, and is over only if it was. -/
theorem over_setSession (h : Over s) {i : Nat} {x x' : Session} (hi : s.sessions[i]? = some x)
    (hreturned : x'.returned = true → x.returned = true) : Over (setSession s i x') := by
  refine h.mono ?_ fun t ht hwarm => ⟨t, ht, rfl, hwarm⟩
  intro j y hj hy
  simp only [setSession, Heap.get_set hi] at hj
  split at hj
  · rename_i hji
    cases hj
    exact ⟨x, hji ▸ hi, hreturned hy⟩
  · exact ⟨y, hj, hy⟩

/-- A session ends. -/
theorem over_return_iff (h : Over s) {i : Nat} {x x' : Session} (hi : s.sessions[i]? = some x)
    (hreturned : x'.returned = true) :
    Over (setSession s i x') ↔ ∀ t ∈ s.tasks, t.session = i → t.phase.warm = false := by
  constructor
  · intro hover
    exact hover i x' (by simp only [setSession, Heap.get_set hi, if_true]) hreturned
  · intro hcold j y hj hy
    simp only [setSession, Heap.get_set hi] at hj
    split at hj
    · rename_i hji
      rw [hji]
      exact hcold
    · exact h j y hj hy

theorem over_acquire_iff (h : Over s) {i : Nat} {x : Session} (hi : s.sessions[i]? = some x) :
    Over {setSession s i {x with permits := x.permits - 1} with tasks := s.tasks ++ [⟨i, .connecting, 0⟩]} ↔
      x.returned = false := by
  constructor
  · intro hover
    rw [← Bool.not_eq_true]
    intro hreturned
    have hcold := hover i {x with permits := x.permits - 1} (by simp only [setSession, Heap.get_set hi, if_true])
      hreturned ⟨i, .connecting, 0⟩ (by simp) rfl
    cases hcold
  · intro hreturned j y hj hy t ht htj
    have hold : Over (setSession s i {x with permits := x.permits - 1}) := over_setSession h hi id
    rcases List.mem_append.mp ht with ht | ht
    · exact hold j y hj hy t ht htj
    · rw [List.mem_singleton.mp ht] at htj
      simp only [setSession, Heap.get_set hi, htj.symm, if_true, Option.some.injEq] at hj
      rw [← hj, hreturned] at hy
      cases hy

theorem over_task (h : Over s) {k : Nat} {t : PoolTask} (hk : s.tasks[k]? = some t) {e : TaskEvent} {u : State}
    (hstep : taskStep s k t e = some u) : Over u := by
  unfold taskStep at hstep
  split at hstep
  · rename_i phase hnext
    cases hstep
    have hcold := ((next_warm hnext).1 rfl).2
    refine h.mono ?_ ?_
    · intro i y hi hy
      simp only [release, List.getElem?_modify] at hi
      obtain ⟨x, hx, rfl⟩ := Option.map_eq_some_iff.mp hi
      refine ⟨x, hx, ?_⟩
      split at hy
      · exact hy
      · exact hy
    · intro y hy hwarm
      rcases List.mem_or_eq_of_mem_set hy with hy | rfl
      · exact ⟨y, hy, rfl, hwarm⟩
      · rw [show phase.warm = true from hwarm] at hcold
        cases hcold
  · rename_i phase hnext
    cases hstep
    have hsame := (next_warm hnext).2 rfl
    refine h.mono (fun i y hi hy => ⟨y, hi, hy⟩) ?_
    intro y hy hwarm
    rcases List.mem_or_eq_of_mem_set hy with hy | rfl
    · exact ⟨y, hy, rfl, hwarm⟩
    · exact ⟨t, List.mem_of_getElem? hk, rfl, hsame ▸ hwarm⟩
  · cases hstep

theorem over_session_iff (h : Inv s) (hover : Over s) {i : Nat} {x : Session} (hi : s.sessions[i]? = some x)
    {e : SessionEvent} {u : State} (hstep : sessionStep s i x e = some u) : Over u ↔ Orderly (.session i e) s := by
  obtain ⟨rfl, hm, hreturned, rfl⟩ | ⟨rfl, hm, rfl⟩ | ⟨rfl, hm, hpos, rfl⟩ | ⟨rfl, hm, rfl⟩ | ⟨rfl, hm, rfl⟩ :=
    sessionStep_cases hstep
  · refine iff_of_true (over_setSession hover hi ?_) trivial
    intro hx
    exact hx
  · refine iff_of_true ((over_return_iff hover hi rfl).mpr ?_) trivial
    -- a session that was never set up has no task
    intro t ht htask
    obtain ⟨y, hy, hstarted⟩ := h.known t ht
    rw [htask, hi, Option.some.injEq] at hy
    rw [← hy] at hstarted
    exact absurd hm hstarted
  · rw [over_acquire_iff hover hi]
    have horderly : Orderly (.session i .acquire) s ↔ x.manager = .running := by simp [Orderly, hi]
    obtain ⟨hrunning, haborted⟩ := h.running i x hi
    rw [horderly]
    rcases hm with hm | hm
    · exact iff_of_true (hrunning hm) hm
    · simp [haborted hm, hm]
  · exact over_return_iff hover hi rfl
  · exact iff_of_true (over_setSession hover hi id) trivial

/-- An orderly step leaves nothing behind, and no other step does. -/
theorem over_step_iff {a : Action} {u : State} (h : Inv s) (hover : Over s) (hstep : step a s = some u) :
    Over u ↔ Orderly a s := by
  cases a with
  | runAgent =>
    simp only [step] at hstep
    split at hstep
    · cases hstep
      refine iff_of_true (hover.mono ?_ fun t ht hwarm => ⟨t, ht, rfl, hwarm⟩) trivial
      intro i y hi hy
      rw [Heap.get_push] at hi
      split at hi
      · cases hi
        cases hy
      · exact ⟨y, hi, hy⟩
    · cases hstep
  | session i e =>
    simp only [step] at hstep
    split at hstep
    · rename_i x hi
      exact over_session_iff h hover hi hstep
    · cases hstep
  | task k e =>
    simp only [step] at hstep
    split at hstep
    · rename_i t hk
      exact iff_of_true (over_task hover hk hstep) trivial
    · cases hstep

theorem sound_step_iff {as : List Action} {a : Action} {u : State} (h : system.Trace as s) (hsound : Sound s)
    (hstep : system.step a s = some u) : Sound u ↔ Orderly a s := by
  have hinv := inv_of_trace h
  rw [← over_step_iff hinv hsound.gone hstep]
  exact ⟨Sound.gone, sound_of_over (step_inv hinv hstep)⟩

/-- **Within a session the permits bound the warm tasks; across sessions the pool keeps its bound exactly as
long as sessions end with nothing warm.** -/
theorem warm_slots (actions : List Action) (s : State) (h : system.Trace actions s) :
    ((∀ t ∈ s.tasks, t.released = if t.phase.warm then 0 else 1) ∧
      ∀ (i : Nat) (x : Session), s.sessions[i]? = some x → x.manager ≠ .unstarted →
        x.permits + warmOf s i = poolSize) ∧
    ((∀ (before after : List Action) (t : State), actions = before ++ after → system.Trace before t → Sound t) ↔
      ∀ (before : List Action) (a : Action) (after : List Action) (t : State), actions = before ++ a :: after →
        system.Trace before t → Orderly a t) := by
  have hinv := inv_of_trace h
  refine ⟨⟨hinv.once, hinv.permits⟩, h.forall_iff ?_ ?_⟩
  · exact sound_of_over inv_init (by simp [Over, system])
  · intro as a t u ht hsound hstep
    exact sound_step_iff ht hsound hstep

instance (a : Action) (s : State) : Decidable (Orderly a s) := by
  unfold Orderly
  split <;> infer_instance

/-- A connection is assigned a target before the session ends, and serves it behind the end. -/
def orderlyRun : List Action :=
  [.runAgent, .session 0 (.connectRoles true), .session 0 .acquire, .task 0 .connected, .task 0 .assigned,
    .session 0 .muxEnded, .session 0 .cancelled, .runAgent, .session 1 (.connectRoles true), .session 1 .acquire]

theorem warm_slots_orderlyRun : ∃ s, system.Trace orderlyRun s ∧ Sound s := by
  obtain ⟨s, hrun⟩ := Option.isSome_iff_exists.mp
    (show (system.run Orderly orderlyRun system.init).isSome = true by decide)
  have htrace : system.Trace orderlyRun s := System.trace_of_run .nil hrun
  have hsound := (warm_slots orderlyRun s htrace).2.mpr (by
    intro before a after t hcut ht
    rw [hcut] at hrun
    exact System.run_meets hrun .nil ht)
  exact ⟨s, htrace, hsound orderlyRun [] s (by simp) htrace⟩

/-- The data connection is lost while the pool is full, and the next session fills a pool of its own. -/
def secondPoolRun : List Action :=
  ([.runAgent, .session 0 (.connectRoles true)] : List Action) ++ List.replicate 32 (Action.session 0 .acquire) ++
    ([.session 0 .muxEnded, .session 0 .cancelled, .runAgent, .session 1 (.connectRoles true), .session 1 .acquire] :
      List Action)

theorem warm_slots_exceeded :
    ∃ s, system.Trace secondPoolRun s ∧ s.tasks.countP (fun t => t.phase.warm) = 33 ∧ ¬ Sound s := by
  obtain ⟨s, htrace, hcount⟩ := System.trace_exists (S := system) secondPoolRun
    (fun s => s.tasks.countP (fun t => t.phase.warm) = 33) (by decide +kernel)
  rw [decide_eq_true_iff] at hcount
  refine ⟨s, htrace, hcount, ?_⟩
  intro hsound
  have hbound := hsound.bound
  rw [hcount] at hbound
  exact absurd hbound (by decide)

end Rps.Agent
