import Rps.Pool.Metering

/-! The shutdown of a pooled TCP path.

`pipe_pool_with_shutdown` waits for whichever comes first: the end of one of its loops,
or the shutdown signal. The signal aborts both loops. The end of a loop is waited for
once: if the loop broke, the other is aborted, and if it came to the end of its source,
the function waits for the other without looking at the signal again.

So a client that has sent all it had and goes on receiving cannot be cut off
(`shutdown_missed`). `shutdown_heeded`: in every other case the function gets on by
itself to where both loops have ended, and from there nothing is relayed or recorded. -/
namespace Rps.Pool
open Base
open Rps.Core

/-- A path and its shutdown channel: a value was sent, or the sender is gone. -/
structure Watched where
  path : Path
  signalled : Bool := false
  deriving DecidableEq

inductive WatchAction where
  | signal
  | path (a : Action)
  deriving DecidableEq

/-- `shutdown.changed()` is ready once there was a signal. Nobody drops the future: it is
awaited in a task of its own. -/
def Watched.step (P : Setup) (a : WatchAction) (s : Watched) : Option Watched :=
  match a with
  | .signal => some {s with signalled := true}
  | .path a =>
    if a = .drop ∨ (a = .shutdown ∧ s.signalled = false) then none
    else (s.path.step P a).map fun path => {s with path := path}

def watched (P : Setup) : System Watched WatchAction where
  init := ⟨(system P).init, false⟩
  step := Watched.step P

instance (p : Direction → Prop) [DecidablePred p] : Decidable (∀ direction, p direction) :=
  decidable_of_iff (p .up ∧ p .down) ⟨fun h direction => by cases direction; exacts [h.1, h.2], fun h => ⟨h .up, h .down⟩⟩

def Direction.other : Direction → Direction
  | .up => .down
  | .down => .up

/-- The loop of a direction at the controller. -/
def Path.loop (s : Path) : Direction → Copy
  | .up => s.uplink
  | .down => s.downlink

/-- The function is under way. -/
def Watched.piping (s : Watched) : Bool :=
  match s.path.phase with
  | .greeting _ _ | .relaying _ => true
  | _ => false

def Path.relaying (s : Path) : Bool :=
  match s.phase with
  | .relaying _ => true
  | _ => false

/-- Both loops have ended and the function has seen it. -/
def Path.halted (s : Path) : Bool :=
  s.relaying && !s.selecting && s.uplink.ended.isSome && s.downlink.ended.isSome

/-- What the function does by itself, and the ends of the loops it has aborted. -/
def WatchAction.own : WatchAction → Bool
  | .path (.greet _) | .path (.select _) | .path .shutdown | .path (.copy _ .abort) => true
  | _ => false

/-- The function gets to where both loops have ended without waiting for a loop. -/
def Stoppable (P : Setup) (s : Watched) : Prop :=
  ∃ t, (watched P).Steps (fun a _ => a.own = true) s t ∧ t.path.halted = true

/-- After the signal the function can stop, unless it has. -/
def Heeded (P : Setup) (s : Watched) : Prop :=
  s.signalled = true → s.piping = true → s.path.halted = false → Stoppable P s

/-- The function waits for a loop that runs on, and for nothing else. -/
def Path.waits (s : Path) (direction : Direction) : Bool :=
  s.relaying && !s.selecting && (s.loop direction).ended.isNone && !(s.loop direction).aborting

/-- The signal does not come while the function waits for one loop only, and the function
does not begin to when the signal has come: it takes the end of a loop then only if the
loop broke or the other has ended. -/
def Attentive (a : WatchAction) (s : Watched) : Prop :=
  match a with
  | .signal => ∀ direction, s.path.waits direction = false
  | .path (.select direction) =>
    s.signalled = true → (s.path.loop direction).broken = true ∨ (s.path.loop direction.other).ended ≠ none ∨
      (s.path.loop direction.other).aborting = true
  | _ => True

instance (a : WatchAction) (s : Watched) : Decidable (Attentive a s) := by
  unfold Attentive
  split <;> infer_instance

/-! ### Loops -/

section
variable {P : Setup} {s u : Path} {c : Nat}

theorem Path.relaying_eq (h : s.relaying = true) : ∃ c, s.phase = .relaying c := by
  unfold Path.relaying at h
  split at h
  · rename_i c hphase
    exact ⟨c, hphase⟩
  · cases h

theorem Path.relaying_of_phase (h : s.phase = .relaying c) : s.relaying = true := by
  rw [Path.relaying, h]

theorem Path.send_loops (s : Path) (c : Nat) (bytes : Bytes) :
    (s.send c bytes).phase = s.phase ∧ (s.send c bytes).selecting = s.selecting ∧
      (s.send c bytes).uplink = s.uplink ∧ (s.send c bytes).downlink = s.downlink ∧
      (s.send c bytes).conns.length = s.conns.length := by
  unfold Path.send
  split
  · exact ⟨rfl, rfl, rfl, rfl, List.length_set ..⟩
  · exact ⟨rfl, rfl, rfl, rfl, rfl⟩

/-- One loop takes a step, and the other stands. -/
theorem Path.copy_loops {direction : Direction} {a : CopyAction} (h : s.copy c direction a = some u) :
    u.phase = s.phase ∧ u.selecting = s.selecting ∧ u.conns.length = s.conns.length ∧
      (s.loop direction).ended = none ∧ (u.loop direction).aborting = (s.loop direction).aborting ∧
      u.loop direction.other = s.loop direction.other := by
  unfold Path.copy at h
  split at h
  · cases h
  · cases direction with
    | up =>
      obtain ⟨r, hr, rfl⟩ := Option.map_eq_some_iff.mp h
      obtain ⟨hended, haborting⟩ := Copy.step_running hr
      obtain ⟨hphase, hselecting, -, hdown, hlen⟩ := s.send_loops c r.out
      exact ⟨hphase, hselecting, hlen, hended, haborting, hdown⟩
    | down =>
      obtain ⟨r, hr, rfl⟩ := Option.map_eq_some_iff.mp h
      obtain ⟨hended, haborting⟩ := Copy.step_running hr
      exact ⟨rfl, rfl, List.length_set .., hended, haborting, rfl⟩

theorem Path.aborting_of_copy {direction : Direction} (h : s.copy c direction .abort = some u) :
    (s.loop direction).aborting = true := by
  unfold Path.copy at h
  split at h
  · cases h
  · cases direction with
    | up =>
      obtain ⟨r, hr, -⟩ := Option.map_eq_some_iff.mp h
      exact Copy.aborting_of_step hr
    | down =>
      obtain ⟨r, hr, -⟩ := Option.map_eq_some_iff.mp h
      exact Copy.aborting_of_step hr

theorem Path.step_select {direction : Direction} (h : s.step P (.select direction) = some u) :
    s.relaying = true ∧ s.select direction = some u := by
  change s.control P (.select direction) = some u at h
  unfold Path.control at h
  unfold Path.relaying
  cases hphase : s.phase with
  | relaying c =>
    rw [hphase] at h
    exact ⟨rfl, h⟩
  | _ =>
    rw [hphase] at h
    cases h

/-- The function takes the end of a loop, and aborts the other if that one broke. -/
theorem Path.select_eq_some {direction : Direction} (h : s.select direction = some u) :
    s.selecting = true ∧ (s.loop direction).ended ≠ none ∧ u.phase = s.phase ∧ u.selecting = false ∧
      u.conns = s.conns ∧ u.loop direction = s.loop direction ∧
      u.loop direction.other = (if (s.loop direction).broken then {s.loop direction.other with aborting := true}
        else s.loop direction.other) := by
  cases direction with
  | up =>
    simp only [Path.select, Option.ite_none_right_eq_some, Option.some.injEq] at h
    obtain ⟨⟨hselecting, hended⟩, rfl⟩ := h
    exact ⟨hselecting, hended, rfl, rfl, rfl, rfl, rfl⟩
  | down =>
    simp only [Path.select, Option.ite_none_right_eq_some, Option.some.injEq] at h
    obtain ⟨⟨hselecting, hended⟩, rfl⟩ := h
    exact ⟨hselecting, hended, rfl, rfl, rfl, rfl, rfl⟩

/-- The branch of the signal: both loops are aborted. -/
def Path.abortLoops (s : Path) : Path :=
  {s with
    selecting := false
    uplink := {s.uplink with aborting := true}
    downlink := {s.downlink with aborting := true}}

theorem Path.abortLoops_aborting (s : Path) (direction : Direction) : (s.abortLoops.loop direction).aborting = true := by
  cases direction <;> rfl

/-- What a step does to a path that relays. -/
inductive Relays (P : Setup) (a : Action) (s : Path) (c : Nat) (u : Path) : Prop where
  | outside : Around s u → Relays P a s c u
  | copy (direction : Direction) (x : CopyAction) : a = .copy direction x → s.copy c direction x = some u →
      Relays P a s c u
  | select (direction : Direction) : a = .select direction → s.select direction = some u → Relays P a s c u
  | shutdown : a = .shutdown → P.shutdown = true → s.selecting = true → u = s.abortLoops → Relays P a s c u

theorem relays_of_step {a : Action} (hphase : s.phase = .relaying c) (ha : a ≠ .drop) (hstep : s.step P a = some u) :
    Relays P a s c u := by
  rcases around_or_control hstep with haround | hcontrol
  · exact .outside haround
  · -- a step of the function itself, which relays
    unfold Path.control at hcontrol
    rw [hphase] at hcontrol
    cases a with
    | copy direction x => exact .copy direction x rfl hcontrol
    | select direction => exact .select direction rfl hcontrol
    | shutdown =>
      simp only [Option.ite_none_right_eq_some, Option.some.injEq] at hcontrol
      exact .shutdown rfl hcontrol.1.1 hcontrol.1.2 (by rw [Path.abortLoops, hphase]; exact hcontrol.2.symm)
    | drop => exact absurd rfl ha
    | _ => cases hcontrol

/-! ### Paths that come to relay -/

/-- The connection a path has in hand. -/
def Phase.conn : Phase → Option Nat
  | .requesting c _ | .awaiting c | .opened c | .greeting c _ | .relaying c => some c
  | _ => none

/-- The path has not come to relay and may. -/
def Phase.early : Phase → Bool
  | .acquiring | .requesting _ _ | .awaiting _ | .opened _ | .greeting _ _ => true
  | _ => false

/-- The connection in hand is there, and before the path relays nothing was taken. -/
structure PipeInv (s : Path) : Prop where
  bound : ∀ c, s.phase.conn = some c → c < s.conns.length
  selecting : s.phase.early = true → s.selecting = true

theorem PipeInv.same (h : PipeInv s) (hphase : u.phase = s.phase) (hselecting : u.selecting = s.selecting)
    (hconns : s.conns.length ≤ u.conns.length) : PipeInv u where
  bound := by
    rw [hphase]
    exact fun c hc => Nat.lt_of_lt_of_le (h.bound c hc) hconns
  selecting := by
    rw [hphase, hselecting]
    exact h.selecting

/-- What a move makes of the invariant; and a path that comes to relay has taken no end of
a loop yet. -/
def Enters (s u : Path) : Prop := PipeInv u ∧ (s.relaying = false → u.relaying = true → u.selecting = true)

theorem Enters.of_bound (hbound : ∀ c, u.phase.conn = some c → c < u.conns.length) (hselecting : u.selecting = true) :
    Enters s u :=
  ⟨⟨hbound, fun _ => hselecting⟩, fun _ _ => hselecting⟩

theorem enters_retry (h : s.selecting = true) : Enters s (s.retry P) := by
  unfold Path.retry
  split
  · exact .of_bound nofun h
  · exact .of_bound nofun h

/-- Bytes are written to the connection in hand, and it stays in hand. -/
theorem enters_send (h : PipeInv s) (hearly : s.phase.early = true) (hconn : s.phase.conn = some c) (bytes : Bytes)
    {phase : Phase} (hphase : phase.conn = some c) : Enters s {s.send c bytes with phase := phase} := by
  obtain ⟨-, hsend, -, -, hlen⟩ := s.send_loops c bytes
  refine .of_bound (fun c' hc => ?_) (hsend.trans (h.selecting hearly))
  obtain rfl : c = c' := Option.some.inj (hphase.symm.trans hc)
  exact Nat.lt_of_lt_of_eq (h.bound c hconn) hlen.symm

theorem enters_moves (h : PipeInv s) (hm : Moves P s u) : Enters s u := by
  cases hm with
  | fail error => exact ⟨⟨nofun, nofun⟩, nofun⟩
  | drop => exact ⟨⟨nofun, nofun⟩, nofun⟩
  | acquire hphase hstep =>
    have hselecting := h.selecting (by rw [hphase]; rfl)
    unfold Path.acquire at hstep
    split at hstep
    · cases hstep
    · rename_i k hk
      split at hstep
      · cases hstep
        refine .of_bound (fun c hc => ?_) hselecting
        cases hc
        exact (List.getElem?_eq_some_iff.mp hk).1
      · cases hstep
        exact enters_retry hselecting
  | requestWrite c rest n hphase =>
    refine enters_send h (by rw [hphase]; rfl) (by rw [hphase]; rfl) _ ?_
    split <;> rfl
  | requestFail c rest hphase => exact enters_retry (h.selecting (by rw [hphase]; rfl))
  | responseRead c hphase hstep =>
    have hselecting := h.selecting (by rw [hphase]; rfl)
    unfold Path.responseRead at hstep
    split at hstep
    · cases hstep
    · rename_i k hk
      split at hstep
      · cases hstep
      · cases hstep
        exact enters_retry hselecting
      · split at hstep
        · cases hstep
          refine .of_bound (fun c' hc => ?_) hselecting
          cases hc
          simpa using (List.getElem?_eq_some_iff.mp hk).1
        · cases hstep
          exact .of_bound nofun hselecting
  | responseFail c hphase => exact enters_retry (h.selecting (by rw [hphase]; rfl))
  | setup c hphase =>
    have hbound := h.bound c (by rw [hphase, Phase.conn])
    have hselecting := h.selecting (by rw [hphase]; rfl)
    unfold Path.setup
    split
    · refine .of_bound (fun c' hc => ?_) hselecting
      cases hc
      exact hbound
    · refine .of_bound (fun c' hc => ?_) hselecting
      cases hc
      exact hbound
  | greet c rest n hphase =>
    refine enters_send h (by rw [hphase]; rfl) (by rw [hphase]; rfl) _ ?_
    split <;> rfl
  | copy c direction a hphase hstep =>
    obtain ⟨hp, hs, hlen, -⟩ := Path.copy_loops hstep
    refine ⟨h.same hp hs (Nat.le_of_eq hlen.symm), fun hnot => ?_⟩
    rw [Path.relaying_of_phase hphase] at hnot
    cases hnot
  | loops c selecting uplink downlink hphase _ _ =>
    refine ⟨⟨h.bound, fun hearly => ?_⟩, fun hnot => ?_⟩
    · rw [hphase] at hearly
      cases hearly
    · rw [Path.relaying_of_phase hphase] at hnot
      cases hnot

theorem enters_step (h : PipeInv s) {a : Action} (hstep : s.step P a = some u) : Enters s u := by
  rcases around_or_control hstep with haround | hcontrol
  · refine ⟨h.same haround.phase haround.selecting haround.conns, fun hnot hrelays => ?_⟩
    rw [Path.relaying, haround.phase, ← Path.relaying, hnot] at hrelays
    cases hrelays
  · exact enters_moves h (control_moves hcontrol)

theorem Around.loop (h : Around s u) (direction : Direction) : u.loop direction = s.loop direction := by
  cases direction with
  | up => exact h.uplink
  | down => exact h.downlink

theorem Direction.eq_or_other (d direction : Direction) : d = direction ∨ d = direction.other := by
  cases d <;> cases direction <;> decide

theorem Path.waits_eq {direction : Direction} : s.waits direction = true ↔ s.relaying = true ∧ s.selecting = false ∧
    (s.loop direction).ended = none ∧ (s.loop direction).aborting = false := by
  simp [Path.waits, and_assoc]

theorem Path.halted_eq : s.halted = true ↔ s.relaying = true ∧ s.selecting = false ∧
    ∀ direction, (s.loop direction).ended ≠ none := by
  have hboth : (∀ direction, (s.loop direction).ended ≠ none) ↔ s.uplink.ended ≠ none ∧ s.downlink.ended ≠ none := by
    constructor
    · exact fun h => ⟨h .up, h .down⟩
    · rintro ⟨hup, hdown⟩ direction
      cases direction with
      | up => exact hup
      | down => exact hdown
  rw [hboth]
  simp [Path.halted, Option.isSome_iff_ne_none, and_assoc]

end

/-! ### The signal -/

section
variable {P : Setup} {s t : Watched}

theorem watched_path {a : Action} (h : (watched P).step (.path a) s = some t) :
    a ≠ .drop ∧ (a = .shutdown → s.signalled = true) ∧ ∃ u, s.path.step P a = some u ∧ t = {s with path := u} := by
  simp only [watched, Watched.step, Option.ite_none_left_eq_some, not_or, not_and, Bool.not_eq_false] at h
  obtain ⟨⟨hdrop, hshutdown⟩, hstep⟩ := h
  obtain ⟨u, hu, rfl⟩ := Option.map_eq_some_iff.mp hstep
  exact ⟨hdrop, hshutdown, u, hu, rfl⟩

/-- After the signal, a function that takes no ends any more has aborted what runs. -/
structure WatchInv (s : Watched) : Prop where
  pipe : PipeInv s.path
  stopped : s.signalled = true → s.path.relaying = true → s.path.selecting = false →
    ∀ direction, (s.path.loop direction).ended ≠ none ∨ (s.path.loop direction).aborting = true

theorem watchInv_init : WatchInv (watched P).init where
  pipe := ⟨nofun, fun _ => rfl⟩
  stopped := nofun

theorem stopped_of_relays {a : Action} {c : Nat} {path u : Path} (hm : Relays P a path c u)
    (hold : path.selecting = false →
      ∀ direction, (path.loop direction).ended ≠ none ∨ (path.loop direction).aborting = true)
    (hselect : ∀ direction, a = .select direction → (path.loop direction).broken = true ∨
      (path.loop direction.other).ended ≠ none ∨ (path.loop direction.other).aborting = true)
    (hselecting : u.selecting = false) (d : Direction) : (u.loop d).ended ≠ none ∨ (u.loop d).aborting = true := by
  cases hm with
  | outside haround =>
    rw [haround.loop d]
    exact hold (haround.selecting.symm.trans hselecting) d
  | copy direction x ha hcopy =>
    obtain ⟨-, hsel, -, hended, haborting, hother⟩ := Path.copy_loops hcopy
    have hold := hold (hsel.symm.trans hselecting)
    rcases Direction.eq_or_other d direction with rfl | rfl
    · rcases hold d with hend | habort
      · exact absurd hended hend
      · exact .inr (haborting.trans habort)
    · rw [hother]
      exact hold direction.other
  | select direction ha hsel =>
    obtain ⟨-, hended, -, -, -, hself, hother⟩ := Path.select_eq_some hsel
    rcases Direction.eq_or_other d direction with rfl | rfl
    · rw [hself]
      exact .inl hended
    · rw [hother]
      rcases hselect direction ha with hbroken | hend
      · rw [if_pos hbroken]
        exact .inr rfl
      · split
        · exact .inr rfl
        · exact hend
  | shutdown ha hshutdown hsel heq =>
    rw [heq]
    exact .inr (path.abortLoops_aborting d)

theorem watchInv_step {a : WatchAction} (h : WatchInv s) (hatt : Attentive a s) (hstep : (watched P).step a s = some t) :
    WatchInv t := by
  cases a with
  | signal =>
    cases hstep
    refine ⟨h.pipe, fun _ hrelays hselecting direction => ?_⟩
    have hnot := hatt direction
    rw [← Bool.not_eq_true, Path.waits_eq] at hnot
    by_contra hrun
    rw [not_or, not_not, Bool.not_eq_true] at hrun
    exact hnot ⟨hrelays, hselecting, hrun.1, hrun.2⟩
  | path a =>
    obtain ⟨hdrop, -, u, hu, rfl⟩ := watched_path hstep
    obtain ⟨hpipe, henter⟩ := enters_step h.pipe hu
    refine ⟨hpipe, fun hsignalled hrelays hselecting => ?_⟩
    cases hold : s.path.relaying with
    | false =>
      rw [henter hold hrelays] at hselecting
      cases hselecting
    | true =>
      obtain ⟨c, hphase⟩ := Path.relaying_eq hold
      refine stopped_of_relays (relays_of_step hphase hdrop hu) (h.stopped hsignalled hold) ?_ hselecting
      rintro direction rfl
      exact hatt hsignalled

/-! ### Getting to the end -/

theorem Path.copy_abort {path : Path} {c : Nat} (hbound : c < path.conns.length) {direction : Direction}
    (hended : (path.loop direction).ended = none) (haborting : (path.loop direction).aborting = true) :
    ∃ u, path.copy c direction .abort = some u ∧ (u.loop direction).ended ≠ none := by
  have hk : path.conns[c]? = some path.conns[c] := List.getElem?_eq_getElem hbound
  unfold Path.copy
  rw [hk]
  cases direction with
  | up =>
    have habort : path.uplink.step poolCopyBufSize .abort path.clientUnread = _ := Copy.step_abort hended haborting ..
    simp only [habort, Option.map_some]
    exact ⟨_, rfl, Option.some_ne_none _⟩
  | down =>
    have habort : path.downlink.step poolCopyBufSize .abort path.conns[c].down = _ := Copy.step_abort hended haborting ..
    simp only [habort, Option.map_some]
    exact ⟨_, rfl, Option.some_ne_none _⟩

/-- A loop that is aborted ends. -/
theorem stop_loop {c : Nat} (hphase : s.path.phase = .relaying c) (hbound : c < s.path.conns.length)
    (direction : Direction) (hstop : (s.path.loop direction).ended ≠ none ∨ (s.path.loop direction).aborting = true) :
    ∃ t, (watched P).Steps (fun a _ => a.own = true) s t ∧ t.path.phase = .relaying c ∧
      t.path.selecting = s.path.selecting ∧ c < t.path.conns.length ∧ (t.path.loop direction).ended ≠ none ∧
      t.path.loop direction.other = s.path.loop direction.other := by
  by_cases hended : (s.path.loop direction).ended = none
  · have haborting := hstop.resolve_left (not_not.mpr hended)
    obtain ⟨u, hu, hend⟩ := Path.copy_abort hbound hended haborting
    obtain ⟨hp, hs, hlen, -, -, hother⟩ := Path.copy_loops hu
    have hstep : (watched P).step (.path (.copy direction .abort)) s = some {s with path := u} := by
      simp [watched, Watched.step, Path.step, Path.control, hphase, hu]
    exact ⟨_, .step .refl rfl hstep, hp.trans hphase, hs, Nat.lt_of_lt_of_eq hbound hlen.symm, hend, hother⟩
  · exact ⟨s, .refl, hphase, rfl, hbound, hended, rfl⟩

theorem stoppable_of_stopped {c : Nat} (hphase : s.path.phase = .relaying c) (hbound : c < s.path.conns.length)
    (hselecting : s.path.selecting = false)
    (hstop : ∀ direction, (s.path.loop direction).ended ≠ none ∨ (s.path.loop direction).aborting = true) :
    Stoppable P s := by
  obtain ⟨t, ht, htphase, htsel, htbound, htup, htdown⟩ := stop_loop (P := P) hphase hbound .up (hstop .up)
  have hdown : (t.path.loop .down).ended ≠ none ∨ (t.path.loop .down).aborting = true := by
    rw [show t.path.loop .down = s.path.loop .down from htdown]
    exact hstop .down
  obtain ⟨u, hu, huphase, husel, -, hudown, huup⟩ := stop_loop (P := P) htphase htbound .down hdown
  refine ⟨u, System.Steps.trans ht hu, Path.halted_eq.mpr ⟨Path.relaying_of_phase huphase, ?_, fun direction => ?_⟩⟩
  · rw [husel, htsel, hselecting]
  · cases direction with
    | up =>
      rw [show u.path.loop .up = t.path.loop .up from huup]
      exact htup
    | down => exact hudown

theorem stoppable_of_selecting (hP : P.shutdown = true) {c : Nat} (hphase : s.path.phase = .relaying c)
    (hbound : c < s.path.conns.length) (hselecting : s.path.selecting = true) (hsignalled : s.signalled = true) :
    Stoppable P s := by
  have hstep : (watched P).step (.path .shutdown) s = some {s with path := s.path.abortLoops} := by
    simp [watched, Watched.step, Path.step, Path.control, Path.abortLoops, hphase, hP, hselecting, hsignalled]
  have hstop : Stoppable P {s with path := s.path.abortLoops} :=
    stoppable_of_stopped hphase hbound rfl fun direction => .inr (s.path.abortLoops_aborting direction)
  obtain ⟨t, ht, hhalted⟩ := hstop
  exact ⟨t, System.Steps.trans (.step .refl rfl hstep) ht, hhalted⟩

theorem heeded_of_inv (hP : P.shutdown = true) (h : WatchInv s) : Heeded P s := by
  intro hsignalled hpiping hhalted
  unfold Watched.piping at hpiping
  split at hpiping
  · -- the initial data is written out first
    rename_i c rest hphase
    obtain ⟨-, hsel, -, -, hlen⟩ := s.path.send_loops c (rest.take rest.length)
    have hstep : (watched P).step (.path (.greet rest.length)) s = some {s with
        path := {s.path.send c (rest.take rest.length) with phase := .relaying c}} := by
      simp [watched, Watched.step, Path.step, Path.control, hphase]
    have hbound := h.pipe.bound c (by rw [hphase]; rfl)
    have hselecting := h.pipe.selecting (by rw [hphase]; rfl)
    have hstop : Stoppable P {s with path := {s.path.send c (rest.take rest.length) with phase := .relaying c}} :=
      stoppable_of_selecting hP rfl (Nat.lt_of_lt_of_eq hbound hlen.symm) (hsel.trans hselecting) hsignalled
    obtain ⟨t, ht, hend⟩ := hstop
    exact ⟨t, System.Steps.trans (.step .refl rfl hstep) ht, hend⟩
  · rename_i c hphase
    have hbound := h.pipe.bound c (by rw [hphase]; rfl)
    cases hselecting : s.path.selecting with
    | true => exact stoppable_of_selecting hP hphase hbound hselecting hsignalled
    | false =>
      exact stoppable_of_stopped hphase hbound hselecting
        (h.stopped hsignalled (Path.relaying_of_phase hphase) hselecting)
  · cases hpiping

/-! ### Waiting for one loop only -/

/-- The function cannot get on by itself: only the loop it waits for can. -/
theorem waits_own {a : WatchAction} {direction : Direction} (h : s.path.waits direction = true) (ha : a.own = true)
    (hstep : (watched P).step a s = some t) : t.path.waits direction = true := by
  obtain ⟨hrelays, hselecting, hended, haborting⟩ := Path.waits_eq.mp h
  obtain ⟨c, hphase⟩ := Path.relaying_eq hrelays
  cases a with
  | signal => cases ha
  | path a =>
    obtain ⟨hdrop, -, u, hu, rfl⟩ := watched_path hstep
    cases relays_of_step hphase hdrop hu with
    | outside haround =>
      rw [Path.waits, haround.loop direction, haround.selecting, Path.relaying, haround.phase]
      exact h
    | copy d x hx hcopy =>
      obtain ⟨hp, hs, -, hrun, -, hother⟩ := Path.copy_loops hcopy
      rcases Direction.eq_or_other direction d with rfl | rfl
      · -- it is not aborted, and this is the only step a loop has among these
        subst hx
        cases x with
        | abort =>
          rw [Path.aborting_of_copy hcopy] at haborting
          cases haborting
        | _ => cases ha
      · rw [Path.waits, hother, hs, Path.relaying, hp]
        exact h
    | select d hd hselect =>
      rw [(Path.select_eq_some hselect).1] at hselecting
      cases hselecting
    | shutdown hshutdown _ hsel _ =>
      rw [hsel] at hselecting
      cases hselecting

theorem not_stoppable_of_waits {direction : Direction} (h : s.path.waits direction = true) : ¬ Stoppable P s := by
  rintro ⟨t, hsteps, hhalted⟩
  have hwaits : t.path.waits direction = true :=
    hsteps.invariant (I := fun s => s.path.waits direction = true) h fun a u v hu ha hstep => waits_own hu ha hstep
  exact (Path.halted_eq.mp hhalted).2.2 direction (Path.waits_eq.mp hwaits).2.2.1

/-- A signal that the function waits past. -/
theorem not_heeded_of_waits {direction : Direction} (h : s.path.waits direction = true) (hsignalled : s.signalled = true) :
    ¬ Heeded P s := by
  obtain ⟨hrelays, -, hended, -⟩ := Path.waits_eq.mp h
  obtain ⟨c, hphase⟩ := Path.relaying_eq hrelays
  intro hheeded
  refine not_stoppable_of_waits h (hheeded hsignalled (by rw [Watched.piping, hphase]) ?_)
  rw [← Bool.not_eq_true, Path.halted_eq]
  exact fun hhalted => hhalted.2.2 direction hended

/-- Exactly the steps that are not attentive take the function past a signal. -/
theorem heeded_iff_attentive (hP : P.shutdown = true) {a : WatchAction} (h : WatchInv s)
    (hstep : (watched P).step a s = some t) : Heeded P t ↔ Attentive a s := by
  constructor
  · intro hheeded
    cases a with
    | signal =>
      cases hstep
      intro direction
      rw [← Bool.not_eq_true]
      exact fun hwaits => not_heeded_of_waits (s := {s with signalled := true}) hwaits rfl hheeded
    | path a =>
      cases a with
      | select direction =>
        obtain ⟨-, -, u, hu, rfl⟩ := watched_path hstep
        obtain ⟨hrelays, hselect⟩ := Path.step_select hu
        obtain ⟨-, -, hphase, hselecting, -, -, hother⟩ := Path.select_eq_some hselect
        intro hsignalled
        by_contra hnot
        rw [not_or, not_or, not_not, Bool.not_eq_true, Bool.not_eq_true] at hnot
        obtain ⟨hbroken, hended, haborting⟩ := hnot
        rw [hbroken] at hother
        have hwaits : u.waits direction.other = true := by
          rw [Path.waits_eq, Path.relaying, hphase, hother]
          exact ⟨hrelays, hselecting, hended, haborting⟩
        exact not_heeded_of_waits (s := {s with path := u}) hwaits hsignalled hheeded
      | _ => trivial
  · exact fun hatt => heeded_of_inv hP (watchInv_step h hatt hstep)

/-! ### After the end -/

/-- What has been relayed and recorded. -/
def Path.relayed (s : Path) : Copy × Copy × Option Totals × Bytes := (s.uplink, s.downlink, s.recorder, s.clientGot)

theorem halted_step {a : WatchAction} (h : s.path.halted = true) (hstep : (watched P).step a s = some t) :
    t.path.halted = true ∧ t.path.relayed = s.path.relayed := by
  obtain ⟨hrelays, hselecting, hended⟩ := Path.halted_eq.mp h
  obtain ⟨c, hphase⟩ := Path.relaying_eq hrelays
  cases a with
  | signal =>
    cases hstep
    exact ⟨h, rfl⟩
  | path a =>
    obtain ⟨hdrop, -, u, hu, rfl⟩ := watched_path hstep
    cases relays_of_step hphase hdrop hu with
    | outside haround =>
      constructor
      · rw [Path.halted, Path.relaying, haround.phase, haround.selecting, haround.uplink, haround.downlink]
        exact h
      · rw [Path.relayed, haround.uplink, haround.downlink, haround.recorder, haround.clientGot]
        rfl
    | copy d x _ hcopy => exact absurd (Path.copy_loops hcopy).2.2.2.1 (hended d)
    | select d _ hselect =>
      rw [(Path.select_eq_some hselect).1] at hselecting
      cases hselecting
    | shutdown _ _ hsel _ =>
      rw [hsel] at hselecting
      cases hselecting

theorem halted_steps (h : s.path.halted = true) (hsteps : (watched P).Steps (fun _ _ => True) s t) :
    t.path.relayed = s.path.relayed := by
  have hinv := hsteps.invariant (I := fun t => t.path.halted = true ∧ t.path.relayed = s.path.relayed) ⟨h, rfl⟩ ?_
  · exact hinv.2
  · rintro a u v ⟨hu, hsame⟩ - hstep
    obtain ⟨hv, hrelayed⟩ := halted_step hu hstep
    exact ⟨hv, hrelayed.trans hsame⟩

end

/-- **The signal is heeded in every state of a run whose steps are attentive**, by exactly
these steps; and once the loops have ended nothing is relayed or recorded. -/
theorem shutdown_heeded (P : Setup) (hP : P.shutdown = true) (s : Watched) (hreach : (watched P).Reach Attentive s) :
    Heeded P s ∧ (∀ a t, (watched P).step a s = some t → (Heeded P t ↔ Attentive a s)) ∧
      (s.path.halted = true → ∀ t, (watched P).Steps (fun _ _ => True) s t → t.path.relayed = s.path.relayed) := by
  have hinv : WatchInv s := hreach.invariant watchInv_init fun _ _ _ h hatt hstep => watchInv_step h hatt hstep
  exact ⟨heeded_of_inv hP hinv, fun a t hstep => heeded_iff_attentive hP hinv hstep,
    fun hhalted t hsteps => halted_steps hhalted hsteps⟩

/-! ### A client that sends no more -/

/-- A path that relays: the agent has two bytes of the target for it. -/
def relayStart : List WatchAction :=
  ([.dial, .acquire, .requestWrite greetedSetup.requestMessage.length, .agent 0 .requestRead, .agent 0 .connected,
    .agent 0 (.answer (greetedSetup.responseMessage .success).length), .targetSend 0 [9, 8],
    .agent 0 (.copy .down (.read 2)), .agent 0 (.copy .down (.write 2)), .responseRead, .setup, .greet 2,
    .copy .down (.read 1), .copy .down (.write 1)] : List Action).map .path

/-- The signal comes while both loops run. -/
theorem shutdown_heeded_relaying : ∃ s, (watched greetedSetup).Reach Attentive s ∧ s.signalled = true ∧
    s.piping = true ∧ s.path.halted = false ∧ Stoppable greetedSetup s := by
  obtain ⟨s, hreach, hs⟩ := System.reach_of_run (S := watched greetedSetup) (C := Attentive)
    (relayStart ++ [WatchAction.signal])
    (fun s => s.signalled = true ∧ s.piping = true ∧ s.path.halted = false) (by decide +kernel)
  obtain ⟨hsignalled, hpiping, hhalted⟩ := of_decide_eq_true hs
  exact ⟨s, hreach, hsignalled, hpiping, hhalted,
    (shutdown_heeded greetedSetup rfl s hreach).1 hsignalled hpiping hhalted⟩

/-- The client has sent all it had and goes on receiving; the signal comes then. -/
def halfClosed : List WatchAction :=
  relayStart ++ [.path (.copy .up .eof), .path (.select .up), .signal]

def receives : List WatchAction := [.path (.copy .down (.read 1)), .path (.copy .down (.write 1))]

/-- The function waits past the signal, and what the target sends is relayed and recorded. -/
theorem shutdown_missed : ∃ s t, (watched greetedSetup).Reachable s ∧ s.signalled = true ∧ s.piping = true ∧
    s.path.halted = false ∧ ¬ Stoppable greetedSetup s ∧ (watched greetedSetup).Steps (fun _ _ => True) s t ∧
    s.path.recorder = some ⟨1, 2⟩ ∧ t.path.recorder = some ⟨2, 2⟩ := by
  obtain ⟨s, hreach, hs⟩ := System.reach_of_run (S := watched greetedSetup) (C := fun _ _ => True) halfClosed
    (fun s => s.signalled = true ∧ s.piping = true ∧ s.path.halted = false ∧ s.path.waits .down = true ∧
      s.path.recorder = some ⟨1, 2⟩ ∧ (((watched greetedSetup).run (fun _ _ => True) receives s).any
        fun t => t.path.recorder = some ⟨2, 2⟩) = true) (by decide +kernel)
  obtain ⟨hsignalled, hpiping, hhalted, hwaits, hrecorder, hlater⟩ := of_decide_eq_true hs
  obtain ⟨t, hrun, ht⟩ := (Option.any_eq_true ..).mp hlater
  exact ⟨s, t, hreach, hsignalled, hpiping, hhalted, not_stoppable_of_waits hwaits, System.steps_of_run hrun, hrecorder,
    of_decide_eq_true ht⟩

end Rps.Pool
