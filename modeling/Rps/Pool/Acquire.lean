import Rps.Pool.Metering

/-! Which parked connection `open_pool_stream` returns.

The loop takes connections out of the pool in order. One that fails on the write or on the
read is left behind for the next, and there are four attempts; a connection that does not
answer in time, or answers that the target cannot be opened, ends the call. `openPoolStream`
is the loop over what is parked, each connection given by what the call will see of it, and
`path_acquires` says that it is what the steps of `Path` come to. -/
namespace Rps.Pool
open Base
open Rps.Core

/-- A parked connection, by how it takes the request: the write or the read fails, nothing
comes within the time, or there is an answer. -/
inductive Parked where
  | deadOnWrite
  | deadOnRead
  | silent
  | answers (response : OpenResponse)
  deriving DecidableEq

/-- What the pool channel of a client holds; it is closed once its sender is gone. -/
structure Channel where
  parked : List Parked
  closed : Bool := false

namespace Parked

/-- The connection has died, and a write or a read finds out. -/
def Dead (p : Parked) : Prop := p = .deadOnWrite ∨ p = .deadOnRead

/-- Its agent opens the target. -/
def Opens (p : Parked) : Prop := ∃ response, p = .answers response ∧ response.ok = true

theorem Opens.not_dead {p : Parked} (h : p.Opens) : ¬ p.Dead := by
  obtain ⟨response, rfl, -⟩ := h
  rintro (h | h) <;> cases h

end Parked

/-- The attempts that are left, on the connections from `conn` on. -/
def acquireFrom (P : Setup) (closed : Bool) : Nat → List Parked → Nat → Except String Nat
  | 0, _, _ => .error s!"no live pooled connection available for client {P.clientId}"
  | _ + 1, [], _ =>
    if closed then .error s!"client {P.clientId} pool is closed"
    else .error s!"client {P.clientId} pool exhausted: no idle connection within 10s"
  | attempts + 1, p :: parked, conn =>
    match p with
    | .deadOnWrite | .deadOnRead => acquireFrom P closed attempts parked (conn + 1)
    | .silent => .error s!"agent open target {P.request.target} timed out after {P.request.timeoutMs}ms"
    | .answers response =>
      if response.ok then .ok conn
      else
        let error := response.error.getD "unknown error"
        .error s!"agent failed to open target {P.request.target}: {error}"

/-- `open_pool_stream`: the place of the connection that it returns. -/
def openPoolStream (P : Setup) (channel : Channel) : Except String Nat :=
  acquireFrom P channel.closed poolAcquireRetries channel.parked 0

/-! ### The connection that is returned -/

section
variable {P : Setup}

theorem acquireFrom_dead {closed : Bool} {p : Parked} (h : p.Dead) (attempts : Nat) (parked : List Parked) (conn : Nat) :
    acquireFrom P closed (attempts + 1) (p :: parked) conn = acquireFrom P closed attempts parked (conn + 1) := by
  rcases h with rfl | rfl <;> rfl

/-- A connection that is not dead ends the loop. -/
theorem acquireFrom_not_dead {closed : Bool} {p : Parked} (h : ¬ p.Dead) {attempts : Nat} {parked : List Parked}
    {conn c : Nat} : acquireFrom P closed (attempts + 1) (p :: parked) conn = .ok c ↔ p.Opens ∧ c = conn := by
  cases p with
  | deadOnWrite => exact absurd (.inl rfl) h
  | deadOnRead => exact absurd (.inr rfl) h
  | silent => simp [acquireFrom, Parked.Opens]
  | answers response =>
    simp only [acquireFrom, Parked.Opens, Parked.answers.injEq, exists_eq_left']
    split
    · rename_i hok
      simp [hok, eq_comm]
    · rename_i hok
      simp [hok]

/-- The first that is not dead, if it opens and the attempts last. -/
theorem acquireFrom_ok (closed : Bool) (attempts : Nat) (parked : List Parked) (conn c : Nat) :
    acquireFrom P closed attempts parked conn = .ok c ↔
      ∃ i, c = conn + i ∧ i < attempts ∧ (∃ p, parked[i]? = some p ∧ p.Opens) ∧
        ∀ j < i, ∃ p, parked[j]? = some p ∧ p.Dead := by
  induction attempts generalizing parked conn with
  | zero => simp [acquireFrom]
  | succ attempts ih =>
    cases parked with
    | nil =>
      cases closed <;> simp [acquireFrom]
    | cons p parked =>
      by_cases hdead : p.Dead
      · rw [acquireFrom_dead hdead, ih]
        constructor
        · intro h
          obtain ⟨i, hc, hi, hopens, hbefore⟩ := h
          refine ⟨i + 1, by omega, by omega, hopens, fun j hj => ?_⟩
          cases j with
          | zero => exact ⟨p, rfl, hdead⟩
          | succ j => exact hbefore j (by omega)
        · intro h
          obtain ⟨i, hc, hi, hopens, hbefore⟩ := h
          cases i with
          | zero =>
            obtain ⟨q, hq, hopens⟩ := hopens
            cases hq
            exact absurd hdead hopens.not_dead
          | succ i => exact ⟨i, by omega, by omega, hopens, fun j hj => hbefore (j + 1) (by omega)⟩
      · rw [acquireFrom_not_dead hdead]
        constructor
        · intro h
          exact ⟨0, h.2, by omega, ⟨p, rfl, h.1⟩, fun j hj => absurd hj (Nat.not_lt_zero j)⟩
        · intro h
          obtain ⟨i, hc, hi, ⟨q, hq, hopens⟩, hbefore⟩ := h
          cases i with
          | zero =>
            cases hq
            exact ⟨hopens, hc⟩
          | succ i =>
            obtain ⟨q, hq, hq'⟩ := hbefore 0 (by omega)
            cases hq
            exact absurd hq' hdead

/-! ### What the steps come to -/

/-- The step is one of a run of `open_pool_stream` on this channel: the parked connections
behave as they are given, and nobody else takes one. -/
def follows (P : Setup) (channel : Channel) (a : Action) (s : Path) : Bool :=
  match a, s.phase with
  | .dial, _ => s.conns.length < channel.parked.length
  | .taken, _ => false
  | .offline, _ => false
  | .acquire, .acquiring =>
    match P.requestCodec.writeJson P.request with
    | .ok _ => true
    | .error _ => channel.parked[s.next]? = some .deadOnWrite
  | .poolClosed, .acquiring => channel.closed ∧ s.next = channel.parked.length
  | .poolExhausted, .acquiring => ¬ channel.closed ∧ s.next = channel.parked.length
  | .requestFail, .requesting conn _ => channel.parked[conn]? = some .deadOnWrite
  | .responseFail, .awaiting conn => channel.parked[conn]? = some .deadOnRead
  | .responseTimeout, .awaiting conn => channel.parked[conn]? = some .silent
  | .responseRead, .awaiting conn =>
    match s.conns[conn]? with
    | none => true
    | some k =>
      match P.responseCodec.readJson k.down with
      | .more => true
      | .invalid _ => channel.parked[conn]? = some .deadOnRead
      | .done response _ => channel.parked[conn]? = some (.answers response)
  -- the call has returned
  | .setup, _ | .setupFail _, _ => false
  | _, _ => true

/-- The connection in hand is the one that was taken last, and the loop comes to what it
comes to from there. -/
structure InHand (P : Setup) (channel : Channel) (s : Path) (conn : Nat) : Prop where
  next : s.next = conn + 1
  attempts : s.attempts = conn + 1
  inTime : conn < poolAcquireRetries
  result : openPoolStream P channel =
    acquireFrom P channel.closed (poolAcquireRetries - conn) (channel.parked.drop conn) conn

/-- Where the call stands. -/
def Acquires (P : Setup) (channel : Channel) (s : Path) : Prop :=
  match s.phase with
  | .acquiring =>
    s.next = s.attempts ∧ s.attempts < poolAcquireRetries ∧
      openPoolStream P channel =
        acquireFrom P channel.closed (poolAcquireRetries - s.next) (channel.parked.drop s.next) s.next
  | .requesting conn _ | .awaiting conn => InHand P channel s conn
  | .opened conn => openPoolStream P channel = .ok conn
  | .failed error => openPoolStream P channel = .error error
  | .greeting _ _ | .relaying _ => False
  | .dropped => True

theorem acquires_init (channel : Channel) : Acquires P channel (system P).init :=
  ⟨rfl, (by decide : 0 < poolAcquireRetries), rfl⟩

variable {channel : Channel} {s u : Path}

theorem InHand.congr {conn : Nat} (h : InHand P channel s conn) (hnext : u.next = s.next)
    (hattempts : u.attempts = s.attempts) : InHand P channel u conn :=
  ⟨hnext.trans h.next, hattempts.trans h.attempts, h.inTime, h.result⟩

theorem Acquires.congr (h : Acquires P channel s) (hphase : u.phase = s.phase) (hnext : u.next = s.next)
    (hattempts : u.attempts = s.attempts) : Acquires P channel u := by
  unfold Acquires at h ⊢
  rw [hphase]
  split at h
  · rw [hnext, hattempts]
    exact h
  · exact h.congr hnext hattempts
  · exact h.congr hnext hattempts
  all_goals exact h

/-- The attempt on a connection. -/
theorem acquireFrom_at {closed : Bool} {parked : List Parked} {conn : Nat} (hconn : conn < poolAcquireRetries)
    {p : Parked} (hp : parked[conn]? = some p) :
    acquireFrom P closed (poolAcquireRetries - conn) (parked.drop conn) conn =
      acquireFrom P closed (poolAcquireRetries - (conn + 1) + 1) (p :: parked.drop (conn + 1)) conn := by
  obtain ⟨hlt, rfl⟩ := List.getElem?_eq_some_iff.mp hp
  rw [List.drop_eq_getElem_cons hlt, show poolAcquireRetries - conn = poolAcquireRetries - (conn + 1) + 1 by omega]

/-- A dead connection in hand: the loop goes on, or its attempts are over. -/
theorem InHand.retry {conn : Nat} (h : InHand P channel s conn) {p : Parked} (hp : channel.parked[conn]? = some p)
    (hdead : p.Dead) : Acquires P channel (s.retry P) := by
  have hresult := h.result
  rw [acquireFrom_at h.inTime hp, acquireFrom_dead hdead] at hresult
  unfold Path.retry
  split
  · rename_i hlt
    exact ⟨h.next.trans h.attempts.symm, hlt, by rw [hresult, h.next]⟩
  · rename_i hge
    rw [h.attempts] at hge
    show openPoolStream P channel = _
    rw [hresult, show poolAcquireRetries - (conn + 1) = 0 by omega]
    rfl

theorem acquires_acquire (h : Acquires P channel s) (hphase : s.phase = .acquiring)
    (hf : follows P channel .acquire s = true) (hstep : s.acquire P = some u) : Acquires P channel u := by
  simp only [Acquires, hphase] at h
  obtain ⟨hnext, hattempts, heq⟩ := h
  simp only [follows, hphase] at hf
  have hinHand {v : Path} (hv : v.next = s.next + 1) (hv' : v.attempts = s.next + 1) : InHand P channel v s.next :=
    ⟨hv, hv', hnext ▸ hattempts, heq⟩
  unfold Path.acquire at hstep
  split at hstep
  · cases hstep
  · split at hstep
    · cases hstep
      exact hinHand rfl (by rw [hnext])
    · rename_i herror
      rw [herror] at hf
      cases hstep
      exact (hinHand rfl (by rw [hnext])).retry (of_decide_eq_true hf) (.inl rfl)

theorem acquires_responseRead {conn : Nat} (h : Acquires P channel s) (hphase : s.phase = .awaiting conn)
    (hf : follows P channel .responseRead s = true) (hstep : s.responseRead P conn = some u) :
    Acquires P channel u := by
  simp only [Acquires, hphase] at h
  simp only [follows, hphase] at hf
  unfold Path.responseRead at hstep
  split at hstep
  · cases hstep
  · rename_i k hk
    rw [hk] at hf
    simp only at hf
    split at hstep
    · cases hstep
    · rename_i herror
      rw [herror] at hf
      cases hstep
      exact h.retry (of_decide_eq_true hf) (.inr rfl)
    · rename_i response rest hdone
      rw [hdone] at hf
      have heq := h.result
      rw [acquireFrom_at h.inTime (of_decide_eq_true hf)] at heq
      split at hstep
      · rename_i hok
        cases hstep
        show openPoolStream P channel = .ok conn
        rw [heq, acquireFrom, if_pos hok]
      · rename_i hok
        cases hstep
        show openPoolStream P channel = .error _
        rw [heq, acquireFrom, if_neg hok]

theorem send_counts (s : Path) (conn : Nat) (bytes : Bytes) :
    (s.send conn bytes).next = s.next ∧ (s.send conn bytes).attempts = s.attempts := by
  unfold Path.send
  split <;> exact ⟨rfl, rfl⟩

/-- The pool has nothing more. -/
theorem acquires_nothing (h : Acquires P channel s) (hphase : s.phase = .acquiring)
    (hnext : s.next = channel.parked.length) :
    openPoolStream P channel =
      if channel.closed then .error s!"client {P.clientId} pool is closed"
      else .error s!"client {P.clientId} pool exhausted: no idle connection within 10s" := by
  simp only [Acquires, hphase] at h
  obtain ⟨hattempts, hlt, heq⟩ := h
  rw [heq, show poolAcquireRetries - s.next = poolAcquireRetries - (s.next + 1) + 1 by omega, hnext, List.drop_length]
  rfl

theorem acquires_control {a : Action} (h : Acquires P channel s) (hf : follows P channel a s = true)
    (hstep : s.control P a = some u) : Acquires P channel u := by
  unfold Path.control at hstep
  split at hstep
  · cases hf
  · exact acquires_acquire h ‹_› hf hstep
  · rename_i hphase
    cases hstep
    simp only [follows, hphase, decide_eq_true_eq] at hf
    have hnothing := acquires_nothing h hphase hf.2
    rwa [if_pos hf.1] at hnothing
  · rename_i hphase
    cases hstep
    simp only [follows, hphase, decide_eq_true_eq] at hf
    have hnothing := acquires_nothing h hphase hf.2
    rwa [if_neg hf.1] at hnothing
  · rename_i conn rest n hphase
    simp only [Option.ite_none_right_eq_some, Option.some.injEq] at hstep
    obtain ⟨-, rfl⟩ := hstep
    obtain ⟨hnext, hattempts⟩ := send_counts s conn (rest.take n)
    simp only [Acquires, hphase] at h
    by_cases hn : n = rest.length
    · rw [if_pos hn]
      exact h.congr hnext hattempts
    · rw [if_neg hn]
      exact h.congr hnext hattempts
  · rename_i conn rest hphase
    cases hstep
    simp only [Acquires, hphase] at h
    simp only [follows, hphase, decide_eq_true_eq] at hf
    exact h.retry hf (.inl rfl)
  · exact acquires_responseRead h ‹_› hf hstep
  · rename_i conn hphase
    cases hstep
    simp only [Acquires, hphase] at h
    simp only [follows, hphase, decide_eq_true_eq] at hf
    exact h.retry hf (.inr rfl)
  · rename_i conn hphase
    cases hstep
    simp only [Acquires, hphase] at h
    simp only [follows, hphase, decide_eq_true_eq] at hf
    have heq := h.result
    rw [acquireFrom_at h.inTime hf] at heq
    exact heq
  · cases hf
  · cases hf
  · simp only [Acquires, *] at h
  · simp only [Acquires, *] at h
  · simp only [Acquires, *] at h
  · simp only [Acquires, *] at h
  · simp only [Acquires, *] at h
  · simp only [Acquires, *] at h
  · cases hstep
  · cases hstep
  · cases hstep
    exact trivial
  · cases hstep

theorem acquires_step {a : Action} (h : Acquires P channel s) (hf : follows P channel a s = true)
    (hstep : s.step P a = some u) : Acquires P channel u := by
  unfold Path.step at hstep
  split at hstep
  · cases hstep
    exact h.congr rfl rfl rfl
  · cases hf
  · cases hstep
    exact h.congr rfl rfl rfl
  · split at hstep
    · simp only [Option.ite_none_right_eq_some, Option.some.injEq] at hstep
      obtain ⟨-, rfl⟩ := hstep
      exact h.congr rfl rfl rfl
    · cases hstep
  · split at hstep
    · obtain ⟨k, -, rfl⟩ := Option.map_eq_some_iff.mp hstep
      exact h.congr rfl rfl rfl
    · cases hstep
  · exact acquires_control h hf hstep

/-- The runs of the call on a channel. -/
abbrev Calls (P : Setup) (channel : Channel) (s : Path) : Prop :=
  (system P).Reach (fun a s => follows P channel a s = true) s

theorem path_acquires (h : Calls P channel s) : Acquires P channel s :=
  h.invariant (acquires_init channel) fun _ _ _ hinv hf hstep => acquires_step hinv hf hstep

theorem calls_pathInv (hdoc : P.Documented) (h : Calls P channel s) : PathInv P s :=
  h.invariant pathInv_init fun _ _ _ hinv _ hstep => pathInv_step hdoc hinv hstep

end

/-- **The pool**: `open_pool_stream` returns a connection exactly if it is among the first four
and opens the target, and all before it fail on the write or on the read. Every run of the
call on the channel comes to that, and the agent relays the target on what is returned. -/
theorem dead_connections_skipped (P : Setup) (hdoc : P.Documented) (channel : Channel) :
    (∀ conn, openPoolStream P channel = .ok conn ↔ conn < poolAcquireRetries ∧
      (∃ p, channel.parked[conn]? = some p ∧ p.Opens) ∧ ∀ j < conn, ∃ p, channel.parked[j]? = some p ∧ p.Dead) ∧
    ∀ s, Calls P channel s →
      (∀ conn, s.phase = .opened conn → openPoolStream P channel = .ok conn ∧
        ∃ k, s.conns[conn]? = some k ∧ k.agent = .relaying P.request) ∧
      ∀ error, s.phase = .failed error → openPoolStream P channel = .error error := by
  refine ⟨fun conn => ?_, fun s hs => ⟨fun conn hphase => ?_, fun error hphase => ?_⟩⟩
  · rw [openPoolStream, acquireFrom_ok]
    constructor
    · intro h
      obtain ⟨i, hconn, h⟩ := h
      obtain rfl : conn = i := by omega
      exact h
    · intro h
      exact ⟨conn, by omega, h⟩
  · have hacquires := path_acquires hs
    simp only [Acquires, hphase] at hacquires
    obtain ⟨hlink, hphaseInv⟩ := calls_pathInv hdoc hs
    simp only [PhaseInv, hphase] at hphaseInv
    obtain ⟨-, k, hk, hagent, -⟩ := hlink.stream conn hphaseInv.1
    exact ⟨hacquires, k, hk, hagent⟩
  · have hacquires := path_acquires hs
    simpa only [Acquires, hphase] using hacquires

/-- A connection that was reset while it was parked, and one that is alive. -/
def resetChannel : Channel where
  parked := [.deadOnRead, .answers .success]

def resetRun : List Action :=
  [.dial, .dial, .acquire, .requestWrite greetedSetup.requestMessage.length, .responseFail, .acquire,
    .requestWrite greetedSetup.requestMessage.length, .agent 1 .requestRead, .agent 1 .connected,
    .agent 1 (.answer (greetedSetup.responseMessage .success).length), .responseRead]

theorem dead_connections_skipped_reset : ∃ s, Calls greetedSetup resetChannel s ∧ s.phase = .opened 1 ∧
    openPoolStream greetedSetup resetChannel = .ok 1 ∧
    ∃ k, s.conns[1]? = some k ∧ k.agent = .relaying greetedSetup.request := by
  obtain ⟨s, hs, hp⟩ := System.reach_of_run (S := system greetedSetup)
    (C := fun a s => follows greetedSetup resetChannel a s = true) resetRun (fun s => s.phase = .opened 1)
    (by decide +kernel)
  have hphase : s.phase = .opened 1 := of_decide_eq_true hp
  have hcalls := (dead_connections_skipped greetedSetup (textSetup_documented _ _) resetChannel).2 s hs
  obtain ⟨hresult, hk⟩ := hcalls.1 1 hphase
  exact ⟨s, hs, hphase, hresult, hk⟩

/-- Four connections that were reset in front of one that is alive, and one that never answers
in front of it. -/
theorem live_connection_missed :
    (∃ p ∈ [.deadOnRead, .deadOnRead, .deadOnRead, .deadOnRead, .answers .success], Parked.Opens p) ∧
    openPoolStream greetedSetup ⟨[.deadOnRead, .deadOnRead, .deadOnRead, .deadOnRead, .answers .success], false⟩ =
      .error "no live pooled connection available for client c" ∧
    openPoolStream greetedSetup ⟨[.silent, .answers .success], false⟩ =
      .error "agent open target h:80 timed out after 5000ms" := by
  refine ⟨⟨.answers .success, by decide, .success, rfl, rfl⟩, rfl, ?_⟩
  decide +kernel

end Rps.Pool
