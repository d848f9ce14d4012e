import Rps.Base.Crash
import Rps.Controller.Accounting

/-! Flushes whose statements fail.

`add_traffic` books bytes by four statements, one for each scope of the counters and one
for the row of the resource, and returns at the first that fails: what was booked before
stays. `flush` has taken the batch out of the pending map by then; it logs the error and
goes on with the next route.

`flush_conserves` says when that does no harm. A call that fails leaves the counters alone
only if its first statement is the one that failed or there are no bytes; and the three
scopes and the events still add up, after everything was flushed, only if no call with
bytes failed before its third counter. -/
namespace Rps.Controller
open Base

namespace FlushFailures
open Accounting

/-- Which statements of `add_traffic` fail, if they are reached. -/
structure Failures where
  global : Bool := false
  client : Bool := false
  tunnel : Bool := false
  resource : Bool := false
  deriving DecidableEq

/-- A statement that fails changes nothing. -/
def statement (fails : Bool) (f : Books → Books) : Program Books Unit :=
  Program.execute fun b => if fails then none else some (f b)

def addTraffic (fails : Failures) (clientId tunnelId : String) (bytes : Counter) : Program Books Unit := do
  statement fails.global (·.addTrafficCounter .global "all" bytes)
  statement fails.client (·.addTrafficCounter .client clientId bytes)
  statement fails.tunnel (·.addTrafficCounter .tunnel tunnelId bytes)
  statement fails.resource (·.addResourceTraffic tunnelId bytes)

/-- The call returns an error. -/
def Failures.any (fails : Failures) : Bool := fails.global || fails.client || fails.tunnel || fails.resource

/-- The counter of the scope is reached and booked. -/
def Failures.books (fails : Failures) : Scope → Bool
  | .global => !fails.global
  | .client => !fails.global && !fails.client
  | .tunnel => !fails.global && !fails.client && !fails.tunnel

/-- No counter and no row differs. A counter that is not there reads as zero. -/
structure Unchanged (b b' : Books) : Prop where
  counters : ∀ k, (b'.trafficCounters.lookup k).getD 0 = (b.trafficCounters.lookup k).getD 0
  rows : ∀ key, b'.row key = b.row key

/-! ### One call -/

section
variable (fails : Failures) (clientId tunnelId : String) (bytes : Counter) (b : Books)

theorem addTraffic_result :
    ((addTraffic fails clientId tunnelId bytes) b).result = if fails.any then none else some () := by
  obtain ⟨global, client, tunnel, resource⟩ := fails
  cases global <;> cases client <;> cases tunnel <;> cases resource <;> rfl

/-- What a call leaves behind, by the first statement that fails. -/
theorem addTraffic_complete : (addTraffic fails clientId tunnelId bytes).complete b =
    if fails.global then b
    else if fails.client then b.addTrafficCounter .global "all" bytes
    else if fails.tunnel then (b.addTrafficCounter .global "all" bytes).addTrafficCounter .client clientId bytes
    else if fails.resource then
      ((b.addTrafficCounter .global "all" bytes).addTrafficCounter .client clientId bytes).addTrafficCounter
        .tunnel tunnelId bytes
    else b.addTraffic clientId tunnelId bytes := by
  obtain ⟨global, client, tunnel, resource⟩ := fails
  cases global <;> cases client <;> cases tunnel <;> cases resource <;> rfl

/-- What a scope adds up to; the global scope has one counter. -/
def total (b : Books) : Scope → Counter
  | .global => (b.trafficCounters.lookup (.global, "all")).getD 0
  | scope => scopeTotal b scope

variable {b} in
theorem total_addTrafficCounter {scope : Scope} {key : String} (hkey : scope = .global → key = "all") (scope' : Scope) :
    total (b.addTrafficCounter scope key bytes) scope' =
      total b scope' + if scope = scope' then bindBytes bytes else 0 := by
  cases scope' with
  | global =>
    have h := congrFun (Table.lookup_upsert b.trafficCounters (scope, key) (bindBytes bytes)) (.global, "all")
    rw [total, Books.addTrafficCounter, h, post]
    cases scope with
    | global => simp [total, hkey rfl]
    | client => simp [total]
    | tunnel => simp [total]
  | client =>
    show scopeTotal _ .client = _
    rw [scopeTotal_addTrafficCounter]
    split <;> simp [total]
  | tunnel =>
    show scopeTotal _ .tunnel = _
    rw [scopeTotal_addTrafficCounter]
    split <;> simp [total]

theorem total_addResourceTraffic (scope : Scope) : total (b.addResourceTraffic tunnelId bytes) scope = total b scope := by
  unfold Books.addResourceTraffic
  split <;> cases scope <;> rfl

/-- The scopes that are reached before a failure get the bytes. -/
theorem total_addTraffic (scope : Scope) :
    total ((addTraffic fails clientId tunnelId bytes).complete b) scope =
      total b scope + if fails.books scope then bindBytes bytes else 0 := by
  rw [addTraffic_complete, Books.addTraffic]
  obtain ⟨global, client, tunnel, resource⟩ := fails
  cases global <;> cases client <;> cases tunnel <;> cases resource <;> cases scope <;>
    simp [Failures.books, total_addTrafficCounter, total_addResourceTraffic]

theorem bindBytes_eq_zero : bindBytes bytes = 0 ↔ bytes = 0 := by
  obtain ⟨rx, tx⟩ := bytes
  simp only [bindBytes, u64ToI64, Prod.ext_iff, Prod.fst_zero, Prod.snd_zero]
  omega

theorem unchanged_addTrafficCounter (scope : Scope) (key : String) : Unchanged b (b.addTrafficCounter scope key 0) := by
  refine ⟨fun k => ?_, fun key => rfl⟩
  have h := congrFun (Table.lookup_upsert b.trafficCounters (scope, key) (bindBytes 0)) k
  rw [Books.addTrafficCounter, h, post]
  split
  · cases b.trafficCounters.lookup k <;> simp [(bindBytes_eq_zero 0).mpr rfl]
  · rfl

theorem Unchanged.trans {b b' b'' : Books} (h : Unchanged b b') (h' : Unchanged b' b'') : Unchanged b b'' :=
  ⟨fun k => (h'.counters k).trans (h.counters k), fun key => (h'.rows key).trans (h.rows key)⟩

/-- A call that fails leaves the counters alone if it fails at once or has no bytes. -/
theorem unchanged_iff :
    (((addTraffic fails clientId tunnelId bytes) b).result = none →
      Unchanged b ((addTraffic fails clientId tunnelId bytes).complete b)) ↔
    (fails.any = true → fails.global = true ∨ bytes = 0) := by
  have herror : ((addTraffic fails clientId tunnelId bytes) b).result = none ↔ fails.any = true := by
    rw [addTraffic_result]
    cases fails.any <;> simp
  rw [herror]
  refine imp_congr_right fun hany => ?_
  constructor
  · intro hsame
    by_contra hnot
    rw [not_or, Bool.not_eq_true] at hnot
    -- the global counter was booked
    have hglobal := total_addTraffic fails clientId tunnelId bytes b .global
    rw [Failures.books, hnot.1, Bool.not_false, if_pos rfl, total, hsame.counters] at hglobal
    exact hnot.2 ((bindBytes_eq_zero bytes).mp (add_eq_left.mp hglobal.symm))
  · rintro (hglobal | rfl)
    · rw [addTraffic_complete, if_pos hglobal]
      exact ⟨fun _ => rfl, fun _ => rfl⟩
    · rw [addTraffic_complete]
      have h₁ := unchanged_addTrafficCounter b .global "all"
      have h₂ := h₁.trans (unchanged_addTrafficCounter _ .client clientId)
      have h₃ := h₂.trans (unchanged_addTrafficCounter _ .tunnel tunnelId)
      split
      · exact ⟨fun _ => rfl, fun _ => rfl⟩
      · split
        · exact h₁
        · split
          · exact h₂
          · split
            · exact h₃
            · simp_all [Failures.any]

end

/-! ### Runs -/

/-- `calls` are the calls of `add_traffic` that were made, with what failed in them. -/
structure State where
  books : Books
  traffic : Traffic := {}
  received : List TrafficEvent := []
  calls : List (Failures × Counter) := []

inductive Action where
  | recv (event : TrafficEvent)
  | tick
  | flushRoute (i : Nat) (fails : Failures)
  deriving DecidableEq

/-- The steps of `traffic::run`, where a call of `add_traffic` may fail. -/
def step (a : Action) (s : State) : Option State :=
  match a with
  | .recv event =>
    if s.traffic.batch = [] then
      some {s with traffic := s.traffic.recv event [], received := s.received ++ [event]}
    else none
  | .tick => if s.traffic.batch = [] then some {s with traffic := s.traffic.flush} else none
  | .flushRoute i fails =>
    match s.traffic.batch[i]? with
    | some ((clientId, tunnelId), bytes) =>
      some {s with
        traffic := {s.traffic with batch := s.traffic.batch.eraseIdx i}
        books := (addTraffic fails clientId tunnelId bytes).complete s.books
        calls := s.calls ++ [(fails, bytes)]}
    | none => none

def system (books : Books) : System State Action where
  init := {books := books}
  step := step

def tally (v : Counter) (e : (String × String) × Counter) : Counter := v + bindBytes e.2

theorem tally_comm (v : Counter) (x y : (String × String) × Counter) : tally (tally v x) y = tally (tally v y) x :=
  add_right_comm _ _ _

/-- The bytes of what is gathered. -/
def gatheredTotal (t : Traffic) : Counter := (gathered t).foldl tally 0

/-- The bytes that calls did not book in a scope. -/
def lost (calls : List (Failures × Counter)) (scope : Scope) : Counter :=
  (calls.map fun call => if call.1.books scope then 0 else bindBytes call.2).sum

theorem lost_push (calls : List (Failures × Counter)) (fails : Failures) (bytes : Counter) (scope : Scope) :
    lost (calls ++ [(fails, bytes)]) scope = lost calls scope + if fails.books scope then 0 else bindBytes bytes := by
  simp [lost]

def receivedTotal (events : List TrafficEvent) : Counter := (rxTotal events, txTotal events)

/-- What was received is booked, lost or gathered. -/
structure Inv (s : State) : Prop where
  ledger : ∀ scope, total s.books scope + lost s.calls scope + gatheredTotal s.traffic = receivedTotal s.received
  bound : Bounded s.traffic s.received

theorem inv_init {books : Books} (hempty : books.trafficCounters = ∅) : Inv (system books).init where
  ledger := by
    intro scope
    cases scope <;> simp only [system, total, scopeTotal, hempty] <;> rfl
  bound := by
    intro route bytes h
    cases h

theorem gatheredTotal_recv {t : Traffic} {events : List TrafficEvent} (h : Bounded t events) {event : TrafficEvent}
    (hfits : Fits (events ++ [event])) (hbatch : t.batch = []) :
    gatheredTotal (t.recv event []) = gatheredTotal t + (event.rxBytes, event.txBytes) := by
  have hfuse (v : Counter) (route : String × String) (a b c : Counter) (hc : bindBytes c = bindBytes a + bindBytes b) :
      tally (tally v (route, a)) (route, b) = tally v (route, c) := by
    simp only [tally]
    rw [hc, add_assoc]
  have hbind : bindBytes (event.rxBytes, event.txBytes) = (event.rxBytes, event.txBytes) := by
    rw [Fits, rxTotal_push, txTotal_push] at hfits
    simp only [bindBytes, u64ToI64, Prod.mk.injEq]
    omega
  unfold gatheredTotal
  rw [foldl_recv tally_comm hfuse h hfits hbatch, tally, charged, hbind]

theorem gatheredTotal_take {t : Traffic} {i : Nat} {entry : (String × String) × Counter}
    (hi : t.batch[i]? = some entry) :
    gatheredTotal t = gatheredTotal {t with batch := t.batch.eraseIdx i} + bindBytes entry.2 := by
  unfold gatheredTotal
  rw [(gathered_perm hi).foldl_eq' fun x _ y _ v => tally_comm v x y, List.foldl_cons]
  exact List.foldl_hom (· + bindBytes entry.2) fun v e => add_right_comm _ _ _

theorem inv_step {a : Action} {s t : State} (h : Fits s.received → Inv s) (hstep : step a s = some t) :
    Fits t.received → Inv t := by
  intro hfits
  cases a with
  | recv event =>
    simp only [step, Option.ite_none_right_eq_some, Option.some.injEq] at hstep
    obtain ⟨hbatch, rfl⟩ := hstep
    have hinv := h hfits.before
    refine ⟨fun scope => ?_, bounded_recv hinv.bound event hbatch⟩
    have hreceived : receivedTotal (s.received ++ [event]) = receivedTotal s.received + (event.rxBytes, event.txBytes) := by
      rw [receivedTotal, rxTotal_push, txTotal_push]
      rfl
    show total s.books scope + lost s.calls scope + gatheredTotal (s.traffic.recv event []) =
      receivedTotal (s.received ++ [event])
    rw [gatheredTotal_recv hinv.bound hfits hbatch, hreceived, ← hinv.ledger scope, ← add_assoc]
  | tick =>
    simp only [step, Option.ite_none_right_eq_some, Option.some.injEq] at hstep
    obtain ⟨hbatch, rfl⟩ := hstep
    refine ⟨fun scope => ?_, fun route bytes hb => by cases hb⟩
    rw [gatheredTotal, gathered_flush hbatch]
    exact (h hfits).ledger scope
  | flushRoute i fails =>
    simp only [step] at hstep
    split at hstep
    · rename_i clientId tunnelId bytes hi
      cases hstep
      refine ⟨fun scope => ?_, (h hfits).bound⟩
      have hledger := (h hfits).ledger scope
      rw [gatheredTotal_take hi] at hledger
      show total ((addTraffic fails clientId tunnelId bytes).complete s.books) scope +
        lost (s.calls ++ [(fails, bytes)]) scope + _ = receivedTotal s.received
      rw [← hledger, total_addTraffic, lost_push]
      cases fails.books scope with
      | false =>
        simp only [Bool.false_eq_true, if_false, add_zero]
        ac_rfl
      | true =>
        simp only [if_true, add_zero]
        ac_rfl
    · cases hstep

/-! ### Conservation -/

/-- The three scopes agree with each other and with the events. -/
def Conserved (s : State) : Prop :=
  Balanced s.books ∧ (s.books.trafficCounters.lookup (.global, "all")).getD 0 = receivedTotal s.received

theorem conserved_iff (s : State) : Conserved s ↔ ∀ scope, total s.books scope = receivedTotal s.received := by
  constructor
  · rintro ⟨⟨hclient, htunnel⟩, hglobal⟩ scope
    cases scope with
    | global => exact hglobal
    | client => exact hclient.symm.trans hglobal
    | tunnel => exact htunnel.symm.trans hglobal
  · intro h
    exact ⟨⟨(h .global).trans (h .client).symm, (h .global).trans (h .tunnel).symm⟩, h .global⟩

/-- A call that reaches the last counter has booked the ones before. -/
theorem Failures.books_of_tunnel {fails : Failures} (h : fails.books .tunnel = true) (scope : Scope) :
    fails.books scope = true := by
  simp only [Failures.books, Bool.and_eq_true] at h
  cases scope <;> simp [Failures.books, h]

theorem lost_eq_zero_iff (calls : List (Failures × Counter)) (scope : Scope) :
    lost calls scope = 0 ↔ ∀ call ∈ calls, call.1.books scope = true ∨ call.2 = 0 := by
  induction calls with
  | nil => simp [lost]
  | cons call rest ih =>
    have hcons : lost (call :: rest) scope = (if call.1.books scope then 0 else bindBytes call.2) + lost rest scope := by
      simp [lost]
    rw [hcons, add_eq_zero, ih, List.forall_mem_cons]
    refine and_congr_left fun _ => ?_
    cases call.1.books scope with
    | true => simp
    | false => simpa using bindBytes_eq_zero call.2

/-- What the scopes lack, when everything was flushed, is what failed calls did not
book. -/
theorem conserved_iff_calls {books : Books} {s : State} (h : (system books).Reachable s)
    (hempty : books.trafficCounters = ∅) (hflushed : s.traffic.pending.entries = [] ∧ s.traffic.batch = [])
    (hfits : Fits s.received) :
    Conserved s ↔ ∀ call ∈ s.calls, call.1.books .tunnel = true ∨ call.2 = 0 := by
  have hinv : Fits s.received → Inv s :=
    h.invariant (I := fun s => Fits s.received → Inv s) (fun _ => inv_init hempty)
      fun _ _ _ hi _ hstep => inv_step hi hstep
  have hledger (scope : Scope) : total s.books scope + lost s.calls scope = receivedTotal s.received := by
    have := (hinv hfits).ledger scope
    rw [gatheredTotal, gathered, Table.list, hflushed.1, hflushed.2] at this
    exact this
  have hscope (scope : Scope) : total s.books scope = receivedTotal s.received ↔ lost s.calls scope = 0 := by
    rw [← hledger scope]
    exact left_eq_add
  rw [conserved_iff]
  constructor
  · intro hall
    exact (lost_eq_zero_iff _ _).mp ((hscope .tunnel).mp (hall .tunnel))
  · intro hcalls scope
    rw [hscope, lost_eq_zero_iff]
    exact fun call hcall => (hcalls call hcall).imp_left (Failures.books_of_tunnel · scope)

/-- **When failures do no harm.** A call of `add_traffic` that fails has changed nothing if
and only if its first statement failed or there were no bytes. After any run that was
flushed to its end, the three scopes and the events agree if and only if no call with
bytes failed at one of the counters. -/
theorem flush_conserves (b : Books) (fails : Failures) (clientId tunnelId : String) (bytes : Counter) (books : Books)
    (s : State) :
    ((((addTraffic fails clientId tunnelId bytes) b).result = none →
      Unchanged b ((addTraffic fails clientId tunnelId bytes).complete b)) ↔
      (fails.any = true → fails.global = true ∨ bytes = 0)) ∧
    ((system books).Reachable s → books.trafficCounters = ∅ →
      s.traffic.pending.entries = [] ∧ s.traffic.batch = [] → Fits s.received →
      (Conserved s ↔ ∀ call ∈ s.calls, call.1.books .tunnel = true ∨ call.2 = 0)) :=
  ⟨unchanged_iff fails clientId tunnelId bytes b, conserved_iff_calls⟩

/-- An event is flushed while the given statements fail, and another one later, while
none does. -/
def failedFlushRun (fails : Failures) : List Action :=
  [.recv ⟨"c", "t", 1, 2⟩, .tick, .flushRoute 0 fails, .recv ⟨"c", "t", 10, 20⟩, .tick, .flushRoute 0 {}]

theorem failedFlushRun_reaches (fails : Failures) (hfails : fails ∈ ([{client := true}, {resource := true}] : List Failures)) :
    ∃ s : State, (system {}).Reachable s ∧ (s.traffic.pending.entries = [] ∧ s.traffic.batch = []) ∧
      Fits s.received ∧ s.calls = [(fails, (1, 2)), ({}, (10, 20))] := by
  obtain ⟨s, hs, hp⟩ := System.reach_of_run (S := system {}) (C := fun _ _ => True) (failedFlushRun fails)
    (fun s => s.traffic.pending.entries = [] ∧ s.traffic.batch = [] ∧ rxTotal s.received < 2 ^ 63 ∧
      txTotal s.received < 2 ^ 63 ∧ s.calls = [(fails, (1, 2)), ({}, (10, 20))]) (by
        revert fails
        decide +kernel)
  simp only [decide_eq_true_eq] at hp
  obtain ⟨hpending, hbatch, hrx, htx, hcalls⟩ := hp
  exact ⟨s, hs, ⟨hpending, hbatch⟩, ⟨hrx, htx⟩, hcalls⟩

/-- A call that fails at the row of the resource has booked all counters. -/
theorem flush_conserves_resourceFailed : ∃ s : State, (system {}).Reachable s ∧
    s.calls = [({resource := true}, (1, 2)), ({}, (10, 20))] ∧ Conserved s := by
  obtain ⟨s, hs, hflushed, hfits, hcalls⟩ := failedFlushRun_reaches {resource := true} (by simp)
  refine ⟨s, hs, hcalls, ?_⟩
  rw [(flush_conserves {} {} "" "" 0 {} s).2 hs rfl hflushed hfits, hcalls]
  decide

/-- The statement for the client's counter fails: the call is an error and the global
counter has the bytes. After a flush that does not fail the clients' counters still lack
them. -/
theorem flush_loses :
    (((addTraffic {client := true} "c" "t" (1, 2)) {}).result = none ∧
      ¬ Unchanged {} ((addTraffic {client := true} "c" "t" (1, 2)).complete {})) ∧
    ∃ s : State, (system {}).Reachable s ∧ (s.traffic.pending.entries = [] ∧ s.traffic.batch = []) ∧
      Fits s.received ∧ s.calls.getLast? = some ({}, (10, 20)) ∧ ¬ Conserved s := by
  refine ⟨⟨rfl, fun h => ?_⟩, ?_⟩
  · have := h.counters (.global, "all")
    revert this
    decide
  · obtain ⟨s, hs, hflushed, hfits, hcalls⟩ := failedFlushRun_reaches {client := true} (by simp)
    refine ⟨s, hs, hflushed, hfits, by rw [hcalls]; rfl, ?_⟩
    rw [conserved_iff_calls hs rfl hflushed hfits, hcalls]
    decide

end FlushFailures

end Rps.Controller
