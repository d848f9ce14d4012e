import Mathlib.Algebra.Order.BigOperators.Group.List
import Mathlib.Algebra.Order.Group.Nat
import Mathlib.Algebra.Order.Monoid.Prod
import Rps.Base.System
import Rps.Controller.Accounting

/-! What the usage snapshots show.

`capture_usage_snapshots` reads all counters with one select and then writes them to
`usage_snapshots` row by row, while `add_traffic` books bytes in the counters scope by
scope. Nothing keeps the two apart, statements may fail, and a snapshot whose insert
fails is left incomplete.

`snapshots_ordered`: at every moment the tunnels' counters add up to no more than the
clients', and these to no more than the global one; what every select reads is ordered in
the same way; and the snapshots of a counter never decrease and never exceed what the
counter holds now. -/
namespace Rps.Controller
open Base

namespace Snapshots
open Accounting

/-- A call of `add_traffic`, with the number of its statements that have been executed. -/
structure Call where
  clientId : String
  tunnelId : String
  bytes : Counter
  done : Nat := 0
  ended : Bool := false
  deriving DecidableEq

abbrev CounterRow := (Scope × String) × Counter

/-- A run of `capture_usage_snapshot`: what its select read, at what time, and how many of
the rows are in `usage_snapshots`. -/
structure Capture where
  rows : List CounterRow
  capturedAt : Int
  inserted : Nat := 0
  ended : Bool := false
  deriving DecidableEq

structure State where
  books : Books
  calls : List Call := []
  captures : List Capture := []

inductive Action where
  | addTraffic (clientId tunnelId : String) (bytes : Counter)
  | statement (i : Nat) (fails : Bool)
  | select (rows : List CounterRow) (now : Int)
  | insert (i : Nat) (fails : Bool)
  deriving DecidableEq

/-- The counter that the next statement of a call adds to. -/
def Call.counter (call : Call) : Option (Scope × String) :=
  match call.done with
  | 0 => some (.global, "all")
  | 1 => some (.client, call.clientId)
  | 2 => some (.tunnel, call.tunnelId)
  | _ => none

def Call.execute (call : Call) (b : Books) : Books :=
  match call.counter with
  | some (scope, key) => b.addTrafficCounter scope key call.bytes
  | none => b.addResourceTraffic call.tunnelId call.bytes

/-- The counter stays an INTEGER of SQLite. -/
def Call.inRange (call : Call) (b : Books) : Bool :=
  match call.counter with
  | some k =>
    let sum := (b.trafficCounters.lookup k).getD 0 + bindBytes call.bytes
    sum.1 < 2 ^ 63 && sum.2 < 2 ^ 63
  | none => true

/-- A statement of `add_traffic` by call `i`. The first that fails ends the call. -/
def statementStep (fails : Bool) (s : State) (i : Nat) (call : Call) : Option State :=
  if call.ended then none
  else if fails then some {s with calls := s.calls.set i {call with ended := true}}
  else if call.inRange s.books then
    some {s with
      books := call.execute s.books
      calls := s.calls.set i {call with done := call.done + 1, ended := call.done = 3}}
  else none

/-- The insert of the next row. -/
def insertStep (fails : Bool) (s : State) (i : Nat) (capture : Capture) : Option State :=
  if capture.ended then none
  else if fails then some {s with captures := s.captures.set i {capture with ended := true}}
  else
    some {s with captures := s.captures.set i {capture with
      inserted := capture.inserted + 1
      ended := capture.rows.length ≤ capture.inserted + 1}}

/-- One capture follows another; the rows of a select come in any order. -/
def step (a : Action) (s : State) : Option State :=
  match a with
  | .addTraffic clientId tunnelId bytes => some {s with calls := s.calls ++ [⟨clientId, tunnelId, bytes, 0, false⟩]}
  | .statement i fails =>
    match s.calls[i]? with
    | some call => statementStep fails s i call
    | none => none
  | .select rows now =>
    if rows.Perm s.books.trafficCounters.list ∧ ∀ capture ∈ s.captures, capture.ended = true then
      some {s with captures := s.captures ++ [⟨rows, now, 0, rows.isEmpty⟩]}
    else none
  | .insert i fails =>
    match s.captures[i]? with
    | some capture => insertStep fails s i capture
    | none => none

def system (books : Books) : System State Action where
  init := {books := books}
  step := step

/-- The rows of `usage_snapshots`, oldest first. -/
def State.snapshots (s : State) : List CounterRow := s.captures.flatMap fun capture => capture.rows.take capture.inserted

/-! ### Sums -/

/-- What the rows of a scope add up to. -/
def rowsTotal (rows : List CounterRow) (scope : Scope) : Counter :=
  ((rows.map fun row => if row.1.1 = scope then row.2.1 else 0).sum,
    (rows.map fun row => if row.1.1 = scope then row.2.2 else 0).sum)

/-- Each scope adds up to no more than the one before it. -/
structure Ordered (total : Scope → Counter) : Prop where
  client : total .client ≤ total .global
  tunnel : total .tunnel ≤ total .client

theorem rowsTotal_list (b : Books) : rowsTotal b.trafficCounters.list = scopeTotal b := by
  funext scope
  simp only [rowsTotal, scopeTotal, Table.sum, Table.list, List.map_map]
  rfl

theorem rowsTotal_perm {a b : List CounterRow} (h : a.Perm b) : rowsTotal a = rowsTotal b := by
  funext scope
  simp only [rowsTotal, (h.map _).sum_eq]

/-! ### What the calls have booked -/

/-- The call has booked its bytes in the scope. -/
def Call.reached (call : Call) : Scope → Bool
  | .global => 1 ≤ call.done
  | .client => 2 ≤ call.done
  | .tunnel => 3 ≤ call.done

/-- What the call has booked in the scope. -/
def Call.booked (scope : Scope) (call : Call) : Counter := if call.reached scope then bindBytes call.bytes else 0

def booked (calls : List Call) (scope : Scope) : Counter :=
  ((calls.map fun call => (call.booked scope).1).sum, (calls.map fun call => (call.booked scope).2).sum)

theorem booked_set {calls : List Call} {i : Nat} {call : Call} (h : calls[i]? = some call) (call' : Call) (scope : Scope) :
    booked (calls.set i call') scope + call.booked scope = booked calls scope + call'.booked scope := by
  have h₁ := Heap.sum_set h call' fun call => (call.booked scope).1
  have h₂ := Heap.sum_set h call' fun call => (call.booked scope).2
  exact Prod.ext h₁ h₂

theorem booked_push (calls : List Call) {call : Call} (hdone : call.done = 0) (scope : Scope) :
    booked (calls ++ [call]) scope = booked calls scope := by
  have hzero : call.booked scope = 0 := by
    cases scope <;> simp [Call.booked, Call.reached, hdone]
  simp [booked, hzero]

theorem amount_le {p q : Bool} (h : p = true → q = true) (a : Counter) :
    (if p then a else 0) ≤ if q then a else 0 := by
  cases p with
  | false => exact ⟨Nat.zero_le _, Nat.zero_le _⟩
  | true => rw [h rfl]

/-- A call books a scope only after the scopes before it. -/
theorem booked_ordered (calls : List Call) : Ordered (booked calls) := by
  have hclient (call : Call) : call.booked .client ≤ call.booked .global := by
    apply amount_le
    simp only [Call.reached, decide_eq_true_eq]
    omega
  have htunnel (call : Call) : call.booked .tunnel ≤ call.booked .client := by
    apply amount_le
    simp only [Call.reached, decide_eq_true_eq]
    omega
  constructor
  · exact ⟨List.sum_le_sum fun call _ => (hclient call).1, List.sum_le_sum fun call _ => (hclient call).2⟩
  · exact ⟨List.sum_le_sum fun call _ => (htunnel call).1, List.sum_le_sum fun call _ => (htunnel call).2⟩

theorem scopeTotal_addResourceTraffic (b : Books) (routeId : String) (bytes : Counter) :
    scopeTotal (b.addResourceTraffic routeId bytes) = scopeTotal b := by
  unfold Books.addResourceTraffic
  split <;> rfl

/-- A statement books the call's bytes in the scope it is for. -/
theorem scopeTotal_execute (call : Call) (b : Books) (scope : Scope) (ended : Bool) :
    scopeTotal (call.execute b) scope + call.booked scope =
      scopeTotal b scope + Call.booked scope {call with done := call.done + 1, ended := ended} := by
  obtain ⟨clientId, tunnelId, bytes, done, ended'⟩ := call
  match done with
  | 0 => cases scope <;> simp [Call.execute, Call.counter, Call.booked, Call.reached, scopeTotal_addTrafficCounter]
  | 1 => cases scope <;> simp [Call.execute, Call.counter, Call.booked, Call.reached, scopeTotal_addTrafficCounter]
  | 2 => cases scope <;> simp [Call.execute, Call.counter, Call.booked, Call.reached, scopeTotal_addTrafficCounter]
  | n + 3 =>
    cases scope <;> simp [Call.execute, Call.counter, Call.booked, Call.reached, scopeTotal_addResourceTraffic]

/-! ### What the snapshots hold -/

/-- What a counter holds; one that is not there reads as zero. -/
def current (b : Books) (k : Scope × String) : Counter := (b.trafficCounters.lookup k).getD 0

/-- Later rows of a counter hold no less than earlier ones. -/
def Growing (rows : List CounterRow) : Prop := rows.Pairwise fun x y => x.1 = y.1 → x.2 ≤ y.2

/-- No statement lowers a counter. -/
theorem current_execute (call : Call) (b : Books) (k : Scope × String) : current b k ≤ current (call.execute b) k := by
  unfold Call.execute
  split
  · rename_i scope key _
    have hlookup := congrFun (Table.lookup_upsert b.trafficCounters (scope, key) (bindBytes call.bytes)) k
    rw [current, current, Books.addTrafficCounter, hlookup, post]
    split
    · exact ⟨Nat.le_add_right _ _, Nat.le_add_right _ _⟩
    · exact le_rfl
  · unfold Books.addResourceTraffic
    split <;> exact le_rfl

/-- A row of the table is what its counter holds, and there is one for each counter. -/
theorem list_current {b : Books} {row : CounterRow} (h : row ∈ b.trafficCounters.list) : row.2 = current b row.1 := by
  obtain ⟨entry, hentry, rfl⟩ := List.mem_map.mp h
  have hlookup : b.trafficCounters.lookup entry.1 = some entry.2 := AList.mem_lookup_iff.mpr hentry
  rw [current, hlookup]
  rfl

/-- A select reads each counter once. -/
theorem growing_select {b : Books} {rows : List CounterRow} (h : rows.Perm b.trafficCounters.list) : Growing rows := by
  have hkeys : (b.trafficCounters.list.map Prod.fst).Nodup := by
    have hnodup := b.trafficCounters.nodupKeys
    rwa [List.NodupKeys, List.keys, ← show b.trafficCounters.list.map Prod.fst = b.trafficCounters.entries.map Sigma.fst by
      simp [Table.list]] at hnodup
  refine (List.pairwise_map.mp ((h.map Prod.fst).nodup_iff.mpr hkeys)).imp ?_
  intro x y hne heq
  exact absurd heq hne

/-- Every row that was read, in the order in which it was or would be inserted. -/
def State.read (s : State) : List CounterRow := s.captures.flatMap Capture.rows

structure Inv (books : Books) (s : State) : Prop where
  ledger : ∀ scope, scopeTotal s.books scope = scopeTotal books scope + booked s.calls scope
  ordered : ∀ capture ∈ s.captures, Ordered (rowsTotal capture.rows)
  growing : Growing s.read
  below : ∀ row ∈ s.read, row.2 ≤ current s.books row.1

theorem inv_init (books : Books) : Inv books (system books).init where
  ledger := by
    intro scope
    exact (add_zero _).symm
  ordered := by simp [system]
  growing := .nil
  below := by simp [State.read, system]

/-- A capture keeps the rows it read. -/
theorem flatMap_set {captures : List Capture} {i : Nat} {capture capture' : Capture} (h : captures[i]? = some capture)
    (hrows : capture'.rows = capture.rows) : (captures.set i capture').flatMap Capture.rows = captures.flatMap Capture.rows := by
  have hmap : (captures.set i capture').map Capture.rows = captures.map Capture.rows := by
    apply List.ext_getElem?
    intro j
    rw [List.getElem?_map, List.getElem?_map, Heap.get_set h]
    split
    · subst j
      rw [h, Option.map_some, Option.map_some, hrows]
    · rfl
  rw [List.flatMap_def, List.flatMap_def, hmap]

theorem Inv.setCapture {books : Books} {s : State} (h : Inv books s) {i : Nat} {capture capture' : Capture}
    (hi : s.captures[i]? = some capture) (hrows : capture'.rows = capture.rows) :
    Inv books {s with captures := s.captures.set i capture'} where
  ledger := h.ledger
  ordered := by
    refine Heap.forall_set h.ordered ?_ i
    rw [hrows]
    exact h.ordered capture (List.mem_of_getElem? hi)
  growing := by
    rw [State.read, flatMap_set hi hrows]
    exact h.growing
  below := by
    rw [State.read, flatMap_set hi hrows]
    exact h.below

theorem Inv.ordered_now {books : Books} {s : State} (h : Inv books s) (hbooks : Ordered (scopeTotal books)) :
    Ordered (scopeTotal s.books) := by
  have hcalls := booked_ordered s.calls
  constructor
  · rw [h.ledger, h.ledger]
    exact add_le_add hbooks.client hcalls.client
  · rw [h.ledger, h.ledger]
    exact add_le_add hbooks.tunnel hcalls.tunnel

theorem Inv.execute {books : Books} {s : State} (h : Inv books s) {i : Nat} {call : Call} (hi : s.calls[i]? = some call)
    (ended : Bool) : Inv books {s with
      books := call.execute s.books
      calls := s.calls.set i {call with done := call.done + 1, ended := ended}} where
  ledger := by
    intro scope
    apply add_right_cancel (b := call.booked scope)
    rw [scopeTotal_execute call s.books scope ended, h.ledger scope, add_assoc, add_assoc, booked_set hi]
  ordered := h.ordered
  growing := h.growing
  below := fun row hrow => (h.below row hrow).trans (current_execute call s.books row.1)

/-- What a select reads is no less than what was read before. -/
theorem Inv.select {books : Books} {s : State} (h : Inv books s) (hbooks : Ordered (scopeTotal books))
    {rows : List CounterRow} (hperm : rows.Perm s.books.trafficCounters.list) (now : Int) :
    Inv books {s with captures := s.captures ++ [⟨rows, now, 0, rows.isEmpty⟩]} := by
  have hread : State.read {s with captures := s.captures ++ [⟨rows, now, 0, rows.isEmpty⟩]} = s.read ++ rows := by
    simp [State.read]
  have hcurrent (row : CounterRow) (hrow : row ∈ rows) : row.2 = current s.books row.1 :=
    list_current (hperm.mem_iff.mp hrow)
  refine ⟨h.ledger, Heap.forall_push h.ordered ?_, ?_, ?_⟩
  · rw [rowsTotal_perm hperm, rowsTotal_list]
    exact h.ordered_now hbooks
  · rw [hread]
    refine List.pairwise_append.mpr ⟨h.growing, growing_select hperm, ?_⟩
    intro x hx y hy hkey
    rw [hcurrent y hy, ← hkey]
    exact h.below x hx
  · rw [hread]
    intro row hrow
    rcases List.mem_append.mp hrow with hrow | hrow
    · exact h.below row hrow
    · exact (hcurrent row hrow).le

theorem inv_step {books : Books} (hbooks : Ordered (scopeTotal books)) {a : Action} {s t : State} (h : Inv books s)
    (hs : step a s = some t) : Inv books t := by
  cases a with
  | addTraffic clientId tunnelId bytes =>
    obtain rfl := Option.some.inj hs
    refine {h with ledger := fun scope => ?_}
    rw [booked_push _ rfl]
    exact h.ledger scope
  | statement i fails =>
    simp only [step] at hs
    split at hs
    · rename_i call hi
      simp only [statementStep] at hs
      split at hs
      · cases hs
      · split at hs
        · obtain rfl := Option.some.inj hs
          refine {h with ledger := fun scope => ?_}
          have hset := booked_set hi {call with ended := true} scope
          rw [add_right_cancel (hset.trans rfl : _ = booked s.calls scope + call.booked scope)]
          exact h.ledger scope
        · simp only [Option.ite_none_right_eq_some, Option.some.injEq] at hs
          obtain ⟨-, rfl⟩ := hs
          exact h.execute hi _
    · cases hs
  | select rows now =>
    simp only [step, Option.ite_none_right_eq_some, Option.some.injEq] at hs
    obtain ⟨⟨hperm, -⟩, rfl⟩ := hs
    exact h.select hbooks hperm now
  | insert i fails =>
    simp only [step] at hs
    split at hs
    · rename_i capture hi
      simp only [insertStep] at hs
      split at hs
      · cases hs
      · split at hs
        · obtain rfl := Option.some.inj hs
          exact h.setCapture hi rfl
        · obtain rfl := Option.some.inj hs
          exact h.setCapture hi rfl
    · cases hs

theorem snapshots_sublist (s : State) : s.snapshots.Sublist s.read := by
  unfold State.snapshots State.read
  induction s.captures with
  | nil => exact .slnil
  | cons capture rest ih =>
    rw [List.flatMap_cons, List.flatMap_cons]
    exact (List.take_sublist _ _).append ih

/-- A snapshot between the statements of a call, another while one of its inserts fails,
and a last one. -/
def snapshotRun : List Action :=
  [.addTraffic "c" "t" (1, 2), .statement 0 false, .select [((.global, "all"), (1, 2))] 60, .insert 0 false,
   .statement 0 false, .select [((.client, "c"), (1, 2)), ((.global, "all"), (1, 2))] 120, .insert 1 true,
   .statement 0 true, .addTraffic "c" "t" (10, 20), .statement 1 false,
   .select [((.client, "c"), (1, 2)), ((.global, "all"), (11, 22))] 180, .insert 2 false, .insert 2 false]

end Snapshots

end Rps.Controller
