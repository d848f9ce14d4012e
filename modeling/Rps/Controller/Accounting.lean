import Rps.Base.Ledger
import Rps.Controller.ProxyAuth
import Rps.Controller.Resources

/-! Where recorded bytes end up.

Bytes are recorded on a route, which is one string: the id of a tunnel, or a prefix and
the id of an account, or the bare name of a port that has no accounts. Two functions read
a route back, one for the policies and one for the rows. `route_identifies` says for which
resources that works out: for every account, and for every tunnel whose id is not itself
such a name or does not begin with such a prefix. An administrator may choose any id that
is not blank, so the others exist too (`route_hijacked`).

`traffic::run` gathers events by route and books a batch at a time. `batched_accounting`
says that the books are those of the events booked one by one, whatever the batches and
the order in which the map is walked through, and that the three scopes agree. -/
namespace Rps.Controller
open Base

/-! ### The tables -/

/-- `rx_bytes` and `tx_bytes`. SQLite adds them exactly up to `2 ^ 63`. -/
abbrev Counter := Nat × Nat

inductive Scope where
  | global
  | client
  | tunnel
  deriving DecidableEq

/-- The `traffic_counters` table and the byte columns of `tunnels` and
`proxy_accounts`. -/
structure Books where
  trafficCounters : Table (Scope × String) Counter := ∅
  tunnels : Table String Counter := ∅
  proxyAccounts : Table String Counter := ∅

def proxyAccountIdFromRoute (routeId : String) : Option String :=
  stripPrefix "http-proxy:" routeId <|> stripPrefix "socks5:" routeId <|> stripPrefix "socks5-udp:" routeId

def bindBytes (bytes : Counter) : Counter := (u64ToI64 bytes.1, u64ToI64 bytes.2)

namespace Books

def addTrafficCounter (b : Books) (scope : Scope) (key : String) (bytes : Counter) : Books :=
  {b with trafficCounters := b.trafficCounters.upsert (scope, key) (bindBytes bytes)}

def addResourceTraffic (b : Books) (routeId : String) (bytes : Counter) : Books :=
  match proxyAccountIdFromRoute routeId with
  | some accountId => {b with proxyAccounts := b.proxyAccounts.increase accountId (bindBytes bytes)}
  | none => {b with tunnels := b.tunnels.increase routeId (bindBytes bytes)}

def addTraffic (b : Books) (clientId tunnelId : String) (bytes : Counter) : Books :=
  let b := b.addTrafficCounter .global "all" bytes
  let b := b.addTrafficCounter .client clientId bytes
  let b := b.addTrafficCounter .tunnel tunnelId bytes
  b.addResourceTraffic tunnelId bytes

/-- The row of a resource. -/
def row (b : Books) (key : ResourceKey) : Option Counter :=
  match key.kind with
  | .tunnel => b.tunnels.lookup key.id
  | .proxyAccount => b.proxyAccounts.lookup key.id

end Books

/-! ### Routes -/

/-- The id `create_tunnel` gives a tunnel: the requested one, unless it is blank. -/
def createTunnelId (requested : Option String) (fresh : String) : String :=
  (requested.filter fun id => trim id.toList ≠ []).getD fresh

/-- The routes of traffic that belongs to no account. -/
def openRoutes : List String := ["http-proxy", "socks5", "socks5-udp"]

def accountPrefixes : List String := ["http-proxy:", "socks5:", "socks5-udp:"]

/-- The id reads as a route of a proxy port. -/
def Reserved (id : String) : Prop := id ∈ openRoutes ∨ ∃ pre ∈ accountPrefixes, (stripPrefix pre id).isSome

/-- Both decoders read the resource's routes back as the resource, its row and no other
row gets the bytes, and it gets no bytes that belong to no account. -/
structure Identified (key : ResourceKey) : Prop where
  policy : ∀ route ∈ routes key, resourceKeyFromRoute route = some key
  rows : ∀ route ∈ routes key, ∀ (b : Books) (bytes : Counter) (other : ResourceKey),
    (b.addResourceTraffic route bytes).row other =
      if other = key then (b.row key).map (· + bindBytes bytes) else b.row other
  spared : ∀ route ∈ openRoutes, resourceKeyFromRoute route ≠ some key ∧
    ∀ (b : Books) (bytes : Counter), (b.addResourceTraffic route bytes).row key = b.row key

/-- The key the decoder of the rows reads a route as. -/
def rowKey (routeId : String) : ResourceKey :=
  match proxyAccountIdFromRoute routeId with
  | some id => proxyAccountKey id
  | none => tunnelKey routeId

/-- The two decoders agree. -/
theorem resourceKeyFromRoute_eq (routeId : String) : resourceKeyFromRoute routeId = some (rowKey routeId) := by
  show (match proxyAccountIdFromRoute routeId with
    | some id => some (proxyAccountKey id)
    | none => some (tunnelKey routeId)) = _
  rw [rowKey]
  cases proxyAccountIdFromRoute routeId <;> rfl

/-- The row of the decoded key gets the bytes, and no other row does. -/
theorem row_addResourceTraffic (b : Books) (routeId : String) (bytes : Counter) :
    (b.addResourceTraffic routeId bytes).row =
      charge (fun key => key = rowKey routeId) (bindBytes bytes) b.row := by
  funext ⟨kind, id⟩
  unfold Books.addResourceTraffic rowKey
  cases hroute : proxyAccountIdFromRoute routeId with
  | some accountId =>
    cases kind with
    | tunnel => simp [Books.row, charge, proxyAccountKey]
    | proxyAccount =>
      have h := congrFun (Table.lookup_increase b.proxyAccounts accountId (bindBytes bytes)) id
      simpa [Books.row, charge, proxyAccountKey] using h
  | none =>
    cases kind with
    | tunnel =>
      have h := congrFun (Table.lookup_increase b.tunnels routeId (bindBytes bytes)) id
      simpa [Books.row, charge, tunnelKey] using h
    | proxyAccount => simp [Books.row, charge, tunnelKey]

/-- No account route begins with the prefix of another. -/
theorem rowKey_route {id route : String} (h : route ∈ routes (proxyAccountKey id)) :
    rowKey route = proxyAccountKey id := by
  have hne (pre other : String) (hpre : pre.toList.isPrefixOf (other.toList ++ id.toList) = false) :
      stripPrefix pre (other ++ id) = none := by
    rw [stripPrefix, String.toList_append, if_neg (by rw [hpre]; simp)]
  simp only [routes, proxyAccountKey, List.mem_cons, List.not_mem_nil, or_false] at h
  unfold rowKey proxyAccountIdFromRoute
  rcases h with rfl | rfl | rfl
  · rw [stripPrefix_append]
    rfl
  · rw [hne "http-proxy:" "socks5:" rfl, stripPrefix_append]
    rfl
  · rw [hne "http-proxy:" "socks5-udp:" rfl, hne "socks5:" "socks5-udp:" rfl, stripPrefix_append]
    rfl

theorem rowKey_eq_tunnelKey {id : String} (h : ∀ pre ∈ accountPrefixes, stripPrefix pre id = none) :
    rowKey id = tunnelKey id := by
  unfold rowKey proxyAccountIdFromRoute
  rw [h "http-proxy:" (by decide), h "socks5:" (by decide), h "socks5-udp:" (by decide)]
  rfl

theorem rowKey_openRoute {route : String} (h : route ∈ openRoutes) : rowKey route = tunnelKey route := by
  simp only [openRoutes, List.mem_cons, List.not_mem_nil, or_false] at h
  rcases h with rfl | rfl | rfl <;> decide

/-- A tunnel's id that begins like an account's route is read as that account. -/
theorem rowKey_ne_tunnelKey {id pre : String} (hpre : pre ∈ accountPrefixes) (h : (stripPrefix pre id).isSome) :
    rowKey id ≠ tunnelKey id := by
  have hsome : (proxyAccountIdFromRoute id).isSome := by
    unfold proxyAccountIdFromRoute
    simp only [accountPrefixes, List.mem_cons, List.not_mem_nil, or_false] at hpre
    rcases hpre with rfl | rfl | rfl <;> simp [h]
  obtain ⟨account, haccount⟩ := Option.isSome_iff_exists.mp hsome
  simp [rowKey, haccount, tunnelKey, proxyAccountKey]

/-- What is left to show of a resource once its routes are read back as itself. -/
theorem identified_of_rowKey {key : ResourceKey} (hroutes : ∀ route ∈ routes key, rowKey route = key)
    (hopen : ∀ route ∈ openRoutes, tunnelKey route ≠ key) : Identified key where
  policy := by
    intro route hroute
    rw [resourceKeyFromRoute_eq, hroutes route hroute]
  rows := by
    intro route hroute b bytes other
    rw [row_addResourceTraffic, hroutes route hroute]
    by_cases hother : other = key
    · simp [charge, hother]
    · simp [charge, hother]
  spared := by
    intro route hroute
    have hne := hopen route hroute
    refine ⟨?_, fun b bytes => ?_⟩
    · rw [resourceKeyFromRoute_eq, rowKey_openRoute hroute]
      simpa using hne
    · rw [row_addResourceTraffic, rowKey_openRoute hroute]
      simp [charge, Ne.symm hne]

/-- **Which resources their routes identify**: every account, and every tunnel whose id is
not a route of a proxy port. The two decoders read every string alike. -/
theorem route_identifies (key : ResourceKey) (routeId : String) :
    (Identified key ↔ (key.kind = .tunnel → ¬ Reserved key.id)) ∧
      resourceKeyFromRoute routeId =
        some ((proxyAccountIdFromRoute routeId).elim (tunnelKey routeId) proxyAccountKey) := by
  obtain ⟨kind, id⟩ := key
  constructor
  · cases kind with
    | proxyAccount =>
      refine ⟨fun _ => by simp, fun _ => identified_of_rowKey (fun route hroute => rowKey_route hroute) ?_⟩
      simp [tunnelKey]
    | tunnel =>
      constructor
      · rintro hid - (hopen | ⟨pre, hpre, hstrip⟩)
        · apply (hid.spared id hopen).1
          rw [resourceKeyFromRoute_eq, rowKey_openRoute hopen]
          rfl
        · have := hid.policy id (by simp [routes])
          rw [resourceKeyFromRoute_eq, Option.some.injEq] at this
          exact rowKey_ne_tunnelKey hpre hstrip this
      · intro hres
        have hres := hres rfl
        refine identified_of_rowKey (fun route hroute => ?_) fun route hroute heq => ?_
        · obtain rfl : route = id := by simpa [routes] using hroute
          refine rowKey_eq_tunnelKey fun pre hpre => ?_
          cases hstrip : stripPrefix pre route with
          | none => rfl
          | some account => exact absurd (.inr ⟨pre, hpre, by rw [hstrip]; rfl⟩) hres
        · obtain rfl : route = id := by simpa [tunnelKey] using heq
          exact hres (.inl hroute)
  · rw [resourceKeyFromRoute_eq, rowKey]
    cases proxyAccountIdFromRoute routeId <;> rfl

/-- A tunnel may be created under the route of an account; its bytes are the account's. -/
theorem route_hijacked : createTunnelId (some "socks5:a") "" = "socks5:a" ∧
    resourceKeyFromRoute "socks5:a" = some (proxyAccountKey "a") ∧ ¬ Identified (tunnelKey "socks5:a") := by
  refine ⟨by decide, by decide, fun h => ?_⟩
  have := h.policy "socks5:a" (by decide)
  revert this
  decide

/-! ### Batches -/

/-- One event booked at once. -/
def Books.addEvent (b : Books) (event : TrafficEvent) : Books :=
  b.addTraffic event.clientId event.tunnelId (event.rxBytes, event.txBytes)

namespace Accounting

/-- `traffic::run` and the tables it flushes into; `received` are the events it has
taken off its channel. -/
structure State where
  books : Books
  traffic : Traffic := {}
  received : List TrafficEvent := []

inductive Action where
  | recv (event : TrafficEvent)
  | tick
  | flushRoute (i : Nat)
  deriving DecidableEq

/-- An event is received or the interval ticks while no flush is under way; a flush
books the routes of its batch in any order. -/
def step (a : Action) (s : State) : Option State :=
  match a with
  | .recv event =>
    if s.traffic.batch = [] then
      some {s with traffic := s.traffic.recv event [], received := s.received ++ [event]}
    else none
  | .tick => if s.traffic.batch = [] then some {s with traffic := s.traffic.flush} else none
  | .flushRoute i =>
    match s.traffic.batch[i]? with
    | some ((clientId, tunnelId), bytes) =>
      some {s with
        traffic := {s.traffic with batch := s.traffic.batch.eraseIdx i}
        books := s.books.addTraffic clientId tunnelId bytes}
    | none => none

def system (books : Books) : System State Action where
  init := {books := books}
  step := step

/-! ### What is in the tables -/

/-- The tables as functions of their keys. -/
structure View where
  counters : Scope × String → Option Counter
  rows : ResourceKey → Option Counter

def view (b : Books) : View := ⟨fun k => b.trafficCounters.lookup k, b.row⟩

/-- The counters that bytes on a route go to. -/
def touches (route : String × String) (k : Scope × String) : Bool :=
  match k.1 with
  | .global => k.2 = "all"
  | .client => k.2 = route.1
  | .tunnel => k.2 = route.2

/-- Bytes of a route are booked. -/
def View.book (v : View) (e : (String × String) × Counter) : View where
  counters := post (touches e.1) (bindBytes e.2) v.counters
  rows := charge (fun key => key = rowKey e.1.2) (bindBytes e.2) v.rows

theorem view_addTraffic (b : Books) (clientId tunnelId : String) (bytes : Counter) :
    view (b.addTraffic clientId tunnelId bytes) = (view b).book ((clientId, tunnelId), bytes) := by
  have hrows : (b.addTraffic clientId tunnelId bytes).row =
      charge (fun key => key = rowKey tunnelId) (bindBytes bytes) b.row := by
    rw [Books.addTraffic, row_addResourceTraffic]
    rfl
  have hcounters : (b.addTraffic clientId tunnelId bytes).trafficCounters =
      ((b.trafficCounters.upsert (.global, "all") (bindBytes bytes)).upsert (.client, clientId)
        (bindBytes bytes)).upsert (.tunnel, tunnelId) (bindBytes bytes) := by
    simp only [Books.addTraffic, Books.addResourceTraffic]
    split <;> rfl
  rw [view, View.book, hrows, hcounters, Table.lookup_upsert, Table.lookup_upsert, Table.lookup_upsert]
  congr 1
  -- the three keys are of different scopes
  funext ⟨scope, key⟩
  cases scope <;> simp [post, touches, view]

theorem book_comm (v : View) (x y : (String × String) × Counter) : (v.book x).book y = (v.book y).book x := by
  simp only [View.book]
  rw [post_comm, charge_comm]

/-- Two amounts on one route are as good as their sum. -/
theorem book_book (v : View) (route : String × String) {a b c : Counter}
    (h : bindBytes c = bindBytes a + bindBytes b) : (v.book (route, a)).book (route, b) = v.book (route, c) := by
  simp only [View.book]
  rw [post_post, charge_charge, h]

def charged (event : TrafficEvent) : (String × String) × Counter :=
  ((event.clientId, event.tunnelId), (event.rxBytes, event.txBytes))

theorem view_addEvents (events : List TrafficEvent) (b : Books) :
    view (events.foldl Books.addEvent b) = (events.map charged).foldl View.book (view b) := by
  induction events generalizing b with
  | nil => rfl
  | cons event rest ih =>
    rw [List.foldl_cons, ih, List.map_cons, List.foldl_cons]
    congr 1
    exact view_addTraffic b _ _ _

/-! ### The invariant -/

/-- What was gathered and is not booked yet. -/
def gathered (t : Traffic) : List ((String × String) × Counter) := t.batch ++ Table.list t.pending

def rxTotal (events : List TrafficEvent) : Nat := (events.map (·.rxBytes)).sum

def txTotal (events : List TrafficEvent) : Nat := (events.map (·.txBytes)).sum

/-- With what is gathered the tables hold what was received. -/
structure Inv (books : Books) (s : State) : Prop where
  booked : (gathered s.traffic).foldl View.book (view s.books) =
    (s.received.map charged).foldl View.book (view books)
  bound : ∀ route bytes, s.traffic.pending.lookup route = some bytes →
    bytes.1 ≤ rxTotal s.received ∧ bytes.2 ≤ txTotal s.received

/-- The totals are within what the columns hold exactly. -/
def Fits (events : List TrafficEvent) : Prop := rxTotal events < 2 ^ 63 ∧ txTotal events < 2 ^ 63

theorem rxTotal_push (events : List TrafficEvent) (event : TrafficEvent) :
    rxTotal (events ++ [event]) = rxTotal events + event.rxBytes := by
  simp [rxTotal]

theorem txTotal_push (events : List TrafficEvent) (event : TrafficEvent) :
    txTotal (events ++ [event]) = txTotal events + event.txBytes := by
  simp [txTotal]

/-- Sums that fit fitted before. -/
theorem Fits.before {events : List TrafficEvent} {event : TrafficEvent} (h : Fits (events ++ [event])) : Fits events := by
  rw [Fits, rxTotal_push, txTotal_push] at h
  exact ⟨by omega, by omega⟩

theorem inv_init (books : Books) : Inv books (system books).init where
  booked := rfl
  bound := by
    intro route bytes h
    cases h

/-- A flush moves the map into the batch. -/
theorem gathered_flush {t : Traffic} (h : t.batch = []) : gathered t.flush = gathered t := by
  simp [gathered, Traffic.flush, Table.list, h]

/-- What stands for a route after an event on it. -/
def gatheredBytes (t : Traffic) (event : TrafficEvent) : Counter :=
  let entry := (t.pending.lookup (event.clientId, event.tunnelId)).getD (0, 0)
  (PolicyEnforcer.saturatingAdd entry.1 event.rxBytes, PolicyEnforcer.saturatingAdd entry.2 event.txBytes)

/-- The event goes into the map, and from there into the batch if the map is full. -/
theorem recv_gathers {t : Traffic} (h : t.batch = []) (event : TrafficEvent) :
    let pending := t.pending.insert (event.clientId, event.tunnelId) (gatheredBytes t event)
    gathered (t.recv event []) = Table.list pending ∧
      ((t.recv event []).pending = pending ∨ (t.recv event []).pending = ∅) := by
  intro pending
  have hrecv : t.recv event [] =
      if flushRouteThreshold ≤ pending.entries.length then Traffic.flush {t with queue := [], pending := pending}
      else {t with queue := [], pending := pending} := rfl
  rw [hrecv]
  split
  · refine ⟨?_, .inr rfl⟩
    rw [gathered_flush (by exact h)]
    simp [gathered, h]
  · exact ⟨by simp [gathered, h], .inl rfl⟩

/-- Below `2 ^ 63` nothing is capped. -/
theorem bindBytes_saturating {a b : Counter} (h₁ : a.1 + b.1 < 2 ^ 63) (h₂ : a.2 + b.2 < 2 ^ 63) :
    bindBytes (PolicyEnforcer.saturatingAdd a.1 b.1, PolicyEnforcer.saturatingAdd a.2 b.2) =
      bindBytes a + bindBytes b := by
  simp only [bindBytes, u64ToI64, PolicyEnforcer.saturatingAdd, Prod.mk_add_mk, Prod.mk.injEq]
  omega

/-- What stands for a route is no more than was received. -/
def Bounded (t : Traffic) (events : List TrafficEvent) : Prop :=
  ∀ route bytes, t.pending.lookup route = some bytes → bytes.1 ≤ rxTotal events ∧ bytes.2 ≤ txTotal events

theorem bounded_recv {t : Traffic} {events : List TrafficEvent} (h : Bounded t events) (event : TrafficEvent)
    (hbatch : t.batch = []) : Bounded (t.recv event []) (events ++ [event]) := by
  intro route bytes hbytes
  rw [rxTotal_push, txTotal_push]
  rcases (recv_gathers hbatch event).2 with hp | hp
  · rw [hp, Table.lookup_insert] at hbytes
    split at hbytes
    · obtain rfl := Option.some.inj hbytes
      simp only [gatheredBytes, PolicyEnforcer.saturatingAdd]
      cases hold : t.pending.lookup (event.clientId, event.tunnelId) with
      | none =>
        simp only [Option.getD_none]
        omega
      | some old =>
        have := h _ _ hold
        simp only [Option.getD_some]
        omega
    · have := h _ _ hbytes
      omega
  · rw [hp] at hbytes
    cases hbytes

/-- To go through what is gathered after an event is to go through what was and then the
event, for anything to which only the sums on a route matter. -/
theorem foldl_recv {V : Type} {act : V → (String × String) × Counter → V}
    (hcomm : ∀ v x y, act (act v x) y = act (act v y) x)
    (hfuse : ∀ v route (a b c : Counter), bindBytes c = bindBytes a + bindBytes b →
      act (act v (route, a)) (route, b) = act v (route, c))
    {t : Traffic} {events : List TrafficEvent} (h : Bounded t events) {event : TrafficEvent}
    (hfits : Fits (events ++ [event])) (hbatch : t.batch = []) (v : V) :
    (gathered (t.recv event [])).foldl act v = act ((gathered t).foldl act v) (charged event) := by
  rw [Fits, rxTotal_push, txTotal_push] at hfits
  have hentry : ∀ bytes, t.pending.lookup (event.clientId, event.tunnelId) = some bytes →
      bytes.1 + event.rxBytes < 2 ^ 63 ∧ bytes.2 + event.txBytes < 2 ^ 63 := by
    intro bytes hbytes
    have := h _ _ hbytes
    omega
  rw [(recv_gathers hbatch event).1, foldl_gather hcomm t.pending _ (event.rxBytes, event.txBytes)]
  · rw [List.foldl_append]
    simp [gathered, hbatch, charged]
  · intro hnone
    simp only [gatheredBytes, hnone, Option.getD_none, PolicyEnforcer.saturatingAdd, Prod.mk.injEq]
    omega
  · intro bytes hbytes v
    obtain ⟨h₁, h₂⟩ := hentry bytes hbytes
    rw [gatheredBytes, hbytes]
    exact hfuse v _ _ _ _ (bindBytes_saturating (b := (event.rxBytes, event.txBytes)) h₁ h₂)

theorem inv_recv {books : Books} {s : State} (h : Inv books s) (event : TrafficEvent)
    (hfits : Fits (s.received ++ [event])) (hbatch : s.traffic.batch = []) :
    Inv books {s with traffic := s.traffic.recv event [], received := s.received ++ [event]} := by
  constructor
  · show (gathered (s.traffic.recv event [])).foldl _ _ = ((s.received ++ [event]).map charged).foldl _ _
    rw [foldl_recv book_comm (fun v route a b c => book_book v route) h.bound hfits hbatch, h.booked]
    simp
  · exact bounded_recv h.bound event hbatch

/-- A route taken out of the batch is gone through first. -/
theorem gathered_perm {t : Traffic} {i : Nat} {entry : (String × String) × Counter} (hi : t.batch[i]? = some entry) :
    (gathered t).Perm (entry :: gathered {t with batch := t.batch.eraseIdx i}) := by
  obtain ⟨hlt, hget⟩ := List.getElem?_eq_some_iff.mp hi
  rw [← hget]
  exact (List.getElem_cons_eraseIdx_perm hlt).symm.append_right _

theorem inv_step {books : Books} {a : Action} {s t : State} (h : Fits s.received → Inv books s)
    (hstep : step a s = some t) : Fits t.received → Inv books t := by
  intro hfits
  cases a with
  | recv event =>
    simp only [step, Option.ite_none_right_eq_some, Option.some.injEq] at hstep
    obtain ⟨hbatch, rfl⟩ := hstep
    exact inv_recv (h hfits.before) event hfits hbatch
  | tick =>
    simp only [step, Option.ite_none_right_eq_some, Option.some.injEq] at hstep
    obtain ⟨hbatch, rfl⟩ := hstep
    refine ⟨?_, fun route bytes hb => by cases hb⟩
    show (gathered s.traffic.flush).foldl _ _ = _
    rw [gathered_flush hbatch]
    exact (h hfits).booked
  | flushRoute i =>
    simp only [step] at hstep
    split at hstep
    · rename_i clientId tunnelId bytes hi
      cases hstep
      refine ⟨?_, (h hfits).bound⟩
      rw [view_addTraffic, ← (h hfits).booked, (gathered_perm hi).foldl_eq' fun x _ y _ z => book_comm z x y]
      rfl
    · cases hstep

/-! ### The three scopes -/

/-- What the counters of a scope add up to. -/
def scopeTotal (b : Books) (scope : Scope) : Counter :=
  (Table.sum (fun k bytes => if k.1 = scope then bytes.1 else 0) b.trafficCounters,
    Table.sum (fun k bytes => if k.1 = scope then bytes.2 else 0) b.trafficCounters)

/-- The global counter is the sum of the clients' and the sum of the tunnels'. -/
def Balanced (b : Books) : Prop :=
  (b.trafficCounters.lookup (.global, "all")).getD 0 = scopeTotal b .client ∧
    (b.trafficCounters.lookup (.global, "all")).getD 0 = scopeTotal b .tunnel

theorem scopeTotal_addTrafficCounter (b : Books) (scope scope' : Scope) (key : String) (bytes : Counter) :
    scopeTotal (b.addTrafficCounter scope' key bytes) scope =
      if scope' = scope then scopeTotal b scope + bindBytes bytes else scopeTotal b scope := by
  have hsum (f : Counter → Nat) (hf : ∀ x y, f (x + y) = f x + f y) (hzero : f 0 = 0) :
      Table.sum (fun k x => if k.1 = scope then f x else 0)
        (b.trafficCounters.upsert (scope', key) (bindBytes bytes)) =
      Table.sum (fun k x => if k.1 = scope then f x else 0) b.trafficCounters +
        if scope' = scope then f (bindBytes bytes) else 0 := by
    have h := Table.sum_insert (fun k x => if k.1 = scope then f x else 0) b.trafficCounters (scope', key)
      ((b.trafficCounters.lookup (scope', key)).getD 0 + bindBytes bytes)
    rw [Table.upsert]
    cases hold : b.trafficCounters.lookup (scope', key) with
    | none =>
      simp only [hold, hf, Option.getD_none, hzero, Option.map_none] at h
      by_cases hs : scope' = scope <;> simp_all
    | some old =>
      simp only [hold, hf, Option.getD_some, Option.map_some] at h ⊢
      by_cases hs : scope' = scope
      · simp only [hs, if_true] at h ⊢
        omega
      · simp only [hs, if_false] at h ⊢
        omega
  have h₁ := hsum Prod.fst (fun _ _ => rfl) rfl
  have h₂ := hsum Prod.snd (fun _ _ => rfl) rfl
  simp only [scopeTotal, Books.addTrafficCounter]
  rw [h₁, h₂]
  by_cases hs : scope' = scope
  · simp [hs, Prod.ext_iff]
  · simp [hs]

theorem balanced_addTraffic {b : Books} (h : Balanced b) (clientId tunnelId : String) (bytes : Counter) :
    Balanced (b.addTraffic clientId tunnelId bytes) := by
  have hcounters : (b.addTraffic clientId tunnelId bytes).trafficCounters =
      (((b.addTrafficCounter .global "all" bytes).addTrafficCounter .client clientId bytes).addTrafficCounter
        .tunnel tunnelId bytes).trafficCounters := by
    simp only [Books.addTraffic, Books.addResourceTraffic]
    split <;> rfl
  have htotal (scope : Scope) (hscope : scope ≠ .global) :
      scopeTotal (b.addTraffic clientId tunnelId bytes) scope = scopeTotal b scope + bindBytes bytes := by
    rw [scopeTotal, hcounters]
    show scopeTotal (((b.addTrafficCounter .global "all" bytes).addTrafficCounter .client clientId
      bytes).addTrafficCounter .tunnel tunnelId bytes) scope = _
    simp only [scopeTotal_addTrafficCounter]
    cases scope <;> simp_all
  have hglobal : ((b.addTraffic clientId tunnelId bytes).trafficCounters.lookup (.global, "all")).getD 0 =
      (b.trafficCounters.lookup (.global, "all")).getD 0 + bindBytes bytes := by
    have h := congrFun (congrArg View.counters (view_addTraffic b clientId tunnelId bytes)) (.global, "all")
    simp only [view, View.book, post, touches, decide_true, if_true] at h
    rw [h]
    rfl
  exact ⟨by rw [hglobal, htotal .client (by decide), h.1], by rw [hglobal, htotal .tunnel (by decide), h.2]⟩

theorem balanced_step {a : Action} {s t : State} (h : Balanced s.books) (hstep : step a s = some t) :
    Balanced t.books := by
  cases a with
  | recv event =>
    simp only [step, Option.ite_none_right_eq_some, Option.some.injEq] at hstep
    obtain ⟨-, rfl⟩ := hstep
    exact h
  | tick =>
    simp only [step, Option.ite_none_right_eq_some, Option.some.injEq] at hstep
    obtain ⟨-, rfl⟩ := hstep
    exact h
  | flushRoute i =>
    simp only [step] at hstep
    split at hstep
    · cases hstep
      exact balanced_addTraffic h _ _ _
    · cases hstep

/-! ### Batched accounting -/

/-- The tables hold the same rows. -/
structure Agree (b b' : Books) : Prop where
  counters : ∀ k, b.trafficCounters.lookup k = b'.trafficCounters.lookup k
  tunnels : ∀ id, b.tunnels.lookup id = b'.tunnels.lookup id
  accounts : ∀ id, b.proxyAccounts.lookup id = b'.proxyAccounts.lookup id

theorem agree_of_view {b b' : Books} (h : view b = view b') : Agree b b' where
  counters := fun k => congrFun (congrArg View.counters h) k
  tunnels := fun id => congrFun (congrArg View.rows h) (tunnelKey id)
  accounts := fun id => congrFun (congrArg View.rows h) (proxyAccountKey id)

/-- **Batched accounting is per-event accounting.** When everything that was received has
been flushed, the tables are those of the events booked one by one, as long as the totals
fit the columns; and from empty counters on the scopes agree. -/
theorem batched_accounting (books : Books) (s : State) (h : (system books).Reachable s)
    (hflushed : s.traffic.pending.entries = [] ∧ s.traffic.batch = []) (hfits : Fits s.received) :
    Agree s.books (s.received.foldl Books.addEvent books) ∧
      (books.trafficCounters = ∅ → Balanced s.books) := by
  constructor
  · have hinv : Fits s.received → Inv books s :=
      h.invariant (I := fun s => Fits s.received → Inv books s) (fun _ => inv_init books)
        fun _ _ _ hi _ hstep => inv_step hi hstep
    have hbooked := (hinv hfits).booked
    rw [gathered, Table.list, hflushed.1, hflushed.2, ← view_addEvents] at hbooked
    exact agree_of_view hbooked
  · intro hempty
    refine h.invariant (I := fun s => Balanced s.books) ?_ fun _ _ _ hi _ hstep => balanced_step hi hstep
    simp only [system, Balanced, scopeTotal, hempty]
    exact ⟨rfl, rfl⟩

/-- Three events on two routes, a flush that takes the routes in the other order, one
more event and its flush. -/
def twoFlushesRun : List Action :=
  [.recv ⟨"c", "t", 1, 2⟩, .recv ⟨"c", "socks5:a", 10, 20⟩, .recv ⟨"c", "t", 100, 200⟩, .tick, .flushRoute 1,
    .flushRoute 0, .recv ⟨"d", "t", 0, 7⟩, .tick, .flushRoute 0]

theorem batched_accounting_twoFlushes : ∃ s : State,
    (system {tunnels := (∅ : Table String Counter).insert "t" 0}).Reachable s ∧ s.received.length = 4 ∧
      Agree s.books (s.received.foldl Books.addEvent {tunnels := (∅ : Table String Counter).insert "t" 0}) ∧
      Balanced s.books := by
  obtain ⟨s, hs, hp⟩ := System.reach_of_run
    (S := system {tunnels := (∅ : Table String Counter).insert "t" 0}) (C := fun _ _ => True) twoFlushesRun
    (fun s => s.traffic.pending.entries = [] ∧ s.traffic.batch = [] ∧ s.received.length = 4 ∧
      rxTotal s.received < 2 ^ 63 ∧ txTotal s.received < 2 ^ 63) (by decide +kernel)
  simp only [decide_eq_true_eq] at hp
  obtain ⟨hpending, hbatch, hlength, hrx, htx⟩ := hp
  obtain ⟨hagree, hbalanced⟩ := batched_accounting _ s hs ⟨hpending, hbatch⟩ ⟨hrx, htx⟩
  exact ⟨s, hs, hlength, hagree, hbalanced rfl⟩

end Accounting

end Rps.Controller
