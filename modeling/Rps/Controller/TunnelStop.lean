import Rps.Base.System
import Rps.Base.Table

/-! Stopping a TCP tunnel.

`TunnelManager::start` puts a runtime into the map of running tunnels and spawns
its accept loop. Each accepted connection opens a pooled stream, then looks the
tunnel id up and registers with whatever runtime it finds, then pipes; without a
runtime it pipes without a shutdown receiver. `stop` takes the runtime out of the
map, tells the accept loop, signals the registered sessions shard by shard and
waits for the loop.

`stopped_signalled`: once `stop` has returned, every connection the stopped runtime
accepted and that relays has been sent the signal, provided each connection
registers while the runtime that accepted it is still in the map. A connection that
is late finds no runtime, or the next one under the same id (`stop_missed`). -/
namespace Rps.Controller
open Base

namespace TunnelStop

/-- One started tunnel; its place in the list of runtimes is its identity. -/
structure Runtime where
  id : String
  target : Option String
  shutdown : Bool
  ended : Bool
  deriving DecidableEq

inductive Stage where
  | accepted
  | opened
  | ready
  | piping
  | closed
  deriving DecidableEq

/-- `runtime` accepted the connection; `session` is the guard it got, as the runtime
it is registered with and the session id there. -/
structure Conn where
  runtime : Nat
  stage : Stage
  session : Option (Nat × Nat)
  signalled : Bool
  deriving DecidableEq

inductive StopPhase where
  | removed
  | signalling (shard : Nat)
  | waiting
  | returned
  deriving DecidableEq

/-- A `stop` that found its runtime, and will return true. -/
structure Stop where
  runtime : Nat
  phase : StopPhase
  deriving DecidableEq

/-- `sessions` holds the session maps of all runtimes, each under its own index; an
entry leads to the connection that holds the receiver. -/
structure State where
  runtimes : List Runtime := []
  running : Table String Nat := ∅
  sessions : Table (Nat × Nat) Nat := ∅
  nextId : Nat := 0
  conns : List Conn := []
  stops : List Stop := []
  deriving DecidableEq

inductive ConnAction where
  | openStream
  | register
  | start
  | close
  deriving DecidableEq

inductive Action where
  | start (id : String) (target : Option String)
  | stop (id : String)
  | stopNext (k : Nat)
  | accept (r : Nat)
  | loopEnd (r : Nat)
  | conn (c : Nat) (a : ConnAction)
  deriving DecidableEq

def registerSession (t : State) (c : Nat) (id : String) : State × Option (Nat × Nat) :=
  match t.running.lookup id with
  | none => (t, none)
  | some r =>
    ({t with sessions := t.sessions.insert (r, t.nextId) c, nextId := t.nextId + 1}, some (r, t.nextId))

/-- One step of `handle_tcp`. -/
def connStep (a : ConnAction) (t : State) (c : Nat) (conn : Conn) : Option (State × Conn) :=
  match a, conn.stage with
  | .openStream, .accepted =>
    match t.runtimes[conn.runtime]? with
    | some runtime => if runtime.target = none then none else some (t, {conn with stage := .opened})
    | none => none
  | .register, .opened =>
    match t.runtimes[conn.runtime]? with
    | some runtime =>
      match registerSession t c runtime.id with
      | (t, session) => some (t, {conn with stage := .ready, session := session})
    | none => none
  | .start, .ready => some (t, {conn with stage := .piping})
  | .close, .closed => none
  | .close, _ =>
    match conn.session with
    | some key => some ({t with sessions := t.sessions.erase key}, {conn with stage := .closed})
    | none => some (t, {conn with stage := .closed})
  | _, _ => none

/-- `send(true)` to each connection of the list. -/
def signalAll (l : List Nat) (conns : List Conn) : List Conn :=
  l.foldl (fun conns c => conns.modify c fun conn => {conn with signalled := true}) conns

variable (D : Sharding Nat)

/-- The connections behind the sessions of a runtime in one shard. -/
def shardSessions (t : State) (r k : Nat) : List Nat :=
  (t.sessions.entries.filter fun e => e.1.1 = r && (D.shard e.1.2).val = k).map (·.2)

/-- One step of `stop` after it has taken the runtime out of the map. -/
def stopStep (t : State) (s : Stop) : Option (State × StopPhase) :=
  match s.phase with
  | .removed =>
    some ({t with runtimes := t.runtimes.modify s.runtime fun rt => {rt with shutdown := true}}, .signalling 0)
  | .signalling k =>
    if k < D.shards then
      some ({t with conns := signalAll (shardSessions D t s.runtime k) t.conns}, .signalling (k + 1))
    else some (t, .waiting)
  | .waiting =>
    -- the loop has ended, or is aborted after five seconds
    some ({t with runtimes := t.runtimes.modify s.runtime fun rt => {rt with ended := true}}, .returned)
  | .returned => none

def step (a : Action) (t : State) : Option State :=
  match a with
  | .start id target =>
    match t.running.lookup id with
    | some _ => none
    | none =>
      some {t with
        runtimes := t.runtimes ++ [⟨id, target, false, false⟩]
        running := t.running.insert id t.runtimes.length}
  | .stop id =>
    match t.running.lookup id with
    | some r => some {t with running := t.running.erase id, stops := t.stops ++ [⟨r, .removed⟩]}
    | none => none
  | .stopNext k =>
    match t.stops[k]? with
    | some s => (stopStep D t s).map fun (t, phase) => {t with stops := t.stops.set k {s with phase := phase}}
    | none => none
  | .accept r =>
    match t.runtimes[r]? with
    | some runtime => if runtime.ended then none else some {t with conns := t.conns ++ [⟨r, .accepted, none, false⟩]}
    | none => none
  | .loopEnd r => some {t with runtimes := t.runtimes.modify r fun rt => {rt with ended := true}}
  | .conn c a =>
    match t.conns[c]? with
    | some conn => (connStep a t c conn).map fun (t, conn) => {t with conns := t.conns.set c conn}
    | none => none

def system : System State Action where
  init := {}
  step := step D

/-! ### The property -/

/-- Once `stop` has returned, a connection of the stopped runtime that relays has
been sent the signal. -/
def Stopped (t : State) : Prop :=
  ∀ s ∈ t.stops, s.phase = .returned → ∀ conn ∈ t.conns, conn.runtime = s.runtime →
    conn.stage = .piping → conn.signalled = true

/-- A connection registers while the runtime that accepted it is in the map under
its id. -/
def InTime (a : Action) (t : State) : Prop :=
  match a with
  | .conn c .register =>
    ∀ conn ∈ t.conns[c]?, ∀ runtime ∈ t.runtimes[conn.runtime]?, t.running.lookup runtime.id = some conn.runtime
  | _ => True

/-! ### The invariant -/

/-- The stages at which a connection is past its registration. -/
def Stage.live : Stage → Bool
  | .ready | .piping => true
  | _ => false

/-- What a stop in this phase knows of a connection of its runtime. -/
def Reached (phase : StopPhase) (conn : Conn) : Prop :=
  match phase with
  | .removed => True
  | .signalling k => ∀ sid, conn.session = some (conn.runtime, sid) → conn.stage.live = true →
      conn.signalled = true ∨ k ≤ (D.shard sid).val
  | .waiting | .returned => conn.stage.live = true → conn.signalled = true

structure Inv (t : State) : Prop where
  running : ∀ id r, t.running.lookup id = some r →
    (∃ runtime, t.runtimes[r]? = some runtime ∧ runtime.id = id) ∧ ∀ s ∈ t.stops, s.runtime ≠ r
  stops : ∀ s ∈ t.stops, s.runtime < t.runtimes.length
  guards : Heap.Guards Conn.session Prod.snd t.conns t.nextId
  live : ∀ (c : Nat) (conn : Conn), t.conns[c]? = some conn → conn.stage.live = true →
    ∃ sid, conn.session = some (conn.runtime, sid) ∧ t.sessions.lookup (conn.runtime, sid) = some c
  reached : ∀ s ∈ t.stops, ∀ (c : Nat) (conn : Conn), t.conns[c]? = some conn → conn.runtime = s.runtime →
    Reached D s.phase conn

theorem inv_init : Inv D {} where
  running := by
    intro id r h
    cases h
  stops := by simp
  guards := Heap.guards_nil
  live := by simp
  reached := by simp

variable {D}

/-- What one connection step has to keep. -/
theorem inv_conn {t : State} (h : Inv D t) {c : Nat} {conn : Conn} (hc : t.conns[c]? = some conn)
    {conn' : Conn} {sessions : Table (Nat × Nat) Nat} {nextId : Nat} (hnext : t.nextId ≤ nextId)
    (hids : ∀ r sid, conn'.session = some (r, sid) →
      conn.session = some (r, sid) ∨ sid = t.nextId ∧ t.nextId < nextId)
    (hothers : ∀ key d, key.2 < t.nextId → conn.session ≠ some key → t.sessions.lookup key = some d →
      sessions.lookup key = some d)
    (hlive : conn'.stage.live = true →
      ∃ sid, conn'.session = some (conn'.runtime, sid) ∧ sessions.lookup (conn'.runtime, sid) = some c)
    (hruntime : conn'.runtime = conn.runtime)
    (hreached : ∀ s ∈ t.stops, conn.runtime = s.runtime → Reached D s.phase conn → Reached D s.phase conn') :
    Inv D {t with sessions := sessions, nextId := nextId, conns := t.conns.set c conn'} where
  running := h.running
  stops := h.stops
  guards := h.guards.set hc hnext fun key hkey => hids key.1 key.2 hkey
  live := by
    intro d x hd hx
    simp only [Heap.get_set hc] at hd
    split at hd
    · rename_i hdc
      cases hd
      rw [hdc]
      exact hlive hx
    · rename_i hdc
      obtain ⟨sid, hsid, hl⟩ := h.live d x hd hx
      refine ⟨sid, hsid, hothers _ _ (h.guards.bound d x _ hd hsid) (fun hown => hdc ?_) hl⟩
      exact h.guards.distinct d c x conn _ hd hc hsid hown
  reached := by
    intro s hs d x hd hrt
    simp only [Heap.get_set hc] at hd
    split at hd
    · cases hd
      rw [hruntime] at hrt
      exact hreached s hs hrt (h.reached s hs c conn hc hrt)
    · exact h.reached s hs d x hd hrt

theorem reached_closed (phase : StopPhase) (conn : Conn) : Reached D phase {conn with stage := .closed} := by
  cases phase <;> simp [Reached, Stage.live]

theorem conn_inv {t : State} (h : Inv D t) {c : Nat} {conn : Conn} (hc : t.conns[c]? = some conn)
    {a : ConnAction} (htime : InTime (.conn c a) t) {u : State} {conn' : Conn}
    (hstep : connStep a t c conn = some (u, conn')) : Inv D {u with conns := u.conns.set c conn'} := by
  cases a with
  | openStream =>
    cases hstage : conn.stage with
    | accepted =>
      simp only [connStep, hstage] at hstep
      split at hstep
      · split at hstep
        · cases hstep
        · cases hstep
          refine inv_conn h hc (Nat.le_refl _) (fun _ _ hs => .inl hs) (fun _ _ _ _ hl => hl)
            (by simp [Stage.live]) rfl fun s _ _ _ => ?_
          cases s.phase <;> simp [Reached, Stage.live]
      · cases hstep
    | _ => simp [connStep, hstage] at hstep
  | register =>
    cases hstage : conn.stage with
    | opened =>
      cases hrt : t.runtimes[conn.runtime]? with
      | none => simp [connStep, hstage, hrt] at hstep
      | some runtime =>
        have hrunning := htime conn (Option.mem_def.mpr hc) runtime (Option.mem_def.mpr hrt)
        simp only [connStep, hstage, hrt, registerSession, hrunning, Option.some.injEq, Prod.mk.injEq] at hstep
        obtain ⟨rfl, rfl⟩ := hstep
        refine inv_conn h hc (Nat.le_succ _) ?_ ?_ ?_ rfl ?_
        · intro r sid hsid
          simp only [Option.some.injEq, Prod.mk.injEq] at hsid
          exact .inr ⟨hsid.2.symm, Nat.lt_succ_self _⟩
        · intro key d hlt _ hl
          rw [Table.lookup_insert, if_neg, hl]
          rintro rfl
          exact Nat.lt_irrefl _ hlt
        · intro _
          exact ⟨t.nextId, rfl, by rw [Table.lookup_insert, if_pos rfl]⟩
        · -- the runtime is still in the map, so no stop is at work on it
          intro s hs heq
          exact absurd heq.symm ((h.running _ _ hrunning).2 s hs)
    | _ => simp [connStep, hstage] at hstep
  | start =>
    cases hstage : conn.stage with
    | ready =>
      simp only [connStep, hstage, Option.some.injEq, Prod.mk.injEq] at hstep
      obtain ⟨rfl, rfl⟩ := hstep
      refine inv_conn h hc (Nat.le_refl _) (fun _ _ hs => .inl hs) (fun _ _ _ _ hl => hl)
        (fun _ => h.live c conn hc (by rw [hstage]; rfl)) rfl fun s _ _ hreached => ?_
      cases hphase : s.phase <;> simp_all [Reached, Stage.live]
    | _ => simp [connStep, hstage] at hstep
  | close =>
    unfold connStep at hstep
    split at hstep <;> try contradiction
    split at hstep
    · rename_i key hkey
      cases hstep
      refine inv_conn h hc (Nat.le_refl _) (fun _ _ hs => .inl hs) ?_ (by simp [Stage.live]) rfl
        fun _ _ _ _ => reached_closed _ _
      intro key' d _ hother hl
      rw [Table.lookup_erase, if_neg, hl]
      rintro rfl
      exact hother hkey
    · cases hstep
      exact inv_conn h hc (Nat.le_refl _) (fun _ _ hs => .inl hs) (fun _ _ _ _ hl => hl) (by simp [Stage.live]) rfl
        fun _ _ _ _ => reached_closed _ _

theorem inv_accept {t : State} (h : Inv D t) (r : Nat) :
    Inv D {t with conns := t.conns ++ [⟨r, .accepted, none, false⟩]} where
  running := h.running
  stops := h.stops
  guards := h.guards.push rfl
  live := by
    intro c conn hc hl
    simp only [Heap.get_push] at hc
    split at hc
    · cases hc
      cases hl
    · exact h.live c conn hc hl
  reached := by
    intro s hs c conn hc hrt
    simp only [Heap.get_push] at hc
    split at hc
    · cases hc
      cases s.phase <;> simp [Reached, Stage.live]
    · exact h.reached s hs c conn hc hrt

/-! ### Steps of the manager -/

theorem inv_start {t : State} (h : Inv D t) {id : String} (target : Option String) :
    Inv D {t with
      runtimes := t.runtimes ++ [⟨id, target, false, false⟩]
      running := t.running.insert id t.runtimes.length} := by
  refine {h with running := ?_, stops := ?_}
  · intro id' r hl
    simp only [Table.lookup_insert] at hl
    split at hl
    · rename_i hid
      obtain rfl := Option.some.inj hl
      refine ⟨⟨⟨id, target, false, false⟩, by simp, hid.symm⟩, fun s hs heq => ?_⟩
      have := h.stops s hs
      omega
    · obtain ⟨⟨runtime, hget, hidr⟩, hstops⟩ := h.running id' r hl
      exact ⟨⟨runtime, Heap.get_push_of_some hget, hidr⟩, hstops⟩
  · intro s hs
    have := h.stops s hs
    simp only [List.length_append, List.length_singleton]
    omega

theorem inv_stop {t : State} (h : Inv D t) {id : String} {r : Nat} (hl : t.running.lookup id = some r) :
    Inv D {t with running := t.running.erase id, stops := t.stops ++ [⟨r, .removed⟩]} := by
  obtain ⟨⟨runtime, hget, hidr⟩, -⟩ := h.running id r hl
  refine {h with running := ?_, stops := ?_, reached := ?_}
  · intro id' r' hl'
    simp only [Table.lookup_erase] at hl'
    split at hl'
    · cases hl'
    · rename_i hne
      obtain ⟨⟨runtime', hget', hidr'⟩, hstops⟩ := h.running id' r' hl'
      refine ⟨⟨runtime', hget', hidr'⟩, ?_⟩
      apply Heap.forall_push hstops
      intro hr
      obtain rfl : r = r' := hr
      rw [hget, Option.some.injEq] at hget'
      exact hne (by rw [← hidr', ← hidr, hget'])
  · apply Heap.forall_push h.stops
    exact (List.getElem?_eq_some_iff.mp hget).1
  · apply Heap.forall_push h.reached
    exact fun _ _ _ _ => trivial

theorem inv_modifyRuntime {t : State} (h : Inv D t) (r : Nat) {f : Runtime → Runtime} (hf : ∀ rt, (f rt).id = rt.id) :
    Inv D {t with runtimes := t.runtimes.modify r f} := by
  refine {h with running := ?_, stops := ?_}
  · intro id r' hl
    obtain ⟨⟨runtime, hget, hidr⟩, hstops⟩ := h.running id r' hl
    refine ⟨⟨if r = r' then f runtime else runtime, ?_, ?_⟩, hstops⟩
    · simp only [List.getElem?_modify, hget]
      split <;> rfl
    · split
      · rw [hf, hidr]
      · exact hidr
  · simpa using h.stops

theorem get_signalAll (l : List Nat) (conns : List Conn) (c : Nat) :
    (signalAll l conns)[c]? = conns[c]?.map fun conn => if c ∈ l then {conn with signalled := true} else conn := by
  induction l generalizing conns with
  | nil => simp [signalAll]
  | cons d rest ih =>
    show (signalAll rest (conns.modify d _))[c]? = _
    rw [ih, List.getElem?_modify]
    cases conns[c]? with
    | none => simp
    | some conn =>
      by_cases hd : d = c
      · subst hd
        simp
      · have hcd : c ≠ d := fun heq => hd heq.symm
        simp [hd, hcd]

theorem reached_signalled (phase : StopPhase) {conn : Conn} (h : Reached D phase conn) :
    Reached D phase {conn with signalled := true} := by
  cases phase with
  | removed => trivial
  | signalling k => exact fun _ _ _ => .inl rfl
  | waiting => exact fun _ => rfl
  | returned => exact fun _ => rfl

theorem inv_signalAll {t : State} (h : Inv D t) (l : List Nat) : Inv D {t with conns := signalAll l t.conns} := by
  have hget {c : Nat} {conn : Conn} (hc : (signalAll l t.conns)[c]? = some conn) :
      ∃ old, t.conns[c]? = some old ∧ (conn = old ∨ conn = {old with signalled := true}) := by
    rw [get_signalAll] at hc
    obtain ⟨old, hold, rfl⟩ := Option.map_eq_some_iff.mp hc
    refine ⟨old, hold, ?_⟩
    split
    · exact .inr rfl
    · exact .inl rfl
  refine {h with guards := ?_, live := ?_, reached := ?_}
  · refine h.guards.of_get fun c conn hc => .inr ?_
    obtain ⟨old, hold, rfl | rfl⟩ := hget hc
    · exact ⟨_, hold, rfl⟩
    · exact ⟨old, hold, rfl⟩
  · intro c conn hc hl
    obtain ⟨old, hold, rfl | rfl⟩ := hget hc
    · exact h.live c _ hold hl
    · exact h.live c old hold hl
  · intro s hs c conn hc hrt
    obtain ⟨old, hold, rfl | rfl⟩ := hget hc
    · exact h.reached s hs c _ hold hrt
    · exact reached_signalled _ (h.reached s hs c old hold hrt)

/-- A step of a stop that only moves it on. -/
theorem inv_phase {t : State} (h : Inv D t) {k : Nat} {s : Stop} (hk : t.stops[k]? = some s) {phase : StopPhase}
    (hreached : ∀ (c : Nat) (conn : Conn), t.conns[c]? = some conn → conn.runtime = s.runtime →
      Reached D phase conn) :
    Inv D {t with stops := t.stops.set k {s with phase := phase}} := by
  have hmem := List.mem_of_getElem? hk
  refine {h with running := ?_, stops := ?_, reached := ?_}
  · intro id r hl
    obtain ⟨hruntime, hstops⟩ := h.running id r hl
    refine ⟨hruntime, ?_⟩
    apply Heap.forall_set hstops
    exact hstops s hmem
  · apply Heap.forall_set h.stops
    exact h.stops s hmem
  · exact Heap.forall_set h.reached hreached k

theorem stop_inv {t u : State} (h : Inv D t) {k : Nat} {s : Stop} (hk : t.stops[k]? = some s) {phase : StopPhase}
    (hstep : stopStep D t s = some (u, phase)) : Inv D {u with stops := u.stops.set k {s with phase := phase}} := by
  have hmem := List.mem_of_getElem? hk
  unfold stopStep at hstep
  split at hstep
  · cases hstep
    have hshut := inv_modifyRuntime h s.runtime (f := fun rt => {rt with shutdown := true}) fun _ => rfl
    exact inv_phase hshut hk fun _ _ _ _ _ _ _ => .inr (Nat.zero_le _)
  · rename_i n hphase
    split at hstep
    · cases hstep
      refine inv_phase (inv_signalAll h _) hk fun c conn hc hrt sid hsid hlive => ?_
      have hold := (inv_signalAll h (shardSessions D t s.runtime n)).reached s hmem c conn hc hrt
      rw [hphase] at hold
      rcases hold sid hsid hlive with hsig | hle
      · exact .inl hsig
      · rcases Nat.eq_or_lt_of_le hle with heq | hlt
        · -- the session is in the shard just visited
          left
          rw [get_signalAll] at hc
          obtain ⟨old, holdc, rfl⟩ := Option.map_eq_some_iff.mp hc
          split
          · rfl
          · rename_i hnot
            rw [if_neg hnot] at hsid hlive hrt
            obtain ⟨sid', hsid', hl⟩ := h.live c old holdc hlive
            obtain rfl : sid = sid' := congrArg Prod.snd (Option.some.inj (hsid.symm.trans hsid'))
            refine absurd ?_ hnot
            have hentry := AList.mem_lookup_iff.mp (Option.mem_def.mpr hl)
            exact List.mem_map.mpr ⟨_, List.mem_filter.mpr ⟨hentry, by simp [hrt, heq]⟩, rfl⟩
        · exact .inr hlt
    · rename_i hn
      cases hstep
      refine inv_phase h hk fun c conn hc hrt hlive => ?_
      have hold := h.reached s hmem c conn hc hrt
      rw [hphase] at hold
      obtain ⟨sid, hsid, -⟩ := h.live c conn hc hlive
      rcases hold sid hsid hlive with hsig | hle
      · exact hsig
      · exact absurd (Nat.lt_of_le_of_lt hle (D.shard sid).isLt) hn
  · rename_i hphase
    cases hstep
    have hended := inv_modifyRuntime h s.runtime (f := fun rt => {rt with ended := true}) fun _ => rfl
    refine inv_phase hended hk fun c conn hc hrt => ?_
    have hold := h.reached s hmem c conn hc hrt
    rw [hphase] at hold
    exact hold
  · cases hstep

theorem step_inv {a : Action} {t u : State} (h : Inv D t) (htime : InTime a t) (hstep : step D a t = some u) :
    Inv D u := by
  cases a with
  | start id target =>
    simp only [step] at hstep
    split at hstep
    · cases hstep
    · cases hstep
      exact inv_start h target
  | stop id =>
    simp only [step] at hstep
    split at hstep
    · rename_i r hl
      cases hstep
      exact inv_stop h hl
    · cases hstep
  | stopNext k =>
    simp only [step] at hstep
    split at hstep
    · rename_i s hk
      obtain ⟨⟨v, phase⟩, hv, rfl⟩ := Option.map_eq_some_iff.mp hstep
      exact stop_inv h hk hv
    · cases hstep
  | accept r =>
    simp only [step] at hstep
    split at hstep
    · split at hstep
      · cases hstep
      · cases hstep
        exact inv_accept h r
    · cases hstep
  | loopEnd r =>
    simp only [step, Option.some.injEq] at hstep
    subst hstep
    exact inv_modifyRuntime h r fun _ => rfl
  | conn c a =>
    simp only [step] at hstep
    split at hstep
    · rename_i conn hc
      obtain ⟨⟨v, conn'⟩, hv, rfl⟩ := Option.map_eq_some_iff.mp hstep
      exact conn_inv h hc htime hv
    · cases hstep

/-- **A stopped tunnel's connections are told**, in every run in which each connection
registers with the runtime that accepted it. -/
theorem stopped_signalled (D : Sharding Nat) (t : State) (h : (system D).Reach InTime t) : Stopped t := by
  have hinv : Inv D t := h.invariant (inv_init D) fun _ _ _ h ht hs => step_inv h ht hs
  intro s hs hret conn hmem hrt hpiping
  obtain ⟨c, hc⟩ := List.mem_iff_getElem?.mp hmem
  have hreached := hinv.reached s hs c conn hc hrt
  rw [hret] at hreached
  exact hreached (by rw [hpiping]; rfl)

instance (a : Action) (t : State) : Decidable (InTime a t) := by
  unfold InTime
  split <;> infer_instance

/-- A connection relays when the tunnel is stopped and started again. -/
def orderlyStopRun : List Action :=
  [.start "web" (some "10.0.0.1:80"), .accept 0, .conn 0 .openStream, .conn 0 .register, .conn 0 .start,
    .stop "web", .stopNext 0, .stopNext 0, .stopNext 0, .stopNext 0, .start "web" (some "10.0.0.2:80")]

theorem stopped_signalled_orderlyStopRun :
    ∃ t, (system ⟨1, fun _ => 0⟩).Reach InTime t ∧ Stopped t ∧
      t.conns = [⟨0, .piping, some (0, 0), true⟩] ∧ t.stops = [⟨0, .returned⟩] := by
  obtain ⟨t, ht, hp⟩ := System.reach_of_run (S := system ⟨1, fun _ => 0⟩) (C := InTime) orderlyStopRun
    (fun t => t.conns = [⟨0, .piping, some (0, 0), true⟩] ∧ t.stops = [⟨0, .returned⟩]) (by decide +kernel)
  simp only [decide_eq_true_eq] at hp
  exact ⟨t, ht, stopped_signalled _ t ht, hp.1, hp.2⟩

/-- A connection is still opening its stream when the tunnel is stopped, and then
finds no runtime to register with. -/
def lateConnRun : List Action :=
  [.start "web" (some "10.0.0.1:80"), .accept 0, .conn 0 .openStream,
    .stop "web", .stopNext 0, .stopNext 0, .stopNext 0, .stopNext 0, .conn 0 .register, .conn 0 .start]

/-- The connection relays without a session, and nothing can end it. -/
theorem stop_missed : ¬ ∀ (D : Sharding Nat) (t : State), (system D).Reachable t → Stopped t := by
  intro h
  obtain ⟨t, ht, hp⟩ := System.reach_of_run (S := system ⟨1, fun _ => 0⟩) (C := fun _ _ => True) lateConnRun
    (fun t => t.conns = [⟨0, .piping, none, false⟩] ∧ t.stops = [⟨0, .returned⟩]) (by decide +kernel)
  simp only [decide_eq_true_eq] at hp
  have hstopped := h _ t ht ⟨0, .returned⟩ (by rw [hp.2]; simp) rfl ⟨0, .piping, none, false⟩
    (by rw [hp.1]; simp) rfl rfl
  cases hstopped

end TunnelStop

end Rps.Controller
