import Rps.Controller.UdpSessions

/-! UDP tunnels that are running.

`TunnelManager::start` spawns the loop of a tunnel and lists the tunnel; `stop` takes it off
the list and sends the loop the signal. Nothing takes it off when the loop ends by itself,
and the loop ends by itself: `open_stream(..).await?` leaves it, where the relay of the
SOCKS5 port goes on to the next datagram.

`tunnels_go_on`: a run is undisturbed by failing opens exactly if no open fails in it. Then
a loop ends only by the signal or by a receive error, and a tunnel that is listed has its
loop. `failed_open_ends_loop` is the other case: one datagram from an address that has no
session takes down a tunnel that stays on the list. -/
namespace Rps.Controller
open Base

namespace UdpTunnel
open UdpSessions

/-- A loop that was spawned, and whether it was sent the signal. -/
structure Serve where
  target : Option String
  signalled : Bool := false
  relay : Relay SocketAddr Unit := {}

/-- The tunnels that are running, by the place of their loop among all that were spawned. -/
structure State where
  running : Table String Nat := ∅
  serves : List Serve := []

inductive Action where
  | start (id : String) (target : Option String)
  | stop (id : String)
  | abort (r : Nat)
  | serve (r : Nat) (a : UdpSessions.Action SocketAddr Unit)
  deriving DecidableEq

/-- One step of `run_socket`: the signal has to be there to be seen, and the target to open
a stream to it. -/
def serveStep (a : UdpSessions.Action SocketAddr Unit) (s : Serve) : Option Serve :=
  match a with
  | .shutdown _ => if s.signalled then (runSocket.step a s.relay).map fun t => {s with relay := t} else none
  | .openSend _ => if s.target.isSome then (runSocket.step a s.relay).map fun t => {s with relay := t} else none
  | _ => (runSocket.step a s.relay).map fun t => {s with relay := t}

def step (a : Action) (m : State) : Option State :=
  match a with
  | .start id target =>
    match m.running.lookup id with
    | some _ => none
    | none =>
      some {running := m.running.insert id m.serves.length, serves := m.serves ++ [{ target := target }]}
  | .stop id =>
    match m.running.lookup id with
    | none => none
    | some r =>
      some {running := m.running.erase id, serves := m.serves.modify r fun s => {s with signalled := true}}
  | .abort r =>
    match m.serves[r]? with
    | some s =>
      -- `stop` aborts a loop that does not react to the signal
      if s.signalled then some {m with serves := m.serves.set r {s with relay := {s.relay with phase := .stopped}}}
      else none
    | none => none
  | .serve r a =>
    match m.serves[r]? with
    | some s => (serveStep a s).map fun s' => {m with serves := m.serves.set r s'}
    | none => none

def system : System State Action where
  init := {}
  step := step

/-! ### What a step can do -/

/-- The datagram that was received does not get a session. -/
def OpenFails : UdpSessions.Action SocketAddr Unit → Prop
  | .openFail | .openGiveUp => True
  | _ => False

/-- A loop that has ended is ended by the signal, by a receive error or by an open that
fails. -/
theorem runSocket_stopped {a : UdpSessions.Action SocketAddr Unit} {t u : Relay SocketAddr Unit}
    (h : runSocket.step a t = some u) (hstopped : u.phase = .stopped) :
    t.phase = .stopped ∨ (∃ g, a = .shutdown g) ∨ a = .recvFail ∨ OpenFails a := by
  cases step_moves h with
  | shutdown g _ _ => exact .inr (.inl ⟨g, rfl⟩)
  | recvFail _ => exact .inr (.inr (.inl rfl))
  | openFail _ _ => exact .inr (.inr (.inr trivial))
  | openGiveUp _ _ _ => exact .inr (.inr (.inr trivial))
  | recvHit _ _ _ _ _ => cases hstopped
  | recvMiss _ _ _ _ => cases hstopped
  | openSend _ _ _ _ _ _ => cases hstopped
  | openOk _ _ _ _ => cases hstopped
  | sent _ _ _ => cases hstopped
  | sendFail _ _ _ _ _ _ => cases hstopped
  | _ => exact .inl hstopped

theorem serveStep_eq_some {a : UdpSessions.Action SocketAddr Unit} {s s' : Serve} (h : serveStep a s = some s') :
    ∃ u, runSocket.step a s.relay = some u ∧ s' = {s with relay := u} ∧
      ((∃ g, a = .shutdown g) → s.signalled = true) := by
  have hmap : (∃ u, runSocket.step a s.relay = some u ∧ s' = {s with relay := u}) ∧
      ((∃ g, a = .shutdown g) → s.signalled = true) := by
    unfold serveStep at h
    split at h
    · split at h
      · rename_i hsignalled
        obtain ⟨u, hu, rfl⟩ := Option.map_eq_some_iff.mp h
        exact ⟨⟨u, hu, rfl⟩, fun _ => hsignalled⟩
      · cases h
    · split at h
      · obtain ⟨u, hu, rfl⟩ := Option.map_eq_some_iff.mp h
        exact ⟨⟨u, hu, rfl⟩, by simp⟩
      · cases h
    · rename_i hother _
      obtain ⟨u, hu, rfl⟩ := Option.map_eq_some_iff.mp h
      exact ⟨⟨u, hu, rfl⟩, fun ⟨g, hg⟩ => absurd hg (hother g)⟩
  obtain ⟨⟨u, hu, hs'⟩, hsignalled⟩ := hmap
  exact ⟨u, hu, hs', hsignalled⟩

/-- What a step does to the list and to the loops. -/
inductive Steps (m : State) : Action → State → Prop where
  | start (id : String) (target : Option String) : m.running.lookup id = none →
      Steps m (.start id target)
        {running := m.running.insert id m.serves.length, serves := m.serves ++ [{ target := target }]}
  | stop (id : String) (r : Nat) : m.running.lookup id = some r →
      Steps m (.stop id)
        {running := m.running.erase id, serves := m.serves.modify r fun s => {s with signalled := true}}
  | abort (r : Nat) (s : Serve) : m.serves[r]? = some s → s.signalled = true →
      Steps m (.abort r) {m with serves := m.serves.set r {s with relay := {s.relay with phase := .stopped}}}
  | serve (r : Nat) (a : UdpSessions.Action SocketAddr Unit) (s : Serve) (u : Relay SocketAddr Unit) :
      m.serves[r]? = some s → runSocket.step a s.relay = some u → ((∃ g, a = .shutdown g) → s.signalled = true) →
      Steps m (.serve r a) {m with serves := m.serves.set r {s with relay := u}}

theorem step_steps {a : Action} {m m' : State} (h : step a m = some m') : Steps m a m' := by
  unfold step at h
  split at h
  · split at h
    · cases h
    · cases h
      exact .start _ _ ‹_›
  · split at h
    · cases h
    · cases h
      exact .stop _ _ ‹_›
  · split at h
    · split at h
      · cases h
        exact .abort _ _ ‹_› ‹_›
      · cases h
    · cases h
  · split at h
    · obtain ⟨s', hs', rfl⟩ := Option.map_eq_some_iff.mp h
      obtain ⟨u, hu, rfl, hsignalled⟩ := serveStep_eq_some hs'
      exact .serve _ _ _ u ‹_› hu hsignalled
    · cases h

/-! ### Runs -/

/-- What the tunnels owe to their clients in a run: a loop ends only by the signal or by a
receive error, a tunnel that is listed has its loop, and a failing open costs its datagram
and leaves the sessions where they are, with the loop behind them. -/
structure Undisturbed (as : List Action) (m : State) : Prop where
  ends : ∀ r s, m.serves[r]? = some s → s.relay.phase = .stopped → s.signalled = true ∨ .serve r .recvFail ∈ as
  listed : ∀ id r, m.running.lookup id = some r → .serve r .recvFail ∉ as →
    ∃ s, m.serves[r]? = some s ∧ s.relay.phase ≠ .stopped
  goesOn : ∀ past r a rest m₁ m₂, as = past ++ .serve r a :: rest → OpenFails a → system.Trace past m₁ →
    step (.serve r a) m₁ = some m₂ → ∃ s₁ s₂, m₁.serves[r]? = some s₁ ∧ m₂.serves[r]? = some s₂ ∧
      s₂.relay.phase = .receiving ∧ s₂.relay.sessions = s₁.relay.sessions

/-- Without failing opens this is kept: who is listed was not sent the signal, and nobody is
listed twice. -/
structure Inv (as : List Action) (m : State) : Prop where
  ends : ∀ r s, m.serves[r]? = some s → s.relay.phase = .stopped → s.signalled = true ∨ .serve r .recvFail ∈ as
  listed : ∀ id r, m.running.lookup id = some r → ∃ s, m.serves[r]? = some s ∧ s.signalled = false
  once : ∀ id id' r, m.running.lookup id = some r → m.running.lookup id' = some r → id = id'

theorem inv_init : Inv [] {} where
  ends := by simp
  listed := by
    intro id r h
    cases h
  once := by
    intro id id' r h
    cases h

theorem inv_set {as : List Action} {m : State} (h : Inv as m) {r : Nat} {s s' : Serve} (hr : m.serves[r]? = some s)
    (hsignalled : s'.signalled = s.signalled) {a : Action}
    (hends : s'.relay.phase = .stopped → s.relay.phase = .stopped ∨ s.signalled = true ∨ a = .serve r .recvFail) :
    Inv (as ++ [a]) {m with serves := m.serves.set r s'} where
  ends := by
    intro r' t ht hstopped
    rw [Heap.get_set hr] at ht
    split at ht
    · rename_i heq
      obtain rfl := Option.some.inj ht
      subst heq
      rw [hsignalled]
      rcases hends hstopped with hbefore | hsig | rfl
      · exact (h.ends _ s hr hbefore).imp id fun hmem => List.mem_append_left _ hmem
      · exact .inl hsig
      · exact .inr (by simp)
    · exact (h.ends r' t ht hstopped).imp id fun hmem => List.mem_append_left _ hmem
  listed := by
    intro id r' hl
    obtain ⟨t, ht, hsig⟩ := h.listed id r' hl
    rw [Heap.get_set hr]
    split
    · rename_i heq
      subst heq
      rw [hr] at ht
      cases ht
      exact ⟨s', rfl, hsignalled.trans hsig⟩
    · exact ⟨t, ht, hsig⟩
  once := h.once

theorem inv_start {as : List Action} {m : State} (h : Inv as m) {id : String} (hid : m.running.lookup id = none)
    (target : Option String) :
    Inv (as ++ [.start id target])
      {running := m.running.insert id m.serves.length, serves := m.serves ++ [{ target := target }]} where
  ends := by
    intro r s hs hstopped
    rw [Heap.get_push] at hs
    split at hs
    · cases hs
      cases hstopped
    · exact (h.ends r s hs hstopped).imp (fun h => h) fun hmem => List.mem_append_left _ hmem
  listed := by
    intro id' r hl
    rw [Table.lookup_insert] at hl
    split at hl
    · cases hl
      exact ⟨{ target := target }, by simp, rfl⟩
    · obtain ⟨s, hs, hsig⟩ := h.listed id' r hl
      exact ⟨s, Heap.get_push_of_some hs, hsig⟩
  once := by
    have hfresh : ∀ id', m.running.lookup id' ≠ some m.serves.length := by
      intro id' hl
      obtain ⟨s, hs, -⟩ := h.listed id' _ hl
      simp at hs
    intro id₁ id₂ r h₁ h₂
    rw [Table.lookup_insert] at h₁ h₂
    split at h₁
    · split at h₂
      · subst_vars
        rfl
      · cases h₁
        exact absurd h₂ (hfresh id₂)
    · split at h₂
      · cases h₂
        exact absurd h₁ (hfresh id₁)
      · exact h.once id₁ id₂ r h₁ h₂

theorem inv_stop {as : List Action} {m : State} (h : Inv as m) {id : String} {r : Nat}
    (hid : m.running.lookup id = some r) :
    Inv (as ++ [.stop id])
      {running := m.running.erase id, serves := m.serves.modify r fun s => {s with signalled := true}} where
  ends := by
    intro r' s hs hstopped
    rw [List.getElem?_modify] at hs
    obtain ⟨t, ht, rfl⟩ := Option.map_eq_some_iff.mp hs
    split at hstopped
    · exact .inl (by simp [*])
    · have := h.ends r' t ht hstopped
      rename_i hne
      simp only [hne, if_false]
      exact this.imp (fun h => h) fun hmem => List.mem_append_left _ hmem
  listed := by
    intro id' r' hl
    rw [Table.lookup_erase] at hl
    split at hl
    · cases hl
    · rename_i hne
      obtain ⟨s, hs, hsig⟩ := h.listed id' r' hl
      have hother : r ≠ r' := by
        rintro rfl
        exact hne (h.once _ _ _ hl hid)
      exact ⟨s, by simp [hother, hs], hsig⟩
  once := by
    intro id₁ id₂ r' h₁ h₂
    rw [Table.lookup_erase] at h₁ h₂
    split at h₁
    · cases h₁
    · split at h₂
      · cases h₂
      · exact h.once id₁ id₂ r' h₁ h₂

theorem step_inv {as : List Action} {a : Action} {m m' : State} (h : Inv as m) (hstep : step a m = some m')
    (hopen : ∀ r b, a = .serve r b → ¬ OpenFails b) : Inv (as ++ [a]) m' := by
  cases step_steps hstep with
  | start id target hid => exact inv_start h hid target
  | stop id r hid => exact inv_stop h hid
  | abort r s hr hsignalled =>
    apply inv_set h hr
    · rfl
    · exact fun _ => .inr (.inl hsignalled)
  | serve r b s u hr hu hshutdown =>
    apply inv_set h hr
    · rfl
    · intro hstopped
      rcases runSocket_stopped hu hstopped with hbefore | hshut | rfl | hfails
      · exact .inl hbefore
      · exact .inr (.inl (hshutdown hshut))
      · exact .inr (.inr rfl)
      · exact absurd hfails (hopen r b rfl)

theorem trace_inv {as : List Action} {m : State} (h : system.Trace as m)
    (hopen : ∀ r a, .serve r a ∈ as → ¬ OpenFails a) : Inv as m := by
  induction h with
  | nil => exact inv_init
  | @snoc as m m' a _ hstep ih =>
    refine step_inv (ih fun r b hb => hopen r b (List.mem_append_left _ hb)) hstep ?_
    rintro r b rfl
    exact hopen r b (by simp)

/-- A failing open ends the loop. -/
theorem openFails_stopped {r : Nat} {a : UdpSessions.Action SocketAddr Unit} {m m' : State} (ha : OpenFails a)
    (h : step (.serve r a) m = some m') : ∃ s, m'.serves[r]? = some s ∧ s.relay.phase = .stopped := by
  cases step_steps h with
  | serve _ _ s u hr hu _ =>
    refine ⟨{s with relay := u}, by rw [Heap.get_set hr, if_pos rfl], ?_⟩
    cases step_moves hu with
    | openFail _ _ => rfl
    | openGiveUp _ _ _ => rfl
    | _ => cases ha

/-- **Tunnels go on** in a run exactly if no open fails in it. -/
theorem tunnels_go_on (as : List Action) (m : State) (h : system.Trace as m) :
    Undisturbed as m ↔ ∀ r a, .serve r a ∈ as → ¬ OpenFails a := by
  constructor
  · intro hgoes r a hmem hfails
    obtain ⟨past, rest, rfl⟩ := List.append_of_mem hmem
    obtain ⟨m₁, m₂, htrace, hstep⟩ := h.cut
    obtain ⟨_, s₂, _, hs₂, hreceiving, _⟩ := hgoes.goesOn past r a rest m₁ m₂ rfl hfails htrace hstep
    obtain ⟨s, hs, hstopped⟩ := openFails_stopped hfails hstep
    rw [hs₂] at hs
    cases hs
    rw [hreceiving] at hstopped
    cases hstopped
  · intro hopen
    have hinv := trace_inv h hopen
    refine ⟨hinv.ends, fun id r hl hrecv => ?_, fun past r a rest m₁ m₂ heq hfails _ _ => ?_⟩
    · obtain ⟨s, hs, hsignalled⟩ := hinv.listed id r hl
      refine ⟨s, hs, fun hstopped => ?_⟩
      rcases hinv.ends r s hs hstopped with hsig | hmem
      · rw [hsignalled] at hsig
        cases hsig
      · exact hrecv hmem
    · exact absurd hfails (hopen r a (by rw [heq]; simp))

/-- A tunnel to `t`, and a client with a session. -/
def sessionRun : List Action :=
  [.start "tunnel" (some "t"), .serve 0 .connect, .serve 0 (.recv ⟨.v4 1, 53⟩ 0), .serve 0 (.openSend 0),
    .serve 0 (.openOk 0), .serve 0 .sent]

theorem tunnels_go_on_sessionRun :
    ∃ m, system.Trace sessionRun m ∧ Undisturbed sessionRun m ∧ m.running.lookup "tunnel" = some 0 := by
  obtain ⟨m, htrace, hlisted⟩ := System.trace_exists (S := system) sessionRun (fun m => m.running.lookup "tunnel" = some 0) (by decide +kernel)
  refine ⟨m, htrace, (tunnels_go_on sessionRun m htrace).mpr fun r a hmem => ?_, of_decide_eq_true hlisted⟩
  simp only [sessionRun, List.mem_cons, Action.serve.injEq, List.not_mem_nil, or_false, reduceCtorEq, false_or] at hmem
  rcases hmem with ⟨-, rfl⟩ | ⟨-, rfl⟩ | ⟨-, rfl⟩ | ⟨-, rfl⟩ | ⟨-, rfl⟩ <;> exact id

/-- A datagram from another address, whose open fails. -/
def failedOpenRun : List Action := sessionRun ++ ([.serve 0 (.recv ⟨.v4 2, 53⟩ 1), .serve 0 .openFail] : List Action)

/-- The loop has ended, the tunnel is listed and was not stopped, and the session of the
first client is in the map of a loop that nobody runs. -/
theorem failed_open_ends_loop :
    ∃ m s, system.Trace failedOpenRun m ∧ m.running.lookup "tunnel" = some 0 ∧ m.serves[0]? = some s ∧
      s.signalled = false ∧ s.relay.phase = .stopped ∧ s.relay.sessions.lookup ⟨.v4 1, 53⟩ = some 0 ∧
      ¬ Undisturbed failedOpenRun m := by
  obtain ⟨m, htrace, hp⟩ := System.trace_exists (S := system) failedOpenRun
    (fun m : State => m.running.lookup "tunnel" = some 0 ∧ m.serves[0]?.any fun s : Serve =>
      s.signalled = false ∧ s.relay.phase = .stopped ∧ s.relay.sessions.lookup ⟨.v4 1, 53⟩ = some 0) (by decide +kernel)
  simp only [decide_eq_true_eq, Option.any_eq_true] at hp
  obtain ⟨hlisted, s, hs, hsignalled, hstopped, hsession⟩ := hp
  refine ⟨m, s, htrace, hlisted, hs, hsignalled, hstopped, hsession, fun hgoes => ?_⟩
  obtain ⟨s', hs', hserving⟩ := hgoes.listed "tunnel" 0 hlisted (by decide)
  rw [hs] at hs'
  cases hs'
  exact hserving hstopped

end UdpTunnel

end Rps.Controller
