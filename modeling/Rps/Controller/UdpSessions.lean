import Rps.Base.System
import Rps.Base.Table
import Rps.Controller.UdpAssociate

/-! UDP session entries.

Both UDP loops keep a map of sessions, one mux stream per key. The loop looks a datagram's
key up and opens a stream where it finds none. The stream's response task carries answers
back until the stream ends, and then removes the key. Sweeps and closings collect keys and
then remove them one by one, closing what they remove. All of them remove by key, whatever
stream is under it by then.

`session_removed_by_own`: an entry is removed only by a step of the stream in it, and every
stream at the agent is in the map, being opened, closed, or on a connection that is gone, in
every run that opens a stream for a key only when nothing of an earlier stream is left to
remove it, and that ends no task and gives up no stream that is open. Either loop breaks it
otherwise (`newer_session_removed`). -/
namespace Rps.Controller
open Base

structure SocketAddr where
  ip : IpAddr
  port : UInt16
  deriving DecidableEq

structure SocksUdpSessionKey where
  clientId : String
  clientAddr : SocketAddr
  target : String
  deriving DecidableEq

namespace UdpSessions

/-- A mux connection of an agent. Once its writer has stopped every send on it fails, and
once its reader has its streams come to an end. -/
structure Link where
  writerStopped : Bool := false
  readerStopped : Bool := false
  deriving DecidableEq

def Link.alive (l : Link) : Bool := !l.writerStopped && !l.readerStopped

/-- Where the response task of a stream stands; `removing` is behind its loop. -/
inductive Task where
  | unstarted
  | receiving
  | removing
  | done
  deriving DecidableEq

def Task.running : Task → Bool
  | .receiving | .removing => true
  | .unstarted | .done => false

/-- A stream that was opened at an agent, with what either end did to close it. -/
structure Stream (K : Type) where
  key : K
  link : Nat
  lastSeen : Nat := 0
  closeQueued : Bool := false
  agentClosed : Bool := false
  task : Task := .unstarted
  deriving DecidableEq

/-- Where the loop stands with the datagram it received. -/
inductive Phase (K : Type) where
  | receiving
  | missing (key : K)
  | opening (key : K) (s : Nat)
  | sending (key : K) (s : Nat)
  | stopped
  deriving DecidableEq

/-- What a sweep or a closing collects. -/
inductive Select (G : Type) where
  | idle (now : Nat)
  | group (g : G)
  deriving DecidableEq

/-- A sweep or a closing under way. It remembers keys only: the stream beside a collected
key is the one it was collected for. `closing` is the stream it has removed and is about to
close. -/
structure Pass (K G : Type) where
  select : Select G
  collecting : Bool := true
  collected : List (K × Nat) := []
  closing : Option Nat := none
  deriving DecidableEq

/-- Nothing is left to collect, to remove or to close. -/
def Pass.finished {K G : Type} (pass : Pass K G) : Bool :=
  !pass.collecting && pass.collected.isEmpty && pass.closing.isNone

structure Relay (K G : Type) where
  links : List Link := []
  streams : List (Stream K) := []
  sessions : Table K Nat := ∅
  phase : Phase K := .receiving
  passes : List (Pass K G) := []

/-- What the two loops differ in: which keys are closed together, and whether an error or
the shutdown signal ends the loop. -/
structure Loop (K G : Type) where
  group : K → G
  ends : Bool

def runSocket : Loop SocketAddr Unit := ⟨fun _ => (), true⟩

def runUdpRelay : Loop SocksUdpSessionKey IpAddr := ⟨fun key => key.clientAddr.ip, false⟩

inductive Action (K G : Type) where
  | connect
  | writerStop (m : Nat)
  | readerStop (m : Nat)
  | recv (key : K) (now : Nat)
  | recvFail
  | openFail
  | openSend (m : Nat)
  | openGiveUp
  | openOk (now : Nat)
  | sent
  | sendFail
  | shutdown (g : G)
  | agentClose (s : Nat)
  | taskData (s : Nat) (now : Nat)
  | taskFail (s : Nat)
  | taskEnd (s : Nat)
  | taskRemove (s : Nat)
  | sweepStart (now : Nat)
  | closeStart (g : G)
  | collect (p : Nat) (key : K)
  | collectEnd (p : Nat)
  | passRemove (p : Nat)
  | passClose (p : Nat)
  deriving DecidableEq

section
variable {K G : Type} [DecidableEq K] [DecidableEq G]

namespace Relay

def modifyStream (t : Relay K G) (s : Nat) (f : Stream K → Stream K) : Relay K G :=
  {t with streams := t.streams.modify s f}

/-- The connection a stream is on. -/
def link? (t : Relay K G) (s : Nat) : Option Link := t.streams[s]?.bind fun st => t.links[st.link]?

end Relay

/-- `?` leaves the loop of a tunnel; the relay goes on to the next datagram. -/
def Loop.afterError (L : Loop K G) : Phase K := if L.ends then .stopped else .receiving

/-- The connections come and go by themselves. -/
def linkStep (a : Action K G) (t : Relay K G) : Option (Relay K G) :=
  match a with
  | .connect => some {t with links := t.links ++ [{}]}
  | .writerStop m => some {t with links := t.links.modify m fun l => {l with writerStopped := true}}
  | .readerStop m => some {t with links := t.links.modify m fun l => {l with readerStopped := true}}
  | _ => none

/-- The loop itself. -/
def loopStep (L : Loop K G) (a : Action K G) (t : Relay K G) : Option (Relay K G) :=
  match a, t.phase with
  | .recv key now, .receiving =>
    match t.sessions.lookup key with
    | some s => some {t.modifyStream s fun st => {st with lastSeen := now} with phase := .sending key s}
    | none => some {t with phase := .missing key}
  | .recvFail, .receiving => some {t with phase := L.afterError}
  | .openFail, .missing _ => some {t with phase := L.afterError}
  | .openSend m, .missing key =>
    match t.links[m]? with
    | some l =>
      if l.writerStopped then none
      else some {t with streams := t.streams ++ [{ key := key, link := m }], phase := .opening key t.streams.length}
    | none => none
  | .openGiveUp, .opening _ _ => some {t with phase := L.afterError}
  | .openOk now, .opening key s =>
    some {t.modifyStream s fun st => {st with lastSeen := now, task := .receiving} with
      sessions := t.sessions.insert key s
      phase := .sending key s}
  | .sent, .sending _ s =>
    match t.link? s with
    | some l => if l.writerStopped then none else some {t with phase := .receiving}
    | none => none
  | .sendFail, .sending key s =>
    match t.link? s with
    | some l =>
      if l.writerStopped then some {t with sessions := t.sessions.erase key, phase := .receiving} else none
    | none => none
  | .shutdown g, .receiving =>
    if L.ends then some {t with phase := .stopped, passes := t.passes ++ [{ select := .group g }]} else none
  | _, _ => none

/-- The agent's end of a stream and its response task. -/
def taskStep (a : Action K G) (t : Relay K G) : Option (Relay K G) :=
  match a with
  | .agentClose s => some (t.modifyStream s fun st => {st with agentClosed := true})
  | .taskData s now =>
    match t.streams[s]? with
    | some st => if st.task = .receiving then some (t.modifyStream s fun st => {st with lastSeen := now}) else none
    | none => none
  | .taskFail s =>
    match t.streams[s]? with
    | some st => if st.task = .receiving then some (t.modifyStream s fun st => {st with task := .removing}) else none
    | none => none
  | .taskEnd s =>
    match t.streams[s]?, t.link? s with
    | some st, some l =>
      if st.task = .receiving ∧ (st.agentClosed || l.readerStopped) then
        some (t.modifyStream s fun st => {st with task := .removing})
      else none
    | _, _ => none
  | .taskRemove s =>
    match t.streams[s]? with
    | some st =>
      if st.task = .removing then
        some {t.modifyStream s fun st => {st with task := .done} with sessions := t.sessions.erase st.key}
      else none
    | none => none
  | _ => none

def Select.picks (L : Loop K G) (select : Select G) (st : Stream K) : Bool :=
  match select with
  | .idle now => now - st.lastSeen > udpIdleSecs
  | .group g => L.group st.key = g

/-- Sweeps and closings. -/
def passStep (L : Loop K G) (a : Action K G) (t : Relay K G) : Option (Relay K G) :=
  match a with
  | .sweepStart now => some {t with passes := t.passes ++ [{ select := .idle now }]}
  | .closeStart g => if L.ends then none else some {t with passes := t.passes ++ [{ select := .group g }]}
  | .collect p key =>
    match t.passes[p]?, t.sessions.lookup key with
    | some pass, some s =>
      match t.streams[s]? with
      | some st =>
        if pass.collecting ∧ pass.select.picks L st then
          some {t with passes := t.passes.set p {pass with collected := pass.collected ++ [(key, s)]}}
        else none
      | none => none
    | _, _ => none
  | .collectEnd p =>
    match t.passes[p]? with
    | some pass => some {t with passes := t.passes.set p {pass with collecting := false}}
    | none => none
  | .passRemove p =>
    match t.passes[p]? with
    | some ⟨select, false, (key, _) :: rest, none⟩ =>
      match t.sessions.lookup key with
      | some s =>
        some {t with
          sessions := t.sessions.erase key
          passes := t.passes.set p ⟨select, false, rest, some s⟩}
      | none => some {t with passes := t.passes.set p ⟨select, false, rest, none⟩}
    | _ => none
  | .passClose p =>
    match t.passes[p]? with
    | some ⟨select, false, collected, some s⟩ =>
      match t.link? s with
      | some l =>
        -- `close` fails on a stopped writer, and nobody looks
        let closed := if l.writerStopped then t else t.modifyStream s fun st => {st with closeQueued := true}
        some {closed with passes := t.passes.set p ⟨select, false, collected, none⟩}
      | none => none
    | _ => none
  | _ => none

def Loop.step (L : Loop K G) (a : Action K G) (t : Relay K G) : Option (Relay K G) :=
  match a with
  | .connect | .writerStop _ | .readerStop _ => linkStep a t
  | .recv _ _ | .recvFail | .openFail | .openSend _ | .openGiveUp | .openOk _ | .sent | .sendFail | .shutdown _ =>
    loopStep L a t
  | .agentClose _ | .taskData _ _ | .taskFail _ | .taskEnd _ | .taskRemove _ => taskStep a t
  | .sweepStart _ | .closeStart _ | .collect _ _ | .collectEnd _ | .passRemove _ | .passClose _ => passStep L a t

def Loop.system (L : Loop K G) : System (Relay K G) (Action K G) where
  init := {}
  step := L.step

/-! ### What a step can do -/

inductive Moves (L : Loop K G) (t : Relay K G) : Action K G → Relay K G → Prop where
  | connect : Moves L t .connect {t with links := t.links ++ [{}]}
  | writerStop (m : Nat) :
      Moves L t (.writerStop m) {t with links := t.links.modify m fun l => {l with writerStopped := true}}
  | readerStop (m : Nat) :
      Moves L t (.readerStop m) {t with links := t.links.modify m fun l => {l with readerStopped := true}}
  | recvHit (key : K) (now s : Nat) : t.phase = .receiving → t.sessions.lookup key = some s →
      Moves L t (.recv key now) {t.modifyStream s fun st => {st with lastSeen := now} with phase := .sending key s}
  | recvMiss (key : K) (now : Nat) : t.phase = .receiving → t.sessions.lookup key = none →
      Moves L t (.recv key now) {t with phase := .missing key}
  | recvFail : t.phase = .receiving → Moves L t .recvFail {t with phase := L.afterError}
  | openFail (key : K) : t.phase = .missing key → Moves L t .openFail {t with phase := L.afterError}
  | openSend (key : K) (m : Nat) (l : Link) : t.phase = .missing key → t.links[m]? = some l → l.writerStopped = false →
      Moves L t (.openSend m)
        {t with streams := t.streams ++ [{ key := key, link := m }], phase := .opening key t.streams.length}
  | openGiveUp (key : K) (s : Nat) : t.phase = .opening key s →
      Moves L t .openGiveUp {t with phase := L.afterError}
  | openOk (key : K) (s now : Nat) : t.phase = .opening key s →
      Moves L t (.openOk now)
        {t.modifyStream s fun st => {st with lastSeen := now, task := .receiving} with
          sessions := t.sessions.insert key s
          phase := .sending key s}
  | sent (key : K) (s : Nat) : t.phase = .sending key s → Moves L t .sent {t with phase := .receiving}
  | sendFail (key : K) (s : Nat) (l : Link) : t.phase = .sending key s → t.link? s = some l → l.writerStopped = true →
      Moves L t .sendFail {t with sessions := t.sessions.erase key, phase := .receiving}
  | shutdown (g : G) : t.phase = .receiving → L.ends = true →
      Moves L t (.shutdown g) {t with phase := .stopped, passes := t.passes ++ [{ select := .group g }]}
  | agentClose (s : Nat) : Moves L t (.agentClose s) (t.modifyStream s fun st => {st with agentClosed := true})
  | taskData (s now : Nat) (st : Stream K) : t.streams[s]? = some st → st.task = .receiving →
      Moves L t (.taskData s now) (t.modifyStream s fun st => {st with lastSeen := now})
  | taskFail (s : Nat) (st : Stream K) : t.streams[s]? = some st → st.task = .receiving →
      Moves L t (.taskFail s) (t.modifyStream s fun st => {st with task := .removing})
  | taskEnd (s : Nat) (st : Stream K) (l : Link) : t.streams[s]? = some st → t.link? s = some l →
      st.task = .receiving → (st.agentClosed || l.readerStopped) = true →
      Moves L t (.taskEnd s) (t.modifyStream s fun st => {st with task := .removing})
  | taskRemove (s : Nat) (st : Stream K) : t.streams[s]? = some st → st.task = .removing →
      Moves L t (.taskRemove s)
        {t.modifyStream s fun st => {st with task := .done} with sessions := t.sessions.erase st.key}
  | sweepStart (now : Nat) : Moves L t (.sweepStart now) {t with passes := t.passes ++ [{ select := .idle now }]}
  | closeStart (g : G) : L.ends = false →
      Moves L t (.closeStart g) {t with passes := t.passes ++ [{ select := .group g }]}
  | collect (p s : Nat) (key : K) (pass : Pass K G) (st : Stream K) : t.passes[p]? = some pass →
      t.sessions.lookup key = some s → t.streams[s]? = some st → pass.collecting = true →
      pass.select.picks L st = true →
      Moves L t (.collect p key)
        {t with passes := t.passes.set p {pass with collected := pass.collected ++ [(key, s)]}}
  | collectEnd (p : Nat) (pass : Pass K G) : t.passes[p]? = some pass →
      Moves L t (.collectEnd p) {t with passes := t.passes.set p {pass with collecting := false}}
  | passRemove (p s s' : Nat) (key : K) (select : Select G) (rest : List (K × Nat)) :
      t.passes[p]? = some ⟨select, false, (key, s') :: rest, none⟩ → t.sessions.lookup key = some s →
      Moves L t (.passRemove p)
        {t with sessions := t.sessions.erase key, passes := t.passes.set p ⟨select, false, rest, some s⟩}
  | passSkip (p s' : Nat) (key : K) (select : Select G) (rest : List (K × Nat)) :
      t.passes[p]? = some ⟨select, false, (key, s') :: rest, none⟩ → t.sessions.lookup key = none →
      Moves L t (.passRemove p) {t with passes := t.passes.set p ⟨select, false, rest, none⟩}
  | passClose (p s : Nat) (select : Select G) (collected : List (K × Nat)) (l : Link) :
      t.passes[p]? = some ⟨select, false, collected, some s⟩ → t.link? s = some l → l.writerStopped = false →
      Moves L t (.passClose p)
        {t.modifyStream s fun st => {st with closeQueued := true} with
          passes := t.passes.set p ⟨select, false, collected, none⟩}
  | passCloseFail (p s : Nat) (select : Select G) (collected : List (K × Nat)) (l : Link) :
      t.passes[p]? = some ⟨select, false, collected, some s⟩ → t.link? s = some l → l.writerStopped = true →
      Moves L t (.passClose p) {t with passes := t.passes.set p ⟨select, false, collected, none⟩}

theorem linkStep_moves {L : Loop K G} {a : Action K G} {t u : Relay K G} (h : linkStep a t = some u) :
    Moves L t a u := by
  unfold linkStep at h
  split at h
  · cases h
    exact .connect
  · cases h
    exact .writerStop _
  · cases h
    exact .readerStop _
  · cases h

theorem loopStep_moves {L : Loop K G} {a : Action K G} {t u : Relay K G} (h : loopStep L a t = some u) :
    Moves L t a u := by
  unfold loopStep at h
  split at h
  · split at h
    · cases h
      exact .recvHit _ _ _ ‹_› ‹_›
    · cases h
      exact .recvMiss _ _ ‹_› ‹_›
  · cases h
    exact .recvFail ‹_›
  · cases h
    exact .openFail _ ‹_›
  · split at h
    · split at h
      · cases h
      · rename_i hrunning
        cases h
        exact .openSend _ _ _ ‹_› ‹_› (Bool.eq_false_of_not_eq_true hrunning)
    · cases h
  · cases h
    exact .openGiveUp _ _ ‹_›
  · cases h
    exact .openOk _ _ _ ‹_›
  · split at h
    · split at h
      · cases h
      · cases h
        exact .sent _ _ ‹_›
    · cases h
  · split at h
    · split at h
      · cases h
        exact .sendFail _ _ _ ‹_› ‹_› ‹_›
      · cases h
    · cases h
  · split at h
    · cases h
      exact .shutdown _ ‹_› ‹_›
    · cases h
  · cases h

theorem taskStep_moves {L : Loop K G} {a : Action K G} {t u : Relay K G} (h : taskStep a t = some u) :
    Moves L t a u := by
  unfold taskStep at h
  split at h
  · cases h
    exact .agentClose _
  · split at h
    · split at h
      · cases h
        exact .taskData _ _ _ ‹_› ‹_›
      · cases h
    · cases h
  · split at h
    · split at h
      · cases h
        exact .taskFail _ _ ‹_› ‹_›
      · cases h
    · cases h
  · split at h
    · split at h
      · rename_i hend
        cases h
        exact .taskEnd _ _ _ ‹_› ‹_› hend.1 hend.2
      · cases h
    · cases h
  · split at h
    · split at h
      · cases h
        exact .taskRemove _ _ ‹_› ‹_›
      · cases h
    · cases h
  · cases h

theorem passStep_moves {L : Loop K G} {a : Action K G} {t u : Relay K G} (h : passStep L a t = some u) :
    Moves L t a u := by
  unfold passStep at h
  split at h
  · cases h
    exact .sweepStart _
  · split at h
    · cases h
    · rename_i hends
      cases h
      exact .closeStart _ (Bool.eq_false_of_not_eq_true hends)
  · split at h
    · split at h
      · split at h
        · rename_i hpick
          cases h
          exact .collect _ _ _ _ _ ‹_› ‹_› ‹_› hpick.1 hpick.2
        · cases h
      · cases h
    · cases h
  · split at h
    · cases h
      exact .collectEnd _ _ ‹_›
    · cases h
  · split at h
    · split at h
      · cases h
        exact .passRemove _ _ _ _ _ _ ‹_› ‹_›
      · cases h
        exact .passSkip _ _ _ _ _ ‹_› ‹_›
    · cases h
  · split at h
    · split at h
      · rename_i l hl
        cases hw : l.writerStopped with
        | true =>
          simp only [hw, if_true, Option.some.injEq] at h
          rw [← h]
          exact .passCloseFail _ _ _ _ l ‹_› hl hw
        | false =>
          simp only [hw, Bool.false_eq_true, if_false, Option.some.injEq] at h
          rw [← h]
          exact .passClose _ _ _ _ l ‹_› hl hw
      · cases h
    · cases h
  · cases h

theorem step_moves {L : Loop K G} {a : Action K G} {t u : Relay K G} (h : L.step a t = some u) : Moves L t a u := by
  unfold Loop.step at h
  split at h
  all_goals first
    | exact linkStep_moves h
    | exact loopStep_moves h
    | exact taskStep_moves h
    | exact passStep_moves h

/-! ### What any step keeps -/

omit [DecidableEq K] [DecidableEq G] in
theorem get_modifyStream (t : Relay K G) (s s' : Nat) (f : Stream K → Stream K) :
    (t.modifyStream s f).streams[s']? = if s = s' then t.streams[s']?.map f else t.streams[s']? := by
  rw [Relay.modifyStream, List.getElem?_modify]
  split <;> simp

omit [DecidableEq K] [DecidableEq G] in
theorem modifyStream_back {t : Relay K G} {s s' : Nat} {f : Stream K → Stream K} {st : Stream K}
    (h : (t.modifyStream s f).streams[s']? = some st) :
    t.streams[s']? = some st ∨ s = s' ∧ ∃ old, t.streams[s']? = some old ∧ st = f old := by
  rw [get_modifyStream] at h
  split at h
  · obtain ⟨old, hold, rfl⟩ := Option.map_eq_some_iff.mp h
    exact .inr ⟨‹_›, old, hold, rfl⟩
  · exact .inl h

omit [DecidableEq K] [DecidableEq G] in
theorem modifyStream_keeps (t : Relay K G) (s : Nat) {f : Stream K → Stream K} (hkey : ∀ st, (f st).key = st.key)
    {s' : Nat} {st : Stream K} (hst : t.streams[s']? = some st) :
    ∃ st', (t.modifyStream s f).streams[s']? = some st' ∧ st'.key = st.key := by
  rw [get_modifyStream, hst]
  split
  · exact ⟨f st, rfl, hkey st⟩
  · exact ⟨st, rfl, rfl⟩

/-- A stream is opened for one key and stays. -/
theorem moves_streams {L : Loop K G} {a : Action K G} {t u : Relay K G} (h : Moves L t a u) {s : Nat} {st : Stream K}
    (hst : t.streams[s]? = some st) : ∃ st', u.streams[s]? = some st' ∧ st'.key = st.key := by
  cases h with
  | openSend key m l _ _ _ => exact ⟨st, Heap.get_push_of_some hst, rfl⟩
  | recvHit _ _ s' _ _ => exact modifyStream_keeps t s' (by simp) hst
  | openOk _ s' _ _ => exact modifyStream_keeps t s' (by simp) hst
  | agentClose s' => exact modifyStream_keeps t s' (by simp) hst
  | taskData s' _ _ _ _ => exact modifyStream_keeps t s' (by simp) hst
  | taskFail s' _ _ _ => exact modifyStream_keeps t s' (by simp) hst
  | taskEnd s' _ _ _ _ _ _ => exact modifyStream_keeps t s' (by simp) hst
  | taskRemove s' _ _ _ => exact modifyStream_keeps t s' (by simp) hst
  | passClose _ s' _ _ _ _ _ _ => exact modifyStream_keeps t s' (by simp) hst
  | _ => exact ⟨st, hst, rfl⟩

/-- Only `openSend` makes a stream. -/
theorem moves_streams_length {L : Loop K G} {a : Action K G} {t u : Relay K G} (h : Moves L t a u) :
    u.streams.length = t.streams.length ∨ ∃ m key, a = .openSend m ∧ t.phase = .missing key ∧
      u.streams = t.streams ++ [{ key := key, link := m }] := by
  cases h with
  | openSend key m l hphase _ _ => exact .inr ⟨m, key, rfl, hphase, rfl⟩
  | _ => exact .inl (by simp [Relay.modifyStream])

/-- A pass is started by the sweep, by a closing and by the shutdown. -/
theorem moves_passes_length {L : Loop K G} {a : Action K G} {t u : Relay K G} (h : Moves L t a u) :
    u.passes.length = t.passes.length ∨ (∃ now, a = .sweepStart now) ∨ (∃ g, a = .closeStart g) ∨ L.ends = true := by
  cases h with
  | sweepStart now => exact .inr (.inl ⟨now, rfl⟩)
  | closeStart g _ => exact .inr (.inr (.inl ⟨g, rfl⟩))
  | shutdown g _ hends => exact .inr (.inr (.inr hends))
  | _ => exact .inl (by simp [Relay.modifyStream])

/-- How a pass comes from what it was. It keeps what it selects, is not taken up again, and
collects only what it selects. -/
structure Pass.From (L : Loop K G) (t : Relay K G) (pass pass' : Pass K G) : Prop where
  select : pass'.select = pass.select
  finished : pass.finished = true → pass'.finished = true
  collected : ∀ e ∈ pass'.collected, e ∈ pass.collected ∨ t.sessions.lookup e.1 = some e.2 ∧
    ∃ st, t.streams[e.2]? = some st ∧ pass.select.picks L st = true

theorem Pass.From.refl (L : Loop K G) (t : Relay K G) (pass : Pass K G) : Pass.From L t pass pass :=
  ⟨rfl, fun h => h, fun _ he => .inl he⟩

/-- A pass has just been started or comes from what it was. -/
theorem moves_passes {L : Loop K G} {a : Action K G} {t u : Relay K G} (h : Moves L t a u) {p : Nat}
    {pass' : Pass K G} (hp : u.passes[p]? = some pass') :
    (p = t.passes.length ∧ pass'.collected = []) ∨ ∃ pass, t.passes[p]? = some pass ∧ Pass.From L t pass pass' := by
  have hpush {select : Select G} (hp : (t.passes ++ [{ select := select }])[p]? = some pass') :
      (p = t.passes.length ∧ pass'.collected = []) ∨
        ∃ pass, t.passes[p]? = some pass ∧ Pass.From L t pass pass' := by
    rw [Heap.get_push] at hp
    split at hp
    · cases hp
      exact .inl ⟨‹_›, rfl⟩
    · exact .inr ⟨pass', hp, .refl L t pass'⟩
  have hset {q : Nat} {old new : Pass K G} (hq : t.passes[q]? = some old)
      (hp : (t.passes.set q new)[p]? = some pass') (hfrom : Pass.From L t old new) :
      (p = t.passes.length ∧ pass'.collected = []) ∨
        ∃ pass, t.passes[p]? = some pass ∧ Pass.From L t pass pass' := by
    rw [Heap.get_set hq] at hp
    split at hp
    · cases hp
      exact .inr ⟨old, by rw [‹p = q›, hq], hfrom⟩
    · exact .inr ⟨pass', hp, .refl L t pass'⟩
  cases h with
  | shutdown g _ _ => exact hpush hp
  | sweepStart now => exact hpush hp
  | closeStart g _ => exact hpush hp
  | collect q s key pass st hq hlookup hst hcollecting hpicks =>
    refine hset hq hp ⟨rfl, by simp [Pass.finished, hcollecting], fun e he => ?_⟩
    rcases List.mem_append.mp he with he | he
    · exact .inl he
    · obtain rfl := List.mem_singleton.mp he
      exact .inr ⟨hlookup, st, hst, hpicks⟩
  | collectEnd q pass hq =>
    exact hset hq hp ⟨rfl, by simp +contextual [Pass.finished], fun _ he => .inl he⟩
  | passRemove q s s' key select rest hq _ =>
    exact hset hq hp ⟨rfl, by simp [Pass.finished], fun e he => .inl (List.mem_cons_of_mem _ he)⟩
  | passSkip q s' key select rest hq _ =>
    exact hset hq hp ⟨rfl, by simp [Pass.finished], fun e he => .inl (List.mem_cons_of_mem _ he)⟩
  | passClose q s select collected l hq _ _ =>
    exact hset hq hp ⟨rfl, by simp [Pass.finished], fun _ he => .inl he⟩
  | passCloseFail q s select collected l hq _ _ =>
    exact hset hq hp ⟨rfl, by simp [Pass.finished], fun _ he => .inl he⟩
  | _ => exact .inr ⟨pass', hp, .refl L t pass'⟩

/-- The map and the loop know a stream by its key, and a closing collects the keys of its
group. -/
structure Keyed (L : Loop K G) (t : Relay K G) : Prop where
  entry : ∀ key s, t.sessions.lookup key = some s → ∃ st, t.streams[s]? = some st ∧ st.key = key
  opening : ∀ key s, t.phase = .opening key s → ∃ st, t.streams[s]? = some st ∧ st.key = key
  collected : ∀ pass ∈ t.passes, ∀ g, pass.select = .group g → ∀ e ∈ pass.collected, L.group e.1 = g

omit [DecidableEq G] in
theorem keyed_init (L : Loop K G) : Keyed L {} where
  entry := by
    intro key s h
    cases h
  opening := by simp
  collected := by simp

omit [DecidableEq K] [DecidableEq G] in
theorem afterError_eq (L : Loop K G) : L.afterError = .stopped ∨ L.afterError = .receiving := by
  unfold Loop.afterError
  split
  · exact .inl rfl
  · exact .inr rfl

omit [DecidableEq K] [DecidableEq G] in
theorem afterError_ne (L : Loop K G) (key : K) (s : Nat) : L.afterError ≠ .opening key s := by
  rcases afterError_eq L with h | h <;> simp [h]

/-- What the loop is opening it was opening, or has just had opened. -/
theorem moves_opening {L : Loop K G} {a : Action K G} {t u : Relay K G} (h : Moves L t a u) {key : K} {s : Nat}
    (hphase : u.phase = .opening key s) :
    t.phase = .opening key s ∨ ∃ m, u.streams[s]? = some { key := key, link := m } := by
  cases h with
  | openSend key' m l _ _ _ =>
    obtain ⟨rfl, rfl⟩ : key' = key ∧ t.streams.length = s := by simpa using hphase
    exact .inr ⟨m, by simp⟩
  | recvHit _ _ _ _ _ => cases hphase
  | recvMiss _ _ _ _ => cases hphase
  | recvFail _ => exact absurd hphase (afterError_ne L key s)
  | openFail _ _ => exact absurd hphase (afterError_ne L key s)
  | openGiveUp _ _ _ => exact absurd hphase (afterError_ne L key s)
  | openOk _ _ _ _ => cases hphase
  | sent _ _ _ => cases hphase
  | sendFail _ _ _ _ _ _ => cases hphase
  | shutdown _ _ _ => cases hphase
  | _ => exact .inl hphase

/-- An entry was there, or is of the stream the loop had opened. -/
theorem moves_sessions {L : Loop K G} {a : Action K G} {t u : Relay K G} (h : Moves L t a u) {key : K} {s : Nat}
    (hlookup : u.sessions.lookup key = some s) : t.sessions.lookup key = some s ∨ t.phase = .opening key s := by
  have herase {key' : K} (hlookup : (t.sessions.erase key').lookup key = some s) :
      t.sessions.lookup key = some s := by
    rw [Table.lookup_erase] at hlookup
    split at hlookup
    · cases hlookup
    · exact hlookup
  cases h with
  | openOk key' s' now hphase =>
    simp only [Table.lookup_insert] at hlookup
    split at hlookup
    · rename_i hkey
      obtain rfl : s' = s := Option.some.inj hlookup
      rw [hkey]
      exact .inr hphase
    · exact .inl hlookup
  | sendFail _ _ _ _ _ _ => exact .inl (herase hlookup)
  | taskRemove _ _ _ _ => exact .inl (herase hlookup)
  | passRemove _ _ _ _ _ _ _ _ => exact .inl (herase hlookup)
  | _ => exact .inl hlookup

theorem step_keyed {L : Loop K G} {a : Action K G} {t u : Relay K G} (h : Keyed L t) (hstep : L.step a t = some u) :
    Keyed L u := by
  have hmoves := step_moves hstep
  have hkeep {key : K} {s : Nat} (hst : ∃ st, t.streams[s]? = some st ∧ st.key = key) :
      ∃ st, u.streams[s]? = some st ∧ st.key = key := by
    obtain ⟨st, hst, hkey⟩ := hst
    obtain ⟨st', hst', hkey'⟩ := moves_streams hmoves hst
    exact ⟨st', hst', hkey'.trans hkey⟩
  refine ⟨fun key s hlookup => ?_, fun key s hphase => ?_, fun pass' hpass' g hselect e he => ?_⟩
  · rcases moves_sessions hmoves hlookup with hold | hopening
    · exact hkeep (h.entry key s hold)
    · exact hkeep (h.opening key s hopening)
  · rcases moves_opening hmoves hphase with hold | ⟨m, hst⟩
    · exact hkeep (h.opening key s hold)
    · exact ⟨_, hst, rfl⟩
  · obtain ⟨p, hp⟩ := List.mem_iff_getElem?.mp hpass'
    rcases moves_passes hmoves hp with ⟨-, hempty⟩ | ⟨pass, hpass, hfrom⟩
    · rw [hempty] at he
      cases he
    · rw [hfrom.select] at hselect
      rcases hfrom.collected e he with hold | ⟨hlookup, st, hst, hpicks⟩
      · exact h.collected pass (List.mem_of_getElem? hpass) g hselect e hold
      · obtain ⟨st', hst', hkey⟩ := h.entry e.1 e.2 hlookup
        obtain rfl : st = st' := Option.some.inj (hst.symm.trans hst')
        rw [hselect] at hpicks
        rw [← hkey]
        simpa [Select.picks] using hpicks

end

/-! ### The property -/

section
variable {K G : Type} [DecidableEq K]

/-- Either end has closed the stream, or its connection is gone. -/
def Relay.ended (t : Relay K G) (st : Stream K) : Prop :=
  st.closeQueued = true ∨ st.agentClosed = true ∨ ∃ l ∈ t.links[st.link]?, l.alive = false

/-- No stream is forgotten: it is over, in the map, being opened, or removed by a pass that
is about to close it. -/
def Accounted (t : Relay K G) : Prop :=
  ∀ (s : Nat) (st : Stream K), t.streams[s]? = some st →
    t.ended st ∨ t.sessions.lookup st.key = some s ∨ t.phase = .opening st.key s ∨
      ∃ pass ∈ t.passes, pass.closing = some s

/-- The step is one of the stream's own: its response task's, a failed send on its writer,
or the removal by a pass that collected it. -/
def belongs (a : Action K G) (t : Relay K G) (key : K) (s : Nat) : Prop :=
  match a with
  | .taskRemove s' => s' = s
  | .sendFail => t.phase = .sending key s
  | .passRemove p => ∃ pass ∈ t.passes[p]?, pass.collected.head? = some (key, s)
  | _ => False

/-- Nothing of an earlier stream will remove the key: no response task, and no pass. -/
def Relay.Free (t : Relay K G) (key : K) : Prop :=
  (∀ st ∈ t.streams, st.key = key → st.task.running = false) ∧ ∀ pass ∈ t.passes, ∀ e ∈ pass.collected, e.1 ≠ key

/-- A stream is opened only for a free key, and neither a response that cannot be passed on
nor an open that is given up leaves a stream that is not over. -/
def Tidy (a : Action K G) (t : Relay K G) : Prop :=
  match a with
  | .recv key _ => t.sessions.lookup key = none → t.Free key
  | .taskFail s => ∀ st ∈ t.streams[s]?, t.ended st
  | .openGiveUp =>
    match t.phase with
    | .opening _ s => ∀ st ∈ t.streams[s]?, t.ended st
    | _ => True
  | _ => True

/-! ### The invariant -/

structure Inv (t : Relay K G) : Prop where
  only : ∀ key s, t.sessions.lookup key = some s → ∀ (s' : Nat) (st : Stream K), t.streams[s']? = some st →
    st.key = key → st.task.running = true → s' = s
  listed : ∀ pass ∈ t.passes, ∀ e ∈ pass.collected, ∀ s, t.sessions.lookup e.1 = some s → s = e.2
  missing : ∀ key, t.phase = .missing key → t.sessions.lookup key = none ∧ t.Free key
  opening : ∀ key s, t.phase = .opening key s → t.sessions.lookup key = none ∧ t.Free key ∧
    ∃ st, t.streams[s]? = some st ∧ st.key = key
  sending : ∀ key s, t.phase = .sending key s → ∀ s', t.sessions.lookup key = some s' → s' = s
  ending : ∀ st ∈ t.streams, st.task = .removing → t.ended st
  accounted : Accounted t

theorem inv_init : Inv ({} : Relay K G) where
  only := by
    intro key s h
    cases h
  listed := by simp
  missing := by simp
  opening := by simp
  sending := by simp
  ending := by simp
  accounted := by simp [Accounted]

/-- An update of one stream that starts no response task and lets one end only when the
stream is over. -/
structure Harmless (t : Relay K G) (s : Nat) (f : Stream K → Stream K) : Prop where
  key : ∀ st, (f st).key = st.key
  ended : ∀ st, t.ended st → t.ended (f st)
  running : ∀ st, t.streams[s]? = some st → (f st).task.running = true → st.task.running = true
  ending : ∀ st, t.streams[s]? = some st → st.task ≠ .removing → (f st).task = .removing → t.ended st

omit [DecidableEq K] in
/-- An update that leaves the response task alone. -/
theorem harmless_of_task {t : Relay K G} {s : Nat} {f : Stream K → Stream K} (hkey : ∀ st, (f st).key = st.key)
    (htask : ∀ st, (f st).task = st.task) (hover : ∀ st, t.ended st → t.ended (f st)) : Harmless t s f where
  key := hkey
  ended := hover
  running := by
    intro st _ hrun
    rwa [htask] at hrun
  ending := by
    intro st _ hne heq
    rw [htask] at heq
    exact absurd heq hne

omit [DecidableEq K] in
theorem Free.modify {t : Relay K G} {key : K} (h : t.Free key) {s : Nat} {f : Stream K → Stream K}
    (hf : Harmless t s f) : (t.modifyStream s f).Free key := by
  refine ⟨fun st hst hkey => ?_, h.2⟩
  obtain ⟨s', hs'⟩ := List.mem_iff_getElem?.mp hst
  rcases modifyStream_back hs' with hold | ⟨rfl, old, hold, rfl⟩
  · exact h.1 st (List.mem_of_getElem? hold) hkey
  · rw [hf.key] at hkey
    have hidle := h.1 old (List.mem_of_getElem? hold) hkey
    by_contra hrun
    rw [hf.running old hold (Bool.eq_true_of_not_eq_false hrun)] at hidle
    cases hidle

theorem Inv.modify {t : Relay K G} (h : Inv t) {s : Nat} {f : Stream K → Stream K} (hf : Harmless t s f) :
    Inv (t.modifyStream s f) where
  only := by
    intro key s₁ hlookup s' st hst hkey hrun
    rcases modifyStream_back hst with hold | ⟨rfl, old, hold, rfl⟩
    · exact h.only key s₁ hlookup s' st hold hkey hrun
    · rw [hf.key] at hkey
      exact h.only key s₁ hlookup s old hold hkey (hf.running old hold hrun)
  listed := h.listed
  missing := by
    intro key hphase
    obtain ⟨hnone, hfree⟩ := h.missing key hphase
    exact ⟨hnone, Free.modify hfree hf⟩
  opening := by
    intro key s' hphase
    obtain ⟨hnone, hfree, st, hst, hkey⟩ := h.opening key s' hphase
    refine ⟨hnone, Free.modify hfree hf, ?_⟩
    rw [get_modifyStream, hst]
    split
    · exact ⟨f st, rfl, (hf.key st).trans hkey⟩
    · exact ⟨st, rfl, hkey⟩
  sending := h.sending
  ending := by
    intro st hst htask
    obtain ⟨s', hs'⟩ := List.mem_iff_getElem?.mp hst
    rcases modifyStream_back hs' with hold | ⟨rfl, old, hold, rfl⟩
    · exact h.ending st (List.mem_of_getElem? hold) htask
    · refine hf.ended old ?_
      by_cases hwas : old.task = .removing
      · exact h.ending old (List.mem_of_getElem? hold) hwas
      · exact hf.ending old hold hwas htask
  accounted := by
    intro s' st hst
    rcases modifyStream_back hst with hold | ⟨rfl, old, hold, rfl⟩
    · exact h.accounted s' st hold
    · rw [hf.key]
      rcases h.accounted s old hold with hover | hrest
      · exact .inl (hf.ended old hover)
      · exact .inr hrest

/-- The loop moves on. A stream it was opening is over, or it goes on opening it. -/
theorem Inv.setPhase {t : Relay K G} (h : Inv t) {phase : Phase K}
    (hmissing : ∀ key, phase = .missing key → t.sessions.lookup key = none ∧ t.Free key)
    (hopening : ∀ key s, phase ≠ .opening key s)
    (hsending : ∀ key s, phase = .sending key s → ∀ s', t.sessions.lookup key = some s' → s' = s)
    (hleft : ∀ key s, t.phase = .opening key s → ∀ st ∈ t.streams[s]?, t.ended st) :
    Inv {t with phase := phase} where
  only := h.only
  listed := h.listed
  missing := hmissing
  opening := fun key s hphase => absurd hphase (hopening key s)
  sending := hsending
  ending := h.ending
  accounted := by
    intro s st hst
    rcases h.accounted s st hst with hover | hin | hopen | hclosing
    · exact .inl hover
    · exact .inr (.inl hin)
    · exact .inl (hleft st.key s hopen st hst)
    · exact .inr (.inr (.inr hclosing))

/-- A key is removed whose stream is over or about to be closed. -/
theorem Inv.erase {t : Relay K G} (h : Inv t) (key : K)
    (hgone : ∀ (s : Nat) (st : Stream K), t.sessions.lookup key = some s → t.streams[s]? = some st →
      t.ended st ∨ ∃ pass ∈ t.passes, pass.closing = some s) :
    Inv {t with sessions := t.sessions.erase key} := by
  have hback {key' : K} {s : Nat} (hs : (t.sessions.erase key).lookup key' = some s) :
      t.sessions.lookup key' = some s := by
    rw [Table.lookup_erase] at hs
    split at hs
    · cases hs
    · exact hs
  have hnone {key' : K} (hs : t.sessions.lookup key' = none) : (t.sessions.erase key).lookup key' = none := by
    rw [Table.lookup_erase, hs, ite_self]
  refine ⟨fun key' s hs => h.only key' s (hback hs), fun pass hpass e he s hs => h.listed pass hpass e he s (hback hs),
    ?_, ?_, fun key' s hphase s' hs => h.sending key' s hphase s' (hback hs), h.ending, ?_⟩
  · intro key' hphase
    obtain ⟨hlookup, hfree⟩ := h.missing key' hphase
    exact ⟨hnone hlookup, hfree⟩
  · intro key' s hphase
    obtain ⟨hlookup, hfree, hst⟩ := h.opening key' s hphase
    exact ⟨hnone hlookup, hfree, hst⟩
  · intro s st hst
    rcases h.accounted s st hst with hover | hin | hrest
    · exact .inl hover
    · by_cases hkey : st.key = key
      · rw [hkey] at hin
        rcases hgone s st hin hst with hover | hclosing
        · exact .inl hover
        · exact .inr (.inr (.inr hclosing))
      · refine .inr (.inl ?_)
        show (t.sessions.erase key).lookup st.key = some s
        rw [Table.lookup_erase, if_neg hkey, hin]
    · exact .inr (.inr hrest)

/-- A pass goes on: what it has collected is in the map, and what it was about to close is
over or still to be closed. -/
theorem Inv.setPass {t : Relay K G} (h : Inv t) {p : Nat} {pass pass' : Pass K G} (hp : t.passes[p]? = some pass)
    (hcollected : ∀ e ∈ pass'.collected, e ∈ pass.collected ∨ t.sessions.lookup e.1 = some e.2)
    (hclosing : ∀ s, pass.closing = some s → pass'.closing = some s ∨ ∀ st ∈ t.streams[s]?, t.ended st) :
    Inv {t with passes := t.passes.set p pass'} := by
  have hfree {key : K} (hnone : t.sessions.lookup key = none) (hfree : t.Free key) :
      ({t with passes := t.passes.set p pass'} : Relay K G).Free key := by
    refine ⟨hfree.1, ?_⟩
    apply Heap.forall_set hfree.2
    intro e he hkey
    rcases hcollected e he with hold | hin
    · exact hfree.2 pass (List.mem_of_getElem? hp) e hold hkey
    · rw [hkey, hnone] at hin
      cases hin
  refine ⟨h.only, ?_, ?_, ?_, h.sending, h.ending, ?_⟩
  · apply Heap.forall_set h.listed
    intro e he s hs
    rcases hcollected e he with hold | hin
    · exact h.listed pass (List.mem_of_getElem? hp) e hold s hs
    · exact Option.some.inj (hs.symm.trans hin)
  · intro key hphase
    obtain ⟨hnone, hfree'⟩ := h.missing key hphase
    exact ⟨hnone, hfree hnone hfree'⟩
  · intro key s hphase
    obtain ⟨hnone, hfree', hst⟩ := h.opening key s hphase
    exact ⟨hnone, hfree hnone hfree', hst⟩
  · intro s st hst
    rcases h.accounted s st hst with hover | hin | hopen | ⟨x, hx, hxs⟩
    · exact .inl hover
    · exact .inr (.inl hin)
    · exact .inr (.inr (.inl hopen))
    · rcases Heap.mem_set_of_mem hp pass' hx with rfl | hx
      · rcases hclosing s hxs with hstill | hover
        · exact .inr (.inr (.inr ⟨pass', Heap.mem_set_self hp pass', hstill⟩))
        · exact .inl (hover st hst)
      · exact .inr (.inr (.inr ⟨x, hx, hxs⟩))

theorem Inv.pushPass {t : Relay K G} (h : Inv t) (select : Select G) :
    Inv {t with passes := t.passes ++ [{ select := select }]} := by
  have hfree {key : K} (hfree : t.Free key) :
      ({t with passes := t.passes ++ [{ select := select }]} : Relay K G).Free key := by
    refine ⟨hfree.1, ?_⟩
    apply Heap.forall_push hfree.2
    intro e he
    cases he
  refine ⟨h.only, ?_, ?_, ?_, h.sending, h.ending, ?_⟩
  · apply Heap.forall_push h.listed
    intro e he
    cases he
  · intro key hphase
    obtain ⟨hnone, hfree'⟩ := h.missing key hphase
    exact ⟨hnone, hfree hfree'⟩
  · intro key s hphase
    obtain ⟨hnone, hfree', hst⟩ := h.opening key s hphase
    exact ⟨hnone, hfree hfree', hst⟩
  · intro s st hst
    rcases h.accounted s st hst with hover | hin | hopen | ⟨x, hx, hxs⟩
    · exact .inl hover
    · exact .inr (.inl hin)
    · exact .inr (.inr (.inl hopen))
    · exact .inr (.inr (.inr ⟨x, List.mem_append_left _ hx, hxs⟩))

/-- The connections change, and those that are gone stay gone. -/
theorem Inv.setLinks {t : Relay K G} (h : Inv t) {links : List Link}
    (hgone : ∀ (m : Nat) (l : Link), t.links[m]? = some l → l.alive = false → ∃ l', links[m]? = some l' ∧ l'.alive = false) :
    Inv {t with links := links} := by
  have hover {st : Stream K} (hover : t.ended st) : ({t with links := links} : Relay K G).ended st := by
    rcases hover with hclose | hagent | ⟨l, hl, hdead⟩
    · exact .inl hclose
    · exact .inr (.inl hagent)
    · exact .inr (.inr (hgone st.link l hl hdead))
  refine ⟨h.only, h.listed, h.missing, h.opening, h.sending, fun st hst htask => hover (h.ending st hst htask), ?_⟩
  intro s st hst
  rcases h.accounted s st hst with hold | hrest
  · exact .inl (hover hold)
  · exact .inr hrest

/-- The loop has a stream opened for the key it misses. -/
theorem Inv.openSend {t : Relay K G} (h : Inv t) {key : K} (hphase : t.phase = .missing key) (m : Nat) :
    Inv {t with streams := t.streams ++ [{ key := key, link := m }], phase := .opening key t.streams.length} := by
  obtain ⟨hnone, hfree⟩ := h.missing key hphase
  have hback {s : Nat} {st : Stream K} (hst : (t.streams ++ [{ key := key, link := m }])[s]? = some st) :
      t.streams[s]? = some st ∨ s = t.streams.length ∧ st = { key := key, link := m } := by
    rw [Heap.get_push] at hst
    split at hst
    · exact .inr ⟨‹_›, (Option.some.inj hst).symm⟩
    · exact .inl hst
  have hmem {st : Stream K} (hst : st ∈ t.streams ++ [{ key := key, link := m }]) :
      st ∈ t.streams ∨ st = { key := key, link := m } := by
    simpa using hst
  refine ⟨?_, h.listed, by simp, ?_, by simp, ?_, ?_⟩
  · intro key' s hlookup s' st hst hkey hrun
    rcases hback hst with hold | ⟨-, rfl⟩
    · exact h.only key' s hlookup s' st hold hkey hrun
    · cases hrun
  · intro key' s hphase'
    obtain ⟨rfl, rfl⟩ : key = key' ∧ t.streams.length = s := by simpa using hphase'
    refine ⟨hnone, ⟨fun st hst hkey => ?_, hfree.2⟩, { key := key, link := m }, by simp, rfl⟩
    rcases hmem hst with hold | rfl
    · exact hfree.1 st hold hkey
    · rfl
  · intro st hst htask
    rcases hmem hst with hold | rfl
    · exact h.ending st hold htask
    · cases htask
  · intro s st hst
    rcases hback hst with hold | ⟨rfl, rfl⟩
    · rcases h.accounted s st hold with hover | hin | hopen | hclosing
      · exact .inl hover
      · exact .inr (.inl hin)
      · rw [hphase] at hopen
        cases hopen
      · exact .inr (.inr (.inr hclosing))
    · exact .inr (.inr (.inl rfl))

/-- The opened stream goes into the map and its response task starts. Nothing of an earlier
stream is after its key. -/
theorem Inv.openOk {t : Relay K G} (h : Inv t) {key : K} {s : Nat} (hphase : t.phase = .opening key s) (now : Nat) :
    Inv {t.modifyStream s fun st => {st with lastSeen := now, task := .receiving} with
      sessions := t.sessions.insert key s
      phase := .sending key s} := by
  obtain ⟨hnone, hfree, opened, hopened, hopenedKey⟩ := h.opening key s hphase
  refine ⟨?_, ?_, by simp, by simp, ?_, ?_, ?_⟩
  · intro key' s₁ hlookup s' st hst hkey hrun
    simp only [Table.lookup_insert] at hlookup
    split at hlookup
    · rename_i hkey'
      subst hkey'
      obtain rfl : s = s₁ := Option.some.inj hlookup
      rcases modifyStream_back hst with hold | ⟨rfl, -⟩
      · rw [hfree.1 st (List.mem_of_getElem? hold) hkey] at hrun
        cases hrun
      · rfl
    · rename_i hkey'
      rcases modifyStream_back hst with hold | ⟨rfl, old, hold, rfl⟩
      · exact h.only key' s₁ hlookup s' st hold hkey hrun
      · rw [hopened] at hold
        cases hold
        exact absurd (hkey.symm.trans hopenedKey) hkey'
  · intro pass hpass e he s₁ hlookup
    simp only [Table.lookup_insert, if_neg (hfree.2 pass hpass e he)] at hlookup
    exact h.listed pass hpass e he s₁ hlookup
  · intro key' s₁ hphase' s' hlookup
    obtain ⟨rfl, rfl⟩ : key = key' ∧ s = s₁ := by simpa using hphase'
    simpa [eq_comm] using hlookup
  · intro st hst htask
    obtain ⟨s', hs'⟩ := List.mem_iff_getElem?.mp hst
    rcases modifyStream_back hs' with hold | ⟨rfl, old, hold, rfl⟩
    · exact h.ending st (List.mem_of_getElem? hold) htask
    · cases htask
  · intro s' st hst
    rcases modifyStream_back hst with hold | ⟨rfl, old, hold, rfl⟩
    · rcases h.accounted s' st hold with hover | hin | hopen | hclosing
      · exact .inl hover
      · refine .inr (.inl ?_)
        show (t.sessions.insert key s).lookup st.key = some s'
        rw [Table.lookup_insert, if_neg, hin]
        intro hkey
        rw [hkey, hnone] at hin
        cases hin
      · obtain ⟨hkey, rfl⟩ : key = st.key ∧ s = s' := by simpa [hphase] using hopen
        refine .inr (.inl ?_)
        show (t.sessions.insert key s).lookup st.key = some s
        rw [← hkey]
        simp
      · exact .inr (.inr (.inr hclosing))
    · refine .inr (.inl ?_)
      rw [hopened] at hold
      cases hold
      show (t.sessions.insert key s).lookup opened.key = some s
      rw [hopenedKey]
      simp

omit [DecidableEq K] in
theorem over_of_link {t : Relay K G} {s : Nat} {st : Stream K} {l : Link} (hst : t.streams[s]? = some st)
    (hl : t.link? s = some l) (hdead : l.alive = false) : t.ended st := by
  simp only [Relay.link?, hst, Option.bind_some] at hl
  exact .inr (.inr ⟨l, hl, hdead⟩)

/-- A connection that stops in either direction does not come back. -/
theorem gone_modify {links : List Link} {m : Nat} {f : Link → Link} (hf : ∀ l, l.alive = false → (f l).alive = false)
    (m' : Nat) (l : Link) (hl : links[m']? = some l) (hdead : l.alive = false) :
    ∃ l', (links.modify m f)[m']? = some l' ∧ l'.alive = false := by
  rw [List.getElem?_modify, hl]
  by_cases hm : m = m'
  · exact ⟨f l, by simp [hm], hf l hdead⟩
  · exact ⟨l, by simp [hm], hdead⟩

/-- An error sends the loop on or ends it, and leaves no stream it was opening. -/
theorem Inv.fail {t : Relay K G} (h : Inv t) (L : Loop K G)
    (hleft : ∀ key s, t.phase = .opening key s → ∀ st ∈ t.streams[s]?, t.ended st) :
    Inv {t with phase := L.afterError} := by
  rcases afterError_eq L with hphase | hphase
  · rw [hphase]
    exact h.setPhase (by simp) (by simp) (by simp) hleft
  · rw [hphase]
    exact h.setPhase (by simp) (by simp) (by simp) hleft

end

section
variable {K G : Type} [DecidableEq K] [DecidableEq G]

theorem step_inv {L : Loop K G} {a : Action K G} {t u : Relay K G} (h : Inv t) (htidy : Tidy a t)
    (hstep : L.step a t = some u) : Inv u := by
  cases step_moves hstep with
  | connect => exact h.setLinks fun m l hl hdead => ⟨l, Heap.get_push_of_some hl, hdead⟩
  | writerStop m => exact h.setLinks (gone_modify fun l _ => by simp [Link.alive])
  | readerStop m => exact h.setLinks (gone_modify fun l _ => by simp [Link.alive])
  | recvHit key now s hphase hlookup =>
    have hmodify := h.modify (s := s) (f := fun st => {st with lastSeen := now})
      (harmless_of_task (fun _ => rfl) (fun _ => rfl) fun _ hover => hover)
    refine hmodify.setPhase (by simp) (by simp) ?_ (by simp [Relay.modifyStream, hphase])
    intro key' s' heq s₁ hs₁
    obtain ⟨rfl, rfl⟩ : key = key' ∧ s = s' := by simpa using heq
    exact Option.some.inj (hs₁.symm.trans hlookup)
  | recvMiss key now hphase hlookup =>
    refine h.setPhase ?_ (by simp) (by simp) (by simp [hphase])
    intro key' heq
    obtain rfl : key = key' := by simpa using heq
    exact ⟨hlookup, htidy hlookup⟩
  | recvFail hphase => exact h.fail L (by simp [hphase])
  | openFail key hphase => exact h.fail L (by simp [hphase])
  | openSend key m l hphase _ _ => exact h.openSend hphase m
  | openGiveUp key s hphase =>
    refine h.fail L fun key' s' hphase' => ?_
    simpa [Tidy, hphase'] using htidy
  | openOk key s now hphase => exact h.openOk hphase now
  | sent key s hphase => exact h.setPhase (by simp) (by simp) (by simp) (by simp [hphase])
  | sendFail key s l hphase hl hstopped =>
    have herase := h.erase key fun s' st hlookup hst => by
      obtain rfl := h.sending key s hphase s' hlookup
      exact .inl (over_of_link hst hl (by simp [Link.alive, hstopped]))
    exact herase.setPhase (by simp) (by simp) (by simp) (by simp [hphase])
  | shutdown g hphase _ =>
    exact (h.pushPass (.group g)).setPhase (by simp) (by simp) (by simp) (by simp [hphase])
  | agentClose s =>
    exact h.modify (harmless_of_task (fun _ => rfl) (fun _ => rfl) fun _ _ => .inr (.inl rfl))
  | taskData s now st _ _ =>
    exact h.modify (harmless_of_task (fun _ => rfl) (fun _ => rfl) fun _ hover => hover)
  | taskFail s st hst htask =>
    refine h.modify ⟨fun _ => rfl, fun _ hover => hover, fun old hold _ => ?_, fun old hold _ _ => htidy old hold⟩
    obtain rfl : st = old := Option.some.inj (hst.symm.trans hold)
    rw [htask]
    rfl
  | taskEnd s st l hst hl htask hend =>
    have hover : t.ended st := by
      rcases Bool.or_eq_true_iff.mp hend with hagent | hreader
      · exact .inr (.inl hagent)
      · exact over_of_link hst hl (by simp [Link.alive, hreader])
    refine h.modify ⟨fun _ => rfl, fun _ hover => hover, fun old hold _ => ?_, fun old hold _ _ => ?_⟩
    · obtain rfl : st = old := Option.some.inj (hst.symm.trans hold)
      rw [htask]
      rfl
    · obtain rfl : st = old := Option.some.inj (hst.symm.trans hold)
      exact hover
  | taskRemove s st hst htask =>
    have herase := h.erase st.key fun s' st' hlookup hst' => by
      obtain rfl := h.only st.key s' hlookup s st hst rfl (by rw [htask]; rfl)
      obtain rfl : st = st' := Option.some.inj (hst.symm.trans hst')
      exact .inl (h.ending st (List.mem_of_getElem? hst) htask)
    exact herase.modify ⟨fun _ => rfl, fun _ hover => hover, fun _ _ hrun => (by cases hrun),
      fun _ _ _ heq => (by cases heq)⟩
  | sweepStart now => exact h.pushPass (.idle now)
  | closeStart g _ => exact h.pushPass (.group g)
  | collect p s key pass st hp hlookup _ _ _ =>
    refine h.setPass hp (fun e he => ?_) fun _ hs => .inl hs
    rcases List.mem_append.mp he with he | he
    · exact .inl he
    · rw [List.mem_singleton.mp he]
      exact .inr hlookup
  | collectEnd p pass hp => exact h.setPass hp (fun _ he => .inl he) fun _ hs => .inl hs
  | passRemove p s s' key select rest hp hlookup =>
    have hset : Inv {t with passes := t.passes.set p ⟨select, false, rest, some s⟩} :=
      h.setPass hp (fun e he => .inl (List.mem_cons_of_mem _ he)) (by simp)
    refine hset.erase _ fun s₁ st hlookup₁ _ => .inr ⟨_, Heap.mem_set_self hp _, ?_⟩
    exact hlookup.symm.trans hlookup₁
  | passSkip p s' key select rest hp _ =>
    exact h.setPass hp (fun e he => .inl (List.mem_cons_of_mem _ he)) (by simp)
  | passClose p s select collected l hp hl hrunning =>
    have hmodify := h.modify (s := s) (f := fun st => {st with closeQueued := true})
      (harmless_of_task (fun _ => rfl) (fun _ => rfl) fun _ _ => .inl rfl)
    refine hmodify.setPass hp (fun _ he => .inl he) fun s' hs' => .inr fun st hst => ?_
    obtain rfl : s = s' := Option.some.inj hs'
    rw [Option.mem_def, get_modifyStream, if_pos rfl] at hst
    obtain ⟨old, -, rfl⟩ := Option.map_eq_some_iff.mp hst
    exact .inl rfl
  | passCloseFail p s select collected l hp hl hstopped =>
    refine h.setPass hp (fun _ he => .inl he) fun s' hs' => .inr fun st hst => ?_
    obtain rfl : s = s' := Option.some.inj hs'
    exact over_of_link hst hl (by simp [Link.alive, hstopped])

/-- In the steps from here, an entry goes only by a step of the stream in it. -/
def RemovedByOwn (L : Loop K G) (t : Relay K G) : Prop :=
  ∀ a u, Tidy a t → L.step a t = some u → ∀ key s, t.sessions.lookup key = some s →
    u.sessions.lookup key ≠ some s → belongs a t key s

theorem removedByOwn {L : Loop K G} {t : Relay K G} (h : Inv t) : RemovedByOwn L t := by
  intro a u _ hstep key s hlookup hgone
  have herased {key' : K} (hgone : (t.sessions.erase key').lookup key ≠ some s) : key = key' := by
    by_contra hne
    exact hgone (by rw [Table.lookup_erase, if_neg hne, hlookup])
  cases step_moves hstep with
  | openOk key' s' now hphase =>
    -- the loop inserts only where there is nothing
    simp only [Table.lookup_insert] at hgone
    split at hgone
    · rename_i hkey
      rw [hkey, (h.opening key' s' hphase).1] at hlookup
      cases hlookup
    · exact absurd hlookup hgone
  | sendFail key' s' l hphase _ _ =>
    obtain rfl := herased hgone
    obtain rfl := h.sending key s' hphase s hlookup
    exact hphase
  | taskRemove s' st hst htask =>
    obtain rfl := herased hgone
    exact h.only st.key s hlookup s' st hst rfl (by rw [htask]; rfl)
  | passRemove p s₁ s' key' select rest hp _ =>
    obtain rfl := herased hgone
    obtain rfl := h.listed _ (List.mem_of_getElem? hp) (key, s') (by simp) s hlookup
    exact ⟨_, hp, rfl⟩
  | _ => exact absurd hlookup hgone

theorem reach_inv {L : Loop K G} {t : Relay K G} (h : L.system.Reach Tidy t) : Inv t :=
  h.invariant inv_init fun _ _ _ hinv htidy hstep => step_inv hinv htidy hstep

end

/-- **An entry of the sessions map is removed only by a step of the stream in it**, and no
stream is left open at the agent that is not in the map, in every run of either loop that is
tidy. -/
theorem session_removed_by_own (t : Relay SocketAddr Unit) (u : Relay SocksUdpSessionKey IpAddr) :
    (runSocket.system.Reach Tidy t → Accounted t ∧ RemovedByOwn runSocket t) ∧
    (runUdpRelay.system.Reach Tidy u → Accounted u ∧ RemovedByOwn runUdpRelay u) := by
  refine ⟨fun h => ?_, fun h => ?_⟩
  · exact ⟨(reach_inv h).accounted, removedByOwn (reach_inv h)⟩
  · exact ⟨(reach_inv h).accounted, removedByOwn (reach_inv h)⟩

section
variable {K G : Type} [DecidableEq K]

instance (t : Relay K G) (st : Stream K) : Decidable (t.ended st) := by
  unfold Relay.ended
  infer_instance

instance (t : Relay K G) (key : K) : Decidable (t.Free key) := by
  unfold Relay.Free
  infer_instance

instance (a : Action K G) (t : Relay K G) : Decidable (Tidy a t) := by
  unfold Tidy
  split
  · infer_instance
  · infer_instance
  · split <;> infer_instance
  · infer_instance

/-- A datagram of the key for which a stream is opened on connection `m`. -/
def openRun (key : K) (m now : Nat) : List (Action K G) := [.recv key now, .openSend m, .openOk now, .sent]

/-- The agent's connection breaks under a session, and the send that notices drops it. -/
def brokenRun (key : K) : List (Action K G) :=
  ([.connect] : List (Action K G)) ++ openRun key 0 0 ++
    ([.writerStop 0, .recv key 1, .sendFail, .connect] : List (Action K G))

/-- The response task ends as well before the agent, back again, gets a new stream, and a
sweep closes that one. -/
def reconnectRun (key : K) : List (Action K G) :=
  brokenRun key ++ ([.readerStop 0, .taskEnd 0, .taskRemove 0] : List (Action K G)) ++ openRun key 1 2 ++
    ([.sweepStart 500, .collect 0 key, .collectEnd 0, .passRemove 0, .passClose 0] : List (Action K G))

/-- The agent gets its new stream first. -/
def overtakenRun (key : K) : List (Action K G) :=
  brokenRun key ++ openRun key 1 2 ++ [.readerStop 0, .taskEnd 0]

/-- The stream is open at the agent and nobody will close it. -/
def Relay.lost (t : Relay K G) (s : Nat) : Prop :=
  ∃ st ∈ t.streams[s]?, ¬ t.ended st ∧ t.sessions.lookup st.key ≠ some s ∧ t.phase ≠ .opening st.key s ∧
    ∀ pass ∈ t.passes, pass.closing ≠ some s

instance (t : Relay K G) (s : Nat) : Decidable (t.lost s) := by
  unfold Relay.lost
  infer_instance

theorem not_accounted_of_lost {t : Relay K G} {s : Nat} (h : t.lost s) : ¬ Accounted t := by
  intro hacc
  obtain ⟨st, hst, hover, hin, hopen, hclosing⟩ := h
  rcases hacc s st hst with h | h | h | ⟨pass, hpass, h⟩
  · exact hover h
  · exact hin h
  · exact hopen h
  · exact hclosing pass hpass h

end

theorem session_removed_by_own_reconnect :
    (∃ t, runSocket.system.Reach Tidy t ∧ t.streams.map (·.closeQueued) = [false, true] ∧
      Accounted t ∧ RemovedByOwn runSocket t) ∧
    (∃ t, runUdpRelay.system.Reach Tidy t ∧ t.streams.map (·.closeQueued) = [false, true] ∧
      Accounted t ∧ RemovedByOwn runUdpRelay t) := by
  constructor
  · obtain ⟨t, ht, hp⟩ := System.reach_of_run (S := runSocket.system) (C := Tidy) (reconnectRun ⟨.v4 1, 53⟩)
      (fun t => t.streams.map (·.closeQueued) = [false, true]) (by decide +kernel)
    exact ⟨t, ht, by simpa using hp, (session_removed_by_own t {}).1 ht⟩
  · obtain ⟨t, ht, hp⟩ := System.reach_of_run (S := runUdpRelay.system) (C := Tidy)
      (reconnectRun ⟨"client", ⟨.v4 1, 53⟩, "dns:53"⟩)
      (fun t => t.streams.map (·.closeQueued) = [false, true]) (by decide +kernel)
    exact ⟨t, ht, by simpa using hp, (session_removed_by_own {} t).2 ht⟩

/-- In either loop the response task of the first stream removes the entry of the second,
whose connection is alive, and nobody will close it. -/
theorem newer_session_removed :
    (∃ t u key, runSocket.system.Reachable t ∧ runSocket.step (.taskRemove 0) t = some u ∧
      t.sessions.lookup key = some 1 ∧ u.sessions.lookup key = none ∧ ¬ belongs (.taskRemove 0) t key 1 ∧
      ¬ Accounted u) ∧
    (∃ t u key, runUdpRelay.system.Reachable t ∧ runUdpRelay.step (.taskRemove 0) t = some u ∧
      t.sessions.lookup key = some 1 ∧ u.sessions.lookup key = none ∧ ¬ belongs (.taskRemove 0) t key 1 ∧
      ¬ Accounted u) := by
  constructor
  · obtain ⟨t, ht, hp⟩ := System.reach_of_run (S := runSocket.system) (C := fun _ _ => True)
      (overtakenRun ⟨.v4 1, 53⟩)
      (fun t => t.sessions.lookup ⟨.v4 1, 53⟩ = some 1 ∧ ((runSocket.step (.taskRemove 0) t).any fun u =>
        u.sessions.lookup ⟨.v4 1, 53⟩ = none ∧ u.lost 1)) (by decide +kernel)
    simp only [decide_eq_true_eq, Option.any_eq_true] at hp
    obtain ⟨hlookup, u, hu, hnone, hlost⟩ := hp
    exact ⟨t, u, _, ht, hu, hlookup, hnone, by simp [belongs], not_accounted_of_lost hlost⟩
  · obtain ⟨t, ht, hp⟩ := System.reach_of_run (S := runUdpRelay.system) (C := fun _ _ => True)
      (overtakenRun ⟨"client", ⟨.v4 1, 53⟩, "dns:53"⟩)
      (fun t => t.sessions.lookup ⟨"client", ⟨.v4 1, 53⟩, "dns:53"⟩ = some 1 ∧
        ((runUdpRelay.step (.taskRemove 0) t).any fun u =>
          u.sessions.lookup ⟨"client", ⟨.v4 1, 53⟩, "dns:53"⟩ = none ∧ u.lost 1)) (by decide +kernel)
    simp only [decide_eq_true_eq, Option.any_eq_true] at hp
    obtain ⟨hlookup, u, hu, hnone, hlost⟩ := hp
    exact ⟨t, u, _, ht, hu, hlookup, hnone, by simp [belongs], not_accounted_of_lost hlost⟩

end UdpSessions

end Rps.Controller
