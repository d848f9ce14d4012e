import Rps.Controller.UdpSessions
import Rps.Udp.Closing

/-! Datagrams from a client to its target and back.

A loop of the controller and the agents behind it, put together: the loop with its sessions
(`UdpSessions`), and for each connection of an agent the streams on it with the frames in
flight (`State`). Every step of the whole is a step of the loop, a step on a wire, or the
two ends of one call: a stream that is opened, a datagram that is sent, an answer that a
response task takes.

`datagrams_isolated`: in any run, with sweeps, closings, failures and connections that come
and go, the socket opened for a session sends to the target only what was received under the
key of the session, in that order; what goes out to a client is what came in on a socket
that was opened for it, in that order and without a gap; and no two sessions share a socket.
It holds for UDP tunnels and for the relay of the SOCKS5 port alike. -/
namespace Rps.Udp
open Base
open Rps.Core
open Rps.Controller

/-- A session of the loop, with its stream: the connection and the place of the stream on it. -/
structure Place (K : Type) where
  key : K
  link : Nat
  index : Nat
  deriving DecidableEq

/-- A datagram that went out to a client. -/
structure Sent (K : Type) where
  key : K
  session : Nat
  data : Bytes
  deriving DecidableEq

/-- `index` has the places of the loop's streams on their connections. `hand` is the datagram
the loop is busy with, `taken` are those it is done with, and `out` is what was sent to
clients. -/
structure Net (K G : Type) where
  relay : UdpSessions.Relay K G := {}
  wires : List State := []
  index : List Nat := []
  hand : Option (K × Bytes) := none
  taken : List (K × Bytes) := []
  out : List (Sent K) := []

inductive NetAction (K G : Type) where
  | loop (a : UdpSessions.Action K G)
  | drop (a : UdpSessions.Action K G)
  | connect
  | recv (key : K) (now : Nat) (data : Bytes)
  | openSend (m : Nat)
  | openOk (now : Nat)
  | openGiveUp (b : StreamAction)
  | openLost
  | sent
  | taskData (s now : Nat)
  | taskFail (s : Nat)
  | taskEnd (s : Nat)
  | passClose (p : Nat)
  | agent (m : Nat) (a : Action)
  | controllerRead (m : Nat)
  | others (m : Nat) (a : Action)
  deriving DecidableEq

/-- The steps of the loop that no stream takes part in. -/
def alone {K G : Type} : UdpSessions.Action K G → Bool
  | .writerStop _ | .readerStop _ | .recvFail | .shutdown _ | .taskRemove _ | .sweepStart _ | .closeStart _
  | .collect _ _ | .collectEnd _ | .passRemove _ => true
  | _ => false

/-- The steps by which the loop gives a datagram up without a stream. -/
def drops {K G : Type} : UdpSessions.Action K G → Bool
  | .openFail | .sendFail => true
  | _ => false

/-- The steps by which `open_stream` ends without a stream. -/
def givesUp : StreamAction → Bool
  | .response | .closedEarly | .timeout => true
  | _ => false

/-- The steps of the agent. -/
def byAgent : Action → Bool
  | .agentRead => true
  | .stream _ b =>
    match b with
    | .respond | .respondFail | .respondEnd | .sendData _ | .close | .response | .closedEarly | .timeout => false
    | _ => true
  | _ => false

section
variable {K G : Type}

namespace Net

def places (t : Net K G) : List (Place K) :=
  List.zipWith (fun st j => ⟨st.key, st.link, j⟩) t.relay.streams t.index

def stream (t : Net K G) (p : Place K) : Option Stream := t.wires[p.link]?.bind (·.streams[p.index]?)

/-- What has been received under a key. -/
def receivedFrom [DecidableEq K] (t : Net K G) (key : K) : List Bytes :=
  ((t.taken ++ t.hand.toList).filter (·.1 = key)).map (·.2)

/-- What was sent to a client for a session. -/
def sentBy (t : Net K G) (s : Nat) : List Bytes := (t.out.filter (·.session = s)).map (·.data)

/-- The loop is done with its datagram. -/
def settle (t : Net K G) : Net K G := {t with hand := none, taken := t.taken ++ t.hand.toList}

variable [DecidableEq K] [DecidableEq G] (L : UdpSessions.Loop K G) (codec : Codec OpenResponse)

def loopStep (a : UdpSessions.Action K G) (t : Net K G) : Option (Net K G) :=
  (L.step a t.relay).map fun relay => {t with relay := relay}

def wireStep (m : Nat) (a : Action) (t : Net K G) : Option (Net K G) :=
  t.wires[m]?.bind fun w => (Udp.step codec a w).map fun w' => {t with wires := t.wires.set m w'}

/-- A step of the stream of a session. -/
def streamStep (s : Nat) (b : StreamAction) (t : Net K G) : Option (Net K G) :=
  t.places[s]?.bind fun p => t.wireStep codec p.link (.stream p.index b)

/-- The stream the loop waits for or sends on. -/
def current (t : Net K G) : Option Nat :=
  match t.relay.phase with
  | .opening _ s | .sending _ s => some s
  | _ => none

/-- The stream a pass is about to close. -/
def closing (t : Net K G) (p : Nat) : Option Nat := t.relay.passes[p]?.bind (·.closing)

def opener (t : Net K G) (s : Nat) : Option Opener := (t.places[s]?.bind t.stream).map (·.opener)

def inbound (t : Net K G) (s : Nat) : List Bytes := ((t.places[s]?.bind t.stream).map (·.inbound)).getD []

def readerStopped (t : Net K G) (m : Nat) : Bool := (t.relay.links[m]?.map (·.readerStopped)).getD true

/-- What the rest of the controller does on a connection: it opens streams, and acts on those
that are not the loop's. -/
def elsewhere (t : Net K G) (m : Nat) : Action → Bool
  | .openStream => true
  | .stream j _ => t.places.all fun p => !(p.link = m && p.index = j)
  | _ => false

def step (a : NetAction K G) (t : Net K G) : Option (Net K G) :=
  match a with
  | .loop a => if alone a then t.loopStep L a else none
  | .drop a => if drops a then (t.loopStep L a).map settle else none
  | .connect => (t.loopStep L .connect).map fun u => {u with wires := u.wires ++ [{}]}
  | .recv key now data => (t.loopStep L (.recv key now)).map fun u => {u with hand := some (key, data)}
  | .openSend m =>
    t.wires[m]?.bind fun w => (t.loopStep L (.openSend m)).bind fun u =>
      (u.wireStep codec m .openStream).map fun u => {u with index := u.index ++ [w.streams.length]}
  | .openOk now =>
    t.current.bind fun s => (t.loopStep L (.openOk now)).bind fun u => (u.streamStep codec s .response).bind fun u =>
      if u.opener s = some (.opened true) then some u else none
  | .openGiveUp b =>
    t.current.bind fun s => (t.loopStep L .openGiveUp).bind fun u => (u.streamStep codec s b).bind fun u =>
      if givesUp b ∧ u.opener s = some .failed then some u.settle else none
  | .openLost =>
    -- the reader of the connection has stopped, and the channel of the stream with it
    t.current.bind fun s => t.places[s]?.bind fun p =>
      if t.readerStopped p.link then (t.loopStep L .openGiveUp).map settle else none
  | .sent =>
    t.current.bind fun s => t.hand.bind fun d => (t.loopStep L .sent).bind fun u =>
      (u.streamStep codec s (.sendData d.2)).map settle
  | .taskData s now =>
    t.places[s]?.bind fun p =>
      match t.inbound s with
      | [] => none
      | m :: _ => (t.loopStep L (.taskData s now)).bind fun u =>
        (u.streamStep codec s .respond).map fun u => {u with out := u.out ++ [⟨p.key, s, m⟩]}
  | .taskFail s => (t.loopStep L (.taskFail s)).bind (streamStep codec s .respondFail)
  | .taskEnd s =>
    if t.inbound s = [] then (t.loopStep L (.taskEnd s)).map fun u => (u.streamStep codec s .respondEnd).getD u
    else none
  | .passClose p =>
    (t.closing p).bind fun s => (t.loopStep L (.passClose p)).map fun u =>
      if (t.relay.link? s).any (·.writerStopped) then u else (u.streamStep codec s .close).getD u
  | .agent m a => if byAgent a then t.wireStep codec m a else none
  | .controllerRead m =>
    if t.readerStopped m then none
    else (t.wireStep codec m .controllerRead).bind fun u =>
      match t.wires[m]?.bind (·.toController.head?) with
      | some (j, .close) =>
        match t.places.findIdx? fun p => p.link = m && p.index = j with
        | some s => u.loopStep L (.agentClose s)
        | none => some u
      | _ => some u
  | .others m a => if t.elsewhere m a then t.wireStep codec m a else none

def system : System (Net K G) (NetAction K G) where
  init := {}
  step := step L codec

end Net

end

/-! ### One stream -/

section
variable {codec : Codec OpenResponse}

/-- What has come to the agent or is on its way to it was sent, in that order. -/
def Uplinked (v : View) (sent : List Bytes) : Prop :=
  (v.stream.relayed ++ (v.stream.agentInbound ++ payloads v.up)).Sublist sent

theorem uplinked_up {s : Stream} {up down : List Frame} {f : Frame} {sent : List Bytes}
    (h : Uplinked ⟨s, f :: up, down⟩ sent) : Uplinked ⟨s.onUp f, up, down⟩ sent := by
  refine List.Sublist.trans ?_ h
  cases f with
  | «open» => exact List.Sublist.refl _
  | close => exact List.Sublist.refl _
  | data payload =>
    cases hentry : s.agentEntry with
    | true => simp [Stream.onUp, hentry, payloads]
    | false =>
      rw [show s.onUp (.data payload) = s by simp [Stream.onUp, hentry]]
      exact (List.Sublist.refl _).append ((List.Sublist.refl _).append (List.sublist_cons_self _ _))

/-- A step that sends nothing to the agent sends it nothing new. -/
theorem uplinked_local {k : Nat} {a : Action} {v v' : View} {sent : List Bytes} (h : Uplinked v sent)
    (hstep : Local codec k a v v') (ha : ∀ data, a ≠ .stream k (.sendData data)) : Uplinked v' sent := by
  cases hstep with
  | other _ _ => exact h
  | down s up down f =>
    obtain ⟨entry, inbound, hdown⟩ := s.onDown_eq f
    rw [hdown]
    exact h
  | up s up down f => exact uplinked_up h
  | @act s up down b r hacts =>
    cases hacts with
    | sendData data _ => exact absurd rfl (ha data)
    | uplink _ hinbound =>
      unfold Uplinked at h ⊢
      simpa [hinbound] using h
    | uplinkFail _ hinbound =>
      refine List.Sublist.trans ?_ h
      simp only [List.append_nil, hinbound]
      exact (List.Sublist.refl _).append ((List.sublist_cons_self _ _).append (List.Sublist.refl _))
    | close _ =>
      unfold Uplinked at h ⊢
      simpa [payloads_append, payloads] using h
    | _ =>
      unfold Uplinked at h ⊢
      simpa using h

theorem uplinked_sendData {k : Nat} {data : Bytes} {v v' : View} {sent : List Bytes} (h : Uplinked v sent)
    (hstep : Local codec k (.stream k (.sendData data)) v v') : Uplinked v' (sent ++ [data]) := by
  cases hstep with
  | other _ hother => exact absurd rfl (hother _)
  | act hacts =>
    cases hacts with
    | sendData _ _ =>
      unfold Uplinked at h ⊢
      simp only [payloads_append, payloads, ← List.append_assoc] at h ⊢
      exact h.append (List.Sublist.refl _)

theorem forwarded_local {k : Nat} {a : Action} {v v' : View} (hstep : Local codec k a v v')
    (ha : a ≠ .stream k .respond) : v'.stream.forwarded = v.stream.forwarded := by
  cases hstep with
  | other _ _ => rfl
  | down s up down f =>
    obtain ⟨entry, inbound, hdown⟩ := s.onDown_eq f
    rw [hdown]
  | up s up down f =>
    cases f with
    | «open» => rfl
    | close => rfl
    | data payload =>
      show (s.onUp (.data payload)).forwarded = s.forwarded
      cases hentry : s.agentEntry <;> simp [Stream.onUp, hentry]
  | act hacts =>
    cases hacts with
    | respond _ _ => exact absurd rfl ha
    | _ => rfl

theorem forwarded_respond {k : Nat} {v v' : View} (hstep : Local codec k (.stream k .respond) v v') :
    ∃ m rest, v.stream.inbound = m :: rest ∧ v'.stream.forwarded = v.stream.forwarded ++ [m] := by
  cases hstep with
  | other _ hother => exact absurd rfl (hother _)
  | act hacts =>
    cases hacts with
    | respond _ hinbound => exact ⟨_, _, hinbound, rfl⟩

/-! ### All streams -/

variable {K : Type}

/-- The stream at a place, with the frames in flight for it. -/
def viewAt (wires : List State) (p : Place K) : Option View :=
  wires[p.link]?.bind fun w => w.streams[p.index]?.map (w.view p.index)

theorem viewAt_eq_some {wires : List State} {p : Place K} {v : View} :
    viewAt wires p = some v ↔
      ∃ w s, wires[p.link]? = some w ∧ w.streams[p.index]? = some s ∧ v = w.view p.index s := by
  unfold viewAt
  constructor
  · intro h
    obtain ⟨w, hw, h⟩ := Option.bind_eq_some_iff.mp h
    obtain ⟨s, hs, rfl⟩ := Option.map_eq_some_iff.mp h
    exact ⟨w, s, hw, hs, rfl⟩
  · intro h
    obtain ⟨w, s, hw, hs, rfl⟩ := h
    rw [hw, Option.bind_some, hs, Option.map_some]

/-- A step on a wire is a step of each stream on it, and leaves the other wires alone. -/
theorem viewAt_set {wires : List State} {m : Nat} {w w' : State} {a : Action} (hw : wires[m]? = some w)
    (hstep : step codec a w = some w') {p : Place K} {v' : View} (hv' : viewAt (wires.set m w') p = some v') :
    (a = .openStream ∧ p.link = m ∧ p.index = w.streams.length ∧
        v' = ⟨{}, flight p.index w.toAgent ++ [.open], flight p.index w.toController⟩) ∨
      ∃ v, viewAt wires p = some v ∧ (v' = v ∧ p.link ≠ m ∨ p.link = m ∧ Local codec p.index a v v') := by
  obtain ⟨x, s', hx, hs', rfl⟩ := viewAt_eq_some.mp hv'
  rw [Heap.get_set hw] at hx
  split at hx
  · rename_i hm
    obtain rfl := Option.some.inj hx
    rcases step_local hstep hs' with ⟨hopen, hindex, rfl, hup, hdown⟩ | ⟨s, hs, hlocal⟩
    · refine .inl ⟨hopen, hm, hindex, ?_⟩
      rw [State.view, hup, hdown, flight_append, flight_cons, if_pos rfl, flight_nil]
    · exact .inr ⟨w.view p.index s, viewAt_eq_some.mpr ⟨w, s, hm ▸ hw, hs, rfl⟩, .inr ⟨hm, hlocal⟩⟩
  · rename_i hm
    exact .inr ⟨_, viewAt_eq_some.mpr ⟨x, s', hx, hs', rfl⟩, .inl ⟨rfl, hm⟩⟩

/-- A stream that is there stays. -/
theorem viewAt_set_some {wires : List State} {m : Nat} {w w' : State} (hw : wires[m]? = some w) {a : Action} (hstep : step codec a w = some w') {p : Place K} {v : View}
    (hv : viewAt wires p = some v) : ∃ v', viewAt (wires.set m w') p = some v' := by
  obtain ⟨x, s, hx, hs, rfl⟩ := viewAt_eq_some.mp hv
  by_cases hm : p.link = m
  · obtain rfl : w = x := Option.some.inj (hw.symm.trans (hm ▸ hx))
    have hlt : p.index < w'.streams.length :=
      lt_of_lt_of_le (List.getElem?_eq_some_iff.mp hs).1 (step_length hstep).1
    refine ⟨_, viewAt_eq_some.mpr ⟨w', w'.streams[p.index], ?_, List.getElem?_eq_getElem hlt, rfl⟩⟩
    rw [Heap.get_set hw, if_pos hm]
  · refine ⟨_, viewAt_eq_some.mpr ⟨x, s, ?_, hs, rfl⟩⟩
    rw [Heap.get_set hw, if_neg hm]
    exact hx

variable [DecidableEq K]

def takenFrom (taken : List (K × Bytes)) (key : K) : List Bytes := (taken.filter (·.1 = key)).map (·.2)

def sentFor (out : List (Sent K)) (s : Nat) : List Bytes := (out.filter (·.session = s)).map (·.data)

/-- What holds of the sessions, wherever the loop stands: each has a stream of its own, on
which went only what was taken under its key, and from which came all that was sent out for
it. -/
structure Apart (codec : Codec OpenResponse) (places : List (Place K)) (wires : List State)
    (taken : List (K × Bytes)) (out : List (Sent K)) : Prop where
  ran : ∀ (m : Nat) (w : State), wires[m]? = some w → (system codec).Reachable w
  placed : ∀ (s : Nat) (p : Place K), places[s]? = some p → ∃ v, viewAt wires p = some v
  distinct : ∀ (s s' : Nat) (p p' : Place K), places[s]? = some p → places[s']? = some p' → p.link = p'.link → p.index = p'.index → s = s'
  uplinked : ∀ (s : Nat) (p : Place K) (v : View), places[s]? = some p → viewAt wires p = some v → Uplinked v (takenFrom taken p.key)
  forwarded : ∀ (s : Nat) (p : Place K) (v : View), places[s]? = some p → viewAt wires p = some v → sentFor out s = v.stream.forwarded
  keys : ∀ o ∈ out, ∃ p, places[o.session]? = some p ∧ p.key = o.key

theorem takenFrom_append (taken more : List (K × Bytes)) (key : K) :
    takenFrom (taken ++ more) key = takenFrom taken key ++ takenFrom more key := by
  simp [takenFrom]

section Apart
variable {places : List (Place K)} {wires : List State} {taken : List (K × Bytes)} {out : List (Sent K)}
  {m : Nat} {w w' : State}

theorem apart_init : Apart codec ([] : List (Place K)) [] [] [] where
  ran := by simp
  placed := by simp
  distinct := by simp
  uplinked := by simp
  forwarded := by simp
  keys := by simp

theorem Apart.take (h : Apart codec places wires taken out) (more : List (K × Bytes)) :
    Apart codec places wires (taken ++ more) out where
  ran := h.ran
  placed := h.placed
  distinct := h.distinct
  uplinked := by
    intro s p v hp hv
    rw [takenFrom_append]
    exact (h.uplinked s p v hp hv).trans (List.sublist_append_left _ _)
  forwarded := h.forwarded
  keys := h.keys

theorem Apart.ran_set (h : Apart codec places wires taken out) (hw : wires[m]? = some w) {a : Action}
    (hstep : step codec a w = some w') (m' : Nat) (x : State) (hx : (wires.set m w')[m']? = some x) :
    (system codec).Reachable x := by
  rw [Heap.get_set hw] at hx
  split at hx
  · obtain rfl := Option.some.inj hx
    exact (h.ran m w hw).step trivial hstep
  · exact h.ran m' x hx

/-- The places that were there are not fresh on the wire. -/
theorem Apart.not_fresh (h : Apart codec places wires taken out) (hw : wires[m]? = some w) {s : Nat} {p : Place K}
    (hp : places[s]? = some p) (hm : p.link = m) : p.index < w.streams.length := by
  obtain ⟨v, hv⟩ := h.placed s p hp
  obtain ⟨x, s', hx, hs', -⟩ := viewAt_eq_some.mp hv
  obtain rfl : w = x := Option.some.inj (hw.symm.trans (hm ▸ hx))
  exact (List.getElem?_eq_some_iff.mp hs').1

/-- What a step on a wire is to a session. -/
theorem Apart.view_cases (h : Apart codec places wires taken out) (hw : wires[m]? = some w) {a : Action}
    (hstep : step codec a w = some w') {s : Nat} {p : Place K} {v' : View} (hp : places[s]? = some p)
    (hv' : viewAt (wires.set m w') p = some v') :
    ∃ v, viewAt wires p = some v ∧ (v' = v ∧ p.link ≠ m ∨ p.link = m ∧ Local codec p.index a v v') := by
  rcases viewAt_set hw hstep hv' with ⟨-, hm, hindex, -⟩ | hv
  · have hlt := h.not_fresh hw hp hm
    omega
  · exact hv

/-- A step on a wire, by which no session sends and none gets an answer. -/
theorem Apart.wire (h : Apart codec places wires taken out) (hw : wires[m]? = some w) {a : Action}
    (hstep : step codec a w = some w')
    (hquiet : ∀ p ∈ places, p.link = m → (∀ data, a ≠ .stream p.index (.sendData data)) ∧ a ≠ .stream p.index .respond) :
    Apart codec places (wires.set m w') taken out where
  ran := h.ran_set hw hstep
  placed := by
    intro s p hp
    obtain ⟨v, hv⟩ := h.placed s p hp
    exact viewAt_set_some hw hstep hv
  distinct := h.distinct
  uplinked := by
    intro s p v' hp hv'
    obtain ⟨v, hv, ⟨rfl, -⟩ | ⟨hm, hlocal⟩⟩ := h.view_cases hw hstep hp hv'
    · exact h.uplinked s p v' hp hv
    · exact uplinked_local (h.uplinked s p v hp hv) hlocal (hquiet p (List.mem_of_getElem? hp) hm).1
  forwarded := by
    intro s p v' hp hv'
    obtain ⟨v, hv, ⟨rfl, -⟩ | ⟨hm, hlocal⟩⟩ := h.view_cases hw hstep hp hv'
    · exact h.forwarded s p v' hp hv
    · rw [forwarded_local hlocal (hquiet p (List.mem_of_getElem? hp) hm).2]
      exact h.forwarded s p v hp hv
  keys := h.keys

/-- The loop sends a datagram of the session's own key. -/
theorem Apart.send (h : Apart codec places wires taken out) {s : Nat} {p : Place K} (hp : places[s]? = some p)
    (hw : wires[p.link]? = some w) {data : Bytes} (hstep : step codec (.stream p.index (.sendData data)) w = some w') :
    Apart codec places (wires.set p.link w') (taken ++ [(p.key, data)]) out where
  ran := h.ran_set hw hstep
  placed := by
    intro s p hp
    obtain ⟨v, hv⟩ := h.placed s p hp
    exact viewAt_set_some hw hstep hv
  distinct := h.distinct
  uplinked := by
    intro s' q v' hq hv'
    rw [takenFrom_append]
    obtain ⟨v, hv, ⟨rfl, -⟩ | ⟨hm, hlocal⟩⟩ := h.view_cases hw hstep hq hv'
    · exact (h.uplinked s' q v' hq hv).trans (List.sublist_append_left _ _)
    · by_cases hindex : q.index = p.index
      · obtain rfl := h.distinct s' s q p hq hp hm hindex
        obtain rfl : p = q := Option.some.inj (hp.symm.trans hq)
        have hdata : takenFrom [(p.key, data)] p.key = [data] := by simp [takenFrom]
        rw [hdata]
        exact uplinked_sendData (h.uplinked s' p v hp hv) hlocal
      · refine List.Sublist.trans (uplinked_local (h.uplinked s' q v hq hv) hlocal fun _ heq => ?_)
          (List.sublist_append_left _ _)
        exact hindex (Action.stream.inj heq).1.symm
  forwarded := by
    intro s' q v' hq hv'
    obtain ⟨v, hv, ⟨rfl, -⟩ | ⟨-, hlocal⟩⟩ := h.view_cases hw hstep hq hv'
    · exact h.forwarded s' q v' hq hv
    · rw [forwarded_local hlocal (by simp)]
      exact h.forwarded s' q v hq hv
  keys := h.keys

omit [DecidableEq K] in
theorem sentFor_append (out : List (Sent K)) (o : Sent K) (s : Nat) :
    sentFor (out ++ [o]) s = sentFor out s ++ if o.session = s then [o.data] else [] := by
  unfold sentFor
  rw [List.filter_append, List.map_append]
  by_cases h : o.session = s <;> simp [h]

/-- A response task sends what it took from the session's own stream. -/
theorem Apart.respond (h : Apart codec places wires taken out) {s : Nat} {p : Place K} (hp : places[s]? = some p)
    (hw : wires[p.link]? = some w) (hstep : step codec (.stream p.index .respond) w = some w') {x : Stream}
    (hx : w.streams[p.index]? = some x) {data : Bytes} {rest : List Bytes} (hdata : x.inbound = data :: rest) :
    Apart codec places (wires.set p.link w') taken (out ++ [⟨p.key, s, data⟩]) where
  ran := h.ran_set hw hstep
  placed := by
    intro s p hp
    obtain ⟨v, hv⟩ := h.placed s p hp
    exact viewAt_set_some hw hstep hv
  distinct := h.distinct
  uplinked := by
    intro s' q v' hq hv'
    obtain ⟨v, hv, ⟨rfl, -⟩ | ⟨-, hlocal⟩⟩ := h.view_cases hw hstep hq hv'
    · exact h.uplinked s' q v' hq hv
    · exact uplinked_local (h.uplinked s' q v hq hv) hlocal (by simp)
  forwarded := by
    intro s' q v' hq hv'
    rw [sentFor_append]
    obtain ⟨v, hv, hv' | ⟨hm, hlocal⟩⟩ := h.view_cases hw hstep hq hv'
    · obtain ⟨rfl, hm⟩ := hv'
      have hne : s ≠ s' := by
        rintro rfl
        obtain rfl : p = q := Option.some.inj (hp.symm.trans hq)
        exact hm rfl
      rw [if_neg hne, List.append_nil]
      exact h.forwarded s' q v' hq hv
    · by_cases hindex : q.index = p.index
      · obtain rfl := h.distinct s' s q p hq hp hm hindex
        obtain rfl : p = q := Option.some.inj (hp.symm.trans hq)
        obtain ⟨y, z, hy, hz, rfl⟩ := viewAt_eq_some.mp hv
        obtain rfl : w = y := Option.some.inj (hw.symm.trans hy)
        obtain rfl : x = z := Option.some.inj (hx.symm.trans hz)
        obtain ⟨m', rest', hinbound, hforwarded⟩ := forwarded_respond hlocal
        obtain rfl : m' = data := (List.cons.inj (hinbound.symm.trans hdata)).1
        rw [if_pos rfl, hforwarded, h.forwarded s' p _ hp hv]
      · have hne : s ≠ s' := by
          rintro rfl
          obtain rfl : p = q := Option.some.inj (hp.symm.trans hq)
          exact hindex rfl
        rw [if_neg hne, List.append_nil, forwarded_local hlocal ?_]
        · exact h.forwarded s' q v hq hv
        · intro heq
          exact hindex (Action.stream.inj heq).1.symm
  keys := by
    intro o ho
    rw [List.mem_append, List.mem_singleton] at ho
    rcases ho with ho | rfl
    · exact h.keys o ho
    · exact ⟨p, hp, rfl⟩

/-- A stream that is opened gets a place of its own. -/
theorem Apart.openStream (h : Apart codec places wires taken out) (hw : wires[m]? = some w)
    (hstep : step codec .openStream w = some w') (key : K) :
    Apart codec (places ++ [⟨key, m, w.streams.length⟩]) (wires.set m w') taken out := by
  have hold := h.wire hw hstep (by simp)
  have hplace {s : Nat} {p : Place K} (hp : (places ++ [⟨key, m, w.streams.length⟩])[s]? = some p) :
      places[s]? = some p ∨ s = places.length ∧ p = ⟨key, m, w.streams.length⟩ := by
    rw [Heap.get_push] at hp
    split at hp
    · exact .inr ⟨‹_›, (Option.some.inj hp).symm⟩
    · exact .inl hp
  have hunsent : ∀ o ∈ out, o.session ≠ places.length := by
    intro o ho heq
    obtain ⟨p, hp, -⟩ := h.keys o ho
    exact absurd (List.getElem?_eq_some_iff.mp hp).1 (by omega)
  have hview {v : View} (hv : viewAt (wires.set m w') (⟨key, m, w.streams.length⟩ : Place K) = some v) :
      v = ⟨{}, [.open], []⟩ := by
    rcases viewAt_set hw hstep hv with ⟨-, -, -, rfl⟩ | ⟨v₀, hv₀, -⟩
    · have haddressed := addressed_reachable (h.ran m w hw)
      rw [flight_eq_nil fun q hq => Nat.ne_of_lt (haddressed q (List.mem_append_left _ hq)),
        flight_eq_nil fun q hq => Nat.ne_of_lt (haddressed q (List.mem_append_right _ hq))]
      rfl
    · obtain ⟨x, s, hx, hs, -⟩ := viewAt_eq_some.mp hv₀
      obtain rfl : w = x := Option.some.inj (hw.symm.trans hx)
      exact absurd (List.getElem?_eq_some_iff.mp hs).1 (lt_irrefl _)
  refine ⟨hold.ran, ?_, ?_, ?_, ?_, ?_⟩
  · intro s p hp
    rcases hplace hp with hp | ⟨-, rfl⟩
    · exact hold.placed s p hp
    · obtain rfl : { w with streams := w.streams ++ [{}], toAgent := w.toAgent ++ [(w.streams.length, .open)] } = w' := by
        simpa [Udp.step] using hstep
      exact ⟨_, viewAt_eq_some.mpr ⟨_, {}, by rw [Heap.get_set hw, if_pos rfl], by simp, rfl⟩⟩
  · intro s s' p p' hp hp' hlink hindex
    rcases hplace hp with hp | ⟨hs, rfl⟩
    · rcases hplace hp' with hp' | ⟨-, rfl⟩
      · exact h.distinct s s' p p' hp hp' hlink hindex
      · exact absurd (h.not_fresh hw hp hlink) (by rw [hindex]; exact lt_irrefl _)
    · rcases hplace hp' with hp' | ⟨hs', -⟩
      · exact absurd (h.not_fresh hw hp' hlink.symm) (by rw [← hindex]; exact lt_irrefl _)
      · exact hs.trans hs'.symm
  · intro s p v hp hv
    rcases hplace hp with hp | ⟨-, rfl⟩
    · exact hold.uplinked s p v hp hv
    · rw [hview hv]
      exact List.nil_sublist _
  · intro s p v hp hv
    rcases hplace hp with hp | ⟨rfl, rfl⟩
    · exact hold.forwarded s p v hp hv
    · rw [hview hv, sentFor, List.filter_eq_nil_iff.mpr fun o ho => by simpa using hunsent o ho]
      rfl
  · intro o ho
    obtain ⟨p, hp, hkey⟩ := h.keys o ho
    exact ⟨p, Heap.get_push_of_some hp, hkey⟩

/-- An agent connects. -/
theorem Apart.connect (h : Apart codec places wires taken out) : Apart codec places (wires ++ [({} : State)]) taken out := by
  have hview {s : Nat} {p : Place K} {v : View} (hp : places[s]? = some p) (hv : viewAt (wires ++ [({} : State)]) p = some v) :
      viewAt wires p = some v := by
    obtain ⟨v', hv'⟩ := h.placed s p hp
    obtain ⟨w, x, hw, hx, rfl⟩ := viewAt_eq_some.mp hv'
    obtain ⟨w', x', hw', hx', rfl⟩ := viewAt_eq_some.mp hv
    obtain rfl : w = w' := Option.some.inj ((Heap.get_push_of_some hw).symm.trans hw')
    exact viewAt_eq_some.mpr ⟨w, x', hw, hx', rfl⟩
  refine ⟨?_, ?_, h.distinct, fun s p v hp hv => h.uplinked s p v hp (hview hp hv),
    fun s p v hp hv => h.forwarded s p v hp (hview hp hv), h.keys⟩
  · intro m w hw
    rw [Heap.get_push] at hw
    split at hw
    · obtain rfl := Option.some.inj hw
      exact .refl
    · exact h.ran m w hw
  · intro s p hp
    obtain ⟨v, hv⟩ := h.placed s p hp
    obtain ⟨w, x, hw, hx, rfl⟩ := viewAt_eq_some.mp hv
    exact ⟨_, viewAt_eq_some.mpr ⟨w, x, Heap.get_push_of_some hw, hx, rfl⟩⟩

end Apart

end

/-! ### The loop -/

section
variable {K G : Type} [DecidableEq K] [DecidableEq G] {L : UdpSessions.Loop K G}

/-- The key and the connection of a stream. -/
def route (st : UdpSessions.Stream K) : K × Nat := (st.key, st.link)

omit [DecidableEq K] [DecidableEq G] in
theorem routes_modify (t : UdpSessions.Relay K G) (s : Nat) {f : UdpSessions.Stream K → UdpSessions.Stream K}
    (hf : ∀ st, route (f st) = route st) : (t.modifyStream s f).streams.map route = t.streams.map route := by
  apply List.ext_getElem?
  intro n
  rw [List.getElem?_map, List.getElem?_map, UdpSessions.get_modifyStream]
  split
  · rw [Option.map_map]
    congr 1
    exact funext hf
  · rfl

/-- Only `openSend` makes a stream, and none changes its key or its connection. -/
theorem moves_routes {a : UdpSessions.Action K G} {t u : UdpSessions.Relay K G} (h : UdpSessions.Moves L t a u) :
    u.streams.map route = t.streams.map route ∨
      ∃ m key, a = .openSend m ∧ t.phase = .missing key ∧ u.streams = t.streams ++ [{ key := key, link := m }] := by
  cases h with
  | openSend key m l hphase _ _ => exact .inr ⟨m, key, rfl, hphase, rfl⟩
  | recvHit _ _ _ _ _ | openOk _ _ _ _ | agentClose _ | taskData _ _ _ _ _ | taskFail _ _ _ _
  | taskEnd _ _ _ _ _ _ _ | taskRemove _ _ _ _ | passClose _ _ _ _ _ _ _ _ =>
    exact .inl (routes_modify t _ fun _ => rfl)
  | _ => exact .inl rfl

/-- The key of the datagram the loop is busy with. -/
def Held (phase : UdpSessions.Phase K) (key : K) : Prop :=
  phase = .missing key ∨ ∃ s, phase = .opening key s ∨ phase = .sending key s

omit [DecidableEq K] [DecidableEq G] in
theorem not_held_afterError (key : K) : ¬ Held L.afterError key := by
  rcases UdpSessions.afterError_eq L with h | h <;> simp [Held, h]

/-- The loop takes a datagram in hand by `recv` alone. -/
theorem moves_held {a : UdpSessions.Action K G} {t u : UdpSessions.Relay K G} (h : UdpSessions.Moves L t a u) {key : K}
    (hheld : Held u.phase key) : Held t.phase key ∨ ∃ now, a = .recv key now := by
  cases h with
  | recvHit key' now s _ _ =>
    obtain rfl : key' = key := by simpa [Held] using hheld
    exact .inr ⟨now, rfl⟩
  | recvMiss key' now _ _ =>
    obtain rfl : key' = key := by simpa [Held] using hheld
    exact .inr ⟨now, rfl⟩
  | openSend key' m l hphase _ _ =>
    obtain rfl : key' = key := by simpa [Held] using hheld
    exact .inl (.inl hphase)
  | openOk key' s now hphase =>
    obtain rfl : key' = key := by simpa [Held] using hheld
    exact .inl (.inr ⟨s, .inl hphase⟩)
  | recvFail _ | openFail _ _ | openGiveUp _ _ _ => exact absurd hheld (not_held_afterError key)
  | sent _ _ _ | sendFail _ _ _ _ _ _ | shutdown _ _ _ => simp [Held] at hheld
  | _ => exact .inl hheld

/-- The steps by which the loop is done with its datagram. -/
def settles : UdpSessions.Action K G → Bool
  | .openFail | .openGiveUp | .sent | .sendFail => true
  | _ => false

theorem moves_settled {a : UdpSessions.Action K G} {t u : UdpSessions.Relay K G} (h : UdpSessions.Moves L t a u)
    (ha : settles a = true) (key : K) : ¬ Held u.phase key := by
  cases h with
  | openFail _ _ | openGiveUp _ _ _ => exact not_held_afterError key
  | sent _ _ _ | sendFail _ _ _ _ _ _ => simp [Held]
  | _ => cases ha

/-- What the loop sends on it found in the map, or has just had opened. -/
theorem moves_sending {a : UdpSessions.Action K G} {t u : UdpSessions.Relay K G} (h : UdpSessions.Moves L t a u)
    {key : K} {s : Nat} (hphase : u.phase = .sending key s) :
    t.phase = .sending key s ∨ t.phase = .opening key s ∨ t.sessions.lookup key = some s := by
  cases h with
  | recvHit key' now s' _ hlookup =>
    obtain ⟨rfl, rfl⟩ : key' = key ∧ s' = s := by simpa using hphase
    exact .inr (.inr hlookup)
  | openOk key' s' now hopening =>
    obtain ⟨rfl, rfl⟩ : key' = key ∧ s' = s := by simpa using hphase
    exact .inr (.inl hopening)
  | recvMiss _ _ _ _ | openSend _ _ _ _ _ _ | sent _ _ _ | sendFail _ _ _ _ _ _ | shutdown _ _ _ => cases hphase
  | recvFail _ | openFail _ _ | openGiveUp _ _ _ => exact absurd (.inr ⟨s, .inr hphase⟩) (not_held_afterError key)
  | _ => exact .inl hphase

/-! ### The whole -/

variable {codec : Codec OpenResponse}

namespace Net

/-- The loop knows its sessions by their keys and has a datagram of the key it is busy with. -/
structure Inv (L : UdpSessions.Loop K G) (codec : Codec OpenResponse) (t : Net K G) : Prop where
  keyed : UdpSessions.Keyed L t.relay
  sending : ∀ key s, t.relay.phase = .sending key s → ∃ st, t.relay.streams[s]? = some st ∧ st.key = key
  held : ∀ key, Held t.relay.phase key → ∃ data, t.hand = some (key, data)
  length : t.index.length = t.relay.streams.length
  apart : Apart codec t.places t.wires t.taken t.out

omit [DecidableEq G] in
theorem inv_init : Inv L codec {} where
  keyed := UdpSessions.keyed_init L
  sending := by simp
  held := by simp [Held]
  length := rfl
  apart := apart_init

omit [DecidableEq K] [DecidableEq G] in
theorem places_eq (t : Net K G) :
    t.places = List.zipWith (fun r j => ⟨r.1, r.2, j⟩) (t.relay.streams.map route) t.index := by
  rw [places, List.zipWith_map_left]
  rfl

omit [DecidableEq K] [DecidableEq G] in
theorem places_key {t : Net K G} {s : Nat} {p : Place K} (hp : t.places[s]? = some p) {st : UdpSessions.Stream K}
    (hst : t.relay.streams[s]? = some st) : p.key = st.key := by
  obtain ⟨st', j, hst', -, rfl⟩ := List.getElem?_zipWith_eq_some.mp hp
  obtain rfl : st = st' := Option.some.inj (hst.symm.trans hst')
  rfl

/-- What every step of the loop keeps. -/
theorem Inv.known {t : Net K G} (h : Inv L codec t) {a : UdpSessions.Action K G} {relay : UdpSessions.Relay K G}
    (hstep : L.step a t.relay = some relay) : UdpSessions.Keyed L relay ∧
      ∀ key s, relay.phase = .sending key s → ∃ st, relay.streams[s]? = some st ∧ st.key = key := by
  have hmoves := UdpSessions.step_moves hstep
  refine ⟨UdpSessions.step_keyed h.keyed hstep, fun key s hphase => ?_⟩
  have hkeep : (∃ st, t.relay.streams[s]? = some st ∧ st.key = key) → ∃ st, relay.streams[s]? = some st ∧ st.key = key := by
    intro hst
    obtain ⟨st, hst, hkey⟩ := hst
    obtain ⟨st', hst', hkey'⟩ := UdpSessions.moves_streams hmoves hst
    exact ⟨st', hst', hkey'.trans hkey⟩
  rcases moves_sending hmoves hphase with hold | hold | hold
  · exact hkeep (h.sending key s hold)
  · exact hkeep (h.keyed.opening key s hold)
  · exact hkeep (h.keyed.entry key s hold)

/-- What it keeps if it opens no stream. -/
theorem Inv.places {t : Net K G} (h : Inv L codec t) {a : UdpSessions.Action K G} {relay : UdpSessions.Relay K G}
    (hstep : L.step a t.relay = some relay) (hopen : ∀ m, a ≠ .openSend m) :
    t.index.length = relay.streams.length ∧ ({t with relay := relay} : Net K G).places = t.places := by
  have hroutes : relay.streams.map route = t.relay.streams.map route := by
    rcases moves_routes (UdpSessions.step_moves hstep) with hroutes | ⟨m, key, rfl, -, -⟩
    · exact hroutes
    · exact absurd rfl (hopen m)
  constructor
  · have hlength := congrArg List.length hroutes
    simp only [List.length_map] at hlength
    exact h.length.trans hlength.symm
  · rw [places_eq, places_eq]
    exact congrArg (List.zipWith _ · t.index) hroutes

theorem Inv.loop {t : Net K G} (h : Inv L codec t) {a : UdpSessions.Action K G} {relay : UdpSessions.Relay K G}
    (hstep : L.step a t.relay = some relay) (hopen : ∀ m, a ≠ .openSend m) (hrecv : ∀ key now, a ≠ .recv key now) :
    Inv L codec {t with relay := relay} := by
  obtain ⟨hkeyed, hsending⟩ := h.known hstep
  obtain ⟨hlength, hplaces⟩ := h.places hstep hopen
  refine ⟨hkeyed, hsending, fun key hheld => ?_, hlength, hplaces ▸ h.apart⟩
  rcases moves_held (UdpSessions.step_moves hstep) hheld with hold | ⟨now, rfl⟩
  · exact h.held key hold
  · exact absurd rfl (hrecv key now)

omit [DecidableEq G] in
theorem Inv.settle {t : Net K G} (h : Inv L codec t) (hfree : ∀ key, ¬ Held t.relay.phase key) : Inv L codec t.settle where
  keyed := h.keyed
  sending := h.sending
  held := fun key hheld => absurd hheld (hfree key)
  length := h.length
  apart := h.apart.take _

omit [DecidableEq G] in
theorem Inv.wire {t : Net K G} (h : Inv L codec t) {m : Nat} {a : Action} {u : Net K G}
    (hstep : t.wireStep codec m a = some u)
    (hquiet : ∀ p ∈ t.places, p.link = m → (∀ data, a ≠ .stream p.index (.sendData data)) ∧ a ≠ .stream p.index .respond) :
    Inv L codec u ∧ u.relay = t.relay := by
  obtain ⟨w, hw, hstep⟩ := Option.bind_eq_some_iff.mp hstep
  obtain ⟨w', hw', rfl⟩ := Option.map_eq_some_iff.mp hstep
  exact ⟨⟨h.keyed, h.sending, h.held, h.length, h.apart.wire hw hw' hquiet⟩, rfl⟩

omit [DecidableEq G] in
theorem Inv.ofStream {t : Net K G} (h : Inv L codec t) {s : Nat} {b : StreamAction} {u : Net K G}
    (hstep : t.streamStep codec s b = some u) (hsend : ∀ data, b ≠ .sendData data) (hrespond : b ≠ .respond) :
    Inv L codec u ∧ u.relay = t.relay := by
  obtain ⟨p, -, hstep⟩ := Option.bind_eq_some_iff.mp hstep
  refine h.wire hstep fun q _ _ => ⟨fun data heq => ?_, fun heq => ?_⟩
  · exact hsend data (Action.stream.inj heq).2
  · exact hrespond (Action.stream.inj heq).2

omit [DecidableEq G] in
/-- A step of a stream, if it can be made. -/
theorem Inv.getD {t : Net K G} (h : Inv L codec t) (s : Nat) {b : StreamAction} (hsend : ∀ data, b ≠ .sendData data)
    (hrespond : b ≠ .respond) : Inv L codec ((t.streamStep codec s b).getD t) := by
  cases hstep : t.streamStep codec s b with
  | none => exact h
  | some u => exact (h.ofStream hstep hsend hrespond).1

theorem loopStep_eq_some {t u : Net K G} {a : UdpSessions.Action K G} (h : t.loopStep L a = some u) :
    ∃ relay, L.step a t.relay = some relay ∧ u = {t with relay := relay} := by
  obtain ⟨relay, hrelay, rfl⟩ := Option.map_eq_some_iff.mp h
  exact ⟨relay, hrelay, rfl⟩

theorem Inv.loopStep {t u : Net K G} (h : Inv L codec t) {a : UdpSessions.Action K G} (hstep : t.loopStep L a = some u)
    (hopen : ∀ m, a ≠ .openSend m) (hrecv : ∀ key now, a ≠ .recv key now) :
    Inv L codec u ∧ (settles a = true → ∀ key, ¬ Held u.relay.phase key) := by
  obtain ⟨relay, hrelay, rfl⟩ := loopStep_eq_some hstep
  exact ⟨h.loop hrelay hopen hrecv, fun ha => moves_settled (UdpSessions.step_moves hrelay) ha⟩

theorem Inv.recv {t u : Net K G} (h : Inv L codec t) {key : K} {now : Nat} (data : Bytes)
    (hstep : t.loopStep L (.recv key now) = some u) : Inv L codec {u with hand := some (key, data)} := by
  obtain ⟨relay, hrelay, rfl⟩ := loopStep_eq_some hstep
  obtain ⟨hkeyed, hsending⟩ := h.known hrelay
  obtain ⟨hlength, hplaces⟩ := h.places hrelay (by simp)
  refine ⟨hkeyed, hsending, fun key' hheld => ⟨data, ?_⟩, hlength, hplaces ▸ h.apart⟩
  have hkey : key' = key := by
    cases UdpSessions.step_moves hrelay with
    | recvHit _ _ s _ _ => simpa [Held, eq_comm] using hheld
    | recvMiss _ _ _ _ => simpa [Held, eq_comm] using hheld
  rw [hkey]

/-- The loop opens a stream for the key it has in hand. -/
theorem Inv.openSend {t u v : Net K G} (h : Inv L codec t) {m : Nat} {w : State} (hw : t.wires[m]? = some w)
    (hloop : t.loopStep L (.openSend m) = some u) (hwire : u.wireStep codec m .openStream = some v) :
    Inv L codec {v with index := v.index ++ [w.streams.length]} := by
  obtain ⟨relay, hrelay, rfl⟩ := loopStep_eq_some hloop
  obtain ⟨x, hx, hwire⟩ := Option.bind_eq_some_iff.mp hwire
  obtain rfl : w = x := Option.some.inj (hw.symm.trans hx)
  obtain ⟨w', hw', rfl⟩ := Option.map_eq_some_iff.mp hwire
  obtain ⟨hkeyed, hsending⟩ := h.known hrelay
  have hmoves := UdpSessions.step_moves hrelay
  rcases moves_routes hmoves with hroutes | ⟨m', key, hm, hphase, hstreams⟩
  · cases hmoves with
    | openSend key m l _ _ _ => simp [route] at hroutes
  · obtain rfl : m = m' := by simpa using hm
    refine ⟨hkeyed, hsending, fun key' hheld => ?_, ?_, ?_⟩
    · rcases moves_held hmoves hheld with hold | ⟨now, heq⟩
      · exact h.held key' hold
      · cases heq
    · show (t.index ++ [w.streams.length]).length = relay.streams.length
      rw [hstreams, List.length_append, List.length_append, h.length]
      rfl
    · have hplaces : ({t with relay := relay, index := t.index ++ [w.streams.length]} : Net K G).places =
          t.places ++ [⟨key, m, w.streams.length⟩] := by
        show List.zipWith _ relay.streams (t.index ++ [w.streams.length]) = List.zipWith _ t.relay.streams t.index ++ _
        rw [hstreams, List.zipWith_append h.length.symm]
        rfl
      have hapart := h.apart.openStream hw hw' key
      rw [← hplaces] at hapart
      exact hapart

/-- The loop sends the datagram it has in hand. -/
theorem Inv.sent {t u v : Net K G} (h : Inv L codec t) {s : Nat} (hcurrent : t.current = some s) {d : K × Bytes}
    (hhand : t.hand = some d) (hloop : t.loopStep L .sent = some u)
    (hstream : u.streamStep codec s (.sendData d.2) = some v) : Inv L codec v.settle := by
  obtain ⟨relay, hrelay, rfl⟩ := loopStep_eq_some hloop
  obtain ⟨p, hp, hstream⟩ := Option.bind_eq_some_iff.mp hstream
  obtain ⟨w, hw, hstream⟩ := Option.bind_eq_some_iff.mp hstream
  obtain ⟨w', hw', rfl⟩ := Option.map_eq_some_iff.mp hstream
  obtain ⟨hkeyed, hsending⟩ := h.known hrelay
  obtain ⟨hlength, hplaces⟩ := h.places hrelay (by simp)
  have hmoves := UdpSessions.step_moves hrelay
  have hfree := moves_settled hmoves rfl
  rw [hplaces] at hp
  have hkey : d.1 = p.key := by
    cases hmoves with
    | sent key s' hphase =>
      obtain rfl : s' = s := by simpa [current, hphase] using hcurrent
      obtain ⟨data, hdata⟩ := h.held key (.inr ⟨s', .inr hphase⟩)
      obtain ⟨st, hst, hkey⟩ := h.sending key s' hphase
      obtain rfl : d = (key, data) := Option.some.inj (hhand.symm.trans hdata)
      rw [places_key hp hst, hkey]
  refine ⟨hkeyed, hsending, fun key hheld => absurd hheld (hfree key), hlength, ?_⟩
  have hapart := h.apart.send hp hw hw'
  rw [← hkey, ← hplaces] at hapart
  have htaken : t.taken ++ t.hand.toList = t.taken ++ [d] := by rw [hhand]; rfl
  rw [← htaken] at hapart
  exact hapart

/-- A response task sends an answer to the key of its session. -/
theorem Inv.taskData {t u v : Net K G} (h : Inv L codec t) {s now : Nat} {p : Place K} (hp : t.places[s]? = some p)
    {data : Bytes} {rest : List Bytes} (hdata : t.inbound s = data :: rest)
    (hloop : t.loopStep L (.taskData s now) = some u) (hstream : u.streamStep codec s .respond = some v) :
    Inv L codec {v with out := v.out ++ [⟨p.key, s, data⟩]} := by
  obtain ⟨relay, hrelay, rfl⟩ := loopStep_eq_some hloop
  have hu := h.loop hrelay (by simp) (by simp)
  obtain ⟨-, hplaces⟩ := h.places hrelay (by simp)
  obtain ⟨q, hq, hstream⟩ := Option.bind_eq_some_iff.mp hstream
  rw [hplaces] at hq
  obtain rfl : p = q := Option.some.inj (hp.symm.trans hq)
  obtain ⟨w, hw, hstream⟩ := Option.bind_eq_some_iff.mp hstream
  obtain ⟨w', hw', rfl⟩ := Option.map_eq_some_iff.mp hstream
  obtain ⟨v, hv⟩ := h.apart.placed s p hp
  obtain ⟨w₀, x, hw₀, hx, -⟩ := viewAt_eq_some.mp hv
  obtain rfl : w = w₀ := Option.some.inj (hw.symm.trans hw₀)
  have hinbound : x.inbound = data :: rest := by
    have hstream : t.stream p = some x := by rw [stream, hw₀, Option.bind_some, hx]
    simpa [inbound, hp, hstream] using hdata
  refine ⟨hu.keyed, hu.sending, hu.held, hu.length, ?_⟩
  have hapart := h.apart.respond hp hw hw' hx hinbound
  rw [← hplaces] at hapart
  exact hapart

theorem step_inv {a : NetAction K G} {t u : Net K G} (h : Inv L codec t) (hstep : t.step L codec a = some u) :
    Inv L codec u := by
  cases a with
  | loop a =>
    obtain ⟨halone, hloop⟩ := Option.ite_none_right_eq_some.mp hstep
    refine (h.loopStep hloop ?_ ?_).1
    · rintro m rfl
      cases halone
    · rintro key now rfl
      cases halone
  | drop a =>
    obtain ⟨hdrops, hstep⟩ := Option.ite_none_right_eq_some.mp hstep
    obtain ⟨u, hloop, rfl⟩ := Option.map_eq_some_iff.mp hstep
    have hsettles : settles a = true := by
      cases a <;> first | rfl | cases hdrops
    obtain ⟨hu, hfree⟩ := h.loopStep hloop (by rintro m rfl; cases hdrops) (by rintro key now rfl; cases hdrops)
    exact hu.settle (hfree hsettles)
  | connect =>
    unfold step at hstep
    obtain ⟨u, hloop, rfl⟩ := Option.map_eq_some_iff.mp hstep
    obtain ⟨hu, -⟩ := h.loopStep hloop (by simp) (by simp)
    exact ⟨hu.keyed, hu.sending, hu.held, hu.length, hu.apart.connect⟩
  | recv key now data =>
    obtain ⟨u, hloop, rfl⟩ := Option.map_eq_some_iff.mp hstep
    exact h.recv data hloop
  | openSend m =>
    obtain ⟨w, hw, hstep⟩ := Option.bind_eq_some_iff.mp hstep
    obtain ⟨u, hloop, hstep⟩ := Option.bind_eq_some_iff.mp hstep
    obtain ⟨v, hwire, rfl⟩ := Option.map_eq_some_iff.mp hstep
    exact h.openSend hw hloop hwire
  | openOk now =>
    obtain ⟨s, -, hstep⟩ := Option.bind_eq_some_iff.mp hstep
    obtain ⟨u, hloop, hstep⟩ := Option.bind_eq_some_iff.mp hstep
    obtain ⟨v, hstream, hstep⟩ := Option.bind_eq_some_iff.mp hstep
    obtain ⟨-, hv⟩ := Option.ite_none_right_eq_some.mp hstep
    obtain rfl := Option.some.inj hv
    exact ((h.loopStep hloop (by simp) (by simp)).1.ofStream hstream (by simp) (by simp)).1
  | openGiveUp b =>
    obtain ⟨s, -, hstep⟩ := Option.bind_eq_some_iff.mp hstep
    obtain ⟨u, hloop, hstep⟩ := Option.bind_eq_some_iff.mp hstep
    obtain ⟨v, hstream, hstep⟩ := Option.bind_eq_some_iff.mp hstep
    obtain ⟨⟨hgives, -⟩, hv⟩ := Option.ite_none_right_eq_some.mp hstep
    obtain rfl := Option.some.inj hv
    obtain ⟨hu, hfree⟩ := h.loopStep hloop (by simp) (by simp)
    obtain ⟨hv, hrelay⟩ := hu.ofStream hstream (by rintro data rfl; cases hgives) (by rintro rfl; cases hgives)
    exact hv.settle (by rw [hrelay]; exact hfree rfl)
  | openLost =>
    obtain ⟨s, -, hstep⟩ := Option.bind_eq_some_iff.mp hstep
    obtain ⟨p, -, hstep⟩ := Option.bind_eq_some_iff.mp hstep
    obtain ⟨-, hstep⟩ := Option.ite_none_right_eq_some.mp hstep
    obtain ⟨u, hloop, rfl⟩ := Option.map_eq_some_iff.mp hstep
    obtain ⟨hu, hfree⟩ := h.loopStep hloop (by simp) (by simp)
    exact hu.settle (hfree rfl)
  | sent =>
    obtain ⟨s, hcurrent, hstep⟩ := Option.bind_eq_some_iff.mp hstep
    obtain ⟨d, hhand, hstep⟩ := Option.bind_eq_some_iff.mp hstep
    obtain ⟨u, hloop, hstep⟩ := Option.bind_eq_some_iff.mp hstep
    obtain ⟨v, hstream, rfl⟩ := Option.map_eq_some_iff.mp hstep
    exact h.sent hcurrent hhand hloop hstream
  | taskData s now =>
    obtain ⟨p, hp, hstep⟩ := Option.bind_eq_some_iff.mp hstep
    split at hstep
    · cases hstep
    · next m rest hinbound =>
      obtain ⟨u, hloop, hstep⟩ := Option.bind_eq_some_iff.mp hstep
      obtain ⟨v, hstream, rfl⟩ := Option.map_eq_some_iff.mp hstep
      exact h.taskData hp hinbound hloop hstream
  | taskFail s =>
    obtain ⟨u, hloop, hstream⟩ := Option.bind_eq_some_iff.mp hstep
    exact ((h.loopStep hloop (by simp) (by simp)).1.ofStream hstream (by simp) (by simp)).1
  | taskEnd s =>
    obtain ⟨-, hstep⟩ := Option.ite_none_right_eq_some.mp hstep
    obtain ⟨u, hloop, rfl⟩ := Option.map_eq_some_iff.mp hstep
    exact (h.loopStep hloop (by simp) (by simp)).1.getD s (by simp) (by simp)
  | passClose p =>
    obtain ⟨s, -, hstep⟩ := Option.bind_eq_some_iff.mp hstep
    obtain ⟨u, hloop, rfl⟩ := Option.map_eq_some_iff.mp hstep
    have hu := (h.loopStep hloop (by simp) (by simp)).1
    split
    · exact hu
    · exact hu.getD s (by simp) (by simp)
  | agent m a =>
    obtain ⟨hagent, hwire⟩ := Option.ite_none_right_eq_some.mp hstep
    refine (h.wire hwire fun p _ _ => ⟨?_, ?_⟩).1
    · rintro data rfl
      cases hagent
    · rintro rfl
      cases hagent
  | controllerRead m =>
    obtain ⟨-, hstep⟩ := Option.ite_none_left_eq_some.mp hstep
    obtain ⟨u, hwire, hstep⟩ := Option.bind_eq_some_iff.mp hstep
    have hu := (h.wire hwire (by simp)).1
    split at hstep
    · split at hstep
      · exact (hu.loopStep hstep (by simp) (by simp)).1
      · obtain rfl := Option.some.inj hstep
        exact hu
    · obtain rfl := Option.some.inj hstep
      exact hu
  | others m a =>
    obtain ⟨helse, hwire⟩ := Option.ite_none_right_eq_some.mp hstep
    have hnot (p : Place K) (hp : p ∈ t.places) (hm : p.link = m) (b : StreamAction) : a ≠ .stream p.index b := by
      rintro rfl
      have hnone := List.all_eq_true.mp helse p hp
      simp [hm] at hnone
    exact (h.wire hwire fun p hp hm => ⟨fun data => hnot p hp hm _, hnot p hp hm _⟩).1

theorem reachable_inv {t : Net K G} (h : (system L codec).Reachable t) : Inv L codec t :=
  h.invariant inv_init fun _ _ _ hinv _ hstep => step_inv hinv hstep

end Net

/-- **Isolation.** In every run of a loop over the connections of its agents, whatever else
goes on on them: the socket of a session has sent to the target what was received under the
session's key, in that order, if not all of it; the client was sent exactly what the response
task took, which is what came in on that socket, in that order and without a gap; everything
that goes out goes to the key of its session; and no two sessions share a stream. -/
theorem datagrams_isolated (L : UdpSessions.Loop K G) (codec : Codec OpenResponse) {t : Net K G}
    (h : (Net.system L codec).Reachable t) :
    (∀ (s : Nat) p x, t.places[s]? = some p → t.stream p = some x → x.relayed.Sublist (t.receivedFrom p.key) ∧
      t.sentBy s = x.forwarded ∧ t.sentBy s <+: x.answered.tail) ∧
    (∀ o ∈ t.out, ∃ p, t.places[o.session]? = some p ∧ p.key = o.key) ∧
    ∀ (s s' : Nat) p p', t.places[s]? = some p → t.places[s']? = some p' → p.link = p'.link → p.index = p'.index →
      s = s' := by
  have hinv := Net.reachable_inv h
  refine ⟨fun s p x hp hx => ?_, hinv.apart.keys, hinv.apart.distinct⟩
  obtain ⟨w, hw, hx⟩ := Option.bind_eq_some_iff.mp hx
  have hview : viewAt t.wires p = some (w.view p.index x) := viewAt_eq_some.mpr ⟨w, x, hw, hx, rfl⟩
  have hforwarded : t.sentBy s = x.forwarded := hinv.apart.forwarded s p _ hp hview
  refine ⟨?_, hforwarded, ?_⟩
  · have huplinked := hinv.apart.uplinked s p _ hp hview
    have htaken : (takenFrom t.taken p.key).Sublist (t.receivedFrom p.key) := by
      show List.Sublist _ (takenFrom (t.taken ++ t.hand.toList) p.key)
      rw [takenFrom_append]
      exact List.sublist_append_left _ _
    exact ((List.sublist_append_left _ _).trans huplinked).trans htaken
  · rw [hforwarded]
    exact (delivered_reachable (hinv.apart.ran p.link w hw) hx).sent

/-- A datagram from a client without a session, up to the target. -/
def askRun (key : K) (j : Nat) (data : Bytes) : List (NetAction K G) :=
  [.recv key 0 data, .openSend 0, .agent 0 .agentRead, .agent 0 (.stream j .connected), .controllerRead 0, .openOk 0, .sent,
    .agent 0 .agentRead, .agent 0 (.stream j .uplink)]

/-- The target's answer. -/
def answerRun (s j : Nat) (data : Bytes) : List (NetAction K G) :=
  [.agent 0 (.stream j (.downlink data)), .controllerRead 0, .taskData s 0]

/-- Two clients ask, with another stream on the connection, and are answered in the other order. -/
def twoClients (a b : K) : List (NetAction K G) :=
  ([.connect] : List (NetAction K G)) ++ askRun a 0 [1] ++ ([.others 0 .openStream, .agent 0 .agentRead] : List (NetAction K G)) ++
    askRun b 2 [2] ++ answerRun 1 2 [20] ++ answerRun 0 0 [10]

end

theorem datagrams_isolated_twoClients :
    ∃ t : Net SocketAddr Unit, (Net.system UdpSessions.runSocket Pool.responseText).Reachable t ∧
      t.out = [⟨⟨.v4 2, 53⟩, 1, [20]⟩, ⟨⟨.v4 1, 53⟩, 0, [10]⟩] ∧
      ∀ (s : Nat) p x, t.places[s]? = some p → t.stream p = some x → x.relayed.Sublist (t.receivedFrom p.key) := by
  obtain ⟨t, ht, hp⟩ := System.reach_of_run (S := Net.system UdpSessions.runSocket Pool.responseText)
    (C := fun _ _ => True) (twoClients ⟨.v4 1, 53⟩ ⟨.v4 2, 53⟩)
    (fun t => t.out = [⟨⟨.v4 2, 53⟩, 1, [20]⟩, ⟨⟨.v4 1, 53⟩, 0, [10]⟩]) (by decide +kernel)
  refine ⟨t, ht, of_decide_eq_true hp, fun s p x hplace hx => ?_⟩
  exact ((datagrams_isolated UdpSessions.runSocket Pool.responseText ht).1 s p x hplace hx).1

end Rps.Udp
