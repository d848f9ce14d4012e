import Rps.Udp.Stream
import Rps.Pool.Metering

/-! What is left of a session that the controller has closed.

`close` is a frame. The agent takes the stream out of its table when it reads it, and the
uplink ends once it has sent what was received before; nothing tells the downlink, and the
controller keeps its entry and its response task, which end by a `Close` of the agent that
never comes. So no closed stream is closed from end to end (`closed_streams_live_on`). -/
namespace Rps.Udp
open Base
open Rps.Core

section
variable {codec : Codec OpenResponse}

/-- A state that a run reaches from another. -/
abbrev Later (codec : Codec OpenResponse) (t u : State) : Prop := (system codec).Steps (fun _ _ => True) t u

/-- The handler relays nothing more, in either direction. -/
def Silent (codec : Codec OpenResponse) (t : State) (k : Nat) (s : Stream) : Prop :=
  ∀ u s', Later codec t u → u.streams[k]? = some s' → s'.relayed = s.relayed ∧ s'.answered = s.answered

/-- What the client gets and the recorder counts was sent before. -/
def Discards (codec : Codec OpenResponse) (t : State) (k : Nat) (s : Stream) : Prop :=
  ∀ u s', Later codec t u → u.streams[k]? = some s' →
    s'.forwarded <+: s.answered.tail ∧ s'.recorded ≤ (s.answered.tail.map List.length).sum

/-- A stream whose `Close` the agent has processed is closed from end to end. -/
structure ClosedEndToEnd (codec : Codec OpenResponse) (t : State) (k : Nat) (s : Stream) : Prop where
  silent : Silent codec t k s
  discards : Discards codec t k s
  tables : ∃ u s', Later codec t u ∧ u.streams[k]? = some s' ∧ s'.entry = false ∧ s'.agentEntry = false

/-! ### What stays -/

theorem later_length {t u : State} (h : Later codec t u) : t.streams.length ≤ u.streams.length :=
  System.Steps.invariant (I := fun u => t.streams.length ≤ u.streams.length) h le_rfl fun _ _ _ hle _ hstep =>
    hle.trans (step_length hstep).1

/-- What each step of a stream keeps holds of it from then on. -/
theorem later_invariant {I : View → Prop} {k : Nat} (hlocal : ∀ {a v v'}, I v → Local codec k a v v' → I v')
    {t u : State} (h : Later codec t u) {s : Stream} (hs : t.streams[k]? = some s) (hI : I (t.view k s)) {s' : Stream}
    (hs' : u.streams[k]? = some s') : I (u.view k s') := by
  induction h generalizing s' with
  | refl =>
    rw [hs] at hs'
    cases hs'
    exact hI
  | @step t' u a hsteps _ hstep ih =>
    rcases step_local hstep hs' with ⟨-, hk, -, -, -⟩ | ⟨s₁, hs₁, hmove⟩
    · have hlt : k < t.streams.length := (List.getElem?_eq_some_iff.mp hs).1
      have hle := later_length hsteps
      omega
    · exact hlocal (ih hs₁) hmove

/-- Whatever went to the client is what the agent has sent behind its answer; `coming` are
the datagrams in flight to the controller. -/
structure Delivered (s : Stream) (coming : List Bytes) : Prop where
  waiting : s.opener = .waiting → s.answered = s.inbound ++ coming ∧ s.forwarded = []
  task : s.opener = .opened true → ∃ m, s.answered = m :: (s.forwarded ++ (s.inbound ++ coming))
  sent : s.forwarded <+: s.answered.tail
  recorded : s.recorded = (s.forwarded.map List.length).sum

theorem delivered_init : Delivered {} [] := ⟨fun _ => ⟨rfl, rfl⟩, by simp, List.nil_prefix, rfl⟩

theorem isPrefix_tail_append {a b : List Bytes} (h : a <+: b.tail) (c : List Bytes) : a <+: (b ++ c).tail := by
  cases b with
  | nil =>
    obtain rfl : a = [] := by simpa using h
    exact List.nil_prefix
  | cons x b => exact h.trans (List.prefix_append b c)

/-- The handler answers with a `Data` frame. -/
theorem Delivered.answer {s s' : Stream} {coming : List Bytes} (h : Delivered s coming) {data : Bytes}
    (hopener : s'.opener = s.opener) (hinbound : s'.inbound = s.inbound) (hforwarded : s'.forwarded = s.forwarded)
    (hrecorded : s'.recorded = s.recorded) (hanswered : s'.answered = s.answered ++ [data]) :
    Delivered s' (coming ++ [data]) := by
  refine ⟨fun hwaiting => ?_, fun htask => ?_, ?_, ?_⟩
  · obtain ⟨hsame, hnone⟩ := h.waiting (hopener.symm.trans hwaiting)
    refine ⟨?_, hforwarded.trans hnone⟩
    rw [hanswered, hsame, hinbound, List.append_assoc]
  · obtain ⟨m, hsame⟩ := h.task (hopener.symm.trans htask)
    refine ⟨m, ?_⟩
    rw [hanswered, hsame, hinbound, hforwarded]
    simp
  · rw [hforwarded, hanswered]
    exact isPrefix_tail_append h.sent _
  · rw [hrecorded, hforwarded]
    exact h.recorded

theorem delivered_act {s : Stream} {coming : List Bytes} {a : StreamAction} {r : Acted} (h : Delivered s coming)
    (hr : Acts codec s a r) : Delivered r.stream (coming ++ payloads r.down) := by
  cases hr with
  | @opened m rest _ hopener hinbound _ _ =>
    obtain ⟨hanswered, hforwarded⟩ := h.waiting hopener
    rw [hinbound] at hanswered
    refine ⟨by simp, fun _ => ⟨m, ?_⟩, h.sent, h.recorded⟩
    rw [hanswered, hforwarded]
    simp [payloads]
  | failed _ _ | closedEarly _ _ _ | timeout _ | respondFail _ _ | respondEnd _ _ _ =>
    exact ⟨by simp, by simp, h.sent, h.recorded⟩
  | sendData _ _ | close _ | uplink _ _ | uplinkFail _ _ | uplinkEnd _ _ _ | downlinkFail _ | refuseClose _ =>
    rw [show coming ++ payloads _ = coming from List.append_nil _]
    exact ⟨h.waiting, h.task, h.sent, h.recorded⟩
  | respond hopener hinbound =>
    obtain ⟨m, hanswered⟩ := h.task hopener
    rw [hinbound] at hanswered
    refine ⟨fun hwaiting => ?_, fun _ => ⟨m, ?_⟩, ?_, ?_⟩
    · rw [hopener] at hwaiting
      cases hwaiting
    · rw [hanswered]
      simp [payloads]
    · rw [hanswered]
      simp
    · simp [h.recorded]
  | refuse _ _ | connected _ | downlink _ _ => exact h.answer rfl rfl rfl rfl rfl

theorem delivered_down {s : Stream} {up down : List Frame} {f : Frame} (htables : Tables ⟨s, up, f :: down⟩)
    (h : Delivered s (payloads (f :: down))) : Delivered (s.onDown f) (payloads down) := by
  cases f with
  | «open» => exact h
  | close => exact ⟨h.waiting, h.task, h.sent, h.recorded⟩
  | data payload =>
    rw [Stream.onDown_kept (f := .data payload) htables.receives (by simp)]
    refine ⟨fun hwaiting => ?_, fun htask => ?_, h.sent, h.recorded⟩
    · simpa [payloads] using h.waiting hwaiting
    · simpa [payloads] using h.task htask

theorem delivered_local {k : Nat} {a : Action} {v v' : View} (htables : Tables v)
    (h : Delivered v.stream (payloads v.down)) (hstep : Local codec k a v v') :
    Delivered v'.stream (payloads v'.down) := by
  cases hstep with
  | other _ _ => exact h
  | act hr =>
    rw [payloads_append]
    exact delivered_act h hr
  | down s up down f => exact delivered_down htables h
  | up s up down f =>
    by_cases hf : f = .open
    · subst hf
      exact ⟨h.waiting, h.task, h.sent, h.recorded⟩
    · obtain ⟨entry, inbound, closed, hread⟩ := s.onUp_eq hf
      rw [hread]
      exact ⟨h.waiting, h.task, h.sent, h.recorded⟩

theorem delivered_reachable {t : State} (h : (system codec).Reachable t) {k : Nat} {s : Stream}
    (hs : t.streams[k]? = some s) : Delivered s (payloads (flight k t.toController)) := by
  refine (views_invariant (I := fun v => Tables v ∧ Delivered v.stream (payloads v.down))
    ⟨tables_init, delivered_init⟩ ?_ h hs).2
  rintro _ _ v v' ⟨htables, hdelivered⟩ hstep
  exact ⟨tables_local htables hstep, delivered_local htables hdelivered hstep⟩

/-- A stream that the agent has closed is one that was opened, and it is not in the agent's
table; no `Open` will bring it back. -/
structure Closed (v : View) : Prop where
  closed : v.stream.closed = true
  agentEntry : v.stream.agentEntry = false
  opens : .open ∉ v.up

theorem closed_local {k : Nat} {a : Action} {v v' : View} (h : Closed v) (hstep : Local codec k a v v') : Closed v' := by
  obtain ⟨hclosed, hentry, hopens⟩ := h
  cases hstep with
  | other _ _ => exact ⟨hclosed, hentry, hopens⟩
  | act hr => cases hr <;> exact ⟨hclosed, hentry, by simpa using hopens⟩
  | down s up down f =>
    obtain ⟨entry, inbound, hread⟩ := s.onDown_eq f
    rw [hread]
    exact ⟨hclosed, hentry, hopens⟩
  | up s up down f =>
    simp only [List.mem_cons, not_or] at hopens
    cases f with
    | «open» => exact absurd rfl hopens.1
    | data payload =>
      rw [Stream.onUp, if_neg (Bool.eq_false_iff.mp hentry)]
      exact ⟨hclosed, hentry, hopens.2⟩
    | close => exact ⟨rfl, rfl, hopens.2⟩

theorem closed_reachable (hcodec : ∀ response, codec.Decodes response) {t : State} (h : (system codec).Reachable t)
    {k : Nat} {s : Stream} (hs : t.streams[k]? = some s) (hclosed : s.closed = true) : Closed (t.view k s) := by
  refine (views_invariant (I := fun v => Tables v ∧ Answers codec v ∧ (v.stream.closed = true → Closed v))
    ⟨tables_init, answers_init, by simp⟩ ?_ h hs).2.2 hclosed
  rintro k a v v' ⟨htables, hanswers, hclosed⟩ hstep
  refine ⟨tables_local htables hstep, answers_local hcodec hanswers htables hstep, fun hclosed' => ?_⟩
  by_cases hbefore : v.stream.closed = true
  · exact closed_local (hclosed hbefore) hstep
  · cases hstep with
    | other _ _ => exact absurd hclosed' hbefore
    | act hr => cases hr <;> exact absurd hclosed' hbefore
    | down s up down f =>
      obtain ⟨entry, inbound, hread⟩ := s.onDown_eq f
      rw [hread] at hclosed'
      exact absurd hclosed' hbefore
    | up s up down f =>
      cases f with
      | «open» => exact absurd hclosed' hbefore
      | data payload =>
        rw [Stream.onUp] at hclosed'
        split at hclosed' <;> exact absurd hclosed' hbefore
      | close =>
        -- the stream was opened, so its `Open` was read long ago
        obtain ⟨task, htask⟩ := hanswers.closes (.inl (by simp))
        obtain ⟨uplink, downlink, hhandler⟩ := hanswers.opened task htask
        have hopens := htables.no_open (by rw [hhandler]; simp)
        exact ⟨rfl, rfl, fun hmem => hopens (List.mem_cons_of_mem _ hmem)⟩

/-! ### What can still happen -/

/-- The reader task of the controller reads all that is there. -/
theorem later_drained {k : Nat} {t : State} {s : Stream} (hs : t.streams[k]? = some s) (hentry : s.entry = true)
    (hclose : .close ∉ flight k t.toController) :
    ∃ u, Later codec t u ∧
      u.streams[k]? = some {s with inbound := s.inbound ++ payloads (flight k t.toController)} := by
  generalize hwire : t.toController = wire at hclose ⊢
  induction wire generalizing t s with
  | nil => exact ⟨t, .refl, by simpa [payloads] using hs⟩
  | cons p wire ih =>
    obtain ⟨k', f⟩ := p
    let t' : State := {t with streams := t.streams.modify k' (·.onDown f), toController := wire}
    have hread : (system codec).step .controllerRead t = some t' := by
      show step codec .controllerRead t = some t'
      simp only [step, hwire, t']
    have hmodified : t'.streams[k]? = some (if k' = k then s.onDown f else s) := by
      show (t.streams.modify k' (·.onDown f))[k]? = _
      rw [List.getElem?_modify, hs]
      rfl
    rw [flight_cons] at hclose ⊢
    by_cases hk : k' = k
    · simp only [hk, if_true, List.mem_cons, not_or] at hclose ⊢
      rw [if_pos hk, Stream.onDown_kept hentry (Ne.symm hclose.1)] at hmodified
      obtain ⟨u, hlater, hu⟩ := ih hmodified hentry rfl hclose.2
      refine ⟨u, .trans (.step .refl trivial hread) hlater, ?_⟩
      rw [hu, List.append_assoc, ← payloads_append]
      rfl
    · simp only [hk, if_false] at hclose ⊢
      rw [if_neg hk] at hmodified
      obtain ⟨u, hlater, hu⟩ := ih hmodified hentry rfl hclose
      exact ⟨u, .trans (.step .refl trivial hread) hlater, hu⟩

/-- A step of a stream. -/
theorem later_act {k : Nat} {t : State} {s : Stream} (hs : t.streams[k]? = some s) {a : StreamAction} {r : Acted}
    (hr : s.act codec a = some r) :
    ∃ u, Later codec t u ∧ u.streams[k]? = some r.stream ∧ u.toController = t.toController ++ r.down.map (k, ·) := by
  have hstep : (system codec).step (.stream k a) t = some {
      streams := t.streams.set k r.stream
      toAgent := t.toAgent ++ r.up.map (k, ·)
      toController := t.toController ++ r.down.map (k, ·)} := by
    show step codec (.stream k a) t = _
    simp only [step, hs, hr, Option.map_some]
  exact ⟨_, .step .refl trivial hstep, by rw [Heap.get_set hs, if_pos rfl], rfl⟩

/-- The response task forwards all that it has. -/
theorem later_responded {k : Nat} {t : State} {s : Stream} (hs : t.streams[k]? = some s)
    (htask : s.opener = .opened true) :
    ∃ u, Later codec t u ∧ u.streams[k]? = some {s with
      inbound := [], forwarded := s.forwarded ++ s.inbound,
      recorded := s.recorded + (s.inbound.map List.length).sum} := by
  generalize hinbound : s.inbound = inbound
  induction inbound generalizing t s with
  | nil =>
    refine ⟨t, .refl, ?_⟩
    simp only [List.append_nil, List.map_nil, List.sum_nil, Nat.add_zero]
    rw [hs, ← hinbound]
  | cons m inbound ih =>
    have hrespond : s.act codec .respond = some {stream := {s with
        inbound := inbound, forwarded := s.forwarded ++ [m], recorded := s.recorded + m.length}} := by
      simp only [Stream.act, Stream.sessionStep, htask, hinbound]
    obtain ⟨u, hlater, hu, -⟩ := later_act hs hrespond
    obtain ⟨w, hlater', hw⟩ := ih hu htask rfl
    refine ⟨w, hlater.trans hlater', ?_⟩
    rw [hw]
    simp [Nat.add_assoc]

/-- A downlink sends whatever the target sends, and the response task carries it to the client
behind all that was sent before. -/
theorem downlink_forwarded (hcodec : ∀ response, codec.Decodes response) {t : State} (h : (system codec).Reachable t)
    {k : Nat} {s : Stream} (hs : t.streams[k]? = some s) (htask : s.opener = .opened true) {uplink : Bool}
    (hdownlink : s.handler = .relaying uplink true) (data : Bytes) :
    ∃ u s', Later codec t u ∧ u.streams[k]? = some s' ∧ s'.answered = s.answered ++ [data] ∧
      s'.forwarded = s.answered.tail ++ [data] ∧
      s'.recorded = (s.answered.tail.map List.length).sum + data.length := by
  obtain ⟨-, hentry, hclose⟩ := opened_relays hcodec h hs htask
  have hsend : s.act codec (.downlink data) = some {
      stream := {s with answered := s.answered ++ [data]}, down := [.data data]} := by
    simp only [Stream.act, Stream.handlerStep, hdownlink]
  obtain ⟨u₁, hlater₁, hu₁, hwire⟩ := later_act hs hsend
  have hflight : flight k u₁.toController = flight k t.toController ++ [Frame.data data] := by
    rw [hwire, flight_append, flight_map, if_pos rfl]
  obtain ⟨u₂, hlater₂, hu₂⟩ : ∃ u, Later codec u₁ u ∧ _ := later_drained hu₁ hentry (by rw [hflight]; simpa using hclose)
  obtain ⟨u₃, hlater₃, hu₃⟩ : ∃ u, Later codec u₂ u ∧ _ := later_responded hu₂ htask
  have hlater : Later codec t u₃ := (hlater₁.trans hlater₂).trans hlater₃
  have hdelivered := delivered_reachable (h.steps hlater) hu₃
  have htail : s.answered.tail = s.forwarded ++ (s.inbound ++ payloads (flight k t.toController)) := by
    obtain ⟨m, hanswered⟩ := (delivered_reachable h hs).task htask
    rw [hanswered]
    rfl
  have hforwarded : s.forwarded ++ (s.inbound ++ payloads (flight k u₁.toController)) = s.answered.tail ++ [data] := by
    rw [hflight, payloads_append, htail]
    simp [payloads]
  refine ⟨u₃, _, hlater, hu₃, rfl, hforwarded, ?_⟩
  rw [hdelivered.recorded]
  simp only [hforwarded]
  simp

/-! ### What a close achieves -/

/-- A downlink that has ended sends nothing more. -/
theorem local_answered {k : Nat} {a : Action} {v v' : View} (hopens : .open ∉ v.up) (hstep : Local codec k a v v')
    {uplink : Bool} (hhandler : v.stream.handler = .relaying uplink false) :
    v'.stream.answered = v.stream.answered ∧ ∃ uplink', v'.stream.handler = .relaying uplink' false := by
  cases hstep with
  | other _ _ => exact ⟨rfl, _, hhandler⟩
  | act hr =>
    cases hr with
    | refuse _ h | connected h | refuseClose h | downlink _ h | downlinkFail h => simp [h] at hhandler
    | uplinkFail h _ | uplinkEnd h _ _ =>
      obtain ⟨-, rfl⟩ : true = uplink ∧ _ = false := by simpa [h] using hhandler
      exact ⟨rfl, false, rfl⟩
    | _ => exact ⟨rfl, _, hhandler⟩
  | down s up down f =>
    obtain ⟨entry, inbound, hread⟩ := s.onDown_eq f
    rw [hread]
    exact ⟨rfl, _, hhandler⟩
  | up s up down f =>
    simp only [List.mem_cons, not_or] at hopens
    obtain ⟨entry, inbound, closed, hread⟩ := s.onUp_eq (Ne.symm hopens.1)
    rw [hread]
    exact ⟨rfl, _, hhandler⟩

/-- Nothing is left to relay: the downlink has ended, and the uplink has ended or has nothing. -/
def Spent (s : Stream) : Prop := ∃ uplink, s.handler = .relaying uplink false ∧ (uplink = false ∨ s.agentInbound = [])

theorem spent_local {k : Nat} {a : Action} {v v' : View} (hclosed : Closed v) (h : Spent v.stream)
    (hstep : Local codec k a v v') : Spent v'.stream ∧ v'.stream.relayed = v.stream.relayed := by
  obtain ⟨uplink, hhandler, hnone⟩ := h
  cases hstep with
  | other _ _ => exact ⟨⟨uplink, hhandler, hnone⟩, rfl⟩
  | act hr =>
    cases hr with
    | refuse _ h | connected h | refuseClose h | downlink _ h | downlinkFail h => simp [h] at hhandler
    | uplink h hinbound | uplinkFail h hinbound =>
      rcases hnone with rfl | hnone
      · simp [h] at hhandler
      · simp [hinbound] at hnone
    | uplinkEnd h _ _ =>
      obtain ⟨-, rfl⟩ : true = uplink ∧ _ = false := by simpa [h] using hhandler
      exact ⟨⟨false, rfl, .inl rfl⟩, rfl⟩
    | _ => exact ⟨⟨uplink, hhandler, hnone⟩, rfl⟩
  | down s up down f =>
    obtain ⟨entry, inbound, hread⟩ := s.onDown_eq f
    rw [hread]
    exact ⟨⟨uplink, hhandler, hnone⟩, rfl⟩
  | up s up down f =>
    have hopens := hclosed.opens
    cases f with
    | «open» => simp at hopens
    | data payload =>
      rw [Stream.onUp, if_neg (Bool.eq_false_iff.mp hclosed.agentEntry)]
      exact ⟨⟨uplink, hhandler, hnone⟩, rfl⟩
    | close => exact ⟨⟨uplink, hhandler, hnone⟩, rfl⟩

/-- A response task that has ended forwards nothing more. -/
theorem ended_local {k : Nat} {a : Action} {v v' : View} (h : v.stream.opener = .opened false)
    (hstep : Local codec k a v v') :
    v'.stream.opener = .opened false ∧ v'.stream.forwarded = v.stream.forwarded ∧
      v'.stream.recorded = v.stream.recorded := by
  cases hstep with
  | other _ _ => exact ⟨h, rfl, rfl⟩
  | act hr =>
    cases hr with
    | opened ho _ _ _ | failed ho _ | closedEarly ho _ _ | timeout ho | respond ho _ | respondFail ho _
    | respondEnd ho _ _ => simp [ho] at h
    | _ => exact ⟨h, rfl, rfl⟩
  | down s up down f =>
    obtain ⟨entry, inbound, hread⟩ := s.onDown_eq f
    rw [hread]
    exact ⟨h, rfl, rfl⟩
  | up s up down f =>
    by_cases hf : f = .open
    · subst hf
      exact ⟨h, rfl, rfl⟩
    · obtain ⟨entry, inbound, closed, hread⟩ := s.onUp_eq hf
      rw [hread]
      exact ⟨h, rfl, rfl⟩

/-- What went to the client is no more than what was sent. -/
theorem Delivered.bounded {s : Stream} {coming : List Bytes} (h : Delivered s coming) :
    s.forwarded <+: s.answered.tail ∧ s.recorded ≤ (s.answered.tail.map List.length).sum := by
  refine ⟨h.sent, ?_⟩
  obtain ⟨rest, hrest⟩ := h.sent
  rw [h.recorded, ← hrest, List.map_append, List.sum_append]
  exact Nat.le_add_right _ _

section
variable (hcodec : ∀ response, codec.Decodes response) {t : State} (h : (system codec).Reachable t) {k : Nat} {s : Stream}
  (hs : t.streams[k]? = some s) (hclosed : s.closed = true)
include hcodec h hs hclosed

theorem closed_relaying : ∃ task uplink downlink, s.opener = .opened task ∧ s.handler = .relaying uplink downlink := by
  obtain ⟨task, htask⟩ := (answers_reachable hcodec h hs).closes (.inr hclosed)
  obtain ⟨⟨uplink, downlink, hhandler⟩, -⟩ := opened_relays hcodec h hs htask
  exact ⟨task, uplink, downlink, htask, hhandler⟩

theorem silent_iff_spent : Silent codec t k s ↔ Spent s := by
  constructor
  · intro hsilent
    obtain ⟨task, uplink, downlink, -, hhandler⟩ := closed_relaying hcodec h hs hclosed
    cases downlink with
    | true =>
      have hsend : s.act codec (.downlink []) = some {
          stream := {s with answered := s.answered ++ [[]]}, down := [.data []]} := by
        simp only [Stream.act, Stream.handlerStep, hhandler]
      obtain ⟨u, hlater, hu, -⟩ := later_act hs hsend
      have hsame := (hsilent u _ hlater hu).2
      simp at hsame
    | false =>
      refine ⟨uplink, hhandler, ?_⟩
      cases uplink with
      | false => exact .inl rfl
      | true =>
        refine .inr ?_
        cases hinbound : s.agentInbound with
        | nil => rfl
        | cons m rest =>
          have hrelay : s.act codec .uplink = some {
              stream := {s with agentInbound := rest, relayed := s.relayed ++ [m]}} := by
            simp only [Stream.act, Stream.handlerStep, hhandler, hinbound]
          obtain ⟨u, hlater, hu, -⟩ := later_act hs hrelay
          have hsame := (hsilent u _ hlater hu).1
          simp at hsame
  · intro hspent u s' hlater hs'
    have hlast := later_invariant (I := fun v => Closed v ∧ Spent v.stream ∧
        v.stream.relayed = s.relayed ∧ v.stream.answered = s.answered) ?_ hlater hs
      ⟨closed_reachable hcodec h hs hclosed, hspent, rfl, rfl⟩ hs'
    · exact hlast.2.2
    · intro a v v' hv hstep
      obtain ⟨hv, hspent, hrelayed, hanswered⟩ := hv
      obtain ⟨hspent', hrelayed'⟩ := spent_local hv hspent hstep
      obtain ⟨uplink, hhandler, -⟩ := hspent
      obtain ⟨hanswered', -⟩ := local_answered hv.opens hstep hhandler
      exact ⟨closed_local hv hstep, hspent', hrelayed'.trans hrelayed, hanswered'.trans hanswered⟩

theorem discards_iff : Discards codec t k s ↔ s.opener = .opened false ∨ ∃ uplink, s.handler = .relaying uplink false := by
  constructor
  · intro hdiscards
    obtain ⟨task, uplink, downlink, htask, hhandler⟩ := closed_relaying hcodec h hs hclosed
    cases task with
    | false => exact .inl htask
    | true =>
      cases downlink with
      | false => exact .inr ⟨uplink, hhandler⟩
      | true =>
        obtain ⟨u, s', hlater, hs', -, hforwarded, -⟩ := downlink_forwarded hcodec h hs htask hhandler []
        have hprefix := (hdiscards u s' hlater hs').1
        rw [hforwarded] at hprefix
        have hlength := hprefix.length_le
        simp at hlength
  · intro hended u s' hlater hs'
    rcases hended with htask | ⟨uplink, hhandler⟩
    · have hlast := later_invariant (I := fun v => v.stream.opener = .opened false ∧
          v.stream.forwarded = s.forwarded ∧ v.stream.recorded = s.recorded) ?_ hlater hs ⟨htask, rfl, rfl⟩ hs'
      · obtain ⟨-, hforwarded, hrecorded⟩ := hlast
        have hforwarded : s'.forwarded = s.forwarded := hforwarded
        have hrecorded : s'.recorded = s.recorded := hrecorded
        rw [hforwarded, hrecorded]
        exact (delivered_reachable h hs).bounded
      · intro a v v' hv hstep
        obtain ⟨hv, hforwarded, hrecorded⟩ := hv
        obtain ⟨hv', hforwarded', hrecorded'⟩ := ended_local hv hstep
        exact ⟨hv', hforwarded'.trans hforwarded, hrecorded'.trans hrecorded⟩
    · have hlast := later_invariant (I := fun v => Closed v ∧ (∃ uplink, v.stream.handler = .relaying uplink false) ∧
          v.stream.answered = s.answered) ?_ hlater hs ⟨closed_reachable hcodec h hs hclosed, ⟨uplink, hhandler⟩, rfl⟩ hs'
      · obtain ⟨-, -, hanswered⟩ := hlast
        have hanswered : s'.answered = s.answered := hanswered
        rw [← hanswered]
        exact (delivered_reachable (h.steps hlater) hs').bounded
      · intro a v v' hv hstep
        obtain ⟨hv, ⟨uplink, hhandler⟩, hanswered⟩ := hv
        obtain ⟨hanswered', hhandler'⟩ := local_answered hv.opens hstep hhandler
        exact ⟨closed_local hv hstep, hhandler', hanswered'.trans hanswered⟩

theorem closed_keeps_entry {u : State} (hlater : Later codec t u) {s' : Stream} (hs' : u.streams[k]? = some s') :
    s'.entry = true := by
  have hclosed' := (later_invariant closed_local hlater hs (closed_reachable hcodec h hs hclosed) hs').closed
  have hu : (system codec).Reachable u := h.steps hlater
  obtain ⟨task, -, -, htask, -⟩ := closed_relaying hcodec hu hs' hclosed'
  exact (opened_relays hcodec hu hs' htask).2.1

end

/-- **No closed stream is closed from end to end**: the controller never loses its entry. The
handler falls silent only if its downlink has failed and its uplink has nothing left, and what
it sends is discarded only if it sends nothing or the response task has failed. -/
theorem closed_streams_live_on (codec : Codec OpenResponse) (hcodec : ∀ response, codec.Decodes response) (t : State)
    (h : (system codec).Reachable t) (k : Nat) (s : Stream) (hs : t.streams[k]? = some s) (hclosed : s.closed = true) :
    ¬ ClosedEndToEnd codec t k s ∧ (Silent codec t k s ↔ Spent s) ∧
      (Discards codec t k s ↔ s.opener = .opened false ∨ ∃ uplink, s.handler = .relaying uplink false) ∧
      ∀ u s', Later codec t u → u.streams[k]? = some s' → s'.entry = true := by
  refine ⟨fun hended => ?_, silent_iff_spent hcodec h hs hclosed, discards_iff hcodec h hs hclosed,
    fun _ _ hlater hs' => closed_keeps_entry hcodec h hs hclosed hlater hs'⟩
  obtain ⟨u, s', hlater, hs', hentry, -⟩ := hended.tables
  rw [closed_keeps_entry hcodec h hs hclosed hlater hs'] at hentry
  cases hentry

/-- A session is opened and closed, and the agent has read the `Close`. -/
def closedRun : List Action :=
  [.openStream, .agentRead, .stream 0 .connected, .controllerRead, .stream 0 .response, .stream 0 .close, .agentRead]

theorem closed_streams_live_on_closedRun :
    ∃ t s, (system Pool.responseText).Trace closedRun t ∧ t.streams[0]? = some s ∧ s.closed = true ∧
      ¬ ClosedEndToEnd Pool.responseText t 0 s := by
  obtain ⟨t, htrace, hp⟩ := System.trace_exists (S := system Pool.responseText) closedRun
    (fun t : State => t.streams[0]?.any Stream.closed) (by decide +kernel)
  obtain ⟨s, hs, hclosed⟩ := Option.any_eq_true _ _ |>.mp hp
  exact ⟨t, s, htrace, hs, hclosed, (closed_streams_live_on _ Pool.responseText_decodes t htrace.reachable 0 s hs hclosed).1⟩

/-- The target sends a byte to the closed session. -/
def lateDatagram : List Action := [.stream 0 (.downlink [7]), .controllerRead, .stream 0 .respond]

/-- The byte is on its way to the client, and it is recorded. -/
theorem late_datagram_forwarded :
    ∃ t s u s', (system Pool.responseText).Trace closedRun t ∧ t.streams[0]? = some s ∧ s.closed = true ∧
      s.answered = [Pool.responseText.toVec .success] ∧ Later Pool.responseText t u ∧ u.streams[0]? = some s' ∧
      s'.forwarded = [[7]] ∧ s'.recorded = 1 ∧ ¬ ClosedEndToEnd Pool.responseText t 0 s := by
  obtain ⟨t, htrace, hp⟩ := System.trace_exists (S := system Pool.responseText) closedRun
    (fun t : State => t.streams[0]?.any fun s : Stream =>
      s.closed = true ∧ s.answered = [Pool.responseText.toVec .success] ∧
        ((system Pool.responseText).run (fun _ _ => True) lateDatagram t).any fun u =>
          u.streams[0]?.any fun s' : Stream => s'.forwarded = [[7]] ∧ s'.recorded = 1) (by decide +kernel)
  obtain ⟨s, hs, hp⟩ := Option.any_eq_true _ _ |>.mp hp
  obtain ⟨hclosed, hanswered, hp⟩ := of_decide_eq_true hp
  obtain ⟨u, hrun, hp⟩ := Option.any_eq_true _ _ |>.mp hp
  obtain ⟨s', hs', hp⟩ := Option.any_eq_true _ _ |>.mp hp
  obtain ⟨hforwarded, hrecorded⟩ := of_decide_eq_true hp
  have hlater : Later Pool.responseText t u := System.steps_of_run hrun
  refine ⟨t, s, u, s', htrace, hs, hclosed, hanswered, hlater, hs', hforwarded, hrecorded, fun hended => ?_⟩
  have hprefix := (hended.discards u s' hlater hs').1
  rw [hforwarded, hanswered] at hprefix
  simp at hprefix

end

end Rps.Udp
