import Rps.Udp.Muxed

/-! Every run of the streams on the mux is a run of the streams.

Most steps of a mux are steps of no stream: only a frame that a reader task takes, but for
acknowledgements, and an `Open` that is sent are.

`streams_over_mux`: whatever the order in which the tasks of both ends run, there is a run of
`Udp.State` that agrees with the muxes on every stream and on what is in flight; so all that
is shown of the streams there holds here, `opened_over_mux` for one. -/
namespace Rps.Udp
open Base
open Rps.Core
open Mux (Side MuxStream Endpoint)

/-! ### The mux's own tasks -/

section
variable {requests : Codec OpenRequest} {codec : Codec OpenResponse} {l l' r r' : Endpoint} {tasks : List Tasks}
  {t : State} {k : Nat} {x : MuxStream} {task : Tasks} {s : Stream} {f : Mux.Frame} {later : List Mux.Frame}

/-- A step of the controller's mux that is none of its streams'. -/
theorem Simulates.leftQuiet (h : Simulates requests l r tasks t) (hheld : l'.held = l.held)
    (hconsumed : l'.consumed = l.consumed) (henqueued : l'.enqueued = l.enqueued)
    (hcalls : ∀ call ∈ l'.opening, Asks requests call.payload)
    (hmux : ∀ y ∈ l.held, ∀ entry inbound, InMux l y.id y.inbound entry inbound →
      InMux l' y.id y.inbound entry inbound) : Simulates requests l' r tasks t := by
  refine {h with held := ?_, ids := ?_, known := ?_, controller := ?_, calls := hcalls, up := ?_, down := ?_}
  · rw [hheld]
    exact h.held
  · rw [hheld]
    exact h.ids
  · rw [hheld]
    exact h.known
  · intro j y task₁ s₁ hy htask₁ hs₁
    rw [hheld] at hy
    have hold := h.controller j y task₁ s₁ hy htask₁ hs₁
    exact {hold with mux := hmux y (List.mem_of_getElem? hy) _ _ hold.mux}
  · rw [henqueued, hheld]
    exact h.up
  · rw [hconsumed, hheld]
    exact h.down

/-- A step of the agent's mux that is none of its streams', an acknowledgement at most. -/
theorem Simulates.rightQuiet (h : Simulates requests l r tasks t) (acks : List Mux.Frame)
    (hknown : r'.known = r.known) (hheld : r.held.length ≤ r'.held.length) (hconsumed : r'.consumed = r.consumed)
    (henqueued : r'.enqueued = r.enqueued ++ acks) (hacks : ∀ f ∈ acks, f.frameType = .openAck)
    (hmux : r'.streams = r.streams ∧ r'.channels = r.channels) : Simulates requests l r' tasks t := by
  refine {h with known := ?_, agent := ?_, served := ?_, up := ?_, down := ?_, opens := ?_}
  · rw [hknown]
    exact h.known
  · intro j task₁ s₁ htask₁ hs₁
    rw [hknown]
    have hold := h.agent j task₁ s₁ htask₁ hs₁
    exact {hold with mux := fun y hy => ⟨(hold.mux y hy).1.same hmux.1 hmux.2, (hold.mux y hy).2⟩}
  · exact fun j task₁ htask₁ hhandler => (h.served j task₁ htask₁ hhandler).trans_le hheld
  · rw [hconsumed]
    exact h.up
  · obtain ⟨frames, hframes, hfilter⟩ := h.down
    refine ⟨frames ++ acks, ?_, ?_⟩
    · rw [henqueued, hframes, List.append_assoc]
    · have hnone : acks.filter (·.frameType ≠ .openAck) = [] := by
        apply List.filter_eq_nil_iff.mpr
        intro f hf
        simp [hacks f hf]
      rw [List.filter_append, hnone, List.append_nil]
      exact hfilter
  · rw [hknown]
    exact h.opens

/-- What the handler has not taken stays before what the reader appends. -/
theorem InMux.onUp {c : Nat} {i : UInt32} {before : List Bytes}
    (h : InMux r i c s.agentEntry (before ++ s.agentInbound)) {g : Frame} (hg : g ≠ .open) (request : Bytes) :
    InMux (r.onFrame (g.toMux i request)) i c (s.onUp g).agentEntry (before ++ (s.onUp g).agentInbound) := by
  have hread := onUp_inMux (s := {s with agentInbound := before ++ s.agentInbound}) h hg request
  cases g with
  | «open» => exact absurd rfl hg
  | data payload => cases hentry : s.agentEntry <;> simpa [Stream.onUp, hentry] using hread
  | close => exact hread

/-- A step of the writer task. -/
theorem Simulates.left_writes (h : Simulates requests l r tasks t) (hheld : l'.held = l.held)
    (hopening : l'.opening = l.opening) (hconsumed : l'.consumed = l.consumed) (henqueued : l'.enqueued = l.enqueued)
    (hstreams : l'.streams = l.streams) (hchannels : l'.channels = l.channels) : Simulates requests l' r tasks t :=
  h.leftQuiet hheld hconsumed henqueued (by rw [hopening]; exact h.calls)
    fun _ _ _ _ hmux => hmux.same hstreams hchannels

theorem Simulates.right_writes (h : Simulates requests l r tasks t) (hknown : r'.known = r.known)
    (hheld : r'.held = r.held) (hconsumed : r'.consumed = r.consumed) (henqueued : r'.enqueued = r.enqueued)
    (hstreams : r'.streams = r.streams) (hchannels : r'.channels = r.channels) : Simulates requests l r' tasks t :=
  h.rightQuiet [] hknown (Nat.le_of_eq (congrArg List.length hheld.symm)) hconsumed
    (by rw [henqueued, List.append_nil]) nofun ⟨hstreams, hchannels⟩

theorem AtAgent.onDown {y : Option MuxStream} (h : AtAgent r y task s) (g : Frame) :
    AtAgent r y task (s.onDown g) := by
  obtain ⟨entry, inbound, heq⟩ := s.onDown_eq g
  rw [heq]
  exact ⟨h.mux, h.unknown, h.relayed, h.answered⟩

theorem AtController.onUp (h : AtController l x task s) (g : Frame) : AtController l x task (s.onUp g) := by
  cases g with
  | «open» => exact ⟨h.mux, h.opener, h.forwarded, h.recorded⟩
  | data payload =>
    rw [Stream.onUp]
    split
    · exact ⟨h.mux, h.opener, h.forwarded, h.recorded⟩
    · exact h
  | close => exact ⟨h.mux, h.opener, h.forwarded, h.recorded⟩

/-- A stream whose end reads a frame, among all. -/
theorem modify_get {streams : List Stream} {g : Stream → Stream} {j : Nat} {s' : Stream}
    (h : (streams.modify k g)[j]? = some s') : ∃ s, streams[j]? = some s ∧ s' = if k = j then g s else s := by
  rw [List.getElem?_modify] at h
  obtain ⟨s, hs, rfl⟩ := Option.map_eq_some_iff.mp h
  exact ⟨s, hs, rfl⟩

theorem Simulates.get_of_lt (h : Simulates requests l r tasks t) (hk : k < t.streams.length) :
    ∃ x task s, l.held[k]? = some x ∧ tasks[k]? = some task ∧ t.streams[k]? = some s := by
  have htask := List.getElem?_eq_getElem (h.streams ▸ hk)
  obtain ⟨x, s, hx, hs⟩ := h.get htask
  exact ⟨x, _, s, hx, htask, hs⟩

/-- Streams with one id are one. -/
theorem Simulates.place (h : Simulates requests l r tasks t) {j : Nat} {y : MuxStream} (hx : l.held[k]? = some x)
    (hy : l.held[j]? = some y) (hid : x.id = y.id) : k = j := by
  have hlt : k < (l.held.map (·.id)).length := by
    rw [List.length_map]
    exact (List.getElem?_eq_some_iff.mp hx).1
  apply (List.getElem?_inj hlt h.ids).mp
  rw [List.getElem?_map, List.getElem?_map, hx, hy]
  exact congrArg some hid

/-- The controller's mux reads an acknowledgement. -/
theorem Simulates.readAck (h : Simulates requests l r tasks t) (hread : r.enqueued = l.consumed ++ f :: later)
    (hf : f.frameType = .openAck) : Simulates requests (l.onFrame f) r tasks t := by
  have honFrame : l.onFrame f = {l with consumed := l.consumed ++ [f]} := by
    simp only [Endpoint.onFrame, hf]
  rw [honFrame]
  refine {h with controller := ?_, down := ⟨later, ?_, ?_⟩}
  · intro j y task₁ s₁ hy htask₁ hs₁
    have hold := h.controller j y task₁ s₁ hy htask₁ hs₁
    exact {hold with mux := hold.mux.same rfl rfl}
  · rw [hread, List.append_assoc]
    rfl
  · obtain ⟨frames, hframes, hfilter⟩ := h.down
    obtain rfl : frames = f :: later := List.append_cancel_left (hframes.symm.trans hread)
    rw [List.filter_cons_of_neg (by simp [hf])] at hfilter
    exact hfilter

/-- The controller's mux reads a frame of a stream. -/
theorem Simulates.readDown (h : Simulates requests l r tasks t)
    (hreceives : Mux.Receives l.channels l.streams l.consumed) (hknown : Mux.Known l) (haddressed : Addressed t)
    (hread : r.enqueued = l.consumed ++ f :: later) (hf : f.frameType = .data ∨ f.frameType = .close) :
    ∃ t', step codec .controllerRead t = some t' ∧ Simulates requests (l.onFrame f) r tasks t' := by
  obtain ⟨frames, hframes, hfilter⟩ := h.down
  obtain rfl : frames = f :: later := List.append_cancel_left (hframes.symm.trans hread)
  rw [List.filter_cons_of_pos (by rcases hf with hf | hf <;> simp [hf])] at hfilter
  cases hwire : t.toController with
  | nil =>
    rw [hwire] at hfilter
    cases hfilter
  | cons p rest =>
    obtain ⟨k, g⟩ := p
    rw [hwire, List.map_cons] at hfilter
    obtain ⟨hhead, hlater⟩ := List.cons.inj hfilter
    have hk : k < t.streams.length := haddressed (k, g) (by simp [hwire])
    obtain ⟨x, task, s, hx, htask, hs⟩ := h.get_of_lt hk
    rw [carried_eq hx htask] at hhead
    have hg : g ≠ .open := by
      rintro rfl
      subst hhead
      rcases hf with hf | hf <;> cases hf
    have hid : f.streamId = x.id := by
      rw [hhead]
      cases g <;> rfl
    obtain ⟨hconsumed, henqueued, -, -, -, hopening, -, hheld, -⟩ := Mux.onFrame_frame l f
    refine ⟨{t with streams := t.streams.modify k (·.onDown g), toController := rest}, by rw [step, hwire], ?_⟩
    refine {h with held := ?_, streams := ?_, ids := ?_, known := ?_, controller := ?_, agent := ?_, calls := ?_,
                   up := ?_, down := ⟨later, ?_, ?_⟩}
    · rw [hheld]
      exact h.held
    · rw [List.length_modify]
      exact h.streams
    · rw [hheld]
      exact h.ids
    · rw [hheld]
      exact h.known
    · intro j y task₁ s₁ hy htask₁ hs₁
      rw [hheld] at hy
      obtain ⟨s₀, hs₀, rfl⟩ := modify_get hs₁
      have hold := h.controller j y task₁ s₀ hy htask₁ hs₀
      split
      · next hj =>
        subst hj
        obtain rfl := Option.some.inj (hx.symm.trans hy)
        obtain ⟨entry, inbound, heq⟩ := s₀.onDown_eq g
        refine ⟨hhead ▸ onDown_inMux hold.mux hg task.request, ?_, ?_, ?_⟩
        · rw [heq]
          exact hold.opener
        · rw [heq]
          exact hold.forwarded
        · rw [heq]
          exact hold.recorded
      · next hj =>
        refine {hold with mux := hold.mux.other (fun id hl => ?_) fun hsame => hj ?_}
        · exact channel_id hreceives hknown (List.mem_of_getElem? (held_known hy)) hl
        · exact h.place hx hy (hid.symm.trans hsame)
    · intro j task₁ s₁ htask₁ hs₁
      obtain ⟨s₀, hs₀, rfl⟩ := modify_get hs₁
      have hold := h.agent j task₁ s₀ htask₁ hs₀
      split
      · exact hold.onDown g
      · exact hold
    · rw [hopening]
      exact h.calls
    · rw [henqueued, hheld]
      exact h.up
    · rw [hconsumed, hread, List.append_assoc]
      rfl
    · rw [hheld]
      exact hlater

/-- What the agent's mux reads next is the first frame in flight. -/
theorem Simulates.nextUp (h : Simulates requests l r tasks t) (haddressed : Addressed t)
    (hread : l.enqueued = r.consumed ++ f :: later) :
    ∃ k g rest x task s, t.toAgent = (k, g) :: rest ∧ l.held[k]? = some x ∧ tasks[k]? = some task ∧
      t.streams[k]? = some s ∧ f = g.toMux x.id task.request ∧
      later = rest.map (carried (l.held.map (·.id)) (tasks.map (·.request))) := by
  have hframes := List.append_cancel_left (h.up.symm.trans hread)
  cases hwire : t.toAgent with
  | nil =>
    rw [hwire] at hframes
    cases hframes
  | cons p rest =>
    obtain ⟨k, g⟩ := p
    rw [hwire, List.map_cons] at hframes
    obtain ⟨hhead, hlater⟩ := List.cons.inj hframes
    have hk : k < t.streams.length := haddressed (k, g) (by simp [hwire])
    obtain ⟨x, task, s, hx, htask, hs⟩ := h.get_of_lt hk
    rw [carried_eq hx htask] at hhead
    exact ⟨k, g, rest, x, task, s, rfl, hx, htask, hs, hhead.symm, hlater.symm⟩

/-- A frame of stream `k` leaves what the agent's mux has of another. -/
theorem Simulates.other (h : Simulates requests l r tasks t)
    (hreceives : Mux.Receives r.channels r.streams r.consumed) (hknown : Mux.Known r)
    (hx : l.held[k]? = some x) (hid : f.streamId = x.id) {j : Nat} (hj : k ≠ j) {y : MuxStream}
    (hy : r.known[j]? = some y) {entry : Bool} {inbound : List Bytes}
    (hmux : InMux r y.id y.inbound entry inbound) : InMux (r.onFrame f) y.id y.inbound entry inbound := by
  apply hmux.other
  · exact fun id hl => channel_id hreceives hknown (List.mem_of_getElem? hy) hl
  · intro hsame
    have hlt : j < l.held.length := by
      have hle := h.known.length_le
      rw [List.length_map, List.length_map] at hle
      exact (List.getElem?_eq_some_iff.mp hy).1.trans_le hle
    have hheld := List.getElem?_eq_getElem hlt
    exact hj (h.place hx hheld (hid.symm.trans (hsame.trans (h.known_id hheld hy))))

theorem onFrame_known (hreader : r.reader = .reading) (hf : f.frameType ≠ .ping) :
    (r.onFrame f).known = r.known ++ if f.frameType = .open then [⟨f.streamId, r.channels.length⟩] else [] := by
  obtain ⟨-, -, -, -, -, -, -, hheld, hincoming⟩ := Mux.onFrame_frame r f
  rw [Endpoint.known, Endpoint.known, hheld, hincoming, hreader, List.append_nil]
  by_cases hopen : f.frameType = .open
  · simp [Endpoint.onFrame, hopen]
  · rw [if_neg hopen, Mux.onFrame_reader ⟨hopen, hf⟩, hreader]

/-- The agent's mux reads the `Open` of a stream: the next one that the controller holds. -/
theorem Simulates.readOpen {rest : List (Nat × Frame)} (h : Simulates requests l r tasks t)
    (hreceives : Mux.Receives r.channels r.streams r.consumed) (hknown : Mux.Known r)
    (hreader : r.reader = .reading)
    (hwire : t.toAgent = (k, .open) :: rest) (hx : l.held[k]? = some x) (htask : tasks[k]? = some task)
    (hread : l.enqueued = r.consumed ++ Frame.toMux x.id task.request .open :: later)
    (hlater : later = rest.map (carried (l.held.map (·.id)) (tasks.map (·.request)))) :
    Simulates requests l (r.onFrame (Frame.toMux x.id task.request .open)) tasks
      {t with streams := t.streams.modify k (·.onUp .open), toAgent := rest} := by
  obtain ⟨hconsumed, henqueued, -, -, -, -, -, hheld, -⟩ :=
    Mux.onFrame_frame r (Frame.toMux x.id task.request .open)
  have hknown' : (r.onFrame (Frame.toMux x.id task.request .open)).known =
      r.known ++ [⟨x.id, r.channels.length⟩] := onFrame_known hreader nofun
  have hopens := h.opens
  rw [hwire, List.filter_cons_of_pos (by simp), List.map_cons] at hopens
  obtain ⟨n, hn⟩ : ∃ n, tasks.length - r.known.length = n + 1 := by
    cases hn : tasks.length - r.known.length with
    | zero =>
      rw [hn] at hopens
      cases hopens
    | succ n => exact ⟨n, rfl⟩
  rw [hn, List.range'_succ] at hopens
  obtain ⟨hk, hrest⟩ := List.cons.inj hopens
  replace hk : k = r.known.length := hk
  refine {h with streams := ?_, known := ?_, controller := ?_, agent := ?_, served := ?_, up := ?_, down := ?_,
                 opens := ?_}
  · rw [List.length_modify]
    exact h.streams
  · obtain ⟨tail, htail⟩ := h.known
    have hget : (l.held.map (·.id))[(r.known.map (·.id)).length]? = some x.id := by
      rw [List.length_map, ← hk, List.getElem?_map, hx]
      rfl
    rw [← htail, List.getElem?_append_right (Nat.le_refl _), Nat.sub_self] at hget
    cases tail with
    | nil => cases hget
    | cons i tail =>
      obtain rfl := Option.some.inj hget
      rw [hknown', List.map_append, ← htail]
      exact ⟨tail, by simp⟩
  · intro j y task₁ s₁ hy htask₁ hs₁
    obtain ⟨s₀, hs₀, rfl⟩ := modify_get hs₁
    have hold := h.controller j y task₁ s₀ hy htask₁ hs₀
    split
    · exact hold.onUp .open
    · exact hold
  · intro j task₁ s₁ htask₁ hs₁
    obtain ⟨s₀, hs₀, rfl⟩ := modify_get hs₁
    have hold := h.agent j task₁ s₀ htask₁ hs₀
    rw [hknown', Heap.get_push]
    by_cases hj : k = j
    · subst hj
      obtain rfl := Option.some.inj (htask.symm.trans htask₁)
      obtain ⟨habsent, -, -, hinbound⟩ := hold.unknown (List.getElem?_eq_none (Nat.le_of_eq hk.symm))
      obtain ⟨hrequest, -⟩ := h.requests task (List.mem_of_getElem? htask)
      rw [if_pos rfl, if_pos hk]
      refine ⟨?_, nofun, hold.relayed, hold.answered⟩
      intro y hy
      obtain rfl := Option.some.inj hy
      rw [Tasks.waiting, if_pos habsent, Tasks.reached, if_pos habsent]
      refine ⟨?_, rfl⟩
      have hqueue : [task.request] ++ (s₀.onUp .open).agentInbound = [task.request] :=
        congrArg ([task.request] ++ ·) hinbound
      rw [hqueue]
      exact onUp_open_inMux r x.id s₀ hrequest
    · rw [if_neg hj, if_neg (fun hlast => hj (hk.trans hlast.symm))]
      refine {hold with mux := fun y hy => ⟨?_, (hold.mux y hy).2⟩}
      exact h.other hreceives hknown hx rfl hj hy (hold.mux y hy).1
  · rw [hheld]
    exact h.served
  · rw [hconsumed, hread, hlater, List.append_assoc]
    rfl
  · rw [henqueued]
    exact h.down
  · show (rest.filter _).map _ = _
    rw [hrest, hknown', List.length_append, List.length_singleton]
    congr 1
    omega

/-- The agent's mux reads another frame, of a stream that it knows by then. -/
theorem Simulates.readUp {g : Frame} {rest : List (Nat × Frame)} (h : Simulates requests l r tasks t)
    (hreceives : Mux.Receives r.channels r.streams r.consumed) (hknown : Mux.Known r)
    (hreader : r.reader = .reading) (hfirst : Mux.OpenFirst l.enqueued) (hg : g ≠ .open)
    (hwire : t.toAgent = (k, g) :: rest) (hx : l.held[k]? = some x) (htask : tasks[k]? = some task)
    (hread : l.enqueued = r.consumed ++ g.toMux x.id task.request :: later)
    (hlater : later = rest.map (carried (l.held.map (·.id)) (tasks.map (·.request)))) :
    Simulates requests l (r.onFrame (g.toMux x.id task.request)) tasks
      {t with streams := t.streams.modify k (·.onUp g), toAgent := rest} := by
  obtain ⟨hconsumed, henqueued, -, -, -, -, -, hheld, -⟩ := Mux.onFrame_frame r (g.toMux x.id task.request)
  have hid : (g.toMux x.id task.request).streamId = x.id := by cases g <;> rfl
  have htype : (g.toMux x.id task.request).frameType ≠ .open ∧ (g.toMux x.id task.request).frameType ≠ .ping := by
    cases g with
    | «open» => exact absurd rfl hg
    | data payload => exact ⟨nofun, nofun⟩
    | close => exact ⟨nofun, nofun⟩
  have hknown' : (r.onFrame (g.toMux x.id task.request)).known = r.known := by
    rw [onFrame_known hreader htype.2, if_neg htype.1, List.append_nil]
  have hopens := h.opens
  rw [hwire, List.filter_cons_of_neg (by simpa using hg)] at hopens
  -- Else its `Open` would come after this frame.
  have hk : k < r.known.length := by
    by_contra hk
    have hmem : k ∈ (rest.filter (·.2 = .open)).map (·.1) := by
      rw [hopens, List.mem_range'_1]
      have := (List.getElem?_eq_some_iff.mp htask).1
      omega
    obtain ⟨⟨j, g'⟩, hp, rfl⟩ := List.mem_map.mp hmem
    obtain ⟨hp, hg'⟩ := List.mem_filter.mp hp
    obtain rfl : g' = .open := by simpa using hg'
    obtain ⟨a, b, hab⟩ := List.append_of_mem (List.mem_map_of_mem
      (f := carried (l.held.map (·.id)) (tasks.map (·.request))) hp)
    rw [← hlater, carried_eq hx htask] at hab
    refine hfirst (r.consumed ++ g.toMux x.id task.request :: a) (Frame.toMux x.id task.request .open) b ?_ rfl
      (g.toMux x.id task.request) (by simp) hid
    rw [hread, hab]
    simp
  refine {h with streams := ?_, known := ?_, controller := ?_, agent := ?_, served := ?_, up := ?_, down := ?_,
                 opens := ?_}
  · rw [List.length_modify]
    exact h.streams
  · rw [hknown']
    exact h.known
  · intro j y task₁ s₁ hy htask₁ hs₁
    obtain ⟨s₀, hs₀, rfl⟩ := modify_get hs₁
    have hold := h.controller j y task₁ s₀ hy htask₁ hs₀
    split
    · exact hold.onUp g
    · exact hold
  · intro j task₁ s₁ htask₁ hs₁
    obtain ⟨s₀, hs₀, rfl⟩ := modify_get hs₁
    have hold := h.agent j task₁ s₀ htask₁ hs₀
    rw [hknown']
    by_cases hj : k = j
    · subst hj
      obtain ⟨y, hy⟩ : ∃ y, r.known[k]? = some y := ⟨_, List.getElem?_eq_getElem hk⟩
      obtain ⟨hmux, hhandler⟩ := hold.mux y hy
      obtain ⟨entry, inbound, closed, heq⟩ := s₀.onUp_eq hg
      rw [if_pos rfl]
      refine ⟨?_, fun hnone => (by rw [hy] at hnone; cases hnone), ?_, ?_⟩
      · intro z hz
        obtain rfl := Option.some.inj (hy.symm.trans hz)
        refine ⟨?_, by rw [heq]; exact hhandler⟩
        rw [← h.known_id hx hy]
        exact hmux.onUp hg task.request
      · rw [heq]
        exact hold.relayed
      · rw [heq]
        exact hold.answered
    · rw [if_neg hj]
      refine {hold with mux := fun y hy => ⟨?_, (hold.mux y hy).2⟩}
      exact h.other hreceives hknown hx hid hj hy (hold.mux y hy).1
  · rw [hheld]
    exact h.served
  · rw [hconsumed, hread, hlater, List.append_assoc]
    rfl
  · rw [henqueued]
    exact h.down
  · rw [hknown']
    exact hopens

end

/-! ### Calls of `open_stream` -/

section
variable {requests : Codec OpenRequest} {codec : Codec OpenResponse} {q q' : Muxed} {t : State}

/-- What an end of a stream has was not touched by a call that has no id in common. -/
theorem not_held (hinv : Mux.Inv .left q.pair) {c : Nat} {call : Mux.OpenCall}
    (hcall : (q.pair.ends .left).opening[c]? = some call) (hphase : call.phase ≠ .sent) :
    ∀ y ∈ (q.pair.ends .left).held, call.id ≠ y.id := by
  intro y hy hid
  have hsent := hinv.opens.held y hy
  rw [← hid] at hsent
  exact hinv.opens.not_callIn (P := (· = .sent)) hcall hphase hsent

theorem calls_set {opening : List Mux.OpenCall} {c : Nat} {call : Mux.OpenCall} {phase : Mux.OpenPhase}
    (hcalls : ∀ call ∈ opening, Asks requests call.payload)
    (hcall : opening[c]? = some call) :
    ∀ call' ∈ opening.set c {call with phase := phase}, Asks requests call'.payload := by
  intro call' hmem
  rcases List.mem_or_eq_of_mem_set hmem with hmem | rfl
  · exact hcalls call' hmem
  · exact hcalls call (List.mem_of_getElem? hcall)

/-- More streams leave the frames of those before as they are. -/
theorem carried_append {ids ids' : List UInt32} {asked asked' : List Bytes} {wire : List (Nat × Frame)}
    (h : ∀ p ∈ wire, p.1 < ids.length ∧ p.1 < asked.length) :
    wire.map (carried (ids ++ ids') (asked ++ asked')) = wire.map (carried ids asked) := by
  apply List.map_congr_left
  intro p hp
  obtain ⟨hids, hasked⟩ := h p hp
  simp [carried, List.getElem?_append_left hids, List.getElem?_append_left hasked]

/-- A stream whose `Open` is sent: its channel is empty, and the agent does not know it. -/
theorem Simulates.sendOpen {c inbound : Nat} {call : Mux.OpenCall} {l : Endpoint} (h : q.Simulated requests t)
    (hinv : Mux.Inv .left q.pair) (haddressed : Addressed t)
    (hcall : (q.pair.ends .left).opening[c]? = some call) (hphase : call.phase = .inserted inbound)
    (hl : l = {q.pair.ends .left with
      writerQueue := (q.pair.ends .left).writerQueue ++ [⟨.open, call.id, call.payload⟩]
      enqueued := (q.pair.ends .left).enqueued ++ [⟨.open, call.id, call.payload⟩]
      opening := (q.pair.ends .left).opening.set c {call with phase := .sent}
      held := (q.pair.ends .left).held ++ [⟨call.id, inbound⟩]}) :
    Simulates requests l (q.pair.ends .right) (q.tasks ++ [{ request := call.payload }])
      {t with streams := t.streams ++ [{}], toAgent := t.toAgent ++ [(t.streams.length, .open)]} := by
  subst hl
  have hnot := not_held hinv hcall (by simp [hphase])
  have hchannel : InMux (q.pair.ends .left) call.id inbound true [] := by
    obtain ⟨ch, hch, hid⟩ := hinv.opens.inserted c call inbound hcall hphase
    have hunread : ∀ f ∈ (q.pair.ends .left).consumed, f.streamId ≠ call.id := by
      intro f hf hid
      refine hinv.opens.not_callIn (P := (· = .sent)) hcall (by simp [hphase]) ?_
      exact hid ▸ hinv.opener_of_frame hf
    have hcarried := (hinv.receives .left).carried inbound ch hch
    rw [hid, Mux.messages_of_absent _ _ hunread] at hcarried
    refine ⟨?_, ?_⟩
    · by_contra hlookup
      have hdropped := (hinv.receives .left).dropped inbound ch hch (by rw [hid]; simpa using hlookup)
      rw [hid] at hdropped
      exact Mux.not_closed_of_absent _ _ hunread hdropped
    · rw [hch, Option.map_some, (List.append_eq_nil_iff.mp hcarried).2]
  have hbounds : ∀ p ∈ t.toAgent ++ t.toController, p.1 < ((q.pair.ends .left).held.map (·.id)).length ∧
      p.1 < (q.tasks.map (·.request)).length := by
    intro p hp
    have hlt := haddressed p hp
    rw [h.streams] at hlt
    rw [List.length_map, List.length_map, h.held]
    exact ⟨hlt, hlt⟩
  refine ⟨?_, ?_, ?_, ?_, ?_, ?_, ?_, calls_set h.calls hcall, ?_, ?_, ?_, ?_⟩
  · rw [List.length_append, List.length_append, h.held]
    rfl
  · rw [List.length_append, List.length_append, h.streams]
    rfl
  · rw [List.map_append, List.map_singleton]
    refine List.nodup_append.mpr ⟨h.ids, List.nodup_singleton _, ?_⟩
    intro i hi j hj
    obtain ⟨y, hy, rfl⟩ := List.mem_map.mp hi
    obtain rfl := List.mem_singleton.mp hj
    exact (hnot y hy).symm
  · rw [List.map_append]
    exact h.known.trans (List.prefix_append _ _)
  · intro j y task₁ s₁ hy htask₁ hs₁
    rw [Heap.get_push, h.held] at hy
    rw [Heap.get_push] at htask₁ hs₁
    rw [h.streams] at hs₁
    split at hy
    · next hj =>
      rw [if_pos hj] at htask₁ hs₁
      obtain rfl := Option.some.inj hy
      obtain rfl := Option.some.inj htask₁
      obtain rfl := Option.some.inj hs₁
      exact ⟨hchannel.same (x := ⟨call.id, inbound⟩) rfl rfl, rfl, rfl, rfl⟩
    · next hj =>
      rw [if_neg hj] at htask₁ hs₁
      have hold := h.controller j y task₁ s₁ hy htask₁ hs₁
      exact {hold with mux := hold.mux.same rfl rfl}
  · intro j task₁ s₁ htask₁ hs₁
    rw [Heap.get_push] at htask₁ hs₁
    rw [h.streams] at hs₁
    split at htask₁
    · next hj =>
      rw [if_pos hj] at hs₁
      obtain rfl := Option.some.inj htask₁
      obtain rfl := Option.some.inj hs₁
      have hle := h.known.length_le
      rw [List.length_map, List.length_map, h.held] at hle
      rw [List.getElem?_eq_none (hj ▸ hle)]
      exact ⟨nofun, fun _ => ⟨rfl, rfl, rfl, rfl⟩, rfl, rfl⟩
    · next hj =>
      rw [if_neg hj] at hs₁
      exact h.agent j task₁ s₁ htask₁ hs₁
  · intro j task₁ htask₁ hhandler
    rw [Heap.get_push] at htask₁
    split at htask₁
    · obtain rfl := Option.some.inj htask₁
      exact absurd rfl hhandler
    · exact h.served j task₁ htask₁ hhandler
  · intro task₁ hmem
    rcases List.mem_append.mp hmem with hmem | hmem
    · exact h.requests task₁ hmem
    · obtain rfl := List.mem_singleton.mp hmem
      exact h.calls call (List.mem_of_getElem? hcall)
  · rw [List.map_append, List.map_append, List.map_append,
      carried_append fun p hp => hbounds p (List.mem_append_left _ hp)]
    show (q.pair.ends .left).enqueued ++ [_] = _
    rw [h.up, List.append_assoc]
    simp [carried, Frame.toMux, h.streams, h.held]
  · obtain ⟨frames, hframes, hfilter⟩ := h.down
    refine ⟨frames, hframes, ?_⟩
    rw [List.map_append, List.map_append, carried_append fun p hp => hbounds p (List.mem_append_right _ hp)]
    exact hfilter
  · have hle := h.known.length_le
    rw [List.length_map, List.length_map, h.held] at hle
    show ((t.toAgent ++ [_]).filter _).map _ = _
    rw [List.filter_append, List.map_append, h.opens, h.streams, List.length_append, List.length_singleton,
      Nat.sub_add_comm hle, List.range'_1_concat, Nat.add_sub_cancel' hle]
    rfl

theorem openStream_matched {request : OpenRequest} (h : q.Simulated requests t) (hinv : Mux.Inv .left q.pair)
    (hdecodes : requests.Decodes request ∧ requests.toVec request ≠ [])
    (hstep : Muxed.step requests codec (.openStream request) q = some q') : q'.Simulated requests t := by
  rw [Muxed.step] at hstep
  split at hstep
  · obtain ⟨p, hp, rfl⟩ := Option.map_eq_some_iff.mp hstep
    obtain ⟨hacts, hpeer⟩ := acts_of_step hinv rfl hp
    have hright : p.ends .right = q.pair.ends .right := hpeer
    rw [Muxed.Simulated, hright]
    generalize p.ends .left = l at hacts
    cases hacts
    apply h.leftQuiet
    · rfl
    · rfl
    · rfl
    · intro call hmem
      rcases List.mem_append.mp hmem with hmem | hmem
      · exact h.calls call hmem
      · obtain rfl := List.mem_singleton.mp hmem
        exact ⟨hdecodes.2, request, hdecodes.1⟩
    · exact fun y _ _ _ hmux => hmux.same rfl rfl
  · cases hstep

theorem insertStream_matched {c : Nat} (h : q.Simulated requests t) (hinv : Mux.Inv .left q.pair)
    (hstep : Muxed.step requests codec (.insertStream c) q = some q') : q'.Simulated requests t := by
  obtain ⟨p, hp, rfl⟩ := Option.map_eq_some_iff.mp hstep
  obtain ⟨hacts, hpeer⟩ := acts_of_step hinv rfl hp
  have hright : p.ends .right = q.pair.ends .right := hpeer
  rw [Muxed.Simulated, hright]
  generalize p.ends .left = l at hacts
  cases hacts with
  | insertStream hcall hphase =>
    have hnot := not_held hinv hcall (by simp [hphase])
    apply h.leftQuiet
    · rfl
    · rfl
    · rfl
    · exact calls_set h.calls hcall
    · exact fun y hy _ _ hmux => (hmux.newStream (hnot y hy) []).same rfl rfl

theorem sendOpen_matched {c : Nat} (h : q.Simulated requests t) (hinv : Mux.Inv .left q.pair)
    (haddressed : Addressed t) (hstep : Muxed.step requests codec (.sendOpen c) q = some q') :
    ∃ t', Udp.step codec .openStream t = some t' ∧ q'.Simulated requests t' := by
  rw [Muxed.step] at hstep
  obtain ⟨call, hcall, hstep⟩ := Option.bind_eq_some_iff.mp hstep
  simp only [(hinv.flows .left).live, Bool.false_eq_true, if_false] at hstep
  obtain ⟨p, hp, rfl⟩ := Option.map_eq_some_iff.mp hstep
  obtain ⟨hacts, hpeer⟩ := acts_of_step hinv rfl hp
  have hright : p.ends .right = q.pair.ends .right := hpeer
  refine ⟨_, rfl, ?_⟩
  show Simulates requests (p.ends .left) (p.ends .right) _ _
  rw [hright]
  generalize p.ends .left = l at hacts
  cases hacts with
  | sendOpen hcall' hphase =>
    obtain rfl := Option.some.inj (hcall.symm.trans hcall')
    exact h.sendOpen hinv haddressed hcall hphase rfl

theorem accept_matched (h : q.Simulated requests t) (hinv : Mux.Inv .left q.pair)
    (hstep : Muxed.step requests codec .accept q = some q') : q'.Simulated requests t := by
  obtain ⟨p, hp, rfl⟩ := Option.map_eq_some_iff.mp hstep
  obtain ⟨hacts, hpeer⟩ := acts_of_step hinv rfl hp
  have hleft : p.ends .left = q.pair.ends .left := hpeer
  rw [Muxed.Simulated, hleft]
  generalize p.ends .right = r at hacts
  cases hacts with
  | accept hincoming =>
    apply h.rightQuiet []
    · simp [Endpoint.known, hincoming]
    · simp
    · rfl
    · exact (List.append_nil _).symm
    · simp
    · exact ⟨rfl, rfl⟩

theorem read_matched {p : Mux.Pair} {s : Side} {f : Mux.Frame} {later : List Mux.Frame} (h : q.Simulated requests t)
    (hinv : Mux.Inv .left q.pair) (haddressed : Addressed t)
    (hreader : (q.pair.ends s).reader = .reading)
    (hread : (q.pair.ends s.peer).enqueued = (q.pair.ends s).consumed ++ f :: later)
    (hp : p.ends = Function.update q.pair.ends s ((q.pair.ends s).onFrame f)) :
    ∃ t', (system codec).Steps (fun _ _ => True) t t' ∧ Simulates requests (p.ends .left) (p.ends .right) q.tasks t' := by
  have hmem : f ∈ (q.pair.ends s.peer).enqueued := by simp [hread]
  have hreceives := hinv.receives s
  have hknown := hinv.known s
  cases s with
  | left =>
    rw [hp, Function.update_self, Function.update_of_ne (by decide)]
    rcases (hinv.accepts.frames f hmem).1 with hf | hf
    · exact ⟨t, .refl, h.readAck hread hf⟩
    · have hdown : ∃ t', Udp.step codec .controllerRead t = some t' ∧ _ :=
        h.readDown hreceives hknown haddressed hread hf
      obtain ⟨t', hstep, hsim⟩ := hdown
      exact ⟨t', .step (a := .controllerRead) .refl trivial hstep, hsim⟩
  | right =>
    rw [hp, Function.update_self, Function.update_of_ne (by decide)]
    obtain ⟨k, g, rest, x, task, s, hwire, hx, htask, hs, rfl, hlater⟩ := h.nextUp haddressed hread
    have hstep : Udp.step codec .agentRead t =
        some {t with streams := t.streams.modify k (·.onUp g), toAgent := rest} := by
      rw [Udp.step, hwire]
    refine ⟨_, .step (a := .agentRead) .refl trivial hstep, ?_⟩
    by_cases hg : g = .open
    · subst hg
      exact h.readOpen hreceives hknown hreader hwire hx htask hread hlater
    · exact h.readUp hreceives hknown hreader hinv.opens.first hg hwire hx htask hread hlater

/-- A step of one end. -/
theorem simulated_left {l : Endpoint} {wire : Side → Bytes} (h : Simulates requests l (q.pair.ends .right) q.tasks t) :
    Muxed.Simulated requests {q with pair := ⟨Function.update q.pair.ends .left l, wire⟩} t := by
  show Simulates requests (Function.update q.pair.ends .left l .left) (Function.update q.pair.ends .left l .right) _ _
  rw [Function.update_self, Function.update_of_ne (by decide)]
  exact h

theorem simulated_right {r : Endpoint} {wire : Side → Bytes} (h : Simulates requests (q.pair.ends .left) r q.tasks t) :
    Muxed.Simulated requests {q with pair := ⟨Function.update q.pair.ends .right r, wire⟩} t := by
  show Simulates requests (Function.update q.pair.ends .right r .left) (Function.update q.pair.ends .right r .right) _ _
  rw [Function.update_self, Function.update_of_ne (by decide)]
  exact h

/-- The reader and writer tasks of both muxes. -/
theorem mux_matched {s : Side} {a : Mux.Action} (h : q.Simulated requests t) (hinv : Mux.Inv .left q.pair)
    (haddressed : Addressed t)
    (hstep : Muxed.step requests codec (.mux s a) q = some q') :
    ∃ t', (system codec).Steps (fun _ _ => True) t t' ∧ q'.Simulated requests t' := by
  rw [Muxed.step] at hstep
  split at hstep
  · next ha =>
    obtain ⟨p, hp, rfl⟩ := Option.map_eq_some_iff.mp hstep
    cases hinv.moves hp with
    | read hreader hread => exact read_matched (q := q) (p := ⟨_, _⟩) h hinv haddressed hreader hread rfl
    | @write _ n _ =>
      refine ⟨t, .refl, ?_⟩
      cases s with
      | left =>
        apply simulated_left
        exact h.left_writes rfl rfl rfl rfl rfl rfl
      | right =>
        apply simulated_right
        exact h.right_writes rfl rfl rfl rfl rfl rfl
    | act hacts =>
      refine ⟨t, .refl, ?_⟩
      cases s with
      | left =>
        apply simulated_left
        obtain ⟨-, hreader⟩ := hinv.opens.quiet
        cases hacts with
        | handStream hhanding => rcases hreader with hreader | hreader <;> cases hreader.symm.trans hhanding
        | reply hreplying => rcases hreader with hreader | hreader <;> cases hreader.symm.trans hreplying
        | takeFrame _ _ _ => exact h.left_writes rfl rfl rfl rfl rfl rfl
        | _ => cases ha
      | right =>
        apply simulated_right
        cases hacts with
        | handStream hhanding =>
          apply h.rightQuiet []
          · simp [Endpoint.known, hhanding]
          · exact Nat.le_refl _
          · rfl
          · exact (List.append_nil _).symm
          · simp
          · exact ⟨rfl, rfl⟩
        | @reply f hreplying =>
          apply h.rightQuiet [f]
          · simp [Endpoint.known, hreplying]
          · exact Nat.le_refl _
          · rfl
          · rfl
          · simpa using (hinv.accepts.reply f hreplying).1
          · exact ⟨rfl, rfl⟩
        | takeFrame _ _ _ => exact h.right_writes rfl rfl rfl rfl rfl rfl
        | _ => cases ha
  · cases hstep

end

/-! ### Runs -/

section
variable {requests : Codec OpenRequest} {codec : Codec OpenResponse} {q q' : Muxed} {t : State} {s : Side} {k : Nat}

theorem call_inv {a : Mux.Action} {task : Tasks} (hinv : Mux.Inv .left q.pair) (h : q.call s a k task = some q')
    (hc : Mux.Allowed .left (s, a) q.pair) : Mux.Inv .left q'.pair := by
  obtain ⟨p, hp, rfl⟩ := Option.map_eq_some_iff.mp h
  exact Mux.inv_step hinv hc hp

theorem recv_inv {task : Bytes → Tasks} (hinv : Mux.Inv .left q.pair) (h : q.recv s k task = some q') :
    Mux.Inv .left q'.pair := by
  unfold Muxed.recv at h
  split at h
  · exact call_inv hinv h trivial
  · cases h

theorem ended_inv {task : Tasks} (hinv : Mux.Inv .left q.pair) (h : q.ended s k task = some q') :
    Mux.Inv .left q'.pair := by
  unfold Muxed.ended at h
  split at h
  · obtain rfl := Option.some.inj h
    exact hinv
  · cases h

theorem taskStep_inv {a : StreamAction} {task : Tasks} (hinv : Mux.Inv .left q.pair)
    (hc : Muxed.Allowed requests codec (.stream k a) q) (h : q.taskStep codec a k task = some q') :
    Mux.Inv .left q'.pair := by
  have hopen : q.openStep codec a k task = some q' → Mux.Inv .left q'.pair := by
    intro h
    unfold Muxed.openStep at h
    split at h
    · exact recv_inv hinv h
    · exact ended_inv hinv h
    · obtain rfl := Option.some.inj h
      exact hinv
    · cases h
  have hsession : q.sessionStep a k task = some q' → Mux.Inv .left q'.pair := by
    intro h
    unfold Muxed.sessionStep at h
    split at h
    · exact call_inv hinv h hc
    · exact call_inv hinv h trivial
    · exact recv_inv hinv h
    · exact recv_inv hinv h
    · exact ended_inv hinv h
    · cases h
  have hhandler : q.handlerStep codec a k task = some q' → Mux.Inv .left q'.pair := by
    intro h
    unfold Muxed.handlerStep at h
    split at h
    · exact call_inv hinv h hc
    · exact call_inv hinv h trivial
    · exact call_inv hinv h hc
    · exact recv_inv hinv h
    · exact recv_inv hinv h
    · exact ended_inv hinv h
    · exact call_inv hinv h hc
    · obtain rfl := Option.some.inj h
      exact hinv
    · cases h
  unfold Muxed.taskStep at h
  split at h
  all_goals first
    | exact hopen h
    | exact hsession h
    | exact hhandler h

theorem inv_step {a : MuxedAction} (hinv : Mux.Inv .left q.pair) (hc : Muxed.Allowed requests codec a q)
    (h : Muxed.step requests codec a q = some q') : Mux.Inv .left q'.pair := by
  cases a with
  | mux s a =>
    rw [Muxed.step] at h
    split at h
    · next ha =>
      obtain ⟨p, hp, rfl⟩ := Option.map_eq_some_iff.mp h
      refine Mux.inv_step hinv ?_ hp
      cases a <;> first
        | exact trivial
        | cases ha
    · cases h
  | openStream request =>
    rw [Muxed.step] at h
    split at h
    · obtain ⟨p, hp, rfl⟩ := Option.map_eq_some_iff.mp h
      have hallowed : Mux.Allowed .left (.left, .openStream (requests.toVec request)) q.pair := ⟨rfl, hc.2⟩
      exact Mux.inv_step hinv hallowed hp
    · cases h
  | insertStream c =>
    obtain ⟨p, hp, rfl⟩ := Option.map_eq_some_iff.mp h
    have hallowed : Mux.Allowed .left (.left, .insertStream c) q.pair := trivial
    exact Mux.inv_step hinv hallowed hp
  | sendOpen c =>
    obtain ⟨call, -, h⟩ := Option.bind_eq_some_iff.mp h
    obtain ⟨p, hp, h⟩ := Option.map_eq_some_iff.mp h
    have hkept : q'.pair = p := by
      split at h <;> exact congrArg Muxed.pair h.symm
    have hallowed : Mux.Allowed .left (.left, .sendOpen c) q.pair := trivial
    rw [hkept]
    exact Mux.inv_step hinv hallowed hp
  | accept =>
    obtain ⟨p, hp, rfl⟩ := Option.map_eq_some_iff.mp h
    have hallowed : Mux.Allowed .left (.right, .accept) q.pair := trivial
    exact Mux.inv_step hinv hallowed hp
  | takeRequest k =>
    rw [Muxed.step] at h
    split at h
    · cases h
    · split at h
      · exact recv_inv hinv h
      · cases h
  | stream k a =>
    rw [Muxed.step] at h
    split at h
    · cases h
    · exact taskStep_inv hinv hc h

/-- Each step of the two muxes and their streams' tasks is matched. -/
theorem muxed_simulation (requests : Codec OpenRequest) (codec : Codec OpenResponse) :
    System.Simulation (Muxed.system requests codec) (Muxed.Allowed requests codec) (system codec) (fun _ _ => True)
      fun q t => Mux.Inv .left q.pair ∧ q.Simulated requests t where
  init := ⟨Mux.inv_init .left, simulates_init requests⟩
  step := by
    rintro a q q' t - ht ⟨hinv, h⟩ hc hstep
    have hinv' := inv_step hinv hc hstep
    have haddressed := addressed_reachable ht
    replace hstep : Muxed.step requests codec a q = some q' := hstep
    suffices hmatched : ∃ t', (system codec).Steps (fun _ _ => True) t t' ∧ q'.Simulated requests t' by
      obtain ⟨t', hsteps, h'⟩ := hmatched
      exact ⟨t', hsteps, hinv', h'⟩
    cases a with
    | mux s a => exact mux_matched h hinv haddressed hstep
    | openStream request => exact ⟨t, .refl, openStream_matched h hinv hc.1 hstep⟩
    | insertStream c => exact ⟨t, .refl, insertStream_matched h hinv hstep⟩
    | sendOpen c =>
      obtain ⟨t', hsent, h'⟩ := sendOpen_matched h hinv haddressed hstep
      exact ⟨t', .step (a := .openStream) .refl trivial hsent, h'⟩
    | accept => exact ⟨t, .refl, accept_matched h hinv hstep⟩
    | takeRequest k => exact ⟨t, .refl, takeRequest_matched h hinv hstep⟩
    | stream k a =>
      rw [Muxed.step] at hstep
      split at hstep
      · cases hstep
      · next htask => exact taskStep_matched h hinv htask hstep

end

/-- **Streams on the mux.** Every run of the streams' tasks on the two muxes, whatever the
order of the steps, is one of the streams alone: it reaches a state of `Udp.system` that agrees
with the muxes on every stream and on what is in flight. -/
theorem streams_over_mux (requests : Codec OpenRequest) (codec : Codec OpenResponse) {q : Muxed}
    (h : (Muxed.system requests codec).Reach (Muxed.Allowed requests codec) q) :
    ∃ t, (system codec).Reachable t ∧ q.Simulated requests t := by
  obtain ⟨t, ht, -, hsim⟩ := (muxed_simulation requests codec).reach h
  exact ⟨t, ht, hsim⟩

/-- A lookup that the target answers, up to the client. -/
def lookupRequest : OpenRequest := ⟨"t", .udp, "h:53", "a:9", 5000⟩

def lookupRequests : Codec OpenRequest := (Pool.textSetup lookupRequest none).requestCodec

def lookupRun : List MuxedAction :=
  [.openStream lookupRequest, .insertStream 0, .sendOpen 0, .mux .left .takeFrame, .mux .left (.writeBytes 97),
   .mux .right .readFrame, .mux .right .handStream, .accept, .takeRequest 0, .stream 0 .connected,
   .mux .right .reply, .mux .right .takeFrame, .mux .right (.writeBytes 33), .mux .left .readFrame,
   .stream 0 .response, .stream 0 (.downlink [7]), .mux .right .takeFrame, .mux .right (.writeBytes 9),
   .mux .left .readFrame, .mux .right .takeFrame, .mux .right (.writeBytes 10), .mux .left .readFrame,
   .stream 0 .respond]

theorem lookup_reached : ∃ q task, (Muxed.system lookupRequests Pool.responseText).Reach
    (Muxed.Allowed lookupRequests Pool.responseText) q ∧ q.tasks[0]? = some task ∧ task.opener = .opened true ∧
    task.forwarded = [[7]] := by
  obtain ⟨q, hreach, hq⟩ := System.reach_of_run (S := Muxed.system lookupRequests Pool.responseText)
    (C := Muxed.Allowed lookupRequests Pool.responseText) lookupRun
    (fun q : Muxed => q.tasks[0]?.any fun task : Tasks => task.opener = .opened true ∧ task.forwarded = [[7]])
    (by decide +kernel)
  obtain ⟨task, htask, hend⟩ := Option.any_eq_true _ _ |>.mp hq
  obtain ⟨hopened, hforwarded⟩ := of_decide_eq_true hend
  exact ⟨q, task, hreach, htask, hopened, hforwarded⟩

theorem streams_over_mux_lookupRun : ∃ (q : Muxed) (t : State) (task : Tasks), (system Pool.responseText).Reachable t ∧
    q.Simulated lookupRequests t ∧ q.tasks[0]? = some task ∧ task.forwarded = [[7]] := by
  obtain ⟨q, task, hreach, htask, -, hforwarded⟩ := lookup_reached
  obtain ⟨t, ht, hsim⟩ := streams_over_mux lookupRequests Pool.responseText hreach
  exact ⟨q, t, task, ht, hsim, htask, hforwarded⟩

/-- **Opened streams on the mux.** A stream that `open_stream` has returned is the stream of
its id at the agent, and its handler relays; the controller's mux has its sender; and what went
to the client is the beginning of what the handler has sent behind its answer. -/
theorem opened_over_mux (requests : Codec OpenRequest) (codec : Codec OpenResponse)
    (hcodec : ∀ response, codec.Decodes response) {q : Muxed}
    (h : (Muxed.system requests codec).Reach (Muxed.Allowed requests codec) q) {k : Nat} {task : Tasks}
    (htask : q.tasks[k]? = some task) {running : Bool} (hopened : task.opener = .opened running) :
    ∃ x y, (q.pair.ends .left).held[k]? = some x ∧ (q.pair.ends .right).held[k]? = some y ∧ y.id = x.id ∧
      (q.pair.ends .left).streams.lookup x.id = some x.inbound ∧
      (∃ uplink downlink, task.handler = .relaying uplink downlink) ∧ task.forwarded <+: task.answered.tail := by
  obtain ⟨t, ht, -, hsim⟩ := (muxed_simulation requests codec).reach h
  obtain ⟨x, s, hx, hs⟩ := hsim.get htask
  obtain ⟨hmux, hopener, hforwarded, -⟩ := hsim.controller k x task s hx htask hs
  obtain ⟨hmuxes, hunknown, -, hanswered⟩ := hsim.agent k task s htask hs
  obtain ⟨⟨uplink, downlink, hrelaying⟩, hentry, -⟩ := opened_relays hcodec ht hs (hopener.trans hopened)
  obtain ⟨y, hy⟩ : ∃ y, (q.pair.ends .right).known[k]? = some y := by
    apply Option.ne_none_iff_exists'.mp
    intro hnone
    obtain ⟨-, habsent, -⟩ := hunknown hnone
    cases habsent.symm.trans hrelaying
  have hreached := (hmuxes y hy).2.symm.trans hrelaying
  have hhandler : task.handler ≠ .absent := by
    intro habsent
    rw [Tasks.reached, if_pos habsent] at hreached
    cases hreached
  rw [Tasks.reached, if_neg hhandler] at hreached
  have htable := hmux.table
  rw [hentry, if_pos rfl] at htable
  refine ⟨x, y, hx, known_held hy (hsim.served k task htask hhandler), hsim.known_id hx hy, htable,
    ⟨uplink, downlink, hreached⟩, ?_⟩
  rw [← hforwarded, ← hanswered]
  exact (delivered_reachable ht hs).sent

theorem opened_over_mux_lookupRun : ∃ (q : Muxed) (task : Tasks), q.tasks[0]? = some task ∧ task.forwarded = [[7]] ∧
    ∃ uplink downlink, task.handler = .relaying uplink downlink := by
  obtain ⟨q, task, hreach, htask, hopened, hforwarded⟩ := lookup_reached
  obtain ⟨-, -, -, -, -, -, hhandler, -⟩ := opened_over_mux lookupRequests Pool.responseText
    Pool.responseText_decodes hreach htask hopened
  exact ⟨q, task, htask, hforwarded, hhandler⟩

end Rps.Udp
