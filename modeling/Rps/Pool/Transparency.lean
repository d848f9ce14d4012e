import Rps.Pool.Path
import Mathlib.Data.List.Infix

/-! What the pooled TCP path relays.

`transparent_of_inv`: in every state of the invariant, the target was sent a prefix of
the initial data and the client's bytes, the client a prefix of the target's bytes, and
every byte that either side gave away is with a loop, on the connection or at the
other side. No byte of the request or the response is among them.

The invariant has two halves. What an agent's task has read and written of its
connection is `ConnInv`; what the controller has, `LinkInv` and, for the connection
in hand, `PhaseInv`. They meet in `sentUp` and `sentDown`: a `read_json` that is done
took the one message that was written, and nothing behind it. -/
namespace Rps.Pool
open Base
open Rps.Core

/-- What `serde_json` documents: it reads back what it wrote, here for the request
of the path and for every response. -/
structure Setup.Documented (P : Setup) : Prop where
  request : P.requestCodec.Decodes P.request
  response : ∀ response, P.responseCodec.Decodes response

namespace Setup
variable (P : Setup)

/-- The request is not too large to be written. -/
def RequestFits : Prop := (P.requestCodec.toVec P.request).length ≤ maxJsonMessageLen

def ResponseFits (response : OpenResponse) : Prop := (P.responseCodec.toVec response).length ≤ maxJsonMessageLen

end Setup

/-! ### The agent's end of a connection -/

/-- No byte was relayed. -/
def Unused (k : Conn) : Prop := k.uplink.taken = [] ∧ k.downlink.written = []

/-- What the agent's task has read off its connection and written on it. -/
def AgentInv (P : Setup) (k : Conn) : Prop :=
  match k.agent with
  | .waiting => k.up = k.sentUp ∧ k.sentDown = [] ∧ Unused k
  | .connecting request => request = P.request ∧ k.sentUp = P.requestMessage ++ k.up ∧ k.sentDown = [] ∧ Unused k
  | .answering request response rest =>
    request = P.request ∧ k.sentUp = P.requestMessage ++ k.up ∧ Unused k ∧ P.ResponseFits response ∧
      (response.ok = true → response = .success) ∧ rest ≠ [] ∧ k.sentDown ++ rest = P.responseMessage response
  | .relaying request =>
    request = P.request ∧ k.sentUp = P.requestMessage ++ k.uplink.taken ++ k.up ∧ P.ResponseFits .success ∧
      k.sentDown = P.responseMessage .success ++ k.downlink.written
  | .ended =>
    Unused k ∧ (k.sentDown = [] ∨ ∃ response later, P.ResponseFits response ∧
      k.sentDown ++ later = P.responseMessage response ∧ (response.ok = true → later ≠ []))

structure ConnInv (P : Setup) (k : Conn) : Prop where
  agent : AgentInv P k
  got : k.targetGot = k.uplink.written
  target : k.downlink.taken ++ k.targetUnread = k.target

/-- What the controller has put on a connection: nothing, or a part of the request and
what is relayed behind it. -/
def Sent (P : Setup) (client : Bytes) (k : Conn) : Prop :=
  k.sentUp = [] ∨ P.RequestFits ∧ k.sentUp <+: P.requestMessage ++ (P.initial ++ client)

/-- What the agent's task does to its connection, as the controller sees it. -/
structure AgentStep (P : Setup) (k k' : Conn) : Prop where
  inv : ConnInv P k'
  sentUp : k'.sentUp = k.sentUp
  sentDown : ∃ out, k'.sentDown = k.sentDown ++ out ∧ k'.down = k.down ++ out
  relaying : k.agent = .relaying P.request → k'.agent = .relaying P.request

theorem written_of_taken {c : Copy} (h : c.taken = []) : c.written = [] := by
  rw [Copy.taken] at h
  exact (List.append_eq_nil_iff.mp h).1

section
variable {P : Setup} {k : Conn}

theorem connInv_init : ConnInv P {} := ⟨⟨rfl, rfl, rfl, rfl⟩, rfl, rfl⟩

/-- A task that does not relay yet puts nothing on the connection. -/
theorem agentStep_quiet {k' : Conn} (hrel : ∀ request, k.agent ≠ .relaying request) (hinv : ConnInv P k')
    (hup : k'.sentUp = k.sentUp) (hsent : k'.sentDown = k.sentDown) (hdown : k'.down = k.down) : AgentStep P k k' :=
  ⟨hinv, hup, ⟨[], by rw [hsent, List.append_nil], by rw [hdown, List.append_nil]⟩, fun hr => absurd hr (hrel _)⟩

theorem respond_frame (codec : Codec OpenResponse) (k : Conn) (request : OpenRequest) (response : OpenResponse) :
    (k.respond codec request response).sentUp = k.sentUp ∧
      (k.respond codec request response).sentDown = k.sentDown ∧
      (k.respond codec request response).down = k.down := by
  unfold Conn.respond
  split <;> exact ⟨rfl, rfl, rfl⟩

/-- A task that has written nothing begins to answer, or ends. -/
theorem connInv_respond (hgot : k.targetGot = k.uplink.written) (htarget : k.downlink.taken ++ k.targetUnread = k.target)
    (hup : k.sentUp = P.requestMessage ++ k.up) (hdown : k.sentDown = []) (hunused : Unused k)
    {response : OpenResponse} (hok : response.ok = true → response = .success) :
    ConnInv P (k.respond P.responseCodec P.request response) := by
  unfold Conn.respond
  split
  · rename_i bytes hbytes
    obtain ⟨hfits, rfl⟩ := Codec.writeJson_eq_ok hbytes
    refine ⟨⟨rfl, hup, hunused, hfits, hok, withPrefix_ne_nil _, ?_⟩, hgot, htarget⟩
    show k.sentDown ++ _ = _
    rw [hdown]
    rfl
  · exact ⟨⟨hunused, .inl hdown⟩, hgot, htarget⟩

/-- The request is read: it is the controller's, and what is behind it stays. -/
theorem agentStep_requestRead (hdoc : P.Documented) (h : ConnInv P k) (hagent : k.agent = .waiting) {client : Bytes}
    (hsent : Sent P client k) {request : OpenRequest} {rest : Bytes}
    (hread : P.requestCodec.readJson k.up = .done request rest) :
    AgentStep P k ({k with up := rest}.serve P.responseCodec request) := by
  have hinv := h.agent
  simp only [AgentInv, hagent] at hinv
  obtain ⟨hup, hdown, hunused⟩ := hinv
  have hrel : ∀ request, k.agent ≠ .relaying request := by simp [hagent]
  rcases hsent with hnil | ⟨hfits, later, hlater⟩
  · rw [hup, hnil, Codec.readJson_nil] at hread
    cases hread
  · rw [hup] at hread
    obtain ⟨rfl, hrest⟩ := Codec.readJson_of_written hdoc.request hfits hlater hread
    have hsentUp : k.sentUp = P.requestMessage ++ rest := by
      refine List.append_cancel_right (hlater.trans ?_)
      rw [List.append_assoc, hrest]
    unfold Conn.serve
    split
    · exact agentStep_quiet hrel ⟨⟨rfl, hsentUp, hdown, hunused⟩, h.got, h.target⟩ rfl rfl rfl
    · obtain ⟨hf1, hf2, hf3⟩ := respond_frame P.responseCodec {k with up := rest} P.request
        (.err "udp is not supported on pool channel")
      refine agentStep_quiet hrel ?_ hf1 hf2 hf3
      exact connInv_respond (k := {k with up := rest}) h.got h.target hsentUp hdown hunused
        (by simp [OpenResponse.err])

theorem agentStep_connecting (h : ConnInv P k) {request : OpenRequest} (hagent : k.agent = .connecting request)
    {response : OpenResponse} (hok : response.ok = true → response = .success) :
    AgentStep P k (k.respond P.responseCodec request response) := by
  have hinv := h.agent
  simp only [AgentInv, hagent] at hinv
  obtain ⟨rfl, hup, hdown, hunused⟩ := hinv
  obtain ⟨hf1, hf2, hf3⟩ := respond_frame P.responseCodec k P.request response
  refine agentStep_quiet (by simp [hagent]) ?_ hf1 hf2 hf3
  exact connInv_respond h.got h.target hup hdown hunused hok

/-- A task that has not answered in full may end. -/
theorem agentStep_end (h : ConnInv P k) (hrel : ∀ request, k.agent ≠ .relaying request) :
    AgentStep P k {k with agent := .ended} := by
  refine agentStep_quiet hrel ⟨?_, h.got, h.target⟩ rfl rfl rfl
  have hinv := h.agent
  unfold AgentInv at hinv
  split at hinv
  · exact ⟨hinv.2.2, .inl hinv.2.1⟩
  · exact ⟨hinv.2.2.2, .inl hinv.2.2.1⟩
  · obtain ⟨-, -, hunused, hfits, -, hrest, hsent⟩ := hinv
    exact ⟨hunused, .inr ⟨_, _, hfits, hsent, fun _ => hrest⟩⟩
  · exact absurd ‹_› (hrel _)
  · exact hinv

/-- A part of the answer is written, or the last of it. -/
theorem agentStep_answer (h : ConnInv P k) {request : OpenRequest} {response : OpenResponse} {rest : Bytes}
    (hagent : k.agent = .answering request response rest) {n : Nat} {k' : Conn}
    (hstep : k.step P (.answer n) = some k') : AgentStep P k k' := by
  have hinv := h.agent
  simp only [AgentInv, hagent] at hinv
  obtain ⟨rfl, hup, hunused, hfits, hok, hrest, hsent⟩ := hinv
  have hrel : k.agent = .relaying P.request → False := by simp [hagent]
  simp only [Conn.step, hagent] at hstep
  split at hstep
  · rename_i hn
    cases hstep
    refine ⟨⟨⟨rfl, hup, hunused, hfits, hok, ?_, ?_⟩, h.got, h.target⟩, rfl, ⟨_, rfl, rfl⟩,
      fun hr => (hrel hr).elim⟩
    · exact List.ne_nil_of_length_pos (by rw [List.length_drop]; omega)
    · show k.sentDown ++ rest.take n ++ rest.drop n = _
      rw [List.append_assoc, List.take_append_drop, hsent]
  · split at hstep
    · cases hstep
      refine ⟨⟨?_, h.got, h.target⟩, rfl, ⟨_, rfl, rfl⟩, fun hr => (hrel hr).elim⟩
      cases hresp : response.ok with
      | true =>
        obtain rfl := hok hresp
        refine ⟨rfl, ?_, hfits, ?_⟩
        · show k.sentUp = P.requestMessage ++ k.uplink.taken ++ k.up
          rw [hunused.1, List.append_nil, hup]
        · show k.sentDown ++ rest = _ ++ k.downlink.written
          rw [hsent, hunused.2, List.append_nil]
      | false =>
        refine ⟨hunused, .inr ⟨response, [], hfits, ?_, fun hr => ?_⟩⟩
        · show k.sentDown ++ rest ++ [] = _
          rw [List.append_nil, hsent]
        · rw [hresp] at hr
          cases hr
    · cases hstep

/-- A loop of the agent takes a step. -/
theorem agentStep_copy (h : ConnInv P k) {request : OpenRequest} (hagent : k.agent = .relaying request)
    {direction : Direction} {a : CopyAction} {k' : Conn} (hstep : k.copy direction a = some k') :
    AgentStep P k k' := by
  have hinv := h.agent
  simp only [AgentInv, hagent] at hinv
  obtain ⟨rfl, hup, hfits, hdown⟩ := hinv
  cases direction with
  | up =>
    obtain ⟨r, hr, rfl⟩ := Option.map_eq_some_iff.mp hstep
    have hspec := Copy.step_spec hr
    refine ⟨⟨?_, ?_, h.target⟩, rfl, ⟨[], by simp, by simp⟩, fun _ => hagent⟩
    · simp only [AgentInv, hagent]
      refine ⟨trivial, ?_, hfits, hdown⟩
      rw [List.append_assoc, hspec.taken, ← List.append_assoc, hup]
    · show k.targetGot ++ r.out = r.copy.written
      rw [hspec.written, h.got]
  | down =>
    obtain ⟨r, hr, rfl⟩ := Option.map_eq_some_iff.mp hstep
    have hspec := Copy.step_spec hr
    refine ⟨⟨?_, h.got, ?_⟩, rfl, ⟨r.out, rfl, rfl⟩, fun _ => hagent⟩
    · simp only [AgentInv, hagent]
      refine ⟨trivial, hup, hfits, ?_⟩
      rw [hdown, hspec.written, List.append_assoc]
    · show r.copy.taken ++ r.source = k.target
      rw [hspec.taken, h.target]

theorem agentStep_select (h : ConnInv P k) {request : OpenRequest} (hagent : k.agent = .relaying request)
    {direction : Direction} {k' : Conn} (hstep : k.select direction = some k') : AgentStep P k k' := by
  have hinv := h.agent
  simp only [AgentInv, hagent] at hinv
  obtain ⟨rfl, hup, hfits, hdown⟩ := hinv
  cases direction with
  | up =>
    simp only [Conn.select, Option.ite_none_right_eq_some, Option.some.injEq] at hstep
    obtain ⟨-, rfl⟩ := hstep
    refine ⟨⟨?_, h.got, ?_⟩, rfl, ⟨[], by simp, by simp⟩, fun _ => hagent⟩
    · simp only [AgentInv, hagent]
      refine ⟨trivial, hup, hfits, ?_⟩
      split <;> exact hdown
    · simp only
      split <;> exact h.target
  | down =>
    simp only [Conn.select, Option.ite_none_right_eq_some, Option.some.injEq] at hstep
    obtain ⟨-, rfl⟩ := hstep
    refine ⟨⟨?_, ?_, h.target⟩, rfl, ⟨[], by simp, by simp⟩, fun _ => hagent⟩
    · simp only [AgentInv, hagent]
      refine ⟨trivial, ?_, hfits, hdown⟩
      split <;> exact hup
    · simp only
      split <;> exact h.got

/-- Every step of an agent's task. -/
theorem agentStep (hdoc : P.Documented) (h : ConnInv P k) {client : Bytes} (hsent : Sent P client k)
    {a : AgentAction} {k' : Conn} (hstep : k.step P a = some k') : AgentStep P k k' := by
  cases hagent : k.agent with
  | waiting =>
    have hrel : ∀ request, k.agent ≠ .relaying request := by simp [hagent]
    cases a with
    | requestRead =>
      simp only [Conn.step, hagent] at hstep
      split at hstep
      · rename_i hread
        cases hstep
        exact agentStep_requestRead hdoc h hagent hsent hread
      · cases hstep
        exact agentStep_end h hrel
      · cases hstep
    | requestLost =>
      simp only [Conn.step, hagent, Option.some.injEq] at hstep
      subst hstep
      exact agentStep_end h hrel
    | _ => simp [Conn.step, hagent] at hstep
  | connecting request =>
    cases a with
    | connected =>
      simp only [Conn.step, hagent, Option.some.injEq] at hstep
      subst hstep
      exact agentStep_connecting h hagent fun _ => rfl
    | connectFail error =>
      simp only [Conn.step, hagent, Option.some.injEq] at hstep
      subst hstep
      exact agentStep_connecting h hagent (by simp [OpenResponse.err])
    | connectTimeout =>
      simp only [Conn.step, hagent, Option.some.injEq] at hstep
      subst hstep
      exact agentStep_connecting h hagent (by simp [OpenResponse.err])
    | tuneFail =>
      simp only [Conn.step, hagent, Option.some.injEq] at hstep
      subst hstep
      exact agentStep_end h (by simp [hagent])
    | _ => simp [Conn.step, hagent] at hstep
  | answering request response rest =>
    cases a with
    | answer n => exact agentStep_answer h hagent hstep
    | answerFail =>
      simp only [Conn.step, hagent, Option.some.injEq] at hstep
      subst hstep
      exact agentStep_end h (by simp [hagent])
    | _ => simp [Conn.step, hagent] at hstep
  | relaying request =>
    cases a with
    | copy direction a =>
      simp only [Conn.step, hagent] at hstep
      exact agentStep_copy h hagent hstep
    | select direction =>
      simp only [Conn.step, hagent] at hstep
      exact agentStep_select h hagent hstep
    | _ => simp [Conn.step, hagent] at hstep
  | ended => cases a <;> simp [Conn.step, hagent] at hstep

end

/-! ### What the controller's task can do -/

/-- The loops of a relay stand where they stood, for what they have read, written and
completed. -/
def SameCopy (c c' : Copy) : Prop := c'.completed = c.completed ∧ c'.put = c.put ∧ c'.rest = c.rest

/-- What a step of the controller's task does. -/
inductive Moves (P : Setup) (s : Path) : Path → Prop where
  | fail (error : String) : Moves P s (s.fail error)
  | drop : Moves P s {s with phase := .dropped}
  | acquire {u : Path} : s.phase = .acquiring → s.acquire P = some u → Moves P s u
  | requestWrite (c : Nat) (rest : Bytes) (n : Nat) : s.phase = .requesting c rest →
      Moves P s {s.send c (rest.take n) with
        phase := if n = rest.length then .awaiting c else .requesting c (rest.drop n)}
  | requestFail (c : Nat) (rest : Bytes) : s.phase = .requesting c rest → Moves P s (s.retry P)
  | responseRead (c : Nat) {u : Path} : s.phase = .awaiting c → s.responseRead P c = some u → Moves P s u
  | responseFail (c : Nat) : s.phase = .awaiting c → Moves P s (s.retry P)
  | setup (c : Nat) : s.phase = .opened c → Moves P s (s.setup P c)
  | greet (c : Nat) (rest : Bytes) (n : Nat) : s.phase = .greeting c rest →
      Moves P s {s.send c (rest.take n) with
        phase := if n = rest.length then .relaying c else .greeting c (rest.drop n)}
  | copy (c : Nat) (direction : Direction) (a : CopyAction) {u : Path} : s.phase = .relaying c →
      s.copy c direction a = some u → Moves P s u
  | loops (c : Nat) (selecting : Bool) (uplink downlink : Copy) : s.phase = .relaying c →
      SameCopy s.uplink uplink → SameCopy s.downlink downlink →
      Moves P s {s with selecting := selecting, uplink := uplink, downlink := downlink}

theorem select_moves {P : Setup} {s u : Path} {c : Nat} (hphase : s.phase = .relaying c) {direction : Direction}
    (hstep : s.select direction = some u) : Moves P s u := by
  cases direction with
  | up =>
    simp only [Path.select, Option.ite_none_right_eq_some, Option.some.injEq] at hstep
    obtain ⟨-, rfl⟩ := hstep
    refine .loops c false s.uplink _ hphase ⟨rfl, rfl, rfl⟩ ?_
    split <;> exact ⟨rfl, rfl, rfl⟩
  | down =>
    simp only [Path.select, Option.ite_none_right_eq_some, Option.some.injEq] at hstep
    obtain ⟨-, rfl⟩ := hstep
    refine .loops c false _ s.downlink hphase ?_ ⟨rfl, rfl, rfl⟩
    split <;> exact ⟨rfl, rfl, rfl⟩

theorem control_moves {P : Setup} {s u : Path} {a : Action} (hstep : s.control P a = some u) : Moves P s u := by
  unfold Path.control at hstep
  split at hstep
  · cases hstep
    exact .fail _
  · exact .acquire ‹_› hstep
  · cases hstep
    exact .fail _
  · cases hstep
    exact .fail _
  · rename_i c rest n hphase
    simp only [Option.ite_none_right_eq_some, Option.some.injEq] at hstep
    obtain ⟨-, rfl⟩ := hstep
    exact .requestWrite c rest n hphase
  · cases hstep
    exact .requestFail _ _ ‹_›
  · exact .responseRead _ ‹_› hstep
  · cases hstep
    exact .responseFail _ ‹_›
  · cases hstep
    exact .fail _
  · cases hstep
    exact .setup _ ‹_›
  · cases hstep
    exact .fail _
  · rename_i c rest n hphase
    simp only [Option.ite_none_right_eq_some, Option.some.injEq] at hstep
    obtain ⟨-, rfl⟩ := hstep
    exact .greet c rest n hphase
  · cases hstep
    exact .fail _
  · exact .copy _ _ _ ‹_› hstep
  · exact select_moves ‹_› hstep
  · simp only [Option.ite_none_right_eq_some, Option.some.injEq] at hstep
    obtain ⟨-, rfl⟩ := hstep
    exact .loops _ _ _ _ ‹_› ⟨rfl, rfl, rfl⟩ ⟨rfl, rfl, rfl⟩
  · cases hstep
    exact .loops _ _ s.uplink s.downlink ‹_› ⟨rfl, rfl, rfl⟩ ⟨rfl, rfl, rfl⟩
  · cases hstep
  · cases hstep
  · cases hstep
    exact .drop
  · cases hstep

/-- What happens around the controller's task leaves the task where it is. -/
structure Around (s u : Path) : Prop where
  phase : u.phase = s.phase
  selecting : u.selecting = s.selecting
  uplink : u.uplink = s.uplink
  downlink : u.downlink = s.downlink
  recorder : u.recorder = s.recorder
  clientGot : u.clientGot = s.clientGot
  started : u.started = s.started
  conns : s.conns.length ≤ u.conns.length

/-- A step is the task's or is around it. -/
theorem around_or_control {P : Setup} {s u : Path} {a : Action} (hstep : s.step P a = some u) :
    Around s u ∨ s.control P a = some u := by
  unfold Path.step at hstep
  split at hstep
  · cases hstep
    exact .inl ⟨rfl, rfl, rfl, rfl, rfl, rfl, rfl, by simp⟩
  · simp only [Option.ite_none_right_eq_some, Option.some.injEq] at hstep
    obtain ⟨-, rfl⟩ := hstep
    exact .inl ⟨rfl, rfl, rfl, rfl, rfl, rfl, rfl, Nat.le_refl _⟩
  · cases hstep
    exact .inl ⟨rfl, rfl, rfl, rfl, rfl, rfl, rfl, Nat.le_refl _⟩
  · split at hstep
    · simp only [Option.ite_none_right_eq_some, Option.some.injEq] at hstep
      obtain ⟨-, rfl⟩ := hstep
      exact .inl ⟨rfl, rfl, rfl, rfl, rfl, rfl, rfl, by simp⟩
    · cases hstep
  · split at hstep
    · obtain ⟨k, -, rfl⟩ := Option.map_eq_some_iff.mp hstep
      exact .inl ⟨rfl, rfl, rfl, rfl, rfl, rfl, rfl, by simp⟩
    · cases hstep
  · exact .inr hstep

/-! ### The controller's end -/

/-- What the controller has written on the connections and read off them. -/
structure LinkInv (P : Setup) (s : Path) : Prop where
  conns : ∀ (i : Nat) (k : Conn), s.conns[i]? = some k → ConnInv P k ∧ Sent P s.client k
  others : ∀ (i : Nat) (k : Conn), s.conns[i]? = some k → s.stream ≠ some i →
    k.sentUp <+: P.requestMessage ∧ k.down = k.sentDown
  fresh : ∀ (i : Nat) (k : Conn), s.conns[i]? = some k → s.next ≤ i → k.sentUp = []
  stream : ∀ c, s.stream = some c → c < s.next ∧ ∃ k, s.conns[c]? = some k ∧ k.agent = .relaying P.request ∧
    k.sentDown = P.responseMessage .success ++ s.downlink.taken ++ k.down
  idle : s.stream = none → s.downlink.taken = []
  client : s.uplink.taken ++ s.clientUnread = s.client
  got : s.clientGot = s.downlink.written

/-- The connection is there, and what was written on it is as `f` says. -/
def WrittenAt (conns : List Conn) (c : Nat) (f : Bytes → Prop) : Prop := ∃ k, conns[c]? = some k ∧ f k.sentUp

/-- How far the request and what is relayed behind it are written on the connection in
hand. -/
def PhaseInv (P : Setup) (s : Path) : Prop :=
  match s.phase with
  | .acquiring => s.stream = none ∧ s.uplink.taken = []
  | .requesting c rest =>
    s.stream = none ∧ s.uplink.taken = [] ∧ P.RequestFits ∧ c < s.next ∧
      WrittenAt s.conns c fun sent => sent ++ rest = P.requestMessage
  | .awaiting c =>
    s.stream = none ∧ s.uplink.taken = [] ∧ P.RequestFits ∧ c < s.next ∧
      WrittenAt s.conns c fun sent => sent = P.requestMessage
  | .opened c =>
    s.stream = some c ∧ s.uplink.taken = [] ∧ P.RequestFits ∧ WrittenAt s.conns c fun sent => sent = P.requestMessage
  | .greeting c rest =>
    s.stream = some c ∧ s.uplink.taken = [] ∧ P.RequestFits ∧
      WrittenAt s.conns c fun sent => sent ++ rest = P.requestMessage ++ P.initial
  | .relaying c =>
    s.stream = some c ∧ P.RequestFits ∧
      WrittenAt s.conns c fun sent => sent = P.requestMessage ++ P.initial ++ s.uplink.written
  | .failed _ | .dropped => True

structure PathInv (P : Setup) (s : Path) : Prop where
  link : LinkInv P s
  phase : PhaseInv P s

section
variable {P : Setup} {s : Path}

theorem pathInv_init : PathInv P (system P).init where
  link := {
    conns := by simp [system]
    others := by simp [system]
    fresh := by simp [system]
    stream := by simp [system]
    idle := fun _ => rfl
    client := rfl
    got := rfl}
  phase := ⟨rfl, rfl⟩

theorem Sent.congr {client : Bytes} {k k' : Conn} (h : Sent P client k) (hup : k'.sentUp = k.sentUp) :
    Sent P client k' := by
  unfold Sent
  rw [hup]
  exact h

/-- The connections change, and none has more written on it. -/
theorem PhaseInv.conns (h : PhaseInv P s) {conns : List Conn}
    (hconns : ∀ (i : Nat) (k : Conn), s.conns[i]? = some k → ∃ k', conns[i]? = some k' ∧ k'.sentUp = k.sentUp) :
    PhaseInv P {s with conns := conns} := by
  have hat {c : Nat} {f : Bytes → Prop} (h : WrittenAt s.conns c f) : WrittenAt conns c f := by
    obtain ⟨k, hk, hf⟩ := h
    obtain ⟨k', hk', hup⟩ := hconns c k hk
    exact ⟨k', hk', by rw [hup]; exact hf⟩
  unfold PhaseInv at h ⊢
  simp only
  split at h
  · exact h
  · exact ⟨h.1, h.2.1, h.2.2.1, h.2.2.2.1, hat h.2.2.2.2⟩
  · exact ⟨h.1, h.2.1, h.2.2.1, h.2.2.2.1, hat h.2.2.2.2⟩
  · exact ⟨h.1, h.2.1, h.2.2.1, hat h.2.2.2⟩
  · exact ⟨h.1, h.2.1, h.2.2.1, hat h.2.2.2⟩
  · exact ⟨h.1, h.2.1, hat h.2.2⟩
  · exact h
  · exact h

/-- The agent's task takes a step on one connection. -/
theorem LinkInv.agent (h : LinkInv P s) {c : Nat} {k k' : Conn} (hk : s.conns[c]? = some k)
    (hstep : AgentStep P k k') : LinkInv P {s with conns := s.conns.set c k'} where
  conns := by
    intro i x hx
    rw [Heap.get_set hk] at hx
    split at hx
    · cases hx
      exact ⟨hstep.inv, (h.conns c k hk).2.congr hstep.sentUp⟩
    · exact h.conns i x hx
  others := by
    intro i x hx hi
    rw [Heap.get_set hk] at hx
    split at hx
    · rename_i hic
      cases hx
      obtain ⟨hpre, hdown⟩ := h.others c k hk (hic ▸ hi)
      obtain ⟨out, hsent, hout⟩ := hstep.sentDown
      exact ⟨by rw [hstep.sentUp]; exact hpre, by rw [hout, hsent, hdown]⟩
    · exact h.others i x hx hi
  fresh := by
    intro i x hx hi
    rw [Heap.get_set hk] at hx
    split at hx
    · rename_i hic
      cases hx
      rw [hstep.sentUp]
      exact h.fresh c k hk (hic ▸ hi)
    · exact h.fresh i x hx hi
  stream := by
    intro i hi
    obtain ⟨hlt, x, hx, hrel, hdown⟩ := h.stream i hi
    refine ⟨hlt, ?_⟩
    rw [Heap.get_set hk]
    by_cases hic : i = c
    · subst hic
      obtain rfl : k = x := Option.some.inj (hk.symm.trans hx)
      obtain ⟨out, hsent, hout⟩ := hstep.sentDown
      exact ⟨k', if_pos rfl, hstep.relaying hrel, by rw [hsent, hout, hdown, List.append_assoc, List.append_assoc]⟩
    · exact ⟨x, by rw [if_neg hic, hx], hrel, hdown⟩
  idle := h.idle
  client := h.client
  got := h.got

theorem PathInv.agent (h : PathInv P s) {c : Nat} {k k' : Conn} (hk : s.conns[c]? = some k)
    (hstep : AgentStep P k k') : PathInv P {s with conns := s.conns.set c k'} := by
  refine ⟨h.link.agent hk hstep, h.phase.conns fun i x hx => ?_⟩
  rw [Heap.get_set hk]
  by_cases hic : i = c
  · subst hic
    obtain rfl : k = x := Option.some.inj (hk.symm.trans hx)
    exact ⟨k', if_pos rfl, hstep.sentUp⟩
  · exact ⟨x, by rw [if_neg hic, hx], rfl⟩

/-- The target has more to send. -/
theorem agentStep_targetSend {k : Conn} (h : ConnInv P k) (bytes : Bytes) :
    AgentStep P k {k with target := k.target ++ bytes, targetUnread := k.targetUnread ++ bytes} where
  inv := ⟨h.agent, h.got, by rw [← List.append_assoc, h.target]⟩
  sentUp := rfl
  sentDown := ⟨[], by simp, by simp⟩
  relaying := id

theorem pathInv_dial (h : PathInv P s) : PathInv P {s with conns := s.conns ++ [{}]} := by
  have hget (i : Nat) (k : Conn) (hk : (s.conns ++ [({} : Conn)])[i]? = some k) :
      s.conns[i]? = some k ∨ k = {} := by
    rw [Heap.get_push] at hk
    split at hk
    · exact .inr (Option.some.inj hk).symm
    · exact .inl hk
  refine ⟨⟨?_, ?_, ?_, ?_, h.link.idle, h.link.client, h.link.got⟩, ?_⟩
  · intro i k hk
    rcases hget i k hk with hk | rfl
    · exact h.link.conns i k hk
    · exact ⟨connInv_init, .inl rfl⟩
  · intro i k hk hi
    rcases hget i k hk with hk | rfl
    · exact h.link.others i k hk hi
    · exact ⟨List.nil_prefix, rfl⟩
  · intro i k hk hi
    rcases hget i k hk with hk | rfl
    · exact h.link.fresh i k hk hi
    · rfl
  · intro c hc
    obtain ⟨hlt, k, hk, hrel, hdown⟩ := h.link.stream c hc
    exact ⟨hlt, k, Heap.get_push_of_some hk, hrel, hdown⟩
  · exact h.phase.conns fun i k hk => ⟨k, Heap.get_push_of_some hk, rfl⟩

theorem send_eq {c : Nat} {k : Conn} (hk : s.conns[c]? = some k) (bytes : Bytes) :
    s.send c bytes =
      {s with conns := s.conns.set c {k with up := k.up ++ bytes, sentUp := k.sentUp ++ bytes}} := by
  rw [Path.send, hk]

/-- Bytes on the connection are behind those the agent has read. -/
theorem connInv_send {k : Conn} (h : ConnInv P k) (bytes : Bytes) :
    ConnInv P {k with up := k.up ++ bytes, sentUp := k.sentUp ++ bytes} := by
  refine ⟨?_, h.got, h.target⟩
  have hinv := h.agent
  unfold AgentInv at hinv ⊢
  simp only
  split at hinv
  · exact ⟨by rw [hinv.1], hinv.2⟩
  · exact ⟨hinv.1, by rw [hinv.2.1, List.append_assoc], hinv.2.2⟩
  · exact ⟨hinv.1, by rw [hinv.2.1, List.append_assoc], hinv.2.2⟩
  · exact ⟨hinv.1, by rw [hinv.2.1, List.append_assoc, ← List.append_assoc], hinv.2.2⟩
  · exact hinv

/-- The controller writes on a connection it has taken out of the pool: a part of the
request, or of what is relayed behind it if the stream was opened. -/
theorem LinkInv.send (h : LinkInv P s) {c : Nat} {k : Conn} (hk : s.conns[c]? = some k) (hc : c < s.next)
    (hfits : P.RequestFits) {bytes : Bytes}
    (hsent : k.sentUp ++ bytes <+: P.requestMessage ++ (P.initial ++ s.client))
    (hother : s.stream ≠ some c → k.sentUp ++ bytes <+: P.requestMessage) : LinkInv P (s.send c bytes) := by
  rw [send_eq hk]
  refine ⟨?_, ?_, ?_, ?_, h.idle, h.client, h.got⟩
  · intro i x hx
    rw [Heap.get_set hk] at hx
    split at hx
    · cases hx
      exact ⟨connInv_send (h.conns c k hk).1 bytes, .inr ⟨hfits, hsent⟩⟩
    · exact h.conns i x hx
  · intro i x hx hi
    rw [Heap.get_set hk] at hx
    split at hx
    · rename_i hic
      cases hx
      subst hic
      exact ⟨hother hi, (h.others i k hk hi).2⟩
    · exact h.others i x hx hi
  · intro i x hx hi
    rw [Heap.get_set hk] at hx
    split at hx
    · rename_i hic
      exact absurd (hic ▸ hi : s.next ≤ c) (Nat.not_le.mpr hc)
    · exact h.fresh i x hx hi
  · intro i hi
    obtain ⟨hlt, x, hx, hrel, hdown⟩ := h.stream i hi
    refine ⟨hlt, ?_⟩
    rw [Heap.get_set hk]
    by_cases hic : i = c
    · subst hic
      obtain rfl : k = x := Option.some.inj (hk.symm.trans hx)
      exact ⟨_, if_pos rfl, hrel, hdown⟩
    · exact ⟨x, by rw [if_neg hic, hx], hrel, hdown⟩

theorem writtenAt_send {c : Nat} {k : Conn} (hk : s.conns[c]? = some k) {bytes : Bytes} {f : Bytes → Prop}
    (hf : f (k.sentUp ++ bytes)) : WrittenAt (s.send c bytes).conns c f := by
  rw [send_eq hk]
  exact ⟨_, by rw [Heap.get_set hk, if_pos rfl], hf⟩

theorem send_frame (s : Path) (c : Nat) (bytes : Bytes) :
    (s.send c bytes).stream = s.stream ∧ (s.send c bytes).uplink = s.uplink ∧ (s.send c bytes).next = s.next ∧
      (s.send c bytes).client = s.client := by
  unfold Path.send
  split <;> exact ⟨rfl, rfl, rfl, rfl⟩

/-- The next step of the task, on the same connections. -/
theorem LinkInv.phase (h : LinkInv P s) (phase : Phase) : LinkInv P {s with phase := phase} :=
  ⟨h.conns, h.others, h.fresh, h.stream, h.idle, h.client, h.got⟩

theorem pathInv_fail (h : LinkInv P s) (error : String) : PathInv P (s.fail error) := ⟨h.phase _, trivial⟩

theorem pathInv_retry (h : LinkInv P s) (hstream : s.stream = none) (huplink : s.uplink.taken = []) :
    PathInv P (s.retry P) := by
  unfold Path.retry
  split
  · exact ⟨h.phase _, hstream, huplink⟩
  · exact pathInv_fail h _

theorem LinkInv.taken (h : LinkInv P s) (attempts : Nat) :
    LinkInv P {s with next := s.next + 1, attempts := attempts} where
  conns := h.conns
  others := h.others
  fresh := fun i k hk hi => h.fresh i k hk (Nat.le_of_succ_le hi)
  stream := by
    intro c hc
    obtain ⟨hlt, hrest⟩ := h.stream c hc
    exact ⟨Nat.lt_succ_of_lt hlt, hrest⟩
  idle := h.idle
  client := h.client
  got := h.got

theorem pathInv_acquire (h : PathInv P s) (hphase : s.phase = .acquiring) {u : Path}
    (hstep : s.acquire P = some u) : PathInv P u := by
  have hp := h.phase
  simp only [PhaseInv, hphase] at hp
  obtain ⟨hstream, huplink⟩ := hp
  unfold Path.acquire at hstep
  split at hstep
  · cases hstep
  · rename_i k hk
    simp only at hstep
    split at hstep
    · rename_i bytes hbytes
      cases hstep
      obtain ⟨hfits, rfl⟩ := Codec.writeJson_eq_ok hbytes
      refine ⟨(h.link.taken _).phase _, hstream, huplink, hfits, Nat.lt_succ_self _, k, hk, ?_⟩
      rw [h.link.fresh s.next k hk (Nat.le_refl _)]
      rfl
    · cases hstep
      exact pathInv_retry (h.link.taken _) hstream huplink

/-- A part of the request is written, or the last of it. -/
theorem pathInv_requestWrite (h : PathInv P s) {c : Nat} {rest : Bytes} (hphase : s.phase = .requesting c rest)
    (n : Nat) :
    PathInv P {s.send c (rest.take n) with
      phase := if n = rest.length then .awaiting c else .requesting c (rest.drop n)} := by
  have hp := h.phase
  simp only [PhaseInv, hphase] at hp
  obtain ⟨hstream, huplink, hfits, hc, k, hk, hsent⟩ := hp
  obtain ⟨hf1, hf2, hf3, -⟩ := send_frame s c (rest.take n)
  have hprogress : k.sentUp ++ rest.take n ++ rest.drop n = P.requestMessage := by
    rw [List.append_assoc, List.take_append_drop, hsent]
  have hpre : k.sentUp ++ rest.take n <+: P.requestMessage := ⟨rest.drop n, hprogress⟩
  refine ⟨(h.link.send hk hc hfits (hpre.trans (List.prefix_append _ _)) fun _ => hpre).phase _, ?_⟩
  split
  · rename_i hn
    rw [hn, List.drop_length, List.append_nil, ← hn] at hprogress
    exact ⟨hf1.trans hstream, by rw [hf2, huplink], hfits, by rw [hf3]; exact hc, writtenAt_send hk hprogress⟩
  · exact ⟨hf1.trans hstream, by rw [hf2, huplink], hfits, by rw [hf3]; exact hc, writtenAt_send hk hprogress⟩

/-- A response that says ok was written by a task that relays now, and what is behind
it is the target's. -/
theorem relaying_of_read (hdoc : P.Documented) {k : Conn} (h : ConnInv P k) (hdown : k.down = k.sentDown)
    {response : OpenResponse} {rest : Bytes} (hread : P.responseCodec.readJson k.down = .done response rest)
    (hok : response.ok = true) :
    k.agent = .relaying P.request ∧ k.sentDown = P.responseMessage .success ++ rest := by
  have hempty : k.sentDown ≠ [] := by
    intro hnil
    rw [hdown, hnil, Codec.readJson_nil] at hread
    cases hread
  rw [hdown] at hread
  have hinv := h.agent
  unfold AgentInv at hinv
  split at hinv
  · exact absurd hinv.2.1 hempty
  · exact absurd hinv.2.2.1 hempty
  · rename_i request answer unwritten hagent
    obtain ⟨-, -, -, hfits, -, hne, hsent⟩ := hinv
    have hs : k.sentDown ++ unwritten = P.responseMessage answer ++ [] := by rw [List.append_nil, hsent]
    obtain ⟨-, hrest⟩ := Codec.readJson_of_written (hdoc.response _) hfits hs hread
    exact absurd (List.append_eq_nil_iff.mp hrest).2 hne
  · rename_i hagent
    obtain ⟨rfl, -, hfits, hsent⟩ := hinv
    obtain ⟨-, hrest⟩ := Codec.readJson_of_written (hdoc.response _) hfits
      (show k.sentDown ++ [] = P.responseMessage .success ++ k.downlink.written by rw [List.append_nil, hsent]) hread
    rw [List.append_nil] at hrest
    exact ⟨hagent, by rw [hsent, hrest]⟩
  · rcases hinv.2 with hnil | ⟨r, later, hfits, hsent, hlater⟩
    · exact absurd hnil hempty
    · have hs : k.sentDown ++ later = P.responseMessage r ++ [] := by rw [List.append_nil, hsent]
      obtain ⟨rfl, hrest⟩ := Codec.readJson_of_written (hdoc.response r) hfits hs hread
      exact absurd (List.append_eq_nil_iff.mp hrest).2 (hlater hok)

/-- The controller has read something off the connection it relays on. -/
theorem LinkInv.receive (h : LinkInv P s) {c : Nat} {k : Conn} (hk : s.conns[c]? = some k) (hc : c < s.next)
    (hstream : ∀ i, i ≠ c → s.stream ≠ some i) (hrel : k.agent = .relaying P.request) {rest : Bytes} {downlink : Copy}
    (hdown : k.sentDown = P.responseMessage .success ++ downlink.taken ++ rest) :
    LinkInv P {s with
      conns := s.conns.set c {k with down := rest}
      stream := some c
      downlink := downlink
      clientGot := downlink.written} := by
  have hset (i : Nat) (x : Conn) (hx : (s.conns.set c {k with down := rest})[i]? = some x) :
      i = c ∧ x = {k with down := rest} ∨ i ≠ c ∧ s.conns[i]? = some x := by
    rw [Heap.get_set hk] at hx
    split at hx
    · exact .inl ⟨‹_›, (Option.some.inj hx).symm⟩
    · exact .inr ⟨‹_›, hx⟩
  obtain ⟨hconn, hsent⟩ := h.conns c k hk
  refine ⟨?_, ?_, ?_, ?_, by simp, h.client, rfl⟩
  · intro i x hx
    rcases hset i x hx with ⟨-, rfl⟩ | ⟨-, hx⟩
    · exact ⟨⟨hconn.agent, hconn.got, hconn.target⟩, hsent⟩
    · exact h.conns i x hx
  · intro i x hx hi
    rcases hset i x hx with ⟨rfl, -⟩ | ⟨hic, hx⟩
    · exact absurd rfl hi
    · exact h.others i x hx (hstream i hic)
  · intro i x hx hi
    rcases hset i x hx with ⟨rfl, -⟩ | ⟨-, hx⟩
    · exact absurd hi (Nat.not_le.mpr hc)
    · exact h.fresh i x hx hi
  · intro i hi
    obtain rfl : c = i := Option.some.inj hi
    exact ⟨hc, {k with down := rest}, by rw [Heap.get_set hk, if_pos rfl], hrel, hdown⟩

theorem pathInv_responseRead (hdoc : P.Documented) (h : PathInv P s) {c : Nat} (hphase : s.phase = .awaiting c)
    {u : Path} (hstep : s.responseRead P c = some u) : PathInv P u := by
  have hp := h.phase
  simp only [PhaseInv, hphase] at hp
  obtain ⟨hstream, huplink, hfits, hc, k, hk, hsent⟩ := hp
  have hnone : ∀ i, s.stream ≠ some i := by simp [hstream]
  obtain ⟨-, hdown⟩ := h.link.others c k hk (hnone c)
  unfold Path.responseRead at hstep
  simp only [hk] at hstep
  split at hstep
  · cases hstep
  · cases hstep
    exact pathInv_retry h.link hstream huplink
  · rename_i response rest hread
    split at hstep
    · rename_i hok
      cases hstep
      obtain ⟨hrel, hsentDown⟩ := relaying_of_read hdoc (h.link.conns c k hk).1 hdown hread hok
      have hdown' : k.sentDown = P.responseMessage .success ++ s.downlink.taken ++ rest := by
        rw [h.link.idle hstream, List.append_nil, hsentDown]
      have hlink := h.link.receive hk hc (fun i _ => hnone i) hrel hdown'
      refine ⟨⟨hlink.conns, hlink.others, hlink.fresh, hlink.stream, hlink.idle, h.link.client, h.link.got⟩,
        rfl, huplink, hfits, ?_⟩
      exact ⟨{k with down := rest}, by rw [Heap.get_set hk, if_pos rfl], hsent⟩
    · cases hstep
      exact pathInv_fail h.link _

theorem pathInv_setup (h : PathInv P s) {c : Nat} (hphase : s.phase = .opened c) : PathInv P (s.setup P c) := by
  have hp := h.phase
  simp only [PhaseInv, hphase] at hp
  obtain ⟨hstream, huplink, hfits, k, hk, hsent⟩ := hp
  unfold Path.setup
  cases hdata : P.initialData with
  | none =>
    have hinitial : P.initial = [] := by rw [Setup.initial, hdata]; rfl
    refine ⟨⟨h.link.conns, h.link.others, h.link.fresh, h.link.stream, h.link.idle, h.link.client, h.link.got⟩,
      hstream, hfits, k, hk, ?_⟩
    rw [hsent, hinitial, written_of_taken huplink, List.append_nil, List.append_nil]
  | some data =>
    have hinitial : P.initial = data := by rw [Setup.initial, hdata]; rfl
    refine ⟨⟨h.link.conns, h.link.others, h.link.fresh, h.link.stream, h.link.idle, h.link.client, h.link.got⟩,
      hstream, huplink, hfits, k, hk, ?_⟩
    rw [hsent, hinitial]

/-- A part of the initial data is written, or the last of it. -/
theorem pathInv_greet (h : PathInv P s) {c : Nat} {rest : Bytes} (hphase : s.phase = .greeting c rest) (n : Nat) :
    PathInv P {s.send c (rest.take n) with
      phase := if n = rest.length then .relaying c else .greeting c (rest.drop n)} := by
  have hp := h.phase
  simp only [PhaseInv, hphase] at hp
  obtain ⟨hstream, huplink, hfits, k, hk, hsent⟩ := hp
  obtain ⟨hf1, hf2, -, -⟩ := send_frame s c (rest.take n)
  have hprogress : k.sentUp ++ rest.take n ++ rest.drop n = P.requestMessage ++ P.initial := by
    rw [List.append_assoc, List.take_append_drop, hsent]
  have hpre : k.sentUp ++ rest.take n <+: P.requestMessage ++ (P.initial ++ s.client) := by
    refine ⟨rest.drop n ++ s.client, ?_⟩
    rw [← List.append_assoc, hprogress, List.append_assoc]
  have hlink := h.link.send hk (h.link.stream c hstream).1 hfits hpre fun hne => absurd hstream hne
  refine ⟨hlink.phase _, ?_⟩
  split
  · rename_i hn
    rw [hn, List.drop_length, List.append_nil, ← hn] at hprogress
    refine ⟨hf1.trans hstream, hfits, writtenAt_send hk ?_⟩
    rw [hprogress, hf2, written_of_taken huplink, List.append_nil]
  · exact ⟨hf1.trans hstream, by rw [hf2, huplink], hfits, writtenAt_send hk hprogress⟩

/-- A loop of the controller takes a step. -/
theorem pathInv_copy (h : PathInv P s) {c : Nat} (hphase : s.phase = .relaying c) {direction : Direction}
    {a : CopyAction} {u : Path} (hstep : s.copy c direction a = some u) : PathInv P u := by
  have hp := h.phase
  simp only [PhaseInv, hphase] at hp
  obtain ⟨hstream, hfits, k, hk, hsent⟩ := hp
  obtain ⟨hlt, x, hx, hrel, hdown⟩ := h.link.stream c hstream
  obtain rfl : k = x := Option.some.inj (hk.symm.trans hx)
  cases direction with
  | up =>
    simp only [Path.copy, hk] at hstep
    obtain ⟨r, hr, rfl⟩ := Option.map_eq_some_iff.mp hstep
    have hspec := Copy.step_spec hr
    have hwritten : k.sentUp ++ r.out = P.requestMessage ++ P.initial ++ r.copy.written := by
      rw [hsent, hspec.written, List.append_assoc _ s.uplink.written]
    have hclient : r.copy.taken ++ r.source = s.client := by rw [hspec.taken, h.link.client]
    have hpre : k.sentUp ++ r.out <+: P.requestMessage ++ (P.initial ++ s.client) := by
      refine ⟨r.copy.rest ++ r.source, ?_⟩
      rw [hwritten, ← hclient, Copy.taken]
      simp only [List.append_assoc]
    have hlink := h.link.send hk hlt hfits hpre fun hne => absurd hstream hne
    rw [send_eq hk] at hlink ⊢
    refine ⟨⟨hlink.conns, hlink.others, hlink.fresh, hlink.stream, hlink.idle, hclient, hlink.got⟩, ?_⟩
    unfold PhaseInv Path.record
    simp only [hphase]
    exact ⟨hstream, hfits, _, by rw [Heap.get_set hk, if_pos rfl], hwritten⟩
  | down =>
    simp only [Path.copy, hk] at hstep
    obtain ⟨r, hr, rfl⟩ := Option.map_eq_some_iff.mp hstep
    have hspec := Copy.step_spec hr
    have hdown' : k.sentDown = P.responseMessage .success ++ r.copy.taken ++ r.source := by
      rw [List.append_assoc, hspec.taken, ← List.append_assoc, hdown]
    have hlink := h.link.receive hk hlt (fun i hi => by simp [hstream, Ne.symm hi]) hrel hdown'
    rw [← hstream] at hlink
    refine ⟨⟨hlink.conns, hlink.others, hlink.fresh, hlink.stream, hlink.idle, hlink.client, ?_⟩, ?_⟩
    · show s.clientGot ++ r.out = r.copy.written
      rw [hspec.written, h.link.got]
    · unfold PhaseInv Path.record
      simp only [hphase]
      exact ⟨hstream, hfits, {k with down := r.source}, by rw [Heap.get_set hk, if_pos rfl], hsent⟩

theorem SameCopy.written {c c' : Copy} (h : SameCopy c c') : c'.written = c.written := by
  rw [Copy.written, Copy.written, h.1, h.2.1]

theorem SameCopy.taken {c c' : Copy} (h : SameCopy c c') : c'.taken = c.taken := by
  rw [Copy.taken, Copy.taken, h.written, h.2.2]

/-- Aborting a loop, or no longer waiting for one, moves no byte. -/
theorem pathInv_loops (h : PathInv P s) {c : Nat} (hphase : s.phase = .relaying c) {selecting : Bool}
    {uplink downlink : Copy} (hup : SameCopy s.uplink uplink) (hdown : SameCopy s.downlink downlink) :
    PathInv P {s with selecting := selecting, uplink := uplink, downlink := downlink} := by
  refine ⟨⟨h.link.conns, h.link.others, h.link.fresh, ?_, ?_, ?_, ?_⟩, ?_⟩
  · simp only [hdown.taken]
    exact h.link.stream
  · simp only [hdown.taken]
    exact h.link.idle
  · simp only [hup.taken]
    exact h.link.client
  · simp only [hdown.written]
    exact h.link.got
  · have hp := h.phase
    simp only [PhaseInv, hphase] at hp ⊢
    rw [hup.written]
    exact hp

theorem pathInv_moves (hdoc : P.Documented) (h : PathInv P s) {u : Path} (hmoves : Moves P s u) : PathInv P u := by
  have hp := h.phase
  unfold PhaseInv at hp
  cases hmoves with
  | fail error => exact pathInv_fail h.link error
  | drop => exact ⟨h.link.phase _, trivial⟩
  | acquire hphase hstep => exact pathInv_acquire h hphase hstep
  | requestWrite c rest n hphase => exact pathInv_requestWrite h hphase n
  | requestFail c rest hphase =>
    simp only [hphase] at hp
    exact pathInv_retry h.link hp.1 hp.2.1
  | responseRead c hphase hstep => exact pathInv_responseRead hdoc h hphase hstep
  | responseFail c hphase =>
    simp only [hphase] at hp
    exact pathInv_retry h.link hp.1 hp.2.1
  | setup c hphase => exact pathInv_setup h hphase
  | greet c rest n hphase => exact pathInv_greet h hphase n
  | copy c direction a hphase hstep => exact pathInv_copy h hphase hstep
  | loops c selecting uplink downlink hphase hup hdown => exact pathInv_loops h hphase hup hdown

theorem pathInv_step (hdoc : P.Documented) (h : PathInv P s) {a : Action} {u : Path}
    (hstep : (system P).step a s = some u) : PathInv P u := by
  have hphase {v : Path} (hc : v.conns = s.conns) (hn : s.next ≤ v.next) (hp : v.phase = s.phase)
      (hs : v.stream = s.stream) (hu : v.uplink = s.uplink) : PhaseInv P v := by
    have hp' := h.phase
    unfold PhaseInv at hp' ⊢
    rw [hp, hc, hs, hu]
    split at hp'
    · exact hp'
    · exact ⟨hp'.1, hp'.2.1, hp'.2.2.1, Nat.lt_of_lt_of_le hp'.2.2.2.1 hn, hp'.2.2.2.2⟩
    · exact ⟨hp'.1, hp'.2.1, hp'.2.2.1, Nat.lt_of_lt_of_le hp'.2.2.2.1 hn, hp'.2.2.2.2⟩
    · exact hp'
    · exact hp'
    · exact hp'
    · exact hp'
    · exact hp'
  change s.step P a = some u at hstep
  unfold Path.step at hstep
  split at hstep
  · cases hstep
    exact pathInv_dial h
  · simp only [Option.ite_none_right_eq_some, Option.some.injEq] at hstep
    obtain ⟨-, rfl⟩ := hstep
    exact ⟨h.link.taken s.attempts, hphase rfl (Nat.le_succ _) rfl rfl rfl⟩
  · rename_i bytes
    cases hstep
    refine ⟨⟨fun i k hk => ?_, h.link.others, h.link.fresh, h.link.stream, h.link.idle, ?_, h.link.got⟩,
      hphase rfl (Nat.le_refl _) rfl rfl rfl⟩
    · obtain ⟨hconn, hsent⟩ := h.link.conns i k hk
      refine ⟨hconn, hsent.imp_right fun hs => ⟨hs.1, hs.2.trans ⟨bytes, ?_⟩⟩⟩
      simp only [List.append_assoc]
    · show s.uplink.taken ++ (s.clientUnread ++ bytes) = s.client ++ bytes
      rw [← List.append_assoc, h.link.client]
  · split at hstep
    · rename_i k hk
      simp only [Option.ite_none_right_eq_some, Option.some.injEq] at hstep
      obtain ⟨-, rfl⟩ := hstep
      exact h.agent hk (agentStep_targetSend (h.link.conns _ k hk).1 _)
    · cases hstep
  · split at hstep
    · rename_i k hk
      obtain ⟨k', hk', rfl⟩ := Option.map_eq_some_iff.mp hstep
      obtain ⟨hconn, hsent⟩ := h.link.conns _ k hk
      exact h.agent hk (agentStep hdoc hconn hsent hk')
    · cases hstep
  · exact pathInv_moves hdoc h (control_moves hstep)

end

/-! ### What is relayed -/

/-- The initial data that is still to be written, while the stream is in hand. -/
def Path.unsent (P : Setup) (s : Path) : Option Bytes :=
  match s.phase with
  | .opened _ => some P.initial
  | .greeting _ rest => some rest
  | .relaying _ => some []
  | _ => none

/-- The path is transparent: each side is sent a prefix of what it should be, no
connection but the one that was opened relays anything, and between the two sides no
byte is missing, doubled or out of place. -/
structure Transparent (P : Setup) (s : Path) : Prop where
  target : ∀ (c : Nat) (k : Conn), s.conns[c]? = some k → k.targetGot <+: P.initial ++ s.client
  unopened : ∀ (c : Nat) (k : Conn), s.conns[c]? = some k → s.stream ≠ some c → k.targetGot = []
  client : s.stream = none ∧ s.clientGot = [] ∨
    ∃ c k, s.stream = some c ∧ s.conns[c]? = some k ∧ k.agent = .relaying P.request ∧ s.clientGot <+: k.target
  upward : ∀ (c : Nat) (k : Conn) (rest : Bytes), s.stream = some c → s.conns[c]? = some k →
    s.unsent P = some rest →
    k.targetGot ++ k.uplink.rest ++ k.up ++ rest ++ s.uplink.rest ++ s.clientUnread = P.initial ++ s.client
  downward : ∀ (c : Nat) (k : Conn), s.stream = some c → s.conns[c]? = some k →
    s.clientGot ++ s.downlink.rest ++ k.down ++ k.downlink.rest ++ k.targetUnread = k.target

section
variable {P : Setup} {s : Path}

/-- What the agent took off its connection behind the request is at the target, with
its loop, or was never there. -/
theorem taken_isPrefix {client : Bytes} {k : Conn} (h : ConnInv P k) (hsent : Sent P client k) :
    k.uplink.taken <+: P.initial ++ client := by
  have hinv := h.agent
  unfold AgentInv at hinv
  split at hinv
  · rw [hinv.2.2.1]
    exact List.nil_prefix
  · rw [hinv.2.2.2.1]
    exact List.nil_prefix
  · rw [hinv.2.2.1.1]
    exact List.nil_prefix
  · rcases hsent with hnil | ⟨-, hpre⟩
    · rw [hnil, List.append_assoc] at hinv
      exact absurd (List.append_eq_nil_iff.mp hinv.2.1.symm).1 (withPrefix_ne_nil _)
    · rw [hinv.2.1, List.append_assoc, List.prefix_append_right_inj] at hpre
      exact (List.prefix_append _ _).trans hpre
  · rw [hinv.1.1]
    exact List.nil_prefix

theorem taken_unopened {k : Conn} (h : ConnInv P k) (hpre : k.sentUp <+: P.requestMessage) :
    k.uplink.taken = [] := by
  have hinv := h.agent
  unfold AgentInv at hinv
  split at hinv
  · exact hinv.2.2.1
  · exact hinv.2.2.2.1
  · exact hinv.2.2.1.1
  · have hlen := hpre.length_le
    rw [hinv.2.1, List.length_append, List.length_append] at hlen
    exact List.eq_nil_of_length_eq_zero (by omega)
  · exact hinv.1.1

/-- The two ends of the stream: what was put on it is what was taken off it and what is
on it still. -/
theorem stream_ends (h : LinkInv P s) {c : Nat} {k : Conn} (hstream : s.stream = some c) (hk : s.conns[c]? = some k) :
    k.agent = .relaying P.request ∧ k.sentUp = P.requestMessage ++ (k.uplink.taken ++ k.up) ∧
      k.downlink.written = s.downlink.taken ++ k.down := by
  obtain ⟨-, x, hx, hrel, hdown⟩ := h.stream c hstream
  obtain rfl : k = x := Option.some.inj (hk.symm.trans hx)
  have hinv := (h.conns c k hk).1.agent
  simp only [AgentInv, hrel] at hinv
  obtain ⟨-, hup, -, hsent⟩ := hinv
  refine ⟨hrel, by rw [hup, List.append_assoc], ?_⟩
  rw [hdown, List.append_assoc] at hsent
  exact (List.append_cancel_left hsent).symm

theorem downward (h : LinkInv P s) {c : Nat} {k : Conn} (hstream : s.stream = some c) (hk : s.conns[c]? = some k) :
    s.clientGot ++ s.downlink.rest ++ k.down ++ k.downlink.rest ++ k.targetUnread = k.target := by
  obtain ⟨-, -, hdown⟩ := stream_ends h hstream hk
  calc s.clientGot ++ s.downlink.rest ++ k.down ++ k.downlink.rest ++ k.targetUnread
      = s.downlink.taken ++ k.down ++ k.downlink.rest ++ k.targetUnread := by rw [h.got, Copy.taken]
    _ = k.downlink.taken ++ k.targetUnread := by rw [← hdown, Copy.taken]
    _ = k.target := (h.conns c k hk).1.target

theorem upward (h : PathInv P s) {c : Nat} {k : Conn} {rest : Bytes} (hstream : s.stream = some c)
    (hk : s.conns[c]? = some k) (hunsent : s.unsent P = some rest) :
    k.targetGot ++ k.uplink.rest ++ k.up ++ rest ++ s.uplink.rest ++ s.clientUnread = P.initial ++ s.client := by
  obtain ⟨-, hup, -⟩ := stream_ends h.link hstream hk
  have hsent : k.sentUp ++ rest = P.requestMessage ++ (P.initial ++ s.uplink.written) := by
    have hat {f : Bytes → Prop} {c' : Nat} (hc : s.stream = some c') (hw : WrittenAt s.conns c' f) : f k.sentUp := by
      obtain rfl : c = c' := Option.some.inj (hstream.symm.trans hc)
      obtain ⟨x, hx, hf⟩ := hw
      obtain rfl : k = x := Option.some.inj (hk.symm.trans hx)
      exact hf
    have hp := h.phase
    unfold PhaseInv at hp
    unfold Path.unsent at hunsent
    split at hunsent
    · rename_i hphase
      simp only [hphase] at hp
      obtain rfl := Option.some.inj hunsent
      rw [hat hp.1 hp.2.2.2, written_of_taken hp.2.1, List.append_nil]
    · rename_i hphase
      simp only [hphase] at hp
      obtain rfl := Option.some.inj hunsent
      rw [hat hp.1 hp.2.2.2, written_of_taken hp.2.1, List.append_nil]
    · rename_i hphase
      simp only [hphase] at hp
      obtain rfl := Option.some.inj hunsent
      rw [hat hp.1 hp.2.2, List.append_nil, List.append_assoc]
    · cases hunsent
  have hrelayed : k.uplink.taken ++ k.up ++ rest = P.initial ++ s.uplink.written := by
    rw [hup, List.append_assoc] at hsent
    exact List.append_cancel_left hsent
  calc k.targetGot ++ k.uplink.rest ++ k.up ++ rest ++ s.uplink.rest ++ s.clientUnread
      = k.uplink.taken ++ k.up ++ rest ++ s.uplink.rest ++ s.clientUnread := by
        rw [(h.link.conns c k hk).1.got, Copy.taken]
    _ = P.initial ++ (s.uplink.taken ++ s.clientUnread) := by
        rw [hrelayed, Copy.taken, List.append_assoc, List.append_assoc, List.append_assoc]
    _ = P.initial ++ s.client := by rw [h.link.client]

theorem transparent_of_inv (h : PathInv P s) : Transparent P s where
  target := by
    intro c k hk
    obtain ⟨hconn, hsent⟩ := h.link.conns c k hk
    rw [hconn.got]
    exact List.IsPrefix.trans ⟨_, rfl⟩ (taken_isPrefix hconn hsent)
  unopened := by
    intro c k hk hc
    have hconn := (h.link.conns c k hk).1
    rw [hconn.got]
    exact written_of_taken (taken_unopened hconn (h.link.others c k hk hc).1)
  client := by
    cases hstream : s.stream with
    | none => exact .inl ⟨rfl, by rw [h.link.got]; exact written_of_taken (h.link.idle hstream)⟩
    | some c =>
      obtain ⟨-, k, hk, hrel, -⟩ := h.link.stream c hstream
      refine .inr ⟨c, k, rfl, hk, hrel, s.downlink.rest ++ (k.down ++ (k.downlink.rest ++ k.targetUnread)), ?_⟩
      rw [← downward h.link hstream hk]
      simp only [List.append_assoc]
  upward := fun _ _ _ hstream hk hrest => upward h hstream hk hrest
  downward := fun _ _ hstream hk => downward h.link hstream hk

end

end Rps.Pool
