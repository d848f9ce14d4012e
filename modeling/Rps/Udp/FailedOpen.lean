import Rps.Udp.Stream
import Rps.Pool.Metering

/-! What a failed open leaves behind.

The controller takes a stream out of its table when the agent says `Close`, and the agent
says it only for an open that it refuses. So a failed open is cleared away exactly if the
agent refused it (`failed_open_cleared`). After a timeout the answer may still be a consent;
then the entry stays, and the handler relays for nobody. -/
namespace Rps.Udp
open Base
open Rps.Core

section
variable {codec : Codec OpenResponse}

/-- A handler has refused once it has sent its `Close`. -/
theorem acts_refused {a : StreamAction} {s : Stream} {r : Acted} (h : Acts codec s a r) :
    r.stream.handler = .refused ↔ s.handler = .refused ∨ a = .refuseClose := by
  cases h with
  | refuse _ hhandler | refuseClose hhandler | connected hhandler | uplinkFail hhandler _ | uplinkEnd hhandler _ _
  | downlinkFail hhandler => simp [hhandler]
  | _ => simp

theorem local_refused {k : Nat} {a : Action} {v v' : View} (htables : Tables v) (h : Local codec k a v v') :
    v'.stream.handler = .refused ↔ v.stream.handler = .refused ∨ a = .stream k .refuseClose := by
  cases h with
  | other _ hother => simp [hother]
  | act hr => simpa using acts_refused hr
  | down s up down f => simp
  | up s up down f =>
    by_cases hf : f = .open
    · subst hf
      obtain ⟨habsent, -⟩ := htables.absent
      simp [Stream.onUp, habsent]
    · obtain ⟨entry, inbound, closed, hread⟩ := s.onUp_eq hf
      simp [hread]

/-- A run has steps of streams that it has opened. -/
theorem stream_known {as : List Action} {t : State} (h : (system codec).Trace as t) {k : Nat} {b : StreamAction}
    (hmem : .stream k b ∈ as) : k < t.streams.length := by
  induction h with
  | nil => simp at hmem
  | @snoc as t u a _ hstep ih =>
    obtain ⟨hlength, hknown⟩ := step_length hstep
    rcases List.mem_append.mp hmem with hmem | hmem
    · exact (ih hmem).trans_le hlength
    · exact (hknown k b (List.mem_singleton.mp hmem).symm).trans_le hlength

theorem handler_refused {as : List Action} {t : State} (h : (system codec).Trace as t) {k : Nat} {s : Stream}
    (hs : t.streams[k]? = some s) : s.handler = .refused ↔ .stream k .refuseClose ∈ as := by
  induction h generalizing s with
  | nil => simp [system] at hs
  | @snoc as t u a htrace hstep ih =>
    rcases step_local hstep hs with ⟨rfl, rfl, rfl, -, -⟩ | ⟨s₀, hs₀, hmove⟩
    · have hfresh : .stream t.streams.length .refuseClose ∉ as := fun hmem => lt_irrefl _ (stream_known htrace hmem)
      simp [hfresh]
    · calc s.handler = .refused
        _ ↔ s₀.handler = .refused ∨ a = .stream k .refuseClose :=
          local_refused (tables_reachable htrace.reachable hs₀) hmove
        _ ↔ .stream k .refuseClose ∈ as ++ [a] := by
          rw [ih hs₀, List.mem_append, List.mem_singleton, eq_comm (a := a)]

/-- The open of a stream has failed, and nothing is in flight for the stream. -/
structure FailedOpen (t : State) (k : Nat) (s : Stream) : Prop where
  stream : t.streams[k]? = some s
  failed : s.opener = .failed
  toAgent : flight k t.toAgent = []
  toController : flight k t.toController = []

/-- **A failed open** leaves nothing behind exactly if the agent refused it, with a `Close`
behind its answer. -/
theorem failed_open_cleared (codec : Codec OpenResponse) (as : List Action) (t : State)
    (h : (system codec).Trace as t) (k : Nat) (s : Stream) (hfailed : FailedOpen t k s) :
    s.entry = false ∧ s.handler.running = false ↔ .stream k .refuseClose ∈ as := by
  have htables := tables_reachable h.reachable hfailed.stream
  rw [← handler_refused h hfailed.stream]
  constructor
  · intro hcleared
    by_contra hne
    have hentry : s.entry = true := (htables.kept hne).1
    rw [hcleared.1] at hentry
    cases hentry
  · intro hrefused
    obtain ⟨hentry, -⟩ | ⟨-, init, hdown, -⟩ := htables.refused hrefused
    · exact ⟨hentry, by rw [hrefused]; rfl⟩
    · have hdown : flight k t.toController = init ++ [.close] := hdown
      rw [hfailed.toController] at hdown
      simp at hdown

/-- The target has no route; the agent refuses, and the controller reads both frames. -/
def refusedRun : List Action :=
  [.openStream, .agentRead, .stream 0 (.refuse "udp connect t:53 failed: Network unreachable"), .stream 0 .refuseClose,
    .controllerRead, .stream 0 .response, .controllerRead]

/-- The controller gives up first, and the agent consents. -/
def lateConsentRun : List Action :=
  [.openStream, .agentRead, .stream 0 .timeout, .stream 0 .connected, .controllerRead]

def failedAt (t : State) (p : Stream → Bool) : Bool :=
  t.streams[0]?.any fun s =>
    s.opener = .failed ∧ flight 0 t.toAgent = [] ∧ flight 0 t.toController = [] ∧ p s

theorem failedOpen_of_failedAt {t : State} {p : Stream → Bool} (h : failedAt t p = true) :
    ∃ s, FailedOpen t 0 s ∧ p s = true := by
  obtain ⟨s, hs, hp⟩ := Option.any_eq_true _ _ |>.mp h
  obtain ⟨hfailed, hup, hdown, hp⟩ := of_decide_eq_true hp
  exact ⟨s, ⟨hs, hfailed, hup, hdown⟩, hp⟩

theorem failed_open_cleared_refused :
    ∃ t s, (system Pool.responseText).Trace refusedRun t ∧ FailedOpen t 0 s ∧
      s.entry = false ∧ s.handler.running = false := by
  obtain ⟨t, htrace, hp⟩ := System.trace_exists (S := system Pool.responseText) refusedRun
    (fun t => failedAt t fun _ => true) (by decide +kernel)
  obtain ⟨s, hfailed, -⟩ := failedOpen_of_failedAt hp
  exact ⟨t, s, htrace, hfailed, (failed_open_cleared _ _ t htrace 0 s hfailed).mpr (by decide)⟩

/-- The controller has the stream in its table, and the agent relays on it. -/
theorem late_consent_kept :
    ∃ t s, (system Pool.responseText).Trace lateConsentRun t ∧ FailedOpen t 0 s ∧ s.entry = true ∧
      s.handler = .relaying true true ∧ ¬ (s.entry = false ∧ s.handler.running = false) := by
  obtain ⟨t, htrace, hp⟩ := System.trace_exists (S := system Pool.responseText) lateConsentRun
    (fun t => failedAt t fun s => s.entry = true ∧ s.handler = .relaying true true) (by decide +kernel)
  obtain ⟨s, hfailed, hs⟩ := failedOpen_of_failedAt hp
  obtain ⟨hentry, hhandler⟩ := of_decide_eq_true hs
  refine ⟨t, s, htrace, hfailed, hentry, hhandler, fun hcleared => ?_⟩
  rw [hcleared.1] at hentry
  cases hentry

end

end Rps.Udp
