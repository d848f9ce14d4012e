import Rps.Controller.UdpAttribution
import Rps.Controller.UdpSessions

/-! The end of an association and the sessions of its address.

The associations and the sessions side by side. The handler that takes the count of its
association to zero removes the map entry if it is still its own, and then closes every
session of its address, whichever association they were opened under. The sweep removes the
addresses it found idle a while ago and closes their sessions too.

`association_end_undisturbed`: no handler closes a session of another association that has
a control connection, and no association with a handler is removed unless it is idle, in
every run in which a handler that ends its association is alone at its address until it has
returned, and an address the sweep has found idle stays idle until it is removed. Two
handlers that cross, or an association that was swept from under its handler, break it
otherwise (`association_end_disturbs`). -/
namespace Rps.Controller
open Base

namespace UdpAssociate

/-- The handler has taken the association and its control connection has not ended. -/
def Handler.attached (a : Nat) (h : Handler) : Bool :=
  match h.phase with
  | .holding b | .counted b | .serving b => b = a
  | _ => false

/-- The addresses the sweep has found idle and not removed yet. -/
def Sweep.stale : Sweep → List IpAddr
  | .sleeping => []
  | .scanning _ stale | .removing stale => stale

/-- The handler has ended its association and has not yet removed the entry. -/
def Handler.ending (h : Handler) : Bool :=
  match h.phase with
  | .released _ last => last
  | _ => false

/-- An association is created for one address and stays. -/
theorem moves_assocs {a : Action} {t u : Server} (h : Moves t a u) {c : Nat} {assoc : SocksUdpAssociation}
    (hc : t.shared.assocs[c]? = some assoc) : ∃ assoc', u.shared.assocs[c]? = some assoc' ∧ assoc'.ip = assoc.ip := by
  have htouch (ip : IpAddr) (now : Nat) :
      ∃ assoc', (t.shared.touch ip now).assocs[c]? = some assoc' ∧ assoc'.ip = assoc.ip := by
    unfold Shared.touch
    split
    · exact keep_modifyAssoc _ (by simp) c assoc hc
    · exact ⟨assoc, hc, rfl⟩
  cases h with
  | accept ip auth => exact ⟨assoc, hc, rfl⟩
  | handler i hd a s phase hi hmoves =>
    cases hmoves with
    | create now _ _ _ => exact ⟨assoc, Heap.get_push_of_some hc, rfl⟩
    | count now b _ => exact keep_modifyAssoc b (by simp) c assoc hc
    | read now b _ => exact htouch hd.ip now
    | leave b _ _ _ => exact keep_modifyAssoc b (by simp) c assoc hc
    | _ => exact ⟨assoc, hc, rfl⟩
  | background a s hmoves =>
    cases hmoves with
    | forward ip now b _ _ _ _ => exact htouch ip now
    | _ => exact ⟨assoc, hc, rfl⟩

/-- An entry is removed by the handler that ended its association or by the sweep. -/
theorem moves_removes {a : Action} {t u : Server} (h : Moves t a u) {ip : IpAddr} {b : Nat}
    (hlookup : t.shared.associations.lookup ip = some b) (hgone : u.shared.associations.lookup ip ≠ some b) :
    (∃ (i : Nat) (hd : Handler), t.handlers[i]? = some hd ∧ hd.ip = ip ∧ hd.phase = .released b true) ∨
      a = .sweepRemove ∧ ip ∈ t.shared.sweep.stale := by
  have herased {ip' : IpAddr} (hgone : (t.shared.associations.erase ip').lookup ip ≠ some b) : ip = ip' := by
    by_contra hne
    exact hgone (by rw [Table.lookup_erase, if_neg hne, hlookup])
  cases h with
  | accept _ _ => exact absurd hlookup hgone
  | handler i hd a s phase hi hmoves =>
    cases hmoves with
    | create now _ _ hnone =>
      rw [Table.lookup_insert] at hgone
      split at hgone
      · rename_i hip
        rw [hip, hnone] at hlookup
        cases hlookup
      · exact absurd hlookup hgone
    | removeEntry c hphase _ hc =>
      obtain rfl := herased hgone
      obtain rfl : b = c := Option.some.inj (hlookup.symm.trans hc)
      exact .inl ⟨i, hd, hi, rfl, hphase⟩
    | read now c _ => exact absurd (by rw [touch_associations, hlookup]) hgone
    | _ => exact absurd hlookup hgone
  | background a s hmoves =>
    cases hmoves with
    | sweepRemove ip' stale hsweep _ =>
      obtain rfl := herased hgone
      exact .inr ⟨rfl, by simp [hsweep, Sweep.stale]⟩
    | forward ip' now c assoc _ _ _ =>
      exact absurd (show (t.shared.touch ip' now).associations.lookup ip = some b by
        rw [touch_associations, hlookup]) hgone
    | _ => exact absurd hlookup hgone

end UdpAssociate

namespace UdpCleanup
open UdpAssociate UdpSessions

/-- Whose `close_sessions_for_ip` it is: of a handler, with its address and its
association, or of the sweep, whose session sweep counts as one as well. -/
inductive Owner where
  | handler (ip : IpAddr) (a : Nat)
  | sweep
  deriving DecidableEq

/-- It is of a handler at the address. -/
def Owner.isAt (ip : IpAddr) : Owner → Bool
  | .handler ip' _ => ip' = ip
  | .sweep => false

/-- The associations, the sessions, the association each stream was opened under, whose
each pass over the sessions is, and the time the sweep started at. -/
structure Socks5 where
  server : Server := {}
  relay : Relay SocksUdpSessionKey IpAddr := {}
  under : List Nat := []
  owners : List Owner := []
  sweepNow : Nat := 0

inductive Action where
  | assoc (a : UdpAssociate.Action)
  | session (a : UdpSessions.Action SocksUdpSessionKey IpAddr)
  deriving DecidableEq

namespace Socks5

def startPass (t : Socks5) (select : Select IpAddr) (owner : Owner) : Socks5 :=
  {t with
    relay := {t.relay with passes := t.relay.passes ++ [{ select := select }]}
    owners := t.owners ++ [owner]}

/-- The sweep is in one of its passes. -/
def sweeping (t : Socks5) : Prop :=
  ∃ p < t.owners.length, t.owners[p]? = some .sweep ∧ ∃ pass ∈ t.relay.passes[p]?, pass.finished = false

instance (t : Socks5) : Decidable t.sweeping := by
  unfold sweeping
  infer_instance

end Socks5

/-- A step on the associations, with what it starts on the sessions. -/
def assocStep (a : UdpAssociate.Action) (t : Socks5) : Option Socks5 :=
  match UdpAssociate.step a t.server with
  | none => none
  | some server =>
    match a with
    | .handler i .removeIf =>
      match t.server.handlers[i]? with
      | some ⟨ip, _, .released b true⟩ => some ({t with server := server}.startPass (.group ip) (.handler ip b))
      | _ => some {t with server := server}
    | .relayDone => if t.relay.phase = .receiving then some {t with server := server} else none
    | .sweepStart now => if t.sweeping then none else some {t with server := server, sweepNow := now}
    | .sweepRemove =>
      if t.sweeping then none
      else
        match t.server.shared.sweep with
        | .removing (ip :: _) =>
          if (t.server.shared.associations.lookup ip).isSome then
            some ({t with server := server}.startPass (.group ip) .sweep)
          else some {t with server := server}
        | .removing [] => some ({t with server := server}.startPass (.idle t.sweepNow) .sweep)
        | _ => some {t with server := server}
    | _ => some {t with server := server}

/-- A step on the sessions. The relay receives for the address whose entry it guards, and a
stream is opened under the association of that entry. -/
def sessionStep (a : UdpSessions.Action SocksUdpSessionKey IpAddr) (t : Socks5) : Option Socks5 :=
  match runUdpRelay.step a t.relay with
  | none => none
  | some relay =>
    match a with
    | .sweepStart _ | .closeStart _ => none
    | .recv key _ =>
      match t.server.shared.relay with
      | some (ip, route) =>
        if key.clientAddr.ip = ip ∧ key.clientId = route.clientId then some {t with relay := relay} else none
      | none => none
    | .openSend _ =>
      match t.relay.phase with
      | .missing key =>
        match t.server.shared.associations.lookup key.clientAddr.ip with
        | some b => some {t with relay := relay, under := t.under ++ [b]}
        | none => none
      | _ => none
    | _ => some {t with relay := relay}

def step (a : Action) (t : Socks5) : Option Socks5 :=
  match a with
  | .assoc a => assocStep a t
  | .session a => sessionStep a t

def system : System Socks5 Action where
  init := {}
  step := step

/-! ### The property -/

/-- An entry of the sessions map that a handler's pass removes, to close it, was opened
under the handler's own association or under one without a control connection. -/
def ClosesOwn (a : Action) (t u : Socks5) : Prop :=
  ∀ p ip b, a = .session (.passRemove p) → t.owners[p]? = some (.handler ip b) →
    ∀ key s, t.relay.sessions.lookup key = some s → u.relay.sessions.lookup key ≠ some s →
      ∀ c, t.under[s]? = some c → c ≠ b → ∀ h ∈ t.server.handlers, h.present = true → h.phase.assoc? ≠ some c

/-- An entry of the associations map that has a handler is removed by the sweep only, and
when it is idle. -/
def KeepsServed (a : Action) (t u : Socks5) : Prop :=
  ∀ ip b assoc, t.server.shared.associations.lookup ip = some b → t.server.shared.assocs[b]? = some assoc →
    u.server.shared.associations.lookup ip ≠ some b → (∃ h ∈ t.server.handlers, h.attached b = true) →
      a = .assoc .sweepRemove ∧ t.sweepNow - assoc.lastSeen > udpIdleSecs

/-! ### The condition -/

namespace Socks5

/-- Nobody at the address is between the end of its association and its return. -/
def quiet (t : Socks5) (ip : IpAddr) : Prop :=
  (∀ h ∈ t.server.handlers, h.ip = ip → h.ending = false) ∧
  ∀ p < t.owners.length, ∀ owner ∈ t.owners[p]?, ∀ pass ∈ t.relay.passes[p]?,
    owner.isAt ip = true → pass.finished = true

/-- Handler `i` at the address is alone with association `b`: the others have left it. -/
def alone (t : Socks5) (i : Nat) (ip : IpAddr) (b : Nat) : Prop :=
  ∀ j < t.server.handlers.length, j ≠ i → ∀ x ∈ t.server.handlers[j]?, x.ip = ip → x.present = true →
    ∃ last, x.phase = .released b last

end Socks5

/-- A handler that ends its association is alone at its address, no other comes in until it
has returned, and nothing stores the `last_seen` of an entry the sweep is to remove. -/
def Apart (a : Action) (t : Socks5) : Prop :=
  match a with
  | .assoc (.handler i a) =>
    ∀ h ∈ t.server.handlers[i]?,
      match a, h.phase with
      | .entry _, .requested =>
        t.quiet h.ip ∧ (h.ip ∈ t.server.shared.sweep.stale → t.server.shared.associations.lookup h.ip ≠ none)
      | .count _, .holding b => h.ip ∈ t.server.shared.sweep.stale → t.server.shared.associations.lookup h.ip ≠ some b
      | .read _, .serving _ => h.ip ∈ t.server.shared.sweep.stale → t.server.shared.associations.lookup h.ip = none
      | .leave, .serving b => ∀ assoc ∈ t.server.shared.assocs[b]?, assoc.refs = 1 → t.alone i h.ip b
      | _, _ => True
  | .assoc (.relayRecv ip _) => ip ∈ t.server.shared.sweep.stale → t.server.shared.associations.lookup ip = none
  | _ => True

instance (t : Socks5) (ip : IpAddr) : Decidable (t.quiet ip) := by
  unfold Socks5.quiet
  infer_instance

instance (t : Socks5) (i : Nat) (ip : IpAddr) (b : Nat) : Decidable (t.alone i ip b) := by
  unfold Socks5.alone
  infer_instance

instance (a : Action) (t : Socks5) : Decidable (Apart a t) := by
  unfold Apart
  split
  · refine @Option.decidableForallMem _ _ (fun h => ?_) _
    split <;> infer_instance
  · infer_instance
  · infer_instance

/-! ### What a step can do -/

inductive AssocMoves (t : Socks5) : UdpAssociate.Action → Socks5 → Prop where
  | plain (a : UdpAssociate.Action) (server : Server) : UdpAssociate.step a t.server = some server →
      (∀ now, a ≠ .sweepStart now) → (∀ i, a = .handler i .removeIf → ∀ h ∈ t.server.handlers[i]?, h.ending = false) →
      AssocMoves t a {t with server := server}
  | ended (i : Nat) (h : Handler) (b : Nat) (server : Server) :
      UdpAssociate.step (.handler i .removeIf) t.server = some server → t.server.handlers[i]? = some h →
      h.phase = .released b true →
      AssocMoves t (.handler i .removeIf) ({t with server := server}.startPass (.group h.ip) (.handler h.ip b))
  | sweepStart (now : Nat) (server : Server) : UdpAssociate.step (.sweepStart now) t.server = some server →
      AssocMoves t (.sweepStart now) {t with server := server, sweepNow := now}
  | swept (select : Select IpAddr) (server : Server) : UdpAssociate.step .sweepRemove t.server = some server →
      AssocMoves t .sweepRemove ({t with server := server}.startPass select .sweep)

theorem assocStep_moves {a : UdpAssociate.Action} {t u : Socks5} (h : assocStep a t = some u) : AssocMoves t a u := by
  unfold assocStep at h
  split at h
  · cases h
  · rename_i server hserver
    split at h
    · rename_i i
      split at h
      · rename_i ip auth b hi
        cases h
        exact .ended i _ b server hserver hi rfl
      · rename_i hnot
        cases h
        refine .plain _ server hserver (by simp) fun j hj x hx => ?_
        obtain rfl : i = j := by simpa using hj
        unfold Handler.ending
        split
        · rename_i b last hphase
          cases last with
          | false => rfl
          | true =>
            obtain ⟨ip, auth, phase⟩ := x
            cases hphase
            exact absurd hx (hnot ip auth b)
        · rfl
    · split at h
      · cases h
        exact .plain _ server hserver (by simp) (by simp)
      · cases h
    · split at h
      · cases h
      · cases h
        exact .sweepStart _ server hserver
    · split at h
      · cases h
      · split at h
        · split at h
          · cases h
            exact .swept _ server hserver
          · cases h
            exact .plain _ server hserver (by simp) (by simp)
        · cases h
          exact .swept _ server hserver
        · cases h
          exact .plain _ server hserver (by simp) (by simp)
    · rename_i hremove _ hstart _
      cases h
      exact .plain _ server hserver hstart fun i hi => absurd hi (hremove i)

inductive SessionMoves (t : Socks5) : UdpSessions.Action SocksUdpSessionKey IpAddr → Socks5 → Prop where
  | openSend (m : Nat) (key : SocksUdpSessionKey) (b : Nat) (relay : Relay SocksUdpSessionKey IpAddr) :
      runUdpRelay.step (.openSend m) t.relay = some relay → t.relay.phase = .missing key →
      t.server.shared.associations.lookup key.clientAddr.ip = some b →
      SessionMoves t (.openSend m) {t with relay := relay, under := t.under ++ [b]}
  | plain (a : UdpSessions.Action SocksUdpSessionKey IpAddr) (relay : Relay SocksUdpSessionKey IpAddr) :
      runUdpRelay.step a t.relay = some relay → (∀ m, a ≠ .openSend m) → (∀ now, a ≠ .sweepStart now) →
      (∀ ip, a ≠ .closeStart ip) → SessionMoves t a {t with relay := relay}

theorem sessionStep_moves {a : UdpSessions.Action SocksUdpSessionKey IpAddr} {t u : Socks5}
    (h : sessionStep a t = some u) : SessionMoves t a u := by
  unfold sessionStep at h
  split at h
  · cases h
  · rename_i relay hrelay
    split at h
    · cases h
    · cases h
    · split at h
      · split at h
        · cases h
          exact .plain _ relay hrelay (by simp) (by simp) (by simp)
        · cases h
      · cases h
    · split at h
      · split at h
        · cases h
          exact .openSend _ _ _ relay hrelay ‹_› ‹_›
        · cases h
      · cases h
    · rename_i hsweep hclose _ hopen
      cases h
      exact .plain _ relay hrelay hopen hsweep hclose

/-! ### Where things belong -/

/-- A stream was opened under an association of its address, and a handler's pass goes over
the sessions of the handler's address. -/
structure Shape (t : Socks5) : Prop where
  server : UdpAssociate.Inv t.server
  keyed : Keyed runUdpRelay t.relay
  underLength : t.under.length = t.relay.streams.length
  under : ∀ (s c : Nat) (st : Stream SocksUdpSessionKey), t.relay.streams[s]? = some st → t.under[s]? = some c →
    ∃ assoc, t.server.shared.assocs[c]? = some assoc ∧ assoc.ip = st.key.clientAddr.ip
  ownersLength : t.owners.length = t.relay.passes.length
  owner : ∀ (p b : Nat) (ip : IpAddr) (pass : Pass SocksUdpSessionKey IpAddr), t.owners[p]? = some (.handler ip b) →
    t.relay.passes[p]? = some pass → pass.select = .group ip

theorem shape_init : Shape {} where
  server := UdpAssociate.inv_init
  keyed := keyed_init runUdpRelay
  underLength := rfl
  under := by simp
  ownersLength := rfl
  owner := by simp

theorem Shape.server_step {t : Socks5} (h : Shape t) {a : UdpAssociate.Action} {server : Server}
    (hstep : UdpAssociate.step a t.server = some server) : Shape {t with server := server} where
  server := UdpAssociate.step_inv h.server hstep
  keyed := h.keyed
  underLength := h.underLength
  under := by
    intro s c st hst hc
    obtain ⟨assoc, hassoc, hip⟩ := h.under s c st hst hc
    obtain ⟨assoc', hassoc', hip'⟩ := moves_assocs (UdpAssociate.step_moves hstep) hassoc
    exact ⟨assoc', hassoc', hip'.trans hip⟩
  ownersLength := h.ownersLength
  owner := h.owner

theorem Shape.startPass {t : Socks5} (h : Shape t) {select : Select IpAddr} {owner : Owner}
    (howner : ∀ ip b, owner = .handler ip b → select = .group ip) : Shape (t.startPass select owner) where
  server := h.server
  keyed := by
    cases select with
    | idle now => exact step_keyed (a := .sweepStart now) h.keyed rfl
    | group ip => exact step_keyed (a := .closeStart ip) h.keyed rfl
  underLength := h.underLength
  under := h.under
  ownersLength := by
    show (t.owners ++ [owner]).length = (t.relay.passes ++ [_]).length
    simp [h.ownersLength]
  owner := by
    intro p b ip pass hp hpass
    have hp : (t.owners ++ [owner])[p]? = some (.handler ip b) := hp
    have hpass : (t.relay.passes ++ [{ select := select }])[p]? = some pass := hpass
    rw [Heap.get_push] at hp hpass
    rw [← h.ownersLength] at hpass
    split at hp
    · rw [if_pos ‹_›] at hpass
      cases hpass
      exact howner ip b (Option.some.inj hp)
    · rw [if_neg ‹_›] at hpass
      exact h.owner p b ip pass hp hpass

theorem shape_assoc {t u : Socks5} (h : Shape t) {a : UdpAssociate.Action} (hmoves : AssocMoves t a u) : Shape u := by
  cases hmoves with
  | plain _ server hstep _ _ => exact h.server_step hstep
  | ended i hd b server hstep _ _ =>
    refine (h.server_step hstep).startPass ?_
    intro ip c howner
    cases howner
    rfl
  | sweepStart now server hstep => exact {h.server_step hstep with}
  | swept select server hstep => exact (h.server_step hstep).startPass (by simp)

theorem shape_session {t u : Socks5} (h : Shape t) {a : UdpSessions.Action SocksUdpSessionKey IpAddr}
    (hmoves : SessionMoves t a u) : Shape u := by
  cases hmoves with
  | openSend m key b relay hstep hphase hlookup =>
    have hkeyed := step_keyed h.keyed hstep
    cases UdpSessions.step_moves hstep with
    | openSend key' _ l hphase' _ _ =>
      obtain rfl : key = key' := by simpa [hphase] using hphase'
      refine ⟨h.server, hkeyed, ?_, ?_, h.ownersLength, h.owner⟩
      · show (t.under ++ [b]).length = (t.relay.streams ++ [_]).length
        simp [h.underLength]
      · intro s c st hst hc
        have hst : (t.relay.streams ++ [{ key := key, link := m }])[s]? = some st := hst
        have hc : (t.under ++ [b])[s]? = some c := hc
        rw [Heap.get_push] at hst hc
        rw [h.underLength] at hc
        split at hst
        · rw [if_pos ‹_›] at hc
          cases hst
          cases hc
          exact h.server.entry_assoc hlookup
        · rw [if_neg ‹_›] at hc
          exact h.under s c st hst hc
  | plain _ relay hstep hopen hsweep hclose =>
    have hmoves := UdpSessions.step_moves hstep
    have hstreams : relay.streams.length = t.relay.streams.length := by
      rcases moves_streams_length hmoves with heq | ⟨m, key, ha, -⟩
      · exact heq
      · exact absurd ha (hopen m)
    have hpasses : relay.passes.length = t.relay.passes.length := by
      rcases moves_passes_length hmoves with heq | ⟨now, ha⟩ | ⟨ip, ha⟩ | hends
      · exact heq
      · exact absurd ha (hsweep now)
      · exact absurd ha (hclose ip)
      · cases hends
    refine ⟨h.server, step_keyed h.keyed hstep, h.underLength.trans hstreams.symm, ?_,
      h.ownersLength.trans hpasses.symm, ?_⟩
    · intro s c st' hst' hc
      obtain ⟨st, hst⟩ : ∃ st, t.relay.streams[s]? = some st := by
        have hlt := (List.getElem?_eq_some_iff.mp hst').1
        exact ⟨_, List.getElem?_eq_getElem (hstreams ▸ hlt)⟩
      obtain ⟨st₁, hst₁, hkey⟩ := moves_streams hmoves hst
      obtain rfl : st₁ = st' := Option.some.inj (hst₁.symm.trans hst')
      rw [hkey]
      exact h.under s c st hst hc
    · intro p b ip pass' hp hpass'
      rcases moves_passes hmoves hpass' with ⟨hlen, -⟩ | ⟨pass, hpass, hfrom⟩
      · have hlt : p < relay.passes.length := (List.getElem?_eq_some_iff.mp hpass').1
        omega
      · exact hfrom.select.trans (h.owner p b ip pass hp hpass)

theorem reachable_shape {t : Socks5} (h : system.Reachable t) : Shape t := by
  refine h.invariant shape_init fun a u v hshape _ hstep => ?_
  cases a with
  | assoc a => exact shape_assoc hshape (assocStep_moves hstep)
  | session a => exact shape_session hshape (sessionStep_moves hstep)

/-! ### Who is alone -/

/-- Whoever ends an association is alone at its address, before it removes the entry and
while it closes the sessions. -/
structure Settled (t : Socks5) : Prop where
  ending : ∀ (i b : Nat) (h : Handler), t.server.handlers[i]? = some h → h.phase = .released b true → t.alone i h.ip b
  closing : ∀ (p b : Nat) (ip : IpAddr) (pass : Pass SocksUdpSessionKey IpAddr), t.owners[p]? = some (.handler ip b) →
    t.relay.passes[p]? = some pass → pass.finished = false →
    ∀ x ∈ t.server.handlers, x.ip = ip → x.present = true → ∃ last, x.phase = .released b last

theorem settled_init : Settled {} where
  ending := by simp
  closing := by simp

/-- Somebody else than handler `j` ends association `b` at the address. -/
def Socks5.endsAt (t : Socks5) (j : Nat) (ip : IpAddr) (b : Nat) : Prop :=
  (∃ (i : Nat) (h : Handler), i ≠ j ∧ t.server.handlers[i]? = some h ∧ h.ip = ip ∧ h.phase = .released b true) ∨
  ∃ (p : Nat) (pass : Pass SocksUdpSessionKey IpAddr), t.owners[p]? = some (.handler ip b) ∧
    t.relay.passes[p]? = some pass ∧ pass.finished = false

theorem not_endsAt_of_quiet {t : Socks5} {ip : IpAddr} (h : t.quiet ip) (j b : Nat) : ¬ t.endsAt j ip b := by
  rintro (⟨i, x, -, hi, hip, hphase⟩ | ⟨p, pass, hp, hpass, hfinished⟩)
  · have hending := h.1 x (List.mem_of_getElem? hi) hip
    rw [Handler.ending, hphase] at hending
    cases hending
  · have hlt := (List.getElem?_eq_some_iff.mp hp).1
    rw [h.2 p hlt _ hp pass hpass (by simp [Owner.isAt])] at hfinished
    cases hfinished

theorem released_of_endsAt {t : Socks5} (h : Settled t) {j b : Nat} {hd : Handler} (hj : t.server.handlers[j]? = some hd)
    (hends : t.endsAt j hd.ip b) (hpresent : hd.present = true) : ∃ last, hd.phase = .released b last := by
  rcases hends with ⟨i, x, hne, hi, hip, hphase⟩ | ⟨p, pass, hp, hpass, hfinished⟩
  · have halone := h.ending i b x hi hphase
    exact halone j (List.getElem?_eq_some_iff.mp hj).1 hne.symm hd hj hip.symm hpresent
  · exact h.closing p b hd.ip pass hp hpass hfinished hd (List.mem_of_getElem? hj) rfl hpresent

/-- Handler `j` moves. If somebody else ends an association at its address, it does not stay
around, and if it ends one itself, it is alone. -/
theorem Settled.set {t : Socks5} (h : Settled t) {j : Nat} {hd : Handler} (hj : t.server.handlers[j]? = some hd)
    {s : Shared} {phase : UdpAssociate.Phase}
    (hcrowd : Handler.present {hd with phase := phase} = true → ∀ b, ¬ t.endsAt j hd.ip b)
    (hlast : ∀ b, phase = .released b true → t.alone j hd.ip b) :
    Settled {t with server := ⟨s, t.server.handlers.set j {hd with phase := phase}⟩} where
  ending := by
    intro i b x hi hphase k hk hki y hy hyip hypresent
    have hi : (t.server.handlers.set j {hd with phase := phase})[i]? = some x := hi
    have hy : (t.server.handlers.set j {hd with phase := phase})[k]? = some y := hy
    rw [Heap.get_set hj] at hi hy
    split at hi
    · rename_i hij
      cases hi
      rw [if_neg (hij ▸ hki)] at hy
      exact hlast b hphase k (List.getElem?_eq_some_iff.mp hy).1 (hij ▸ hki) y hy hyip hypresent
    · split at hy
      · cases hy
        exact absurd (.inl ⟨i, x, ‹_›, hi, hyip.symm, hphase⟩) (hcrowd hypresent b)
      · exact h.ending i b x hi hphase k (List.getElem?_eq_some_iff.mp hy).1 hki y hy hyip hypresent
  closing := by
    intro p b ip pass hp hpass hfinished x hx hip hpresent
    rcases List.mem_or_eq_of_mem_set hx with hx | rfl
    · exact h.closing p b ip pass hp hpass hfinished x hx hip hpresent
    · obtain rfl : hd.ip = ip := hip
      exact absurd (.inr ⟨p, pass, hp, hpass, hfinished⟩) (hcrowd hpresent b)

theorem not_endsAt_of_attached {t : Socks5} (h : Settled t) {j c : Nat} {hd : Handler}
    (hj : t.server.handlers[j]? = some hd) (hattached : hd.attached c = true) (b : Nat) : ¬ t.endsAt j hd.ip b := by
  intro hends
  have hpresent : hd.present = true := by
    unfold Handler.attached at hattached
    unfold Handler.present
    split at hattached <;> simp_all
  obtain ⟨last, hphase⟩ := released_of_endsAt h hj hends hpresent
  simp [Handler.attached, hphase] at hattached

theorem settled_handler {t : Socks5} (h : Settled t) {j : Nat} {hd : Handler} (hj : t.server.handlers[j]? = some hd)
    {a : HandlerAction} (hapart : Apart (.assoc (.handler j a)) t) {s : Shared} {phase : UdpAssociate.Phase}
    (hmoves : HandlerMoves t.server.shared hd a s phase) :
    Settled {t with server := ⟨s, t.server.handlers.set j {hd with phase := phase}⟩} := by
  have happly := hapart hd hj
  cases hmoves with
  | readAddrFail _ => exact h.set hj (by simp [Handler.present]) (by simp)
  | join now b hphase _ _ =>
    simp only [hphase] at happly
    exact h.set hj (fun _ => not_endsAt_of_quiet happly.1 j) (by simp)
  | create now hphase _ _ =>
    simp only [hphase] at happly
    exact h.set hj (fun _ => not_endsAt_of_quiet happly.1 j) (by simp)
  | count now b hphase =>
    exact h.set hj (fun _ => not_endsAt_of_attached (c := b) h hj (by simp [Handler.attached, hphase])) (by simp)
  | reply b hphase =>
    exact h.set hj (fun _ => not_endsAt_of_attached (c := b) h hj (by simp [Handler.attached, hphase])) (by simp)
  | replyFail b _ => exact h.set hj (by simp [Handler.present]) (by simp)
  | read now b hphase =>
    exact h.set hj (fun _ => not_endsAt_of_attached (c := b) h hj (by simp [Handler.attached, hphase])) (by simp)
  | readFail b _ => exact h.set hj (by simp [Handler.present]) (by simp)
  | leave b assoc hphase hassoc =>
    simp only [hphase] at happly
    refine h.set hj (fun _ => not_endsAt_of_attached (c := b) h hj (by simp [Handler.attached, hphase])) fun c hc => ?_
    obtain ⟨rfl, hlast⟩ : b = c ∧ assoc.refs = 1 := by simpa using hc
    exact happly assoc hassoc hlast
  | keepEntry b last _ _ => exact h.set hj (by simp [Handler.present]) (by simp)
  | removeEntry b _ _ _ => exact h.set hj (by simp [Handler.present]) (by simp)

theorem settled_server {t : Socks5} (h : Settled t) {a : UdpAssociate.Action} (hapart : Apart (.assoc a) t)
    {server : Server} (hstep : UdpAssociate.step a t.server = some server) : Settled {t with server := server} := by
  cases UdpAssociate.step_moves hstep with
  | accept ip auth =>
    have hback {k : Nat} {y : Handler} (hy : (t.server.handlers ++ [⟨ip, auth, .requested⟩])[k]? = some y)
        (hpresent : y.present = true) : t.server.handlers[k]? = some y := by
      rw [Heap.get_push] at hy
      split at hy
      · cases hy
        cases hpresent
      · exact hy
    refine ⟨fun i b x hi hphase k _ hki y hy hyip hypresent => ?_, fun p b ip pass hp hpass hfinished x hx => ?_⟩
    · have hi := hback hi (by rw [Handler.present, hphase])
      have hy := hback hy hypresent
      exact h.ending i b x hi hphase k (List.getElem?_eq_some_iff.mp hy).1 hki y hy hyip hypresent
    · intro hip hpresent
      obtain ⟨k, hk⟩ := List.mem_iff_getElem?.mp hx
      exact h.closing p b ip pass hp hpass hfinished x (List.mem_of_getElem? (hback hk hpresent)) hip hpresent
  | handler i hd a s phase hi hmoves => exact settled_handler h hi hapart hmoves
  | background a s _ => exact ⟨h.ending, h.closing⟩

/-- A pass is started by somebody who is alone. -/
theorem Settled.startPass {t : Socks5} (h : Settled t) (hlen : t.owners.length = t.relay.passes.length)
    {select : Select IpAddr} {owner : Owner}
    (howner : ∀ ip b, owner = .handler ip b → ∀ x ∈ t.server.handlers, x.ip = ip → x.present = true →
      ∃ last, x.phase = .released b last) : Settled (t.startPass select owner) where
  ending := h.ending
  closing := by
    intro p b ip pass hp hpass hfinished
    have hp : (t.owners ++ [owner])[p]? = some (.handler ip b) := hp
    have hpass : (t.relay.passes ++ [{ select := select }])[p]? = some pass := hpass
    rw [Heap.get_push] at hp hpass
    split at hp
    · exact howner ip b (Option.some.inj hp)
    · rw [← hlen, if_neg ‹_›] at hpass
      exact h.closing p b ip pass hp hpass hfinished

theorem settled_assoc {t u : Socks5} (h : Settled t) (hshape : Shape t) {a : UdpAssociate.Action}
    (hapart : Apart (.assoc a) t) (hmoves : AssocMoves t a u) : Settled u := by
  cases hmoves with
  | plain _ server hstep _ _ => exact settled_server h hapart hstep
  | ended i hd b server hstep hi hphase =>
    refine (settled_server h hapart hstep).startPass hshape.ownersLength ?_
    intro ip c howner x hx hip hpresent
    cases howner
    cases UdpAssociate.step_moves hstep with
    | handler _ hd' _ s phase hi' hmoves =>
      obtain rfl : hd = hd' := Option.some.inj (hi.symm.trans hi')
      obtain ⟨k, hk⟩ := List.mem_iff_getElem?.mp hx
      have hk : (t.server.handlers.set i {hd with phase := phase})[k]? = some x := hk
      rw [Heap.get_set hi] at hk
      split at hk
      · -- the handler itself has returned
        cases hk
        obtain rfl : phase = .returned := by
          cases hmoves with
          | keepEntry _ _ _ _ => rfl
          | removeEntry _ _ _ _ => rfl
        cases hpresent
      · exact h.ending i b hd hi hphase k (List.getElem?_eq_some_iff.mp hk).1 ‹_› x hk hip hpresent
    | background _ _ hmoves => cases hmoves
  | sweepStart now server hstep =>
    have hserver := settled_server h hapart hstep
    exact ⟨hserver.ending, hserver.closing⟩
  | swept select server hstep =>
    exact (settled_server h hapart hstep).startPass hshape.ownersLength (by simp)

theorem settled_session {t u : Socks5} (h : Settled t) (hshape : Shape t)
    {a : UdpSessions.Action SocksUdpSessionKey IpAddr} (hmoves : SessionMoves t a u) : Settled u := by
  have hkeep {relay : Relay SocksUdpSessionKey IpAddr} {under : List Nat}
      (hstep : runUdpRelay.step a t.relay = some relay) :
      Settled {t with relay := relay, under := under} := by
    refine ⟨h.ending, fun p b ip pass' hp hpass' hfinished => ?_⟩
    rcases moves_passes (UdpSessions.step_moves hstep) hpass' with ⟨hlen, -⟩ | ⟨pass, hpass, hfrom⟩
    · have hlt := (List.getElem?_eq_some_iff.mp hp).1
      have hlt : p < t.owners.length := hlt
      rw [hshape.ownersLength] at hlt
      omega
    · refine h.closing p b ip pass hp hpass ?_
      by_contra hdone
      rw [hfrom.finished (Bool.eq_true_of_not_eq_false hdone)] at hfinished
      cases hfinished
  cases hmoves with
  | openSend m key b relay hstep _ _ => exact hkeep hstep
  | plain _ relay hstep _ _ _ => exact hkeep hstep

/-! ### What the sweep will remove is idle -/

/-- The entries of the addresses on the sweep's list are idle at the sweep's time. -/
structure StaleIdle (s : Shared) (now : Nat) : Prop where
  idle : ∀ ip ∈ s.sweep.stale, ∀ (b : Nat) (assoc : SocksUdpAssociation), s.associations.lookup ip = some b →
    s.assocs[b]? = some assoc → now - assoc.lastSeen > udpIdleSecs
  scanning : ∀ time stale, s.sweep = .scanning time stale → time = now

theorem staleIdle_init : StaleIdle {} 0 where
  idle := by simp [Sweep.stale]
  scanning := by simp

/-- An association changes that is not to be removed, or keeps its `last_seen`. -/
theorem StaleIdle.modify {s : Shared} {now : Nat} (h : StaleIdle s now) {a : Nat}
    {f : SocksUdpAssociation → SocksUdpAssociation}
    (hf : (∀ assoc, (f assoc).lastSeen = assoc.lastSeen) ∨ ∀ ip ∈ s.sweep.stale, s.associations.lookup ip ≠ some a) :
    StaleIdle (s.modifyAssoc a f) now where
  idle := by
    intro ip hip b assoc hlookup hassoc
    rw [get_modifyAssoc] at hassoc
    split at hassoc
    · rename_i hab
      subst hab
      obtain ⟨old, hold, rfl⟩ := Option.map_eq_some_iff.mp hassoc
      rcases hf with hkeep | hnot
      · rw [hkeep]
        exact h.idle ip hip a old hlookup hold
      · exact absurd hlookup (hnot ip hip)
    · exact h.idle ip hip b assoc hlookup hassoc
  scanning := h.scanning

theorem StaleIdle.touch {t : Server} (hinv : UdpAssociate.Inv t) {now : Nat} (h : StaleIdle t.shared now) {ip : IpAddr}
    (hfree : ip ∈ t.shared.sweep.stale → t.shared.associations.lookup ip = none) (time : Nat) :
    StaleIdle (t.shared.touch ip time) now := by
  unfold Shared.touch
  split
  · rename_i a hlookup
    refine h.modify (.inr fun ip' hip' hlookup' => ?_)
    -- two addresses never share an association
    obtain ⟨assoc, hassoc, hassocIp⟩ := hinv.entry_assoc hlookup
    obtain ⟨assoc', hassoc', hassocIp'⟩ := hinv.entry_assoc hlookup'
    obtain rfl : assoc = assoc' := Option.some.inj (hassoc.symm.trans hassoc')
    rw [hassocIp] at hassocIp'
    subst hassocIp'
    rw [hfree hip'] at hlookup
    cases hlookup
  · exact h

/-- Entries go, and addresses leave the sweep's list. -/
theorem StaleIdle.shrink {s u : Shared} {now : Nat} (h : StaleIdle s now) (hassocs : u.assocs = s.assocs)
    (hstale : ∀ ip ∈ u.sweep.stale, ip ∈ s.sweep.stale)
    (hlookup : ∀ ip b, u.associations.lookup ip = some b → s.associations.lookup ip = some b)
    (hscanning : ∀ time stale, u.sweep = .scanning time stale → time = now) : StaleIdle u now where
  idle := by
    intro ip hip b assoc hb hassoc
    rw [hassocs] at hassoc
    exact h.idle ip (hstale ip hip) b assoc (hlookup ip b hb) hassoc
  scanning := hscanning

theorem lookup_of_erase {s : Shared} {ip' : IpAddr} (ip : IpAddr) (b : Nat)
    (h : (s.associations.erase ip').lookup ip = some b) : s.associations.lookup ip = some b := by
  rw [Table.lookup_erase] at h
  split at h
  · cases h
  · exact h

theorem staleIdle_handler {t : Socks5} (hinv : UdpAssociate.Inv t.server) (h : StaleIdle t.server.shared t.sweepNow)
    {j : Nat} {hd : Handler} (hj : t.server.handlers[j]? = some hd) {a : HandlerAction}
    (hapart : Apart (.assoc (.handler j a)) t) {s : Shared} {phase : UdpAssociate.Phase}
    (hmoves : HandlerMoves t.server.shared hd a s phase) : StaleIdle s t.sweepNow := by
  have happly := hapart hd hj
  cases hmoves with
  | create now hphase _ hnone =>
    simp only [hphase] at happly
    refine ⟨fun ip hip b assoc hlookup hassoc => ?_, h.scanning⟩
    simp only [Table.lookup_insert] at hlookup
    split at hlookup
    · rename_i heq
      rw [heq] at hip
      exact absurd hnone (happly.2 hip)
    · obtain ⟨old, hold, -⟩ := hinv.entry_assoc hlookup
      have hassoc : (t.server.shared.assocs ++ [newAssociation hd.ip hd.auth now])[b]? = some assoc := hassoc
      rw [Heap.get_push_of_some hold] at hassoc
      exact h.idle ip hip b assoc hlookup (hold.trans hassoc)
  | count now b hphase =>
    simp only [hphase] at happly
    refine h.modify (.inr fun ip hip hlookup => ?_)
    -- the entry and the handler know the association under the same address
    obtain ⟨assoc, hassoc, hassocIp⟩ := hinv.entry_assoc hlookup
    obtain ⟨assoc', hassoc', hassocIp'⟩ := hinv.holds hd (List.mem_of_getElem? hj) b (by rw [hphase]; rfl)
    obtain rfl : assoc = assoc' := Option.some.inj (hassoc.symm.trans hassoc')
    rw [hassocIp] at hassocIp'
    subst hassocIp'
    exact happly hip hlookup
  | read now b hphase =>
    simp only [hphase] at happly
    exact h.touch hinv happly now
  | leave b assoc _ _ => exact h.modify (.inl fun _ => rfl)
  | removeEntry b _ _ _ => exact h.shrink rfl (fun _ hip => hip) lookup_of_erase h.scanning
  | _ => exact h

theorem staleIdle_background {t : Socks5} (hinv : UdpAssociate.Inv t.server)
    (h : StaleIdle t.server.shared t.sweepNow) {a : UdpAssociate.Action} (hapart : Apart (.assoc a) t)
    (hstart : ∀ now, a ≠ .sweepStart now) {s : Shared} (hmoves : BackgroundMoves t.server.shared a s) :
    StaleIdle s t.sweepNow := by
  cases hmoves with
  | ignore ip now _ _ => exact h
  | forward ip now b assoc _ _ _ =>
    have htouch := h.touch hinv hapart now
    exact ⟨htouch.idle, htouch.scanning⟩
  | done => exact ⟨h.idle, h.scanning⟩
  | sweepStart now _ => exact absurd rfl (hstart now)
  | sweepScan ip now b stale assoc hsweep hlookup hassoc _ hidle =>
    obtain rfl := h.scanning now stale hsweep
    refine ⟨fun ip' hip' b' assoc' hlookup' hassoc' => ?_, fun time stale' heq => ?_⟩
    · rcases List.mem_append.mp hip' with hold | hnew
      · exact h.idle ip' (by rw [hsweep]; exact hold) b' assoc' hlookup' hassoc'
      · obtain rfl := List.mem_singleton.mp hnew
        obtain rfl : b = b' := Option.some.inj (hlookup.symm.trans hlookup')
        obtain rfl : assoc = assoc' := Option.some.inj (hassoc.symm.trans hassoc')
        exact hidle
    · cases heq
      rfl
  | sweepCollected now stale hsweep =>
    exact h.shrink rfl (fun ip hip => by rw [hsweep]; exact hip) (fun _ _ hb => hb) (by simp)
  | sweepRemove ip stale hsweep _ =>
    refine h.shrink rfl (fun ip' hip' => ?_) lookup_of_erase (by simp)
    rw [hsweep]
    exact List.mem_cons_of_mem _ hip'
  | sweepEnd _ => exact h.shrink rfl (by simp [Sweep.stale]) (fun _ _ hb => hb) (by simp)

theorem staleIdle_assoc {t u : Socks5} (hinv : UdpAssociate.Inv t.server) (h : StaleIdle t.server.shared t.sweepNow)
    {a : UdpAssociate.Action} (hapart : Apart (.assoc a) t) (hmoves : AssocMoves t a u) :
    StaleIdle u.server.shared u.sweepNow := by
  have hserver {server : Server} (hstep : UdpAssociate.step a t.server = some server)
      (hstart : ∀ now, a ≠ .sweepStart now) : StaleIdle server.shared t.sweepNow := by
    cases UdpAssociate.step_moves hstep with
    | accept ip auth => exact h
    | handler i hd a s phase hi hhandler => exact staleIdle_handler hinv h hi hapart hhandler
    | background a s hbackground => exact staleIdle_background hinv h hapart hstart hbackground
  cases hmoves with
  | plain _ server hstep hstart _ => exact hserver hstep hstart
  | ended i hd b server hstep _ _ => exact hserver hstep (by simp)
  | sweepStart now server hstep =>
    cases UdpAssociate.step_moves hstep with
    | background _ s hmoves =>
      cases hmoves with
      | sweepStart _ _ => exact ⟨by simp [Sweep.stale], by simp⟩
  | swept select server hstep => exact hserver hstep (by simp)

/-! ### The theorem -/

structure Inv (t : Socks5) : Prop where
  shape : Shape t
  settled : Settled t
  stale : StaleIdle t.server.shared t.sweepNow

theorem step_inv {a : Action} {t u : Socks5} (h : Inv t) (hapart : Apart a t) (hstep : step a t = some u) : Inv u := by
  cases a with
  | assoc a =>
    have hmoves := assocStep_moves hstep
    exact ⟨shape_assoc h.shape hmoves, settled_assoc h.settled h.shape hapart hmoves,
      staleIdle_assoc h.shape.server h.stale hapart hmoves⟩
  | session a =>
    have hmoves := sessionStep_moves hstep
    refine ⟨shape_session h.shape hmoves, settled_session h.settled h.shape hmoves, ?_⟩
    cases hmoves with
    | openSend _ _ _ _ _ _ _ => exact h.stale
    | plain _ _ _ _ _ _ => exact h.stale

theorem closesOwn_of_step {a : Action} {t u : Socks5} (h : Inv t) (hstep : step a t = some u) : ClosesOwn a t u := by
  rintro p ip b rfl howner key s hlookup hgone c hc hne x hx hpresent hassoc
  cases sessionStep_moves hstep with
  | plain _ relay hrelay _ _ _ =>
    cases UdpSessions.step_moves hrelay with
    | passRemove _ s₁ s' key' select rest hp _ =>
      have hkey : key = key' := by
        by_contra hkey
        exact hgone (show (t.relay.sessions.erase key').lookup key = some s by
          rw [Table.lookup_erase, if_neg hkey, hlookup])
      subst hkey
      -- the key, the stream, its association and the handler are all of the pass's address
      have hselect := h.shape.owner p b ip _ howner hp
      have hkeyIp : key.clientAddr.ip = ip :=
        h.shape.keyed.collected _ (List.mem_of_getElem? hp) ip hselect (key, s') (by simp)
      obtain ⟨st, hst, hstKey⟩ := h.shape.keyed.entry key s hlookup
      obtain ⟨assoc, hassoc₁, hip₁⟩ := h.shape.under s c st hst hc
      obtain ⟨assoc', hassoc₂, hip₂⟩ := h.shape.server.holds x hx c hassoc
      obtain rfl : assoc = assoc' := Option.some.inj (hassoc₁.symm.trans hassoc₂)
      have hxip : x.ip = ip := by rw [← hip₂, hip₁, hstKey, hkeyIp]
      obtain ⟨last, hphase⟩ := h.settled.closing p b ip _ howner hp (by simp [Pass.finished]) x hx hxip hpresent
      rw [hphase] at hassoc
      exact hne (Option.some.inj hassoc).symm
    | passSkip _ _ _ _ _ _ _ => exact hgone hlookup

theorem keepsServed_of_step {a : Action} {t u : Socks5} (h : Inv t) (hstep : step a t = some u) :
    KeepsServed a t u := by
  rintro ip b assoc hlookup hassoc hgone ⟨x, hx, hattached⟩
  have hserver {a : UdpAssociate.Action} {server : Server} (hstep : UdpAssociate.step a t.server = some server)
      (hgone : server.shared.associations.lookup ip ≠ some b) :
      Action.assoc a = .assoc .sweepRemove ∧ t.sweepNow - assoc.lastSeen > udpIdleSecs := by
    rcases moves_removes (UdpAssociate.step_moves hstep) hlookup hgone with ⟨i, hd, hi, hip, hphase⟩ | ⟨rfl, hstale⟩
    · -- the other handler of the association would have to have left it
      obtain ⟨j, hj⟩ := List.mem_iff_getElem?.mp hx
      have hne : j ≠ i := by
        rintro rfl
        obtain rfl : hd = x := Option.some.inj (hi.symm.trans hj)
        simp [Handler.attached, hphase] at hattached
      have hends : t.endsAt j hd.ip b := .inl ⟨i, hd, hne.symm, hi, rfl, hphase⟩
      have hxip : hd.ip = x.ip := by
        have hxa : x.phase.assoc? = some b := by
          unfold Handler.attached at hattached
          split at hattached <;> simp_all [Phase.assoc?]
        obtain ⟨assoc₁, hassoc₁, hip₁⟩ := h.shape.server.holds x hx b hxa
        obtain ⟨assoc₂, hassoc₂, hip₂⟩ := h.shape.server.entry_assoc hlookup
        obtain rfl : assoc₁ = assoc₂ := Option.some.inj (hassoc₁.symm.trans hassoc₂)
        rw [hip, ← hip₂, hip₁]
      rw [hxip] at hends
      exact absurd hends (not_endsAt_of_attached h.settled hj hattached b)
    · exact ⟨rfl, h.stale.idle ip hstale b assoc hlookup hassoc⟩
  cases a with
  | assoc a =>
    cases assocStep_moves hstep with
    | plain _ server hs _ _ => exact hserver hs hgone
    | ended i hd b' server hs _ _ => exact hserver hs hgone
    | sweepStart now server hs => exact hserver hs hgone
    | swept select server hs => exact hserver hs hgone
  | session a =>
    cases sessionStep_moves hstep with
    | openSend _ _ _ _ _ _ _ => exact absurd hlookup hgone
    | plain _ _ _ _ _ _ => exact absurd hlookup hgone

/-- **The end of an association disturbs no other**: the handler closes no session of an
association that still has a control connection, and no association with a handler leaves
the map before it is idle, in every run in which whoever ends an association is alone and
what the sweep has found idle stays idle. -/
theorem association_end_undisturbed (t : Socks5) (h : system.Reach Apart t) (a : Action) (u : Socks5)
    (hstep : step a t = some u) : ClosesOwn a t u ∧ KeepsServed a t u := by
  have hinv : Inv t := h.invariant ⟨shape_init, settled_init, staleIdle_init⟩ fun _ _ _ hinv hapart hs =>
    step_inv hinv hapart hs
  exact ⟨closesOwn_of_step hinv hstep, keepsServed_of_step hinv hstep⟩

/-- A handler of the address is associated and served. -/
def serveRun (ip : IpAddr) (i now : Nat) : List Action :=
  [.assoc (.accept ip ⟨"client", none⟩), .assoc (.handler i (.entry now)), .assoc (.handler i (.count now)),
    .assoc (.handler i .reply)]

/-- A datagram of the address opens a stream. -/
def datagramRun (key : SocksUdpSessionKey) (now : Nat) : List Action :=
  [.assoc (.relayRecv key.clientAddr.ip now), .session (.recv key now), .session (.openSend 0),
    .session (.openOk now), .session .sent, .assoc .relayDone]

/-- The sweep finds the address idle and removes it. -/
def sweepRun (ip : IpAddr) (now : Nat) : List Action :=
  [.assoc (.sweepStart now), .assoc (.sweepScan ip), .assoc .sweepRemove, .assoc .sweepRemove,
    .session (.collectEnd 0), .assoc .sweepRemove, .session (.collectEnd 1)]

def dnsKey : SocksUdpSessionKey := ⟨"client", ⟨.v4 1, 4000⟩, "dns:53"⟩

/-- Two handlers share an association, and the last one closes its session. -/
def lastOutRun : List Action :=
  ([.session .connect] : List Action) ++ serveRun (.v4 1) 0 0 ++ serveRun (.v4 1) 1 1 ++ datagramRun dnsKey 2 ++
    ([.assoc (.handler 0 .leave), .assoc (.handler 0 .removeIf), .assoc (.handler 1 .leave),
      .assoc (.handler 1 .removeIf), .session (.collect 0 dnsKey), .session (.collectEnd 0)] : List Action)

/-- The association of the first handler is swept, a second handler creates a new one, and
the first handler ends the old one. -/
def sweptRun : List Action :=
  ([.session .connect] : List Action) ++ serveRun (.v4 1) 0 0 ++ sweepRun (.v4 1) 1000 ++
    serveRun (.v4 1) 1 1001 ++ datagramRun dnsKey 1002 ++
    ([.assoc (.handler 0 .leave), .assoc (.handler 0 .removeIf), .session (.collect 2 dnsKey),
      .session (.collectEnd 2)] : List Action)

/-- The second handler takes the association that the first one has just ended. -/
def crossedRun : List Action :=
  serveRun (.v4 1) 0 0 ++ ([.assoc (.handler 0 .leave)] : List Action) ++ serveRun (.v4 1) 1 1

theorem association_end_undisturbed_lastOut : ∃ t u, system.Reach Apart t ∧
    step (.session (.passRemove 0)) t = some u ∧ t.owners = [.handler (.v4 1) 0] ∧
    t.relay.sessions.lookup dnsKey = some 0 ∧ u.relay.sessions.lookup dnsKey = none ∧
    ClosesOwn (.session (.passRemove 0)) t u ∧ KeepsServed (.session (.passRemove 0)) t u := by
  obtain ⟨t, ht, hp⟩ := System.reach_of_run (S := system) (C := Apart) lastOutRun
    (fun t => t.owners = [.handler (.v4 1) 0] ∧ t.relay.sessions.lookup dnsKey = some 0 ∧
      (step (.session (.passRemove 0)) t).any fun u => u.relay.sessions.lookup dnsKey = none) (by decide +kernel)
  simp only [decide_eq_true_eq, Option.any_eq_true] at hp
  obtain ⟨howners, hlookup, u, hu, hnone⟩ := hp
  exact ⟨t, u, ht, hu, howners, hlookup, hnone, association_end_undisturbed t ht _ u hu⟩

/-- The first handler closes the session of the second one's association; and where the
second handler takes an association that is being ended, the first one removes it while the
second is served. -/
theorem association_end_disturbs :
    (∃ t u, system.Reachable t ∧ step (.session (.passRemove 2)) t = some u ∧
      ¬ ClosesOwn (.session (.passRemove 2)) t u) ∧
    (∃ t u, system.Reachable t ∧ step (.assoc (.handler 0 .removeIf)) t = some u ∧
      t.server.handlers.map (·.phase) = [.released 0 true, .serving 0] ∧
      t.server.shared.assocs.map (·.lastSeen) = [1] ∧ ¬ KeepsServed (.assoc (.handler 0 .removeIf)) t u) := by
  constructor
  · obtain ⟨t, ht, hp⟩ := System.reach_of_run (S := system) (C := fun _ _ => True) sweptRun
      (fun t => t.owners[2]? = some (.handler (.v4 1) 0) ∧ t.relay.sessions.lookup dnsKey = some 0 ∧
        t.under[0]? = some 1 ∧ (∃ h ∈ t.server.handlers, h.phase = .serving 1) ∧
        (step (.session (.passRemove 2)) t).any fun u => u.relay.sessions.lookup dnsKey = none) (by decide +kernel)
    simp only [decide_eq_true_eq, Option.any_eq_true] at hp
    obtain ⟨howner, hlookup, hunder, ⟨h, hmem, hphase⟩, u, hu, hnone⟩ := hp
    refine ⟨t, u, ht, hu, fun hcloses => ?_⟩
    refine hcloses 2 (.v4 1) 0 rfl howner dnsKey 0 hlookup (by simp [hnone]) 1 hunder (by decide) h hmem ?_ ?_
    · rw [Handler.present, hphase]
    · rw [hphase]
      rfl
  · obtain ⟨t, ht, hp⟩ := System.reach_of_run (S := system) (C := fun _ _ => True) crossedRun
      (fun t => t.server.shared.associations.lookup (.v4 1) = some 0 ∧
        t.server.handlers.map (·.phase) = [.released 0 true, .serving 0] ∧
        t.server.shared.assocs.map (·.lastSeen) = [1] ∧ (∃ h ∈ t.server.handlers, h.attached 0 = true) ∧
        (step (.assoc (.handler 0 .removeIf)) t).any fun u =>
          u.server.shared.associations.lookup (.v4 1) = none) (by decide +kernel)
    simp only [decide_eq_true_eq, Option.any_eq_true] at hp
    obtain ⟨hlookup, hphases, hseen, hattached, u, hu, hnone⟩ := hp
    refine ⟨t, u, ht, hu, hphases, hseen, fun hkeeps => ?_⟩
    obtain ⟨assoc, hassoc, -⟩ := (reachable_shape ht).server.entry_assoc hlookup
    obtain ⟨ha, -⟩ := hkeeps (.v4 1) 0 assoc hlookup hassoc (by rw [hnone]; simp) hattached
    cases ha

end UdpCleanup

end Rps.Controller
