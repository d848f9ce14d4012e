import Rps.Controller.UdpAssociate

/-! Whose UDP datagrams they are.

An association is created under the account of the first handler of its address and is
shared by every handler that comes after, of whichever account. The relay routes and meters
the address's datagrams as the association says, so they go to the account that came first,
for as long as the association is there.

`relay_attributed`: that account is still present, in every run in which a handler that
returns without removing its address's entry, while the entry carries its account, leaves
another handler of its account behind. A second account at the same address outlives the
first one otherwise (`relay_misattributed`). -/
namespace Rps.Controller
open Base

def SocksUdpAssociation.route (assoc : SocksUdpAssociation) : StreamRoute := ⟨assoc.udpTunnelId, assoc.clientId⟩

namespace UdpAssociate

/-- The route of an account's UDP traffic. -/
def udpRoute (auth : SocksAuthContext) : StreamRoute where
  tunnelId :=
    match auth.accountId with
    | some id => "socks5-udp:" ++ id
    | none => "socks5-udp"
  clientId := auth.clientId

/-- The handler has an association and has not returned, so its control connection is
open. -/
def Handler.present (h : Handler) : Bool :=
  match h.phase with
  | .holding _ | .counted _ | .serving _ | .released _ _ => true
  | _ => false

/-- What the relay forwards is of an account that is present at the address. -/
def Attributed (t : Server) : Prop :=
  ∀ ip route, t.shared.relay = some (ip, route) →
    ∃ h ∈ t.handlers, h.ip = ip ∧ h.present = true ∧ route = udpRoute h.auth

/-- The address's entry carries the handler's account. -/
def Handler.owns (s : Shared) (h : Handler) : Prop :=
  ∃ a ∈ s.associations.lookup h.ip, ∃ assoc ∈ s.assocs[a]?, assoc.route = udpRoute h.auth

/-- Handler `i` returns and leaves the entry of its address where it is. -/
def leavesEntry (i : Nat) (a : HandlerAction) (t : Server) : Prop :=
  match a with
  | .replyFail | .readFail => True
  | .removeIf => ∀ h ∈ t.handlers[i]?, ∀ b ∈ t.shared.associations.lookup h.ip, h.phase ≠ .released b true
  | _ => False

/-- A handler that leaves behind an entry of its account leaves behind another handler of
its account. -/
def HandsOver (a : Action) (t : Server) : Prop :=
  match a with
  | .handler i a => leavesEntry i a t → ∀ h ∈ t.handlers[i]?, h.owns t.shared →
      ∃ j < t.handlers.length, j ≠ i ∧ ∃ x ∈ t.handlers[j]?, x.ip = h.ip ∧ x.present = true ∧
        udpRoute x.auth = udpRoute h.auth
  | _ => True

/-! ### The invariant -/

/-- A handler of the route's account is present at the address. -/
def PresentAt (handlers : List Handler) (ip : IpAddr) (route : StreamRoute) : Prop :=
  ∃ h ∈ handlers, h.ip = ip ∧ h.present = true ∧ udpRoute h.auth = route

structure Owned (t : Server) : Prop where
  entry : ∀ ip a assoc, t.shared.associations.lookup ip = some a → t.shared.assocs[a]? = some assoc →
    PresentAt t.handlers ip assoc.route
  relay : ∀ ip route, t.shared.relay = some (ip, route) →
    ∃ a assoc, t.shared.associations.lookup ip = some a ∧ t.shared.assocs[a]? = some assoc ∧ assoc.route = route

/-- The associations keep whose they are, and the map and the relay stay. -/
structure SameRoutes (s u : Shared) : Prop where
  associations : u.associations = s.associations
  relay : u.relay = s.relay
  back : ∀ (a : Nat) (assoc' : SocksUdpAssociation), u.assocs[a]? = some assoc' →
    ∃ assoc, s.assocs[a]? = some assoc ∧ assoc'.route = assoc.route
  forth : ∀ (a : Nat) (assoc : SocksUdpAssociation), s.assocs[a]? = some assoc →
    ∃ assoc', u.assocs[a]? = some assoc' ∧ assoc'.route = assoc.route

theorem SameRoutes.refl (s : Shared) : SameRoutes s s :=
  ⟨rfl, rfl, fun _ assoc h => ⟨assoc, h, rfl⟩, fun _ assoc h => ⟨assoc, h, rfl⟩⟩

theorem sameRoutes_modify (s : Shared) (a : Nat) {f : SocksUdpAssociation → SocksUdpAssociation}
    (hf : ∀ assoc, (f assoc).route = assoc.route) : SameRoutes s (s.modifyAssoc a f) where
  associations := rfl
  relay := rfl
  back := by
    intro b assoc' hb
    rw [get_modifyAssoc] at hb
    split at hb
    · obtain ⟨assoc, hassoc, rfl⟩ := Option.map_eq_some_iff.mp hb
      exact ⟨assoc, hassoc, hf assoc⟩
    · exact ⟨assoc', hb, rfl⟩
  forth := by
    intro b assoc hb
    rw [get_modifyAssoc, hb]
    split
    · exact ⟨f assoc, rfl, hf assoc⟩
    · exact ⟨assoc, rfl, rfl⟩

theorem sameRoutes_touch (s : Shared) (ip : IpAddr) (now : Nat) : SameRoutes s (s.touch ip now) := by
  unfold Shared.touch
  split
  · exact sameRoutes_modify s _ fun _ => rfl
  · exact .refl s

theorem Owned.same {t : Server} (h : Owned t) {u : Shared} (hsame : SameRoutes t.shared u)
    {handlers : List Handler}
    (hpresent : ∀ ip a assoc, t.shared.associations.lookup ip = some a → t.shared.assocs[a]? = some assoc →
      PresentAt t.handlers ip assoc.route → PresentAt handlers ip assoc.route) : Owned ⟨u, handlers⟩ where
  entry := by
    intro ip a assoc' hlookup hassoc'
    rw [hsame.associations] at hlookup
    obtain ⟨assoc, hassoc, hroute⟩ := hsame.back a assoc' hassoc'
    rw [hroute]
    exact hpresent ip a assoc hlookup hassoc (h.entry ip a assoc hlookup hassoc)
  relay := by
    intro ip route hrelay
    rw [hsame.relay] at hrelay
    obtain ⟨a, assoc, hlookup, hassoc, hroute⟩ := h.relay ip route hrelay
    obtain ⟨assoc', hassoc', hroute'⟩ := hsame.forth a assoc hassoc
    exact ⟨a, assoc', by rw [hsame.associations, hlookup], hassoc', hroute'.trans hroute⟩

/-- A handler that moves and stays present. -/
theorem presentAt_set {l : List Handler} {i : Nat} {hd : Handler} (hi : l[i]? = some hd) {phase : Phase}
    (hstays : hd.present = true → Handler.present {hd with phase := phase} = true) {ip : IpAddr} {route : StreamRoute}
    (h : PresentAt l ip route) : PresentAt (l.set i {hd with phase := phase}) ip route := by
  obtain ⟨x, hx, hip, hpresent, hroute⟩ := h
  rcases Heap.mem_set_of_mem hi {hd with phase := phase} hx with rfl | hx
  · exact ⟨_, Heap.mem_set_self hi _, hip, hstays hpresent, hroute⟩
  · exact ⟨x, hx, hip, hpresent, hroute⟩

/-- The entry of an address the relay is not at is removed. -/
theorem Owned.erase {t : Server} (h : Owned t) {ip : IpAddr} (hfree : t.shared.guarded ip = false)
    {handlers : List Handler}
    (hpresent : ∀ ip' route, ip' ≠ ip → PresentAt t.handlers ip' route → PresentAt handlers ip' route) :
    Owned ⟨{t.shared with associations := t.shared.associations.erase ip}, handlers⟩ where
  entry := by
    intro ip' a assoc hlookup hassoc
    simp only [Table.lookup_erase] at hlookup
    split at hlookup
    · cases hlookup
    · exact hpresent ip' _ ‹_› (h.entry ip' a assoc hlookup hassoc)
  relay := by
    intro ip' route hrelay
    obtain ⟨a, assoc, hlookup, hassoc, hroute⟩ := h.relay ip' route hrelay
    have hne : ip' ≠ ip := by
      rintro rfl
      have hrelay : t.shared.relay = some (ip', route) := hrelay
      simp [Shared.guarded, hrelay] at hfree
    exact ⟨a, assoc, by simpa [hne] using hlookup, hassoc, hroute⟩

/-! ### The steps -/

/-- A handler that does not leave keeps everybody present. -/
theorem owned_move {t : Server} (h : Owned t) {i : Nat} {hd : Handler} (hi : t.handlers[i]? = some hd) {phase : Phase}
    {u : Shared} (hsame : SameRoutes t.shared u)
    (hstays : hd.present = true → Handler.present {hd with phase := phase} = true) :
    Owned ⟨u, t.handlers.set i {hd with phase := phase}⟩ :=
  h.same hsame fun _ _ _ _ _ hp => presentAt_set hi hstays hp

/-- A handler that leaves the entry behind is no loss: the entry is not of its account, or
another handler of its account is there. -/
theorem owned_leave {t : Server} (h : Owned t) {i : Nat} {hd : Handler} (hi : t.handlers[i]? = some hd) {phase : Phase}
    (hover : hd.owns t.shared → ∃ j < t.handlers.length, j ≠ i ∧ ∃ x ∈ t.handlers[j]?, x.ip = hd.ip ∧
      x.present = true ∧ udpRoute x.auth = udpRoute hd.auth) :
    Owned ⟨t.shared, t.handlers.set i {hd with phase := phase}⟩ := by
  refine h.same (.refl _) ?_
  rintro ip a assoc hlookup hassoc ⟨x, hx, hip, hpresent, hroute⟩
  rcases Heap.mem_set_of_mem hi {hd with phase := phase} hx with rfl | hx
  · subst hip
    obtain ⟨j, -, hji, y, hj, hyip, hypresent, hyroute⟩ := hover ⟨a, hlookup, assoc, hassoc, hroute.symm⟩
    refine ⟨y, List.mem_of_getElem? (i := j) ?_, hyip, hypresent, hyroute.trans hroute⟩
    rw [Heap.get_set hi, if_neg hji]
    exact hj
  · exact ⟨x, hx, hip, hpresent, hroute⟩

/-- The creator is present under the account it writes into the association. -/
theorem owned_create {t : Server} (h : Owned t) (hinv : Inv t) {i : Nat} {hd : Handler} (hi : t.handlers[i]? = some hd)
    (hphase : hd.phase = .requested) (hfree : t.shared.guarded hd.ip = false) (now : Nat) :
    Owned ⟨{t.shared with
        assocs := t.shared.assocs ++ [newAssociation hd.ip hd.auth now]
        associations := t.shared.associations.insert hd.ip t.shared.assocs.length},
      t.handlers.set i {hd with phase := .holding t.shared.assocs.length}⟩ where
  entry := by
    intro ip a assoc hlookup hassoc
    simp only [Table.lookup_insert] at hlookup
    split at hlookup
    · rename_i hip
      subst hip
      obtain rfl : t.shared.assocs.length = a := Option.some.inj hlookup
      obtain rfl : newAssociation hd.ip hd.auth now = assoc := by simpa using hassoc
      exact ⟨_, Heap.mem_set_self hi _, rfl, rfl, rfl⟩
    · have hold : t.shared.assocs[a]? = some assoc := by
        obtain ⟨old, hold, -⟩ := hinv.entry_assoc hlookup
        rw [Heap.get_push_of_some hold] at hassoc
        exact hold.trans hassoc
      exact presentAt_set hi (by simp [Handler.present, hphase]) (h.entry ip a assoc hlookup hold)
  relay := by
    intro ip route hrelay
    obtain ⟨a, assoc, hlookup, hassoc, hroute⟩ := h.relay ip route hrelay
    have hne : ip ≠ hd.ip := by
      rintro rfl
      have hrelay : t.shared.relay = some (hd.ip, route) := hrelay
      simp [Shared.guarded, hrelay] at hfree
    refine ⟨a, assoc, ?_, Heap.get_push_of_some hassoc, hroute⟩
    simpa [hne, Table.lookup_insert] using hlookup

theorem handler_owned {t : Server} (h : Owned t) (hinv : Inv t) {i : Nat} {hd : Handler} (hi : t.handlers[i]? = some hd)
    {a : HandlerAction} (hover : HandsOver (.handler i a) t) {s : Shared} {phase : Phase}
    (hmoves : HandlerMoves t.shared hd a s phase) : Owned ⟨s, t.handlers.set i {hd with phase := phase}⟩ := by
  cases hmoves with
  | readAddrFail hphase => exact owned_move h hi (.refl _) (by simp [Handler.present, hphase])
  | join now a _ _ _ => exact owned_move h hi (.refl _) fun _ => rfl
  | create now hphase hfree _ => exact owned_create h hinv hi hphase hfree now
  | count now a _ => exact owned_move h hi (sameRoutes_modify _ a fun _ => rfl) fun _ => rfl
  | reply a _ => exact owned_move h hi (.refl _) fun _ => rfl
  | replyFail a _ => exact owned_leave h hi (hover trivial hd hi)
  | read now a _ => exact owned_move h hi (sameRoutes_touch _ _ now) fun _ => rfl
  | readFail a _ => exact owned_leave h hi (hover trivial hd hi)
  | leave a assoc _ _ => exact owned_move h hi (sameRoutes_modify _ a fun _ => rfl) fun _ => rfl
  | keepEntry a last hphase hother =>
    refine owned_leave h hi (hover ?_ hd hi)
    intro hd' hi' b hb hphase'
    obtain rfl : hd = hd' := Option.some.inj (hi.symm.trans hi')
    rw [hphase, Phase.released.injEq] at hphase'
    obtain ⟨rfl, rfl⟩ := hphase'
    exact hother rfl hb
  | removeEntry a hphase hfree _ =>
    refine h.erase hfree fun ip route hne hp => ?_
    obtain ⟨x, hx, hip, hpresent, hroute⟩ := hp
    rcases Heap.mem_set_of_mem hi {hd with phase := .returned} hx with rfl | hx
    · exact absurd hip.symm hne
    · exact ⟨x, hx, hip, hpresent, hroute⟩

theorem background_owned {a : Action} {t : Server} {s : Shared} (h : Owned t)
    (hmoves : BackgroundMoves t.shared a s) : Owned {t with shared := s} := by
  cases hmoves with
  | ignore ip now _ _ => exact h
  | forward ip now a assoc _ hlookup hassoc =>
    have hsame := sameRoutes_touch t.shared ip now
    have howned : Owned ⟨t.shared.touch ip now, t.handlers⟩ := h.same hsame fun _ _ _ _ _ hp => hp
    refine ⟨howned.entry, ?_⟩
    intro ip' route hrelay
    obtain ⟨rfl, rfl⟩ : ip = ip' ∧ assoc.route = route := by simpa [SocksUdpAssociation.route] using hrelay
    obtain ⟨assoc', hassoc', hroute⟩ := hsame.forth a assoc hassoc
    exact ⟨a, assoc', (touch_associations t.shared ip now).symm ▸ hlookup, hassoc', hroute⟩
  | done => exact ⟨h.entry, by simp⟩
  | sweepStart now _ => exact {h with}
  | sweepScan ip now a stale assoc _ _ _ _ _ => exact {h with}
  | sweepCollected now stale _ => exact {h with}
  | sweepRemove ip stale _ hfree => exact {h.erase hfree fun _ _ _ hp => hp with}
  | sweepEnd _ => exact {h with}

theorem step_owned {a : Action} {t u : Server} (h : Owned t) (hinv : Inv t) (hover : HandsOver a t)
    (hstep : step a t = some u) : Owned u := by
  cases step_moves hstep with
  | accept ip auth =>
    refine h.same (.refl _) ?_
    rintro ip' a assoc _ _ ⟨x, hx, hrest⟩
    exact ⟨x, List.mem_append_left _ hx, hrest⟩
  | handler i hd a s phase hi hmoves => exact handler_owned h hinv hi hover hmoves
  | background a s hmoves => exact background_owned h hmoves

theorem owned_init : Owned {} where
  entry := by
    intro ip a assoc h
    cases h
  relay := by simp

/-- **What the relay forwards is routed and metered as an account that is present at the
address**, in every run whose leaving handlers hand their account's entry over. -/
theorem relay_attributed (t : Server) (h : system.Reach HandsOver t) : Attributed t := by
  have howned : Inv t ∧ Owned t :=
    h.invariant (I := fun t => Inv t ∧ Owned t) ⟨inv_init, owned_init⟩ fun _ _ _ hi hover hs =>
      ⟨step_inv hi.1 hs, step_owned hi.2 hi.1 hover hs⟩
  intro ip route hrelay
  obtain ⟨a, assoc, hlookup, hassoc, rfl⟩ := howned.2.relay ip route hrelay
  obtain ⟨x, hx, hip, hpresent, hroute⟩ := howned.2.entry ip a assoc hlookup hassoc
  exact ⟨x, hx, hip, hpresent, hroute.symm⟩

instance (s : Shared) (h : Handler) : Decidable (h.owns s) := by
  unfold Handler.owns
  infer_instance

instance (i : Nat) (a : HandlerAction) (t : Server) : Decidable (leavesEntry i a t) := by
  unfold leavesEntry
  split <;> infer_instance

instance (a : Action) (t : Server) : Decidable (HandsOver a t) := by
  unfold HandsOver
  split <;> infer_instance

/-- A second account comes to the address of a first one, and both are served. -/
def twoAccountsRun : List Action :=
  [.accept (.v4 1) ⟨"client-a", some "a"⟩, .accept (.v4 1) ⟨"client-b", some "b"⟩, .handler 0 (.entry 0),
    .handler 0 (.count 0), .handler 0 .reply, .handler 1 (.entry 1), .handler 1 (.count 1), .handler 1 .reply]

/-- The second account leaves, the first one is forwarded for. -/
theorem relay_attributed_twoAccounts : ∃ t, system.Reach HandsOver t ∧
    t.shared.relay = some (.v4 1, ⟨"socks5-udp:a", "client-a"⟩) ∧ Attributed t := by
  obtain ⟨t, ht, hp⟩ := System.reach_of_run (S := system) (C := HandsOver)
    (twoAccountsRun ++ [Action.handler 1 .leave, .handler 1 .removeIf, .relayRecv (.v4 1) 2])
    (fun t => t.shared.relay = some (.v4 1, ⟨"socks5-udp:a", "client-a"⟩)) (by decide +kernel)
  exact ⟨t, ht, by simpa using hp, relay_attributed t ht⟩

/-- The first account leaves, and the second one's datagrams are forwarded as the first
one's. -/
theorem relay_misattributed : ∃ t, system.Reachable t ∧ ¬ Attributed t := by
  obtain ⟨t, ht, hp⟩ := System.reach_of_run (S := system) (C := fun _ _ => True)
    (twoAccountsRun ++ [Action.handler 0 .leave, .handler 0 .removeIf, .relayRecv (.v4 1) 2])
    (fun t => t.shared.relay = some (.v4 1, ⟨"socks5-udp:a", "client-a"⟩) ∧
      ∀ h ∈ t.handlers, h.present = true → udpRoute h.auth ≠ ⟨"socks5-udp:a", "client-a"⟩) (by decide +kernel)
  simp only [decide_eq_true_eq] at hp
  refine ⟨t, ht, fun hattr => ?_⟩
  obtain ⟨x, hx, -, hpresent, hroute⟩ := hattr _ _ hp.1
  exact hp.2 x hx hpresent hroute.symm

end UdpAssociate

end Rps.Controller
