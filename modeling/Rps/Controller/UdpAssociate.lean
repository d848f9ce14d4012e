import Rps.Base.System
import Rps.Base.Table
import Rps.Controller.ProxyAuth

/-! SOCKS5 UDP associations.

A client that asks for UDP ASSOCIATE shares one association per client address
with its other control connections; each handler counts itself in `refs` and the
last one out removes the map entry. The relay forwards datagrams of addresses that
have an entry, and keeps the map guard of the entry while it does.

`refs_accurate`: the count is the number of handlers being served, and an address
whose handlers have all returned is not relayed for, as long as no write of the
success reply and no read of the serving loop fails. Those two errors return
before the count is restored (`refs_leaked`). -/
namespace Rps.Controller
open Base

inductive IpAddr where
  | v4 (addr : BitVec 32)
  | v6 (addr : BitVec 128)
  deriving DecidableEq

def udpIdleSecs : Nat := 120

/-- `ip` is the key the association was created under. -/
structure SocksUdpAssociation where
  ip : IpAddr
  refs : Nat
  lastSeen : Nat
  clientId : String
  udpTunnelId : String
  deriving DecidableEq

namespace UdpAssociate

/-- Where a run of `handle_udp_associate` stands. `released` is behind the
`fetch_sub`, which saw one reference or not; `failed` has returned an error from a
point where it was counted. -/
inductive Phase where
  | requested
  | holding (a : Nat)
  | counted (a : Nat)
  | serving (a : Nat)
  | released (a : Nat) (last : Bool)
  | returned
  | failed (a : Nat)
  deriving DecidableEq

structure Handler where
  ip : IpAddr
  auth : SocksAuthContext
  phase : Phase
  deriving DecidableEq

/-- Where `cleanup_udp_state` stands, with the addresses it found stale. -/
inductive Sweep where
  | sleeping
  | scanning (now : Nat) (stale : List IpAddr)
  | removing (stale : List IpAddr)
  deriving DecidableEq

/-- What the tasks share: the associations, the map to them, the address the relay
is forwarding for under its map guard, and the sweep. -/
structure Shared where
  assocs : List SocksUdpAssociation := []
  associations : Table IpAddr Nat := ∅
  relay : Option (IpAddr × StreamRoute) := none
  sweep : Sweep := .sleeping
  deriving DecidableEq

structure Server where
  shared : Shared := {}
  handlers : List Handler := []
  deriving DecidableEq

namespace Shared

/-- The relay holds a read guard on the entry, so nobody else can change it. -/
def guarded (s : Shared) (ip : IpAddr) : Bool :=
  match s.relay with
  | some (held, _) => held = ip
  | none => false

def modifyAssoc (s : Shared) (a : Nat) (f : SocksUdpAssociation → SocksUdpAssociation) : Shared :=
  {s with assocs := s.assocs.modify a f}

/-- `last_seen.store` through the map entry. -/
def touch (s : Shared) (ip : IpAddr) (now : Nat) : Shared :=
  match s.associations.lookup ip with
  | some a => s.modifyAssoc a fun assoc => {assoc with lastSeen := now}
  | none => s

end Shared

def newAssociation (ip : IpAddr) (auth : SocksAuthContext) (now : Nat) : SocksUdpAssociation where
  ip := ip
  refs := 0
  lastSeen := now
  clientId := auth.clientId
  udpTunnelId :=
    match auth.accountId with
    | some id => "socks5-udp:" ++ id
    | none => "socks5-udp"

inductive HandlerAction where
  | readAddrFail
  | entry (now : Nat)
  | count (now : Nat)
  | reply
  | replyFail
  | read (now : Nat)
  | readFail
  | leave
  | removeIf
  deriving DecidableEq

/-- One step of a handler: what it does to the shared state and where it stands
after. -/
def handlerStep (a : HandlerAction) (s : Shared) (h : Handler) : Option (Shared × Phase) :=
  match a, h.phase with
  | .readAddrFail, .requested => some (s, .returned)
  | .entry now, .requested =>
    if s.guarded h.ip then none
    else
      match s.associations.lookup h.ip with
      | some a => some (s, .holding a)
      | none =>
        some ({s with
          assocs := s.assocs ++ [newAssociation h.ip h.auth now]
          associations := s.associations.insert h.ip s.assocs.length}, .holding s.assocs.length)
  | .count now, .holding a =>
    some (s.modifyAssoc a fun assoc => {assoc with refs := assoc.refs + 1, lastSeen := now}, .counted a)
  | .reply, .counted a => some (s, .serving a)
  | .replyFail, .counted a => some (s, .failed a)
  | .read now, .serving a => some (s.touch h.ip now, .serving a)
  | .readFail, .serving a => some (s, .failed a)
  | .leave, .serving a =>
    -- the peer closed or the session was revoked; `fetch_sub` returns the old value
    match s.assocs[a]? with
    | some assoc =>
      some (s.modifyAssoc a fun assoc => {assoc with refs := assoc.refs - 1}, .released a (assoc.refs = 1))
    | none => none
  | .removeIf, .released a last =>
    if last then
      if s.guarded h.ip then none
      else if s.associations.lookup h.ip = some a then
        some ({s with associations := s.associations.erase h.ip}, .returned)
      else some (s, .returned)
    else some (s, .returned)
  | _, _ => none

inductive Action where
  | accept (ip : IpAddr) (auth : SocksAuthContext)
  | handler (i : Nat) (a : HandlerAction)
  | relayRecv (ip : IpAddr) (now : Nat)
  | relayDone
  | sweepStart (now : Nat)
  | sweepScan (ip : IpAddr)
  | sweepRemove
  deriving DecidableEq

/-- The steps of the relay and of the sweep. -/
def backgroundStep (a : Action) (s : Shared) : Option Shared :=
  match a with
  | .relayRecv ip now =>
    if s.relay = none then
      match s.associations.lookup ip with
      | some a =>
        match s.assocs[a]? with
        | some assoc => some {s.touch ip now with relay := some (ip, ⟨assoc.udpTunnelId, assoc.clientId⟩)}
        | none => none
      | none => some s
    else none
  | .relayDone => if s.relay = none then none else some {s with relay := none}
  | .sweepStart now => if s.sweep = .sleeping then some {s with sweep := .scanning now []} else none
  | .sweepScan ip =>
    match s.sweep, s.associations.lookup ip with
    | .scanning now stale, some a =>
      match s.assocs[a]? with
      | some assoc =>
        if ip ∉ stale ∧ now - assoc.lastSeen > udpIdleSecs then
          some {s with sweep := .scanning now (stale ++ [ip])}
        else none
      | none => none
    | _, _ => none
  | .sweepRemove =>
    match s.sweep with
    | .scanning _ stale => some {s with sweep := .removing stale}
    | .removing (ip :: stale) =>
      if s.guarded ip then none
      else some {s with associations := s.associations.erase ip, sweep := .removing stale}
    | .removing [] => some {s with sweep := .sleeping}
    | .sleeping => none
  | _ => none

def step (a : Action) (t : Server) : Option Server :=
  match a with
  | .accept ip auth => some {t with handlers := t.handlers ++ [⟨ip, auth, .requested⟩]}
  | .handler i a =>
    match t.handlers[i]? with
    | some h =>
      match handlerStep a t.shared h with
      | some (s, phase) => some ⟨s, t.handlers.set i {h with phase := phase}⟩
      | none => none
    | none => none
  | a => (backgroundStep a t.shared).map fun s => {t with shared := s}

def system : System Server Action where
  init := {}
  step := step

/-! ### What a step can do -/

/-- What a step of a handler does to the shared state and where it leaves the handler. -/
inductive HandlerMoves (s : Shared) (h : Handler) : HandlerAction → Shared → Phase → Prop where
  | readAddrFail : h.phase = .requested → HandlerMoves s h .readAddrFail s .returned
  | join (now a : Nat) : h.phase = .requested → s.guarded h.ip = false → s.associations.lookup h.ip = some a →
      HandlerMoves s h (.entry now) s (.holding a)
  | create (now : Nat) : h.phase = .requested → s.guarded h.ip = false → s.associations.lookup h.ip = none →
      HandlerMoves s h (.entry now)
        {s with
          assocs := s.assocs ++ [newAssociation h.ip h.auth now]
          associations := s.associations.insert h.ip s.assocs.length} (.holding s.assocs.length)
  | count (now a : Nat) : h.phase = .holding a →
      HandlerMoves s h (.count now)
        (s.modifyAssoc a fun assoc => {assoc with refs := assoc.refs + 1, lastSeen := now}) (.counted a)
  | reply (a : Nat) : h.phase = .counted a → HandlerMoves s h .reply s (.serving a)
  | replyFail (a : Nat) : h.phase = .counted a → HandlerMoves s h .replyFail s (.failed a)
  | read (now a : Nat) : h.phase = .serving a → HandlerMoves s h (.read now) (s.touch h.ip now) (.serving a)
  | readFail (a : Nat) : h.phase = .serving a → HandlerMoves s h .readFail s (.failed a)
  | leave (a : Nat) (assoc : SocksUdpAssociation) : h.phase = .serving a → s.assocs[a]? = some assoc →
      HandlerMoves s h .leave (s.modifyAssoc a fun assoc => {assoc with refs := assoc.refs - 1})
        (.released a (assoc.refs = 1))
  | keepEntry (a : Nat) (last : Bool) : h.phase = .released a last →
      (last = true → s.associations.lookup h.ip ≠ some a) → HandlerMoves s h .removeIf s .returned
  | removeEntry (a : Nat) : h.phase = .released a true → s.guarded h.ip = false →
      s.associations.lookup h.ip = some a →
      HandlerMoves s h .removeIf {s with associations := s.associations.erase h.ip} .returned

theorem handlerStep_moves {a : HandlerAction} {s u : Shared} {h : Handler} {phase : Phase}
    (hstep : handlerStep a s h = some (u, phase)) : HandlerMoves s h a u phase := by
  unfold handlerStep at hstep
  split at hstep
  · cases hstep
    exact .readAddrFail ‹_›
  · rename_i now hphase
    split at hstep
    · cases hstep
    · rename_i hfree
      split at hstep
      · cases hstep
        exact .join now _ hphase (Bool.eq_false_of_not_eq_true hfree) ‹_›
      · cases hstep
        exact .create now hphase (Bool.eq_false_of_not_eq_true hfree) ‹_›
  · cases hstep
    exact .count _ _ ‹_›
  · cases hstep
    exact .reply _ ‹_›
  · cases hstep
    exact .replyFail _ ‹_›
  · cases hstep
    exact .read _ _ ‹_›
  · cases hstep
    exact .readFail _ ‹_›
  · split at hstep
    · cases hstep
      exact .leave _ _ ‹_› ‹_›
    · cases hstep
  · rename_i a last hphase
    split at hstep
    · rename_i hlast
      subst hlast
      split at hstep
      · cases hstep
      · rename_i hfree
        split at hstep
        · cases hstep
          exact .removeEntry a hphase (Bool.eq_false_of_not_eq_true hfree) ‹_›
        · cases hstep
          exact .keepEntry a true hphase fun _ => ‹_›
    · rename_i hlast
      cases hstep
      exact .keepEntry a last hphase fun h => absurd h hlast
  · cases hstep

/-- What a step of the relay or of the sweep does. -/
inductive BackgroundMoves (s : Shared) : Action → Shared → Prop where
  | ignore (ip : IpAddr) (now : Nat) : s.relay = none → s.associations.lookup ip = none →
      BackgroundMoves s (.relayRecv ip now) s
  | forward (ip : IpAddr) (now a : Nat) (assoc : SocksUdpAssociation) : s.relay = none →
      s.associations.lookup ip = some a → s.assocs[a]? = some assoc →
      BackgroundMoves s (.relayRecv ip now)
        {s.touch ip now with relay := some (ip, ⟨assoc.udpTunnelId, assoc.clientId⟩)}
  | done : BackgroundMoves s .relayDone {s with relay := none}
  | sweepStart (now : Nat) : s.sweep = .sleeping →
      BackgroundMoves s (.sweepStart now) {s with sweep := .scanning now []}
  | sweepScan (ip : IpAddr) (now a : Nat) (stale : List IpAddr) (assoc : SocksUdpAssociation) :
      s.sweep = .scanning now stale → s.associations.lookup ip = some a → s.assocs[a]? = some assoc → ip ∉ stale →
      now - assoc.lastSeen > udpIdleSecs →
      BackgroundMoves s (.sweepScan ip) {s with sweep := .scanning now (stale ++ [ip])}
  | sweepCollected (now : Nat) (stale : List IpAddr) : s.sweep = .scanning now stale →
      BackgroundMoves s .sweepRemove {s with sweep := .removing stale}
  | sweepRemove (ip : IpAddr) (stale : List IpAddr) : s.sweep = .removing (ip :: stale) → s.guarded ip = false →
      BackgroundMoves s .sweepRemove {s with associations := s.associations.erase ip, sweep := .removing stale}
  | sweepEnd : s.sweep = .removing [] → BackgroundMoves s .sweepRemove {s with sweep := .sleeping}

theorem backgroundStep_moves {a : Action} {s u : Shared} (hstep : backgroundStep a s = some u) :
    BackgroundMoves s a u := by
  unfold backgroundStep at hstep
  split at hstep
  · split at hstep
    · rename_i hrelay
      split at hstep
      · split at hstep
        · cases hstep
          exact .forward _ _ _ _ hrelay ‹_› ‹_›
        · cases hstep
      · cases hstep
        exact .ignore _ _ hrelay ‹_›
    · cases hstep
  · split at hstep
    · cases hstep
    · cases hstep
      exact .done
  · split at hstep
    · cases hstep
      exact .sweepStart _ ‹_›
    · cases hstep
  · split at hstep
    · rename_i now stale a hsweep hlookup
      split at hstep
      · split at hstep
        · rename_i assoc hassoc hidle
          cases hstep
          exact .sweepScan _ now a stale assoc hsweep hlookup hassoc hidle.1 hidle.2
        · cases hstep
      · cases hstep
    · cases hstep
  · split at hstep
    · cases hstep
      exact .sweepCollected _ _ ‹_›
    · split at hstep
      · cases hstep
      · rename_i hfree
        cases hstep
        exact .sweepRemove _ _ ‹_› (Bool.eq_false_of_not_eq_true hfree)
    · cases hstep
      exact .sweepEnd ‹_›
    · cases hstep
  · cases hstep

/-- What a step does: to the list of handlers, to one handler, or behind their backs. -/
inductive Moves (t : Server) : Action → Server → Prop where
  | accept (ip : IpAddr) (auth : SocksAuthContext) :
      Moves t (.accept ip auth) {t with handlers := t.handlers ++ [⟨ip, auth, .requested⟩]}
  | handler (i : Nat) (hd : Handler) (a : HandlerAction) (s : Shared) (phase : Phase) : t.handlers[i]? = some hd →
      HandlerMoves t.shared hd a s phase → Moves t (.handler i a) ⟨s, t.handlers.set i {hd with phase := phase}⟩
  | background (a : Action) (s : Shared) : BackgroundMoves t.shared a s → Moves t a {t with shared := s}

theorem step_moves {a : Action} {t u : Server} (hstep : step a t = some u) : Moves t a u := by
  cases a with
  | accept ip auth =>
    cases hstep
    exact .accept ip auth
  | handler i a =>
    simp only [step] at hstep
    split at hstep
    · rename_i hd hi
      split at hstep
      · rename_i s phase hs
        cases hstep
        exact .handler i hd a s phase hi (handlerStep_moves hs)
      · cases hstep
    · cases hstep
  | _ =>
    simp only [step, Option.map_eq_some_iff] at hstep
    obtain ⟨s, hs, rfl⟩ := hstep
    exact .background _ s (backgroundStep_moves hs)

/-! ### The property -/

/-- The handler holds `a` and its control connection is being served. -/
def Handler.serves (a : Nat) (h : Handler) : Bool := h.phase = .counted a || h.phase = .serving a

def Handler.hasReturned (h : Handler) : Bool :=
  match h.phase with
  | .returned | .failed _ => true
  | _ => false

/-- Every association counts the handlers it serves. -/
def Accurate (t : Server) : Prop :=
  ∀ (a : Nat) (assoc : SocksUdpAssociation), t.shared.assocs[a]? = some assoc →
    assoc.refs = t.handlers.countP (Handler.serves a)

/-- An address whose handlers have all returned has no entry, and the relay
forwards nothing for it. -/
def Released (t : Server) : Prop :=
  ∀ ip, (∀ h ∈ t.handlers, h.ip = ip → h.hasReturned) →
    t.shared.associations.lookup ip = none ∧ t.shared.guarded ip = false

/-- The success reply is written and the serving loop reads without an error. -/
def ControlOk (a : Action) (_ : Server) : Prop :=
  match a with
  | .handler _ .replyFail | .handler _ .readFail => False
  | _ => True

/-! ### The invariant -/

/-- The association a handler has a pointer to. -/
def Phase.assoc? : Phase → Option Nat
  | .holding a | .counted a | .serving a | .released a _ | .failed a => some a
  | .requested | .returned => none

/-- The handler is in the count of `a`: being served, or failed while it was. -/
def Handler.counts (a : Nat) (h : Handler) : Bool :=
  match h.phase with
  | .counted b | .serving b | .failed b => b = a
  | _ => false

/-- The handler will remove the entry of `a` or leave it to another one. -/
def Handler.anchors (a : Nat) (h : Handler) : Bool :=
  match h.phase with
  | .holding b | .counted b | .serving b | .failed b => b = a
  | .released b last => last && b = a
  | _ => false

theorem Handler.assoc_of_counts {a : Nat} {h : Handler} (hc : h.counts a = true) : h.phase.assoc? = some a := by
  unfold Handler.counts at hc
  split at hc <;> simp_all [Phase.assoc?]

theorem Handler.anchors_of_counts {a : Nat} {h : Handler} (hc : h.counts a = true) : h.anchors a = true := by
  unfold Handler.counts at hc
  split at hc <;> simp_all [Handler.anchors]

theorem Handler.assoc_of_anchors {a : Nat} {h : Handler} (ha : h.anchors a = true) : h.phase.assoc? = some a := by
  unfold Handler.anchors at ha
  split at ha <;> simp_all [Phase.assoc?]

structure Inv (t : Server) : Prop where
  refs : ∀ (a : Nat) (assoc : SocksUdpAssociation), t.shared.assocs[a]? = some assoc →
    assoc.refs = t.handlers.countP (Handler.counts a)
  holds : ∀ h ∈ t.handlers, ∀ a, h.phase.assoc? = some a →
    ∃ assoc, t.shared.assocs[a]? = some assoc ∧ assoc.ip = h.ip
  entry : ∀ ip a, t.shared.associations.lookup ip = some a →
    ∃ h ∈ t.handlers, h.ip = ip ∧ h.anchors a = true
  relay : ∀ ip, t.shared.guarded ip = true → (t.shared.associations.lookup ip).isSome

/-- The entry of an address points to an association that was created for it. -/
theorem Inv.entry_assoc {t : Server} (h : Inv t) {ip : IpAddr} {a : Nat}
    (hlookup : t.shared.associations.lookup ip = some a) :
    ∃ assoc, t.shared.assocs[a]? = some assoc ∧ assoc.ip = ip := by
  obtain ⟨x, hx, hxip, hxa⟩ := h.entry ip a hlookup
  rw [← hxip]
  exact h.holds x hx a (Handler.assoc_of_anchors hxa)

theorem inv_init : Inv {} where
  refs := by simp
  holds := by simp
  entry := by
    intro ip a h
    cases h
  relay := by simp [Shared.guarded]

/-- What the associations keep under `modify`. -/
theorem get_modifyAssoc (s : Shared) (a b : Nat) (f : SocksUdpAssociation → SocksUdpAssociation) :
    (s.modifyAssoc a f).assocs[b]? = if a = b then s.assocs[b]?.map f else s.assocs[b]? := by
  rw [Shared.modifyAssoc, List.getElem?_modify]
  split <;> simp

theorem keep_modifyAssoc {s : Shared} (a : Nat) {f : SocksUdpAssociation → SocksUdpAssociation}
    (hip : ∀ assoc, (f assoc).ip = assoc.ip) (b : Nat) (assoc : SocksUdpAssociation)
    (hb : s.assocs[b]? = some assoc) :
    ∃ assoc', (s.modifyAssoc a f).assocs[b]? = some assoc' ∧ assoc'.ip = assoc.ip := by
  rw [get_modifyAssoc, hb]
  split
  · exact ⟨f assoc, rfl, hip assoc⟩
  · exact ⟨assoc, rfl, rfl⟩

/-- An update of one association keeps where it was created and who counts on it. -/
theorem Inv.modify {t : Server} (h : Inv t) (a : Nat) {f : SocksUdpAssociation → SocksUdpAssociation}
    (hip : ∀ assoc, (f assoc).ip = assoc.ip) (hrefs : ∀ assoc, (f assoc).refs = assoc.refs) :
    Inv {t with shared := t.shared.modifyAssoc a f} where
  refs := by
    intro b assoc hb
    rw [get_modifyAssoc] at hb
    split at hb
    · obtain ⟨assoc', hassoc', rfl⟩ := Option.map_eq_some_iff.mp hb
      rw [hrefs]
      exact h.refs b assoc' hassoc'
    · exact h.refs b assoc hb
  holds := by
    intro hd hmem b hb
    obtain ⟨assoc, hassoc, hassocIp⟩ := h.holds hd hmem b hb
    obtain ⟨assoc', hassoc', hip'⟩ := keep_modifyAssoc a hip b assoc hassoc
    exact ⟨assoc', hassoc', hip'.trans hassocIp⟩
  entry := h.entry
  relay := h.relay

theorem Inv.touch {t : Server} (h : Inv t) (ip : IpAddr) (now : Nat) :
    Inv {t with shared := t.shared.touch ip now} := by
  unfold Shared.touch
  split
  · exact h.modify _ (fun _ => rfl) fun _ => rfl
  · exact h

/-- The entry of an unguarded address is removed, once nobody is left to anchor it
or whoever was does not mind. -/
theorem Inv.erase {t : Server} (h : Inv t) {ip : IpAddr} (hfree : t.shared.guarded ip = false) :
    Inv {t with shared := {t.shared with associations := t.shared.associations.erase ip}} where
  refs := h.refs
  holds := h.holds
  entry := by
    intro ip' a ha
    simp only [Table.lookup_erase] at ha
    split at ha
    · cases ha
    · exact h.entry ip' a ha
  relay := by
    intro ip' hg
    have hsome := h.relay ip' hg
    simp only [Table.lookup_erase]
    split
    · rename_i heq
      subst heq
      rw [show t.shared.guarded ip' = true from hg] at hfree
      cases hfree
    · exact hsome

theorem touch_associations (s : Shared) (ip : IpAddr) (now : Nat) :
    (s.touch ip now).associations = s.associations := by
  unfold Shared.touch
  split <;> rfl

theorem background_inv {a : Action} {t : Server} {s : Shared} (h : Inv t)
    (hmoves : BackgroundMoves t.shared a s) : Inv {t with shared := s} := by
  cases hmoves with
  | ignore ip now _ _ => exact h
  | forward ip now a assoc _ hlookup hassoc =>
    refine {h.touch ip now with relay := ?_}
    intro ip' hg
    have hip : ip = ip' := by simpa [Shared.guarded] using hg
    subst hip
    show ((t.shared.touch ip now).associations.lookup ip).isSome
    rw [touch_associations, hlookup]
    rfl
  | done => exact {h with relay := by simp [Shared.guarded]}
  | sweepStart now _ => exact {h with}
  | sweepScan ip now a stale assoc _ _ _ _ _ => exact {h with}
  | sweepCollected now stale _ => exact {h with}
  | sweepRemove ip stale _ hfree => exact {h.erase hfree with}
  | sweepEnd _ => exact {h with}

/-! ### Handler steps -/

/-- What a handler step has to keep. The count changes as the handler's own part in
it does, pointers stay valid, and the entry the handler anchored is gone, still
anchored by it, or anchored by another. -/
theorem inv_set {t : Server} (h : Inv t) {i : Nat} {hd : Handler} (hi : t.handlers[i]? = some hd)
    {s : Shared} {phase : Phase}
    (hrefs : ∀ (a : Nat) (assoc : SocksUdpAssociation), s.assocs[a]? = some assoc →
      assoc.refs + (if hd.counts a then 1 else 0) =
        t.handlers.countP (Handler.counts a) + (if Handler.counts a {hd with phase := phase} then 1 else 0))
    (hkeep : ∀ (a : Nat) (assoc : SocksUdpAssociation), t.shared.assocs[a]? = some assoc →
      ∃ assoc', s.assocs[a]? = some assoc' ∧ assoc'.ip = assoc.ip)
    (hholds : ∀ a, phase.assoc? = some a → ∃ assoc, s.assocs[a]? = some assoc ∧ assoc.ip = hd.ip)
    (hmap : ∀ ip a, s.associations.lookup ip = some a → t.shared.associations.lookup ip = some a ∨
      ip = hd.ip ∧ Handler.anchors a {hd with phase := phase} = true)
    (hanchor : ∀ a, s.associations.lookup hd.ip = some a → hd.anchors a = true →
      ∃ x ∈ t.handlers.set i {hd with phase := phase}, x.ip = hd.ip ∧ x.anchors a = true)
    (hrelay : ∀ ip, s.guarded ip = true → (s.associations.lookup ip).isSome) :
    Inv ⟨s, t.handlers.set i {hd with phase := phase}⟩ where
  refs := by
    intro a assoc ha
    have hcount := Heap.countP_set hi {hd with phase := phase} (Handler.counts a)
    have := hrefs a assoc ha
    show assoc.refs = (t.handlers.set i _).countP _
    omega
  holds := by
    intro x hx a ha
    rcases List.mem_or_eq_of_mem_set hx with hx | rfl
    · obtain ⟨assoc, hassoc, hip⟩ := h.holds x hx a ha
      obtain ⟨assoc', hassoc', hip'⟩ := hkeep a assoc hassoc
      exact ⟨assoc', hassoc', hip'.trans hip⟩
    · exact hholds a ha
  entry := by
    intro ip a ha
    rcases hmap ip a ha with hold | ⟨rfl, hnew⟩
    · obtain ⟨x, hx, hxip, hxa⟩ := h.entry ip a hold
      rcases Heap.mem_set_of_mem hi {hd with phase := phase} hx with rfl | hx
      · rw [← hxip]
        exact hanchor a (by rw [hxip]; exact ha) hxa
      · exact ⟨x, hx, hxip, hxa⟩
    · exact ⟨_, Heap.mem_set_self hi _, rfl, hnew⟩
  relay := hrelay

/-- A step that changes nothing shared, and keeps what the handler counts, holds and
anchors. -/
theorem inv_setPhase {t : Server} (h : Inv t) {i : Nat} {hd : Handler} (hi : t.handlers[i]? = some hd)
    {phase : Phase} (hcounts : ∀ a, Handler.counts a {hd with phase := phase} = hd.counts a)
    (hholds : ∀ a, phase.assoc? = some a →
      ∃ assoc, t.shared.assocs[a]? = some assoc ∧ assoc.ip = hd.ip)
    (hanchor : ∀ a, t.shared.associations.lookup hd.ip = some a → hd.anchors a = true →
      Handler.anchors a {hd with phase := phase} = true) :
    Inv {t with handlers := t.handlers.set i {hd with phase := phase}} := by
  refine inv_set h hi ?_ (fun a assoc ha => ⟨assoc, ha, rfl⟩) hholds (fun _ _ ha => .inl ha) ?_ h.relay
  · intro a assoc ha
    rw [hcounts, h.refs a assoc ha]
  · intro a hlookup ha
    exact ⟨_, Heap.mem_set_self hi _, rfl, hanchor a hlookup ha⟩

theorem Handler.counts_eq_anchors {a : Nat} {h : Handler} (hc : h.counts a = true) (b : Nat) :
    h.counts b = decide (a = b) ∧ h.anchors b = decide (a = b) := by
  unfold Handler.counts at hc
  split at hc <;> simp_all [Handler.counts, Handler.anchors]

/-- A counted handler goes on, counted for the same association. -/
theorem inv_advance {t : Server} (h : Inv t) {i : Nat} {hd : Handler} (hi : t.handlers[i]? = some hd)
    {a : Nat} {phase : Phase} (hold : hd.counts a = true)
    (hnew : Handler.counts a {hd with phase := phase} = true) :
    Inv {t with handlers := t.handlers.set i {hd with phase := phase}} := by
  refine inv_setPhase h hi (fun b => ?_) (fun b hb => ?_) fun b _ hb => ?_
  · rw [(Handler.counts_eq_anchors hnew b).1, (Handler.counts_eq_anchors hold b).1]
  · obtain rfl : a = b := Option.some.inj ((Handler.assoc_of_counts hnew).symm.trans hb)
    exact h.holds hd (List.mem_of_getElem? hi) a (Handler.assoc_of_counts hold)
  · rw [(Handler.counts_eq_anchors hnew b).2]
    rw [(Handler.counts_eq_anchors hold b).2] at hb
    exact hb

/-- The handler takes the association of its address. -/
theorem inv_join {t : Server} (h : Inv t) {i : Nat} {hd : Handler} (hi : t.handlers[i]? = some hd)
    (hphase : hd.phase = .requested) {a : Nat} (hlookup : t.shared.associations.lookup hd.ip = some a) :
    Inv {t with handlers := t.handlers.set i {hd with phase := .holding a}} := by
  refine inv_setPhase h hi (by simp [Handler.counts, hphase]) ?_ (by simp [Handler.anchors, hphase])
  intro b hb
  obtain rfl : a = b := Option.some.inj hb
  exact h.entry_assoc hlookup

/-- The handler creates the association of its address. -/
theorem inv_create {t : Server} (h : Inv t) {i : Nat} {hd : Handler} (hi : t.handlers[i]? = some hd)
    (hphase : hd.phase = .requested) (now : Nat) :
    Inv ⟨{t.shared with
        assocs := t.shared.assocs ++ [newAssociation hd.ip hd.auth now]
        associations := t.shared.associations.insert hd.ip t.shared.assocs.length},
      t.handlers.set i {hd with phase := .holding t.shared.assocs.length}⟩ := by
  refine inv_set h hi ?_ ?_ ?_ ?_ ?_ ?_
  · intro a assoc ha
    have hcounts : Handler.counts a {hd with phase := .holding t.shared.assocs.length} = hd.counts a := by
      simp [Handler.counts, hphase]
    rw [hcounts]
    simp only [Heap.get_push] at ha
    split at ha
    · -- nobody points at a fresh association
      rename_i hfresh
      rw [← Option.some.inj ha, hfresh]
      have hzero : t.handlers.countP (Handler.counts t.shared.assocs.length) = 0 := by
        rw [List.countP_eq_zero]
        intro x hx hxc
        obtain ⟨assoc, hassoc, -⟩ := h.holds x hx _ (Handler.assoc_of_counts hxc)
        simp at hassoc
      rw [hzero]
      rfl
    · rw [h.refs a assoc ha]
  · intro a assoc ha
    exact ⟨assoc, Heap.get_push_of_some ha, rfl⟩
  · intro a ha
    obtain rfl : t.shared.assocs.length = a := Option.some.inj ha
    exact ⟨newAssociation hd.ip hd.auth now, by simp, rfl⟩
  · intro ip a ha
    simp only [Table.lookup_insert] at ha
    split at ha
    · rename_i hip
      refine .inr ⟨hip, ?_⟩
      rw [← Option.some.inj ha]
      simp [Handler.anchors]
    · exact .inl ha
  · intro a _ ha
    simp [Handler.anchors, hphase] at ha
  · intro ip hg
    simp only [Table.lookup_insert]
    split
    · rfl
    · exact h.relay ip hg

theorem inv_count {t : Server} (h : Inv t) {i : Nat} {hd : Handler} (hi : t.handlers[i]? = some hd)
    {a : Nat} (hphase : hd.phase = .holding a) (now : Nat) :
    Inv ⟨t.shared.modifyAssoc a fun assoc => {assoc with refs := assoc.refs + 1, lastSeen := now},
      t.handlers.set i {hd with phase := .counted a}⟩ := by
  have hmem := List.mem_of_getElem? hi
  refine inv_set h hi ?_ ?_ ?_ (fun _ _ ha => .inl ha) ?_ h.relay
  · intro b assoc hb
    rw [get_modifyAssoc] at hb
    split at hb
    · rename_i hab
      subst hab
      obtain ⟨old, hold, rfl⟩ := Option.map_eq_some_iff.mp hb
      have := h.refs a old hold
      simp only [Handler.counts, hphase, decide_true, Bool.false_eq_true, if_true, if_false]
      omega
    · rename_i hab
      have := h.refs b assoc hb
      simp only [Handler.counts, hphase, hab, decide_false, Bool.false_eq_true, if_false]
      omega
  · exact keep_modifyAssoc a fun _ => rfl
  · intro b hb
    obtain rfl : a = b := Option.some.inj hb
    obtain ⟨assoc, hassoc, hip⟩ := h.holds hd hmem a (by rw [hphase]; rfl)
    rw [get_modifyAssoc, if_pos rfl, hassoc]
    exact ⟨_, rfl, hip⟩
  · intro b _ hb
    refine ⟨_, Heap.mem_set_self hi _, rfl, ?_⟩
    simpa [Handler.anchors, hphase] using hb

/-- The handler leaves the count. Unless it was the last one, another handler is
still counted and will take care of the entry. -/
theorem inv_leave {t : Server} (h : Inv t) {i : Nat} {hd : Handler} (hi : t.handlers[i]? = some hd)
    {a : Nat} (hphase : hd.phase = .serving a) {assoc : SocksUdpAssociation}
    (hassoc : t.shared.assocs[a]? = some assoc) :
    Inv ⟨t.shared.modifyAssoc a fun assoc => {assoc with refs := assoc.refs - 1},
      t.handlers.set i {hd with phase := .released a (assoc.refs = 1)}⟩ := by
  have hmem := List.mem_of_getElem? hi
  have hcounts : hd.counts a = true := by simp [Handler.counts, hphase]
  have hrefs := h.refs a assoc hassoc
  have hpos : 0 < t.handlers.countP (Handler.counts a) := List.countP_pos_iff.mpr ⟨hd, hmem, hcounts⟩
  have hset := Heap.countP_set hi {hd with phase := .released a (assoc.refs = 1)} (Handler.counts a)
  rw [hcounts] at hset
  simp only [Handler.counts, if_true, Bool.false_eq_true, if_false] at hset
  refine inv_set h hi ?_ ?_ ?_ (fun _ _ ha => .inl ha) ?_ h.relay
  · intro b assoc' hb
    rw [get_modifyAssoc] at hb
    split at hb
    · rename_i hab
      subst hab
      obtain ⟨old, hold, rfl⟩ := Option.map_eq_some_iff.mp hb
      have := h.refs a old hold
      simp only [Handler.counts, hphase, decide_true, Bool.false_eq_true, if_true, if_false]
      omega
    · rename_i hab
      have := h.refs b assoc' hb
      simp only [Handler.counts, hphase, hab, decide_false, Bool.false_eq_true, if_false]
      omega
  · exact keep_modifyAssoc a fun _ => rfl
  · intro b hb
    obtain rfl : a = b := Option.some.inj hb
    obtain ⟨assoc', hassoc', hip⟩ := h.holds hd hmem a (by rw [hphase]; rfl)
    rw [get_modifyAssoc, if_pos rfl, hassoc']
    exact ⟨_, rfl, hip⟩
  · intro b _ hb
    obtain rfl : a = b := by simpa [Handler.anchors, hphase] using hb
    by_cases hlast : assoc.refs = 1
    · refine ⟨_, Heap.mem_set_self hi _, rfl, ?_⟩
      simp [Handler.anchors, hlast]
    · -- another handler is still in the count, and it came from the same address
      have hothers : 0 < (t.handlers.set i {hd with phase := .released a (assoc.refs = 1)}).countP
          (Handler.counts a) := by
        have : (t.handlers.set i {hd with phase := .released a (assoc.refs = 1)}).countP (Handler.counts a) + 1 =
          t.handlers.countP (Handler.counts a) := hset
        omega
      obtain ⟨x, hx, hxc⟩ := List.countP_pos_iff.mp hothers
      have hxold : x ∈ t.handlers := by
        rcases List.mem_or_eq_of_mem_set hx with hx | rfl
        · exact hx
        · simp [Handler.counts] at hxc
      obtain ⟨assoc₁, hassoc₁, hip₁⟩ := h.holds x hxold a (Handler.assoc_of_counts hxc)
      obtain ⟨assoc₂, hassoc₂, hip₂⟩ := h.holds hd hmem a (by rw [hphase]; rfl)
      rw [hassoc₁, Option.some.injEq] at hassoc₂
      exact ⟨x, hx, by rw [← hip₁, hassoc₂, hip₂], Handler.anchors_of_counts hxc⟩

theorem handler_inv {t : Server} (h : Inv t) {i : Nat} {hd : Handler} (hi : t.handlers[i]? = some hd)
    {a : HandlerAction} {s : Shared} {phase : Phase} (hmoves : HandlerMoves t.shared hd a s phase) :
    Inv ⟨s, t.handlers.set i {hd with phase := phase}⟩ := by
  cases hmoves with
  | readAddrFail hphase =>
    exact inv_setPhase h hi (by simp [Handler.counts, hphase]) (by simp [Phase.assoc?])
      (by simp [Handler.anchors, hphase])
  | join now a hphase _ hlookup => exact inv_join h hi hphase hlookup
  | create now hphase _ _ => exact inv_create h hi hphase now
  | count now a hphase => exact inv_count h hi hphase now
  | reply a hphase =>
    exact inv_advance h hi (a := a) (by simp [Handler.counts, hphase]) (by simp [Handler.counts])
  | replyFail a hphase =>
    exact inv_advance h hi (a := a) (by simp [Handler.counts, hphase]) (by simp [Handler.counts])
  | read now a hphase =>
    exact inv_advance (h.touch hd.ip now) hi (a := a) (by simp [Handler.counts, hphase]) (by simp [Handler.counts])
  | readFail a hphase =>
    exact inv_advance h hi (a := a) (by simp [Handler.counts, hphase]) (by simp [Handler.counts])
  | leave a assoc hphase hassoc => exact inv_leave h hi hphase hassoc
  | keepEntry a last hphase hother =>
    refine inv_setPhase h hi (by simp [Handler.counts, hphase]) (by simp [Phase.assoc?]) fun b hb hab => ?_
    obtain ⟨hlast, rfl⟩ : last = true ∧ a = b := by simpa [Handler.anchors, hphase] using hab
    exact absurd hb (hother hlast)
  | removeEntry a hphase hfree _ =>
    refine inv_setPhase (h.erase hfree) hi (by simp [Handler.counts, hphase]) (by simp [Phase.assoc?]) fun b hb => ?_
    simp at hb

theorem inv_accept {t : Server} (h : Inv t) (ip : IpAddr) (auth : SocksAuthContext) :
    Inv {t with handlers := t.handlers ++ [⟨ip, auth, .requested⟩]} where
  refs := by
    intro a assoc ha
    show assoc.refs = (t.handlers ++ [_]).countP _
    rw [List.countP_append, h.refs a assoc ha]
    rfl
  holds := by
    apply Heap.forall_push h.holds
    intro a ha
    cases ha
  entry := by
    intro ip' a ha
    obtain ⟨x, hx, hxip, hxa⟩ := h.entry ip' a ha
    exact ⟨x, List.mem_append_left _ hx, hxip, hxa⟩
  relay := h.relay

theorem step_inv {a : Action} {t u : Server} (h : Inv t) (hstep : step a t = some u) : Inv u := by
  cases step_moves hstep with
  | accept ip auth => exact inv_accept h ip auth
  | handler i hd a s phase hi hmoves => exact handler_inv h hi hmoves
  | background a s hmoves => exact background_inv h hmoves

theorem reachable_inv {t : Server} (h : system.Reachable t) : Inv t :=
  h.invariant inv_init fun _ _ _ hinv _ hstep => step_inv hinv hstep

/-! ### Who is left in the count -/

/-- The handlers that returned an error while they were counted. -/
def Handler.leaked (a : Nat) (h : Handler) : Bool := h.phase = .failed a

theorem counts_eq (a : Nat) (l : List Handler) :
    l.countP (Handler.counts a) = l.countP (Handler.serves a) + l.countP (Handler.leaked a) := by
  induction l with
  | nil => rfl
  | cons h rest ih =>
    have hsplit : (if h.counts a then 1 else 0) = (if h.serves a then 1 else 0) + (if h.leaked a then 1 else 0) := by
      unfold Handler.counts Handler.serves Handler.leaked
      cases h.phase <;> simp
    rw [List.countP_cons, List.countP_cons, List.countP_cons]
    omega

/-- No handler has returned an error while it was counted. -/
def Unleaked (t : Server) : Prop := ∀ h ∈ t.handlers, ∀ a, h.phase ≠ .failed a

theorem accurate_iff {t : Server} (h : Inv t) : Accurate t ↔ Unleaked t := by
  constructor
  · intro hacc x hx a hfailed
    obtain ⟨assoc, hassoc, -⟩ := h.holds x hx a (by rw [hfailed]; rfl)
    have hrefs := h.refs a assoc hassoc
    rw [counts_eq, ← hacc a assoc hassoc] at hrefs
    have hpos : 0 < t.handlers.countP (Handler.leaked a) :=
      List.countP_pos_iff.mpr ⟨x, hx, by simp [Handler.leaked, hfailed]⟩
    omega
  · intro hun a assoc hassoc
    have hzero : t.handlers.countP (Handler.leaked a) = 0 := by
      rw [List.countP_eq_zero]
      intro x hx hl
      exact hun x hx a (by simpa [Handler.leaked] using hl)
    rw [h.refs a assoc hassoc, counts_eq, hzero, Nat.add_zero]

theorem released_of_unleaked {t : Server} (h : Inv t) (hun : Unleaked t) : Released t := by
  intro ip hret
  have hnone : t.shared.associations.lookup ip = none := by
    cases hlookup : t.shared.associations.lookup ip with
    | none => rfl
    | some a =>
      obtain ⟨x, hx, hxip, hxa⟩ := h.entry ip a hlookup
      have hxret := hret x hx hxip
      have hxun := hun x hx a
      unfold Handler.hasReturned at hxret
      unfold Handler.anchors at hxa
      split at hxret <;> simp_all
  refine ⟨hnone, ?_⟩
  cases hg : t.shared.guarded ip with
  | false => rfl
  | true =>
    have := h.relay ip hg
    rw [hnone] at this
    cases this

theorem failed_of_moves {a : HandlerAction} {s s' : Shared} {h : Handler} {b : Nat}
    (hmoves : HandlerMoves s h a s' (.failed b)) : a = .replyFail ∨ a = .readFail := by
  cases hmoves with
  | replyFail a _ => exact .inl rfl
  | readFail a _ => exact .inr rfl

theorem unleaked_step {a : Action} {t u : Server} (h : Unleaked t) (hok : ControlOk a t)
    (hstep : step a t = some u) : Unleaked u := by
  cases step_moves hstep with
  | accept ip auth =>
    apply Heap.forall_push h
    simp
  | handler i hd a s phase hi hmoves =>
    apply Heap.forall_set h
    intro b hfailed
    obtain rfl : phase = .failed b := hfailed
    rcases failed_of_moves hmoves with rfl | rfl
    · exact hok
    · exact hok
  | background a s _ => exact h

/-- **The count is the number of handlers being served**, and an address whose
handlers have returned is not relayed for, in every run without an error on a
counted control connection. In any run the count is right exactly while no such
error has happened. -/
theorem refs_accurate (t : Server) (h : system.Reachable t) :
    (system.Reach ControlOk t → Accurate t ∧ Released t) ∧ (Accurate t ↔ Unleaked t) := by
  have hinv := reachable_inv h
  refine ⟨fun ht => ?_, accurate_iff hinv⟩
  have hun : Unleaked t :=
    ht.invariant (I := Unleaked) (by simp [Unleaked, system]) fun _ _ _ h hok hs => unleaked_step h hok hs
  exact ⟨(accurate_iff hinv).mpr hun, released_of_unleaked hinv hun⟩

/-- Two control connections from one address, of which one leaves again. -/
def sharedRun : List Action :=
  [.accept (.v4 1) ⟨"client", none⟩, .accept (.v4 1) ⟨"client", none⟩, .handler 0 (.entry 0),
    .handler 1 (.entry 0), .handler 0 (.count 0), .handler 1 (.count 0), .handler 0 .reply, .handler 1 .reply,
    .handler 0 .leave, .handler 0 .removeIf]

instance (a : Action) (t : Server) : Decidable (ControlOk a t) := by
  unfold ControlOk
  split <;> infer_instance

theorem refs_accurate_sharedRun : ∃ t, system.Reach ControlOk t ∧ t.shared.assocs.map (·.refs) = [1] ∧
    Accurate t ∧ Released t := by
  obtain ⟨t, ht, hp⟩ := System.reach_of_run (S := system) (C := ControlOk) sharedRun
    (fun t => t.shared.assocs.map (·.refs) = [1]) (by decide +kernel)
  exact ⟨t, ht, by simpa using hp, (refs_accurate t ht.reachable).1 ht⟩

/-- One client is associated, and the connection breaks while the reply is written. -/
def brokenReplyRun : List Action :=
  [.accept (.v4 1) ⟨"client", none⟩, .handler 0 (.entry 0), .handler 0 (.count 0), .handler 0 .replyFail,
    .relayRecv (.v4 1) 5]

/-- The handler has returned, its reference is still counted, and the relay
forwards for the address. -/
theorem refs_leaked : ∃ t, system.Reachable t ∧ ¬ Accurate t ∧ ¬ Released t := by
  obtain ⟨t, ht, hp⟩ := System.reach_of_run (S := system) (C := fun _ _ => True) brokenReplyRun
    (fun t => t.shared.assocs.map (·.refs) = [1] ∧ t.handlers.map (·.phase) = [.failed 0] ∧
      t.shared.guarded (.v4 1)) (by decide +kernel)
  simp only [decide_eq_true_eq] at hp
  obtain ⟨hrefs, hphases, hguarded⟩ := hp
  refine ⟨t, ht, ?_, ?_⟩
  · rw [accurate_iff (reachable_inv ht)]
    intro hun
    obtain ⟨h, hmem, hphase⟩ : ∃ h ∈ t.handlers, h.phase = .failed 0 := by
      have : Phase.failed 0 ∈ t.handlers.map (·.phase) := by rw [hphases]; simp
      simpa using this
    exact hun h hmem 0 hphase
  · intro hrel
    have hret : ∀ h ∈ t.handlers, h.ip = .v4 1 → h.hasReturned := by
      intro h hmem _
      have hphase : h.phase ∈ t.handlers.map (·.phase) := List.mem_map_of_mem hmem
      rw [hphases, List.mem_singleton] at hphase
      rw [Handler.hasReturned, hphase]
    have := (hrel (.v4 1) hret).2
    rw [hguarded] at this
    cases this

end UdpAssociate

end Rps.Controller
