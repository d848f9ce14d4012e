import Rps.Base.System
import Rps.Base.Table

/-! Clients that tunnels and proxy accounts refer to.

A tunnel and a proxy account name a client, and the schema has no foreign key. The
handlers keep the references valid themselves: those that write one look first whether
the client exists, and the one that deletes a client counts first what refers to it.
Each look and each write is a statement of its own, and handlers run side by side.

`refs_valid`: references stay valid in every run in which no client is deleted while a
handler stands between its look at that client and its write, and no reference to a
client is written while a deletion of it stands between its count and its delete. A
deletion in between leaves a tunnel whose client is gone (`refs_dangle`). -/
namespace Rps.Controller.ClientRefs
open Base

structure TunnelRef where
  id : String
  clientId : String
  deriving DecidableEq

structure AccountRef where
  id : String
  kind : String
  username : String
  clientId : String
  deriving DecidableEq

/-- The ids of the clients, and the rows that name one. -/
structure Database where
  clients : List String
  tunnels : List TunnelRef
  proxyListeners : List String
  proxyAccounts : List AccountRef
  deriving DecidableEq

namespace Database

def getClient (db : Database) (id : String) : Bool := id ∈ db.clients

def deleteClient (db : Database) (id : String) : Database := {db with clients := db.clients.filter (· ≠ id)}

def countTunnels (db : Database) (id : String) : Nat := db.tunnels.countP (·.clientId = id)

/-- A listener of each kind names a client too. -/
def countListeners (db : Database) (id : String) : Nat := db.proxyListeners.countP (· = id)

def countAccounts (db : Database) (id : String) : Nat := db.proxyAccounts.countP (·.clientId = id)

def getTunnel (db : Database) (id : String) : Bool := id ∈ db.tunnels.map TunnelRef.id

/-- `insert into tunnels`; `none` is the error for an id that is taken. -/
def createTunnel (db : Database) (t : TunnelRef) : Option Database :=
  if db.getTunnel t.id then none else some {db with tunnels := db.tunnels ++ [t]}

/-- `update tunnels`; `none` where no row has the id. -/
def updateTunnel (db : Database) (t : TunnelRef) : Option Database :=
  if db.getTunnel t.id then some {db with tunnels := db.tunnels.map fun r => if r.id = t.id then t else r} else none

def deleteTunnel (db : Database) (id : String) : Database := {db with tunnels := db.tunnels.filter (·.id ≠ id)}

def getProxyAccount (db : Database) (id : String) : Bool := id ∈ db.proxyAccounts.map AccountRef.id

/-- Another account has the name. -/
def nameTaken (db : Database) (a : AccountRef) : Bool :=
  db.proxyAccounts.any fun r => r.id ≠ a.id && r.kind = a.kind && r.username = a.username

def createProxyAccount (db : Database) (a : AccountRef) : Option Database :=
  if db.getProxyAccount a.id || db.nameTaken a then none
  else some {db with proxyAccounts := db.proxyAccounts ++ [a]}

def updateProxyAccount (db : Database) (a : AccountRef) : Option Database :=
  if db.getProxyAccount a.id && !db.nameTaken a then
    some {db with proxyAccounts := db.proxyAccounts.map fun r => if r.id = a.id then a else r}
  else none

end Database

/-- A row to be written, of either table. -/
inductive Reference where
  | tunnel (t : TunnelRef)
  | proxyAccount (a : AccountRef)
  deriving DecidableEq

namespace Reference

def clientId : Reference → String
  | tunnel t => t.clientId
  | proxyAccount a => a.clientId

def get (db : Database) : Reference → Bool
  | tunnel t => db.getTunnel t.id
  | proxyAccount a => db.getProxyAccount a.id

def create (db : Database) : Reference → Option Database
  | tunnel t => db.createTunnel t
  | proxyAccount a => db.createProxyAccount a

def update (db : Database) : Reference → Option Database
  | tunnel t => db.updateTunnel t
  | proxyAccount a => db.updateProxyAccount a

/-- `create_tunnel` takes its row back when the tunnel does not start. -/
def takeBack (db : Database) : Reference → Database
  | tunnel t => db.deleteTunnel t.id
  | proxyAccount _ => db

end Reference

/-! ### The handlers -/

/-- `valid` tells whether the rest of the request passes its checks, which come behind
the look at the client. -/
inductive Request where
  | create (ref : Reference) (valid : Bool)
  | update (ref : Reference) (valid : Bool)
  | deleteClient (id : String)
  deriving DecidableEq

def createTunnel (t : TunnelRef) (valid : Bool) : Request := .create (.tunnel t) valid
def updateTunnel (t : TunnelRef) (valid : Bool) : Request := .update (.tunnel t) valid
def createProxyAccount (a : AccountRef) (valid : Bool) : Request := .create (.proxyAccount a) valid
def updateProxyAccount (a : AccountRef) (valid : Bool) : Request := .update (.proxyAccount a) valid

/-- What a handler has done. The counts are those `client_reference_count` has added up. -/
inductive Phase where
  | begin
  | found
  | checked
  | written
  | countedTunnels (n : Nat)
  | countedListeners (n : Nat)
  | countedAccounts (n : Nat)
  | finished
  deriving DecidableEq

structure Handler where
  request : Request
  phase : Phase
  deriving DecidableEq

structure State where
  db : Database
  handlers : List Handler := []
  deriving DecidableEq

/-- One statement of a handler. `refused` is what is decided outside the database: the
client to be deleted is online, or the created tunnel does not start. -/
def handlerStep (refused : Bool) (db : Database) (h : Handler) : Option (Database × Phase) :=
  match h.phase, h.request with
  | .begin, .create ref _ => some (db, if db.getClient ref.clientId then .checked else .finished)
  | .begin, .update ref _ => some (db, if ref.get db then .found else .finished)
  | .found, .update ref _ => some (db, if db.getClient ref.clientId then .checked else .finished)
  | .checked, .create ref valid =>
    if valid then
      match ref.create db with
      | some db' => some (db', .written)
      | none => some (db, .finished)
    else some (db, .finished)
  | .checked, .update ref valid =>
    if valid then
      match ref.update db with
      | some db' => some (db', .written)
      | none => some (db, .finished)
    else some (db, .finished)
  | .written, .create ref _ => some (if refused then ref.takeBack db else db, .finished)
  | .written, .update _ _ => some (db, .finished)
  | .begin, .deleteClient id =>
    some (db, if refused then .finished else .countedTunnels (db.countTunnels id))
  | .countedTunnels n, .deleteClient id => some (db, .countedListeners (n + db.countListeners id))
  | .countedListeners n, .deleteClient id => some (db, .countedAccounts (n + db.countAccounts id))
  | .countedAccounts n, .deleteClient id => some (if n > 0 then db else db.deleteClient id, .finished)
  | _, _ => none

inductive Action where
  | request (r : Request)
  | handler (i : Nat) (refused : Bool)
  /-- The handler's statement fails, and the handler returns the error. -/
  | fail (i : Nat)
  deriving DecidableEq

def step (a : Action) (s : State) : Option State :=
  match a with
  | .request r => some {s with handlers := s.handlers ++ [⟨r, .begin⟩]}
  | .handler i refused =>
    match s.handlers[i]? with
    | some h =>
      (handlerStep refused s.db h).map fun (db, phase) => ⟨db, s.handlers.set i {h with phase := phase}⟩
    | none => none
  | .fail i =>
    match s.handlers[i]? with
    | some h => some {s with handlers := s.handlers.set i {h with phase := .finished}}
    | none => none

def system (db : Database) : System State Action where
  init := {db := db}
  step := step

/-! ### The property -/

/-- Every tunnel and every proxy account names a client that exists. -/
structure Database.Valid (db : Database) : Prop where
  tunnels : ∀ t ∈ db.tunnels, t.clientId ∈ db.clients
  proxyAccounts : ∀ a ∈ db.proxyAccounts, a.clientId ∈ db.clients

instance (db : Database) : Decidable db.Valid :=
  decidable_of_iff ((∀ t ∈ db.tunnels, t.clientId ∈ db.clients) ∧ ∀ a ∈ db.proxyAccounts, a.clientId ∈ db.clients)
    ⟨fun h => ⟨h.1, h.2⟩, fun h => ⟨h.tunnels, h.proxyAccounts⟩⟩

/-- The row a handler is about to write, its client looked up. -/
def Handler.writes (h : Handler) : Option Reference :=
  match h.phase, h.request with
  | .checked, .create ref true => some ref
  | .checked, .update ref true => some ref
  | _, _ => none

/-- The client a handler is about to delete, its tunnels counted and nothing found yet. -/
def Handler.countedTunnels (h : Handler) : Option String :=
  match h.phase, h.request with
  | .countedTunnels 0, .deleteClient id => some id
  | .countedListeners 0, .deleteClient id => some id
  | .countedAccounts 0, .deleteClient id => some id
  | _, _ => none

/-- The same with its proxy accounts counted. -/
def Handler.countedAccounts (h : Handler) : Option String :=
  match h.phase, h.request with
  | .countedAccounts 0, .deleteClient id => some id
  | _, _ => none

/-- The handler has counted the rows of this table. -/
def Handler.counted (h : Handler) : Reference → Option String
  | .tunnel _ => h.countedTunnels
  | .proxyAccount _ => h.countedAccounts

/-- No client is deleted under a handler that has looked it up, and no reference is written
behind the back of a handler that has counted. -/
def Apart (a : Action) (s : State) : Prop :=
  match a with
  | .handler i _ =>
    match s.handlers[i]? with
    | some h =>
      (∀ id ∈ h.countedAccounts, ∀ other ∈ s.handlers, ∀ ref ∈ other.writes, ref.clientId ≠ id) ∧
      (∀ ref ∈ h.writes, ∀ other ∈ s.handlers, other.counted ref ≠ some ref.clientId)
    | none => True
  | _ => True

instance (a : Action) (s : State) : Decidable (Apart a s) := by
  unfold Apart
  split
  · split <;> infer_instance
  · infer_instance

/-! ### What a statement does -/

/-- `ref` was written into `db`. -/
def Writes (db : Database) (ref : Reference) (db' : Database) : Prop :=
  ref.create db = some db' ∨ ref.update db = some db'

/-- The rows of either table are old ones or the one that was written. -/
structure Extends (db : Database) (ref : Reference) (db' : Database) : Prop where
  clients : db'.clients = db.clients
  tunnels : ∀ t ∈ db'.tunnels, t ∈ db.tunnels ∨ ref = .tunnel t
  proxyAccounts : ∀ a ∈ db'.proxyAccounts, a ∈ db.proxyAccounts ∨ ref = .proxyAccount a

theorem mem_map_replace {α : Type} {rows : List α} {p : α → Prop} [DecidablePred p] {new r : α}
    (h : r ∈ rows.map fun x => if p x then new else x) : r ∈ rows ∨ r = new := by
  obtain ⟨x, hx, rfl⟩ := List.mem_map.mp h
  split
  · exact .inr rfl
  · exact .inl hx

theorem Writes.extends {db db' : Database} {ref : Reference} (h : Writes db ref db') : Extends db ref db' := by
  cases ref with
  | tunnel t =>
    rcases h with h | h
    · simp only [Reference.create, Database.createTunnel] at h
      split at h
      · cases h
      · rw [← Option.some.inj h]
        refine ⟨rfl, fun r hr => ?_, fun a ha => .inl ha⟩
        rcases List.mem_append.mp hr with hr | hr
        · exact .inl hr
        · exact .inr (by rw [List.mem_singleton.mp hr])
    · simp only [Reference.update, Database.updateTunnel] at h
      split at h
      · rw [← Option.some.inj h]
        refine ⟨rfl, fun r hr => ?_, fun a ha => .inl ha⟩
        exact (mem_map_replace hr).imp_right fun heq => by rw [heq]
      · cases h
  | proxyAccount a =>
    rcases h with h | h
    · simp only [Reference.create, Database.createProxyAccount] at h
      split at h
      · cases h
      · rw [← Option.some.inj h]
        refine ⟨rfl, fun t ht => .inl ht, fun r hr => ?_⟩
        rcases List.mem_append.mp hr with hr | hr
        · exact .inl hr
        · exact .inr (by rw [List.mem_singleton.mp hr])
    · simp only [Reference.update, Database.updateProxyAccount] at h
      split at h
      · rw [← Option.some.inj h]
        refine ⟨rfl, fun t ht => .inl ht, fun r hr => ?_⟩
        exact (mem_map_replace hr).imp_right fun heq => by rw [heq]
      · cases h

/-- What a handler knows of the database while it goes on: the client of a row it is about
to write exists, and a client it is about to delete has no rows in the tables it has
counted. -/
structure Knows (db : Database) (h : Handler) : Prop where
  writes : ∀ ref, h.writes = some ref → ref.clientId ∈ db.clients
  tunnels : ∀ id, h.countedTunnels = some id → ∀ t ∈ db.tunnels, t.clientId ≠ id
  proxyAccounts : ∀ id, h.countedAccounts = some id → ∀ a ∈ db.proxyAccounts, a.clientId ≠ id

/-- A handler that neither writes nor deletes next knows nothing. -/
theorem Knows.of_none {db : Database} {h : Handler} (hw : h.writes = none) (ht : h.countedTunnels = none)
    (ha : h.countedAccounts = none) : Knows db h :=
  ⟨by simp [hw], by simp [ht], by simp [ha]⟩

theorem knows_finished (db : Database) (r : Request) : Knows db ⟨r, .finished⟩ :=
  .of_none rfl rfl rfl

theorem knows_begin (db : Database) (r : Request) : Knows db ⟨r, .begin⟩ :=
  .of_none rfl rfl rfl

theorem countP_eq_zero {α : Type} {p : α → Prop} [DecidablePred p] {rows : List α}
    (h : rows.countP (fun r => p r) = 0) : ∀ r ∈ rows, ¬ p r := by
  intro r hr hp
  have := List.countP_pos_iff (p := fun r => decide (p r)) |>.mpr ⟨r, hr, by simpa using hp⟩
  omega

/-- One statement: a look, after which the handler knows what it saw; a write; the row of
a tunnel that did not start taken back; or the deletion of the client. -/
inductive Moves (db : Database) (h : Handler) : Database → Phase → Prop where
  | look {phase : Phase} : Knows db {h with phase := phase} → Moves db h db phase
  | write {ref : Reference} {db' : Database} : h.writes = some ref → Writes db ref db' → Moves db h db' .written
  | takeBack (ref : Reference) : Moves db h (ref.takeBack db) .finished
  | delete {id : String} : h.countedAccounts = some id → Moves db h (db.deleteClient id) .finished

/-- The look at the client of the row. -/
theorem moves_lookup {db : Database} {h : Handler} {ref : Reference}
    (hwrites : ∀ r, Handler.writes {h with phase := .checked} = some r → r = ref) :
    Moves db h db (if db.getClient ref.clientId then .checked else .finished) := by
  refine .look ?_
  split
  · rename_i hclient
    refine ⟨fun r hr => ?_, by simp [Handler.countedTunnels], by simp [Handler.countedAccounts]⟩
    rw [hwrites r hr]
    simpa [Database.getClient] using hclient
  · exact knows_finished _ _

/-- The statement that writes the row; it may find the row taken, or gone. -/
theorem moves_write {db db' : Database} {h : Handler} {phase : Phase} {ref : Reference} {result : Option Database}
    (hwrites : h.writes = some ref)
    (hs : (match result with
      | some written => some (written, Phase.written)
      | none => some (db, .finished)) = some (db', phase))
    (hresult : ∀ written, result = some written → Writes db ref written) : Moves db h db' phase := by
  cases result with
  | none =>
    obtain ⟨rfl, rfl⟩ := Prod.mk.inj (Option.some.inj hs)
    exact .look (knows_finished _ _)
  | some written =>
    obtain ⟨rfl, rfl⟩ := Prod.mk.inj (Option.some.inj hs)
    exact .write hwrites (hresult _ rfl)

theorem moves_of_step {refused : Bool} {db db' : Database} {h : Handler} {phase : Phase} (hk : Knows db h)
    (hs : handlerStep refused db h = some (db', phase)) : Moves db h db' phase := by
  obtain ⟨request, current⟩ := h
  cases request with
  | create ref valid =>
    cases current with
    | begin =>
      obtain ⟨rfl, rfl⟩ := Prod.mk.inj (Option.some.inj hs)
      refine moves_lookup fun r hr => ?_
      cases valid with
      | true => exact (Option.some.inj hr).symm
      | false => cases hr
    | checked =>
      cases valid with
      | true => exact moves_write rfl hs fun _ hw => .inl hw
      | false =>
        obtain ⟨rfl, rfl⟩ := Prod.mk.inj (Option.some.inj hs)
        exact .look (knows_finished _ _)
    | written =>
      obtain ⟨rfl, rfl⟩ := Prod.mk.inj (Option.some.inj hs)
      split
      · exact .takeBack ref
      · exact .look (knows_finished _ _)
    | _ => cases hs
  | update ref valid =>
    cases current with
    | begin =>
      obtain ⟨rfl, rfl⟩ := Prod.mk.inj (Option.some.inj hs)
      refine .look ?_
      split
      · exact .of_none rfl rfl rfl
      · exact knows_finished _ _
    | found =>
      obtain ⟨rfl, rfl⟩ := Prod.mk.inj (Option.some.inj hs)
      refine moves_lookup fun r hr => ?_
      cases valid with
      | true => exact (Option.some.inj hr).symm
      | false => cases hr
    | checked =>
      cases valid with
      | true => exact moves_write rfl hs fun _ hw => .inr hw
      | false =>
        obtain ⟨rfl, rfl⟩ := Prod.mk.inj (Option.some.inj hs)
        exact .look (knows_finished _ _)
    | written =>
      obtain ⟨rfl, rfl⟩ := Prod.mk.inj (Option.some.inj hs)
      exact .look (knows_finished _ _)
    | _ => cases hs
  | deleteClient id =>
    cases current with
    | begin =>
      obtain ⟨rfl, rfl⟩ := Prod.mk.inj (Option.some.inj hs)
      refine .look ?_
      split
      · exact knows_finished _ _
      · refine ⟨by simp [Handler.writes], fun id' hid => ?_, by simp [Handler.countedAccounts]⟩
        cases hn : db.countTunnels id with
        | succ n =>
          rw [hn] at hid
          cases hid
        | zero =>
          rw [hn] at hid
          obtain rfl := Option.some.inj hid
          exact countP_eq_zero hn
    | countedTunnels n =>
      obtain ⟨rfl, rfl⟩ := Prod.mk.inj (Option.some.inj hs)
      refine .look ⟨by simp [Handler.writes], fun id' hid => ?_, by simp [Handler.countedAccounts]⟩
      cases hn : n + db.countListeners id with
      | succ k =>
        rw [hn] at hid
        cases hid
      | zero =>
        rw [hn] at hid
        obtain rfl := Option.some.inj hid
        obtain rfl : n = 0 := by omega
        exact hk.tunnels id rfl
    | countedListeners n =>
      obtain ⟨rfl, rfl⟩ := Prod.mk.inj (Option.some.inj hs)
      cases hn : n + db.countAccounts id with
      | succ k => exact .look (.of_none rfl rfl rfl)
      | zero =>
        obtain ⟨rfl, hcount⟩ : n = 0 ∧ db.countAccounts id = 0 := by omega
        refine .look ⟨by simp [Handler.writes], fun id' hid => ?_, fun id' hid => ?_⟩
        · obtain rfl := Option.some.inj hid
          exact hk.tunnels id rfl
        · obtain rfl := Option.some.inj hid
          exact countP_eq_zero hcount
    | countedAccounts n =>
      obtain ⟨rfl, rfl⟩ := Prod.mk.inj (Option.some.inj hs)
      cases n with
      | zero => exact .delete rfl
      | succ n => exact .look (knows_finished _ _)
    | _ => cases hs

/-! ### The invariant -/

structure Inv (s : State) : Prop where
  valid : s.db.Valid
  knows : ∀ h ∈ s.handlers, Knows s.db h

/-- The handler at `i` has moved on; the others stand where they were. -/
theorem inv_set {handlers : List Handler} {db : Database} {i : Nat} {h' : Handler} (hvalid : db.Valid)
    (hothers : ∀ h ∈ handlers, Knows db h) (hself : Knows db h') : Inv ⟨db, handlers.set i h'⟩ := by
  refine ⟨hvalid, ?_⟩
  apply Heap.forall_set hothers
  exact hself

theorem Inv.write {s : State} (hi : Inv s) {h : Handler} {ref : Reference} {db' : Database} (hh : h ∈ s.handlers)
    (hw : h.writes = some ref) (hdb : Writes s.db ref db')
    (hapart : ∀ other ∈ s.handlers, other.counted ref ≠ some ref.clientId) :
    db'.Valid ∧ ∀ other ∈ s.handlers, Knows db' other := by
  have hext := hdb.extends
  have hclient := (hi.knows h hh).writes ref hw
  refine ⟨⟨fun t ht => ?_, fun a ha => ?_⟩, fun other ho => ⟨fun r hr => ?_, fun id hid t ht => ?_, fun id hid a ha => ?_⟩⟩
  · rw [hext.clients]
    rcases hext.tunnels t ht with ht | rfl
    · exact hi.valid.tunnels t ht
    · exact hclient
  · rw [hext.clients]
    rcases hext.proxyAccounts a ha with ha | rfl
    · exact hi.valid.proxyAccounts a ha
    · exact hclient
  · rw [hext.clients]
    exact (hi.knows other ho).writes r hr
  · rcases hext.tunnels t ht with ht | rfl
    · exact (hi.knows other ho).tunnels id hid t ht
    · rintro rfl
      exact hapart other ho hid
  · rcases hext.proxyAccounts a ha with ha | rfl
    · exact (hi.knows other ho).proxyAccounts id hid a ha
    · rintro rfl
      exact hapart other ho hid

theorem countedTunnels_of_accounts {h : Handler} {id : String} (hc : h.countedAccounts = some id) :
    h.countedTunnels = some id := by
  obtain ⟨request, phase⟩ := h
  unfold Handler.countedAccounts at hc
  unfold Handler.countedTunnels
  split at hc
  · simp_all
  · cases hc

theorem Inv.delete {s : State} (hi : Inv s) {h : Handler} {id : String} (hh : h ∈ s.handlers)
    (hc : h.countedAccounts = some id)
    (hapart : ∀ other ∈ s.handlers, ∀ ref, other.writes = some ref → ref.clientId ≠ id) :
    (s.db.deleteClient id).Valid ∧ ∀ other ∈ s.handlers, Knows (s.db.deleteClient id) other := by
  have hmem : ∀ c ∈ s.db.clients, c ≠ id → c ∈ (s.db.deleteClient id).clients := by
    intro c hc hne
    exact List.mem_filter.mpr ⟨hc, by simpa using hne⟩
  have hk := hi.knows h hh
  refine ⟨⟨fun t ht => ?_, fun a ha => ?_⟩, fun other ho => ⟨fun r hr => ?_, (hi.knows other ho).tunnels,
    (hi.knows other ho).proxyAccounts⟩⟩
  · exact hmem _ (hi.valid.tunnels t ht) (hk.tunnels id (countedTunnels_of_accounts hc) t ht)
  · exact hmem _ (hi.valid.proxyAccounts a ha) (hk.proxyAccounts id hc a ha)
  · exact hmem _ ((hi.knows other ho).writes r hr) (hapart other ho r hr)

theorem Inv.takeBack {s : State} (hi : Inv s) (ref : Reference) :
    (ref.takeBack s.db).Valid ∧ ∀ other ∈ s.handlers, Knows (ref.takeBack s.db) other := by
  cases ref with
  | proxyAccount a => exact ⟨hi.valid, hi.knows⟩
  | tunnel t =>
    refine ⟨⟨fun r hr => ?_, hi.valid.proxyAccounts⟩, fun other ho => ?_⟩
    · exact hi.valid.tunnels r (List.mem_of_mem_filter hr)
    · have hk := hi.knows other ho
      exact ⟨hk.writes, fun id hid r hr => hk.tunnels id hid r (List.mem_of_mem_filter hr), hk.proxyAccounts⟩

theorem inv_step {a : Action} {s s' : State} (hi : Inv s) (hc : Apart a s) (hs : step a s = some s') : Inv s' := by
  cases a with
  | request r =>
    obtain rfl := Option.some.inj hs
    refine ⟨hi.valid, ?_⟩
    apply Heap.forall_push hi.knows
    exact knows_begin _ _
  | fail i =>
    simp only [step] at hs
    split at hs
    · obtain rfl := Option.some.inj hs
      exact inv_set hi.valid hi.knows (knows_finished _ _)
    · cases hs
  | handler i refused =>
    cases hget : s.handlers[i]? with
    | none => simp [step, hget] at hs
    | some h =>
      simp only [step, hget] at hs
      simp only [Apart, hget] at hc
      have hh : h ∈ s.handlers := List.mem_of_getElem? hget
      obtain ⟨⟨db', phase⟩, hstep, rfl⟩ := Option.map_eq_some_iff.mp hs
      cases moves_of_step (hi.knows h hh) hstep with
      | look hself => exact inv_set hi.valid hi.knows hself
      | write hw hdb =>
        obtain ⟨hvalid, hothers⟩ := hi.write hh hw hdb (hc.2 _ hw)
        exact inv_set hvalid hothers (.of_none rfl rfl rfl)
      | takeBack ref =>
        obtain ⟨hvalid, hothers⟩ := hi.takeBack ref
        exact inv_set hvalid hothers (knows_finished _ _)
      | delete hcounted =>
        obtain ⟨hvalid, hothers⟩ := hi.delete hh hcounted (hc.1 _ hcounted)
        exact inv_set hvalid hothers (knows_finished _ _)

/-- **References stay valid** in every state of a run in which looks and writes are kept
apart from counts and deletions of the same client. -/
theorem refs_valid {db : Database} (hdb : db.Valid) {s : State} (h : (system db).Reach Apart s) : s.db.Valid :=
  (h.invariant (I := Inv) ⟨hdb, by simp [system]⟩ fun _ _ _ hi hc hs => inv_step hi hc hs).valid

/-! ### A deletion in between -/

def sampleDb : Database := ⟨["c"], [], [], []⟩

/-- A tunnel is created and the deletion of its client refused. -/
def apartRun : List Action :=
  [.request (createTunnel ⟨"t", "c"⟩ true), .request (.deleteClient "c"), .handler 0 false, .handler 0 false,
   .handler 1 false, .handler 1 false, .handler 1 false, .handler 1 false, .handler 0 false]

/-- The client is deleted between the look at it and the insert of the tunnel. -/
def betweenRun : List Action :=
  [.request (createTunnel ⟨"t", "c"⟩ true), .request (.deleteClient "c"), .handler 0 false, .handler 1 false,
   .handler 1 false, .handler 1 false, .handler 1 false, .handler 0 false, .handler 0 false]

/-- While no handler is in progress, references are valid. -/
def ValidAtRest (s : State) : Prop := (∀ h ∈ s.handlers, h.phase = .finished) → s.db.Valid

instance (s : State) : Decidable (ValidAtRest s) := inferInstanceAs (Decidable (_ → _))

/-- The theorem where the tunnel is there before the references are counted. -/
theorem refs_valid_apartRun : ∃ s, (system sampleDb).Reach Apart s ∧ s.db.Valid ∧ s.db.tunnels = [⟨"t", "c"⟩] ∧
    s.db.clients = ["c"] := by
  obtain ⟨s, hs, hb⟩ := System.reach_of_run (S := system sampleDb) (C := Apart) apartRun
    (fun s => decide (s.db.tunnels = [⟨"t", "c"⟩] ∧ s.db.clients = ["c"])) (by decide +kernel)
  exact ⟨s, hs, refs_valid (by decide) hs, of_decide_eq_true hb⟩

/-- A deletion between the look and the insert leaves a tunnel whose client is gone. -/
theorem refs_dangle : ¬ ∀ db : Database, db.Valid → ∀ s, (system db).Reachable s → ValidAtRest s := by
  intro h
  obtain ⟨s, hs, hb⟩ := System.reach_of_run (S := system sampleDb) (C := fun _ _ => True) betweenRun
    (fun s => decide (¬ ValidAtRest s)) (by decide +kernel)
  exact of_decide_eq_true hb (h sampleDb (by decide) s hs)

end Rps.Controller.ClientRefs
