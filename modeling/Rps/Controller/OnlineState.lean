import Rps.Base.System
import Rps.Controller.Bridge

/-! The online state of clients in the database.

Every Control and Data connection of an agent is a row of `agent_sessions`, open until
the connection ends, and the client has one flag in `client_online`. Connecting inserts
the row and then raises the flag; disconnecting closes the row and then lowers it. These
are statements of their own, and the connections of a client come and go side by side.

The flag is lowered whether or not the client has other connections: a client that loses
one of two is offline to the database (`online_disagrees`). `online_agrees` says that this
is the only way: if the flag is lowered only where every open session of the client has
its flag still to raise, flag and sessions agree whenever no call is between its two
statements. -/
namespace Rps.Controller.OnlineState
open Base

structure AgentSession where
  id : String
  clientId : String
  role : HelloRole
  remoteAddr : String
  connectedAt : Int
  disconnectedAt : Option Int
  deriving DecidableEq

structure ClientOnline where
  online : Bool
  controlConnectedAt : Option Int
  dataConnectedAt : Option Int
  lastSeen : Option Int
  deriving DecidableEq

structure Database where
  agentSessions : List AgentSession
  clientOnline : Table String ClientOnline
  deriving DecidableEq

namespace Database

/-- The first statement of `record_agent_connected`; `none` is the error for an id that is taken. -/
def insertSession (db : Database) (id clientId : String) (role : HelloRole) (remoteAddr : String) (now : Int) :
    Option Database :=
  if db.agentSessions.any fun row => row.id = id then none
  else some {db with agentSessions := db.agentSessions ++ [⟨id, clientId, role, remoteAddr, now, none⟩]}

/-- The second statement of `record_agent_connected`. -/
def setOnline (db : Database) (clientId : String) (role : HelloRole) (now : Int) : Database :=
  let row := (db.clientOnline.lookup clientId).getD ⟨true, none, none, none⟩
  let row := if role = .data then {row with dataConnectedAt := some now} else {row with controlConnectedAt := some now}
  {db with clientOnline := db.clientOnline.insert clientId {row with online := true, lastSeen := some now}}

/-- The first statement of `record_agent_disconnected`. -/
def closeSession (db : Database) (id : String) (now : Int) : Database :=
  {db with agentSessions := db.agentSessions.map fun row =>
    if row.id = id then {row with disconnectedAt := some now} else row}

/-- The second statement of `record_agent_disconnected`. -/
def setOffline (db : Database) (clientId : String) (now : Int) : Database :=
  let row := (db.clientOnline.lookup clientId).getD ⟨false, none, none, none⟩
  {db with clientOnline := db.clientOnline.insert clientId {row with online := false, lastSeen := some now}}

def isOnline (db : Database) (clientId : String) : Bool := (db.clientOnline.lookup clientId).any (·.online)

/-- The client has a session that is not disconnected. -/
def HasOpen (db : Database) (clientId : String) : Prop :=
  ∃ row ∈ db.agentSessions, row.clientId = clientId ∧ row.disconnectedAt = none

/-- The flag says whether a session is open. -/
def Agrees (db : Database) (clientId : String) : Prop := db.isOnline clientId = true ↔ db.HasOpen clientId

instance (db : Database) (clientId : String) : Decidable (db.HasOpen clientId) :=
  inferInstanceAs (Decidable (∃ row ∈ db.agentSessions, _))

instance (db : Database) (clientId : String) : Decidable (db.Agrees clientId) := inferInstanceAs (Decidable (_ ↔ _))

theorem isOnline_setOnline (db : Database) (clientId c : String) (role : HelloRole) (now : Int) :
    (db.setOnline clientId role now).isOnline c = if c = clientId then true else db.isOnline c := by
  simp only [isOnline, setOnline, Table.lookup_insert]
  split
  · rfl
  · rfl

theorem isOnline_setOffline (db : Database) (clientId c : String) (now : Int) :
    (db.setOffline clientId now).isOnline c = if c = clientId then false else db.isOnline c := by
  simp only [isOnline, setOffline, Table.lookup_insert]
  split
  · rfl
  · rfl

theorem insertSession_eq_some {db db' : Database} {id clientId : String} {role : HelloRole} {remoteAddr : String}
    {now : Int} (h : db.insertSession id clientId role remoteAddr now = some db') :
    (∀ row ∈ db.agentSessions, row.id ≠ id) ∧
      db' = {db with agentSessions := db.agentSessions ++ [⟨id, clientId, role, remoteAddr, now, none⟩]} := by
  unfold insertSession at h
  split at h
  · cases h
  · rename_i hfree
    refine ⟨fun row hrow hid => hfree ?_, (Option.some.inj h).symm⟩
    exact List.any_eq_true.mpr ⟨row, hrow, by simpa using hid⟩

/-- The rows after one was closed: the others as they were. -/
theorem mem_closeSession {db : Database} {id : String} {now : Int} {row : AgentSession}
    (h : row ∈ (db.closeSession id now).agentSessions) :
    (row ∈ db.agentSessions ∧ row.id ≠ id) ∨ (row.id = id ∧ row.disconnectedAt = some now) := by
  obtain ⟨old, hold, rfl⟩ := List.mem_map.mp h
  split
  · rename_i hid
    exact .inr ⟨hid, rfl⟩
  · rename_i hid
    exact .inl ⟨hold, hid⟩

theorem mem_closeSession_of_ne {db : Database} {id : String} {row : AgentSession} (h : row ∈ db.agentSessions)
    (hid : row.id ≠ id) (now : Int) : row ∈ (db.closeSession id now).agentSessions :=
  List.mem_map.mpr ⟨row, h, if_neg hid⟩

end Database

/-! ### Connections -/

/-- Where a connection stands in `handle_conn`. The calls that record it are taken apart:
`inserted` has run the first statement of `record_agent_connected`, `closed` the first of
`record_agent_disconnected`; both keep the clock for the second. -/
inductive Stage where
  | acked
  | inserted (id : String) (now : Int)
  | connected (id : String)
  | ended (id : String)
  | closed (now : Int)
  | gone
  deriving DecidableEq

structure Conn where
  clientId : String
  role : HelloRole
  remoteAddr : String
  stage : Stage
  deriving DecidableEq

structure State where
  db : Database
  conns : List Conn := []
  deriving DecidableEq

inductive ConnAction where
  | insertSession (id : String) (now : Int)
  | setOnline
  | hangUp
  /-- The answer to a ping cannot be written: `handle_conn` returns there. -/
  | abandon
  | closeSession (now : Int)
  | setOffline
  deriving DecidableEq

def connStep (a : ConnAction) (db : Database) (conn : Conn) : Option (Database × Stage) :=
  match a, conn.stage with
  | .insertSession id now, .acked =>
    (db.insertSession id conn.clientId conn.role conn.remoteAddr now).map fun db => (db, .inserted id now)
  | .setOnline, .inserted id now => some (db.setOnline conn.clientId conn.role now, .connected id)
  | .hangUp, .connected id => some (db, .ended id)
  | .abandon, .connected _ => if conn.role = .control then some (db, .gone) else none
  | .closeSession now, .ended id => some (db.closeSession id now, .closed now)
  | .setOffline, .closed now => some (db.setOffline conn.clientId now, .gone)
  | _, _ => none

inductive Action where
  | accept (clientId : String) (role : HelloRole) (remoteAddr : String)
  | conn (i : Nat) (a : ConnAction)
  deriving DecidableEq

def step (a : Action) (s : State) : Option State :=
  match a with
  | .accept clientId role remoteAddr =>
    if role = .pool then none else some {s with conns := s.conns ++ [⟨clientId, role, remoteAddr, .acked⟩]}
  | .conn i a =>
    match s.conns[i]? with
    | some conn => (connStep a s.db conn).map fun (db, stage) => ⟨db, s.conns.set i {conn with stage := stage}⟩
    | none => none

/-- The bridge over the database it finds. -/
def system (db : Database) : System State Action where
  init := {db := db}
  step := step

/-- The connection has inserted this row and has the flag still to raise. -/
def Conn.announces (conn : Conn) (row : AgentSession) : Bool :=
  match conn.stage with
  | .inserted id _ => conn.clientId = row.clientId && id = row.id
  | _ => false

/-- The connection has closed its row and has the flag still to lower. -/
def Conn.retracts (conn : Conn) : Bool :=
  match conn.stage with
  | .closed _ => true
  | _ => false

/-- Between the two statements of a call. -/
def Stage.recording : Stage → Bool
  | .inserted _ _ | .closed _ => true
  | _ => false

/-- No call of the client is between its two statements. -/
def Quiet (s : State) (clientId : String) : Prop :=
  ∀ conn ∈ s.conns, conn.clientId = clientId → conn.stage.recording = false

instance (s : State) (clientId : String) : Decidable (Quiet s clientId) :=
  inferInstanceAs (Decidable (∀ conn ∈ s.conns, _))

/-- A flag is lowered only where every open session of the client has its flag still to raise. -/
def LastOut (a : Action) (s : State) : Prop :=
  match a with
  | .conn i .setOffline =>
    match s.conns[i]? with
    | some conn =>
      ∀ row ∈ s.db.agentSessions, row.clientId = conn.clientId → row.disconnectedAt = none →
        ∃ other ∈ s.conns, other.announces row = true
    | none => True
  | _ => True

instance (a : Action) (s : State) : Decidable (LastOut a s) := by
  unfold LastOut
  split
  · split <;> infer_instance
  · infer_instance

/-! ### What a step can do -/

/-- The open row of a connection. -/
def Stage.session : Stage → Option String
  | .inserted id _ => some id
  | .connected id => some id
  | .ended id => some id
  | _ => none

inductive Moves (a : Action) (s : State) : State → Prop where
  | accept (conn : Conn) : conn.stage = .acked → Moves a s {s with conns := s.conns ++ [conn]}
  | insertSession (i : Nat) (conn : Conn) (id : String) (now : Int) : s.conns[i]? = some conn → conn.stage = .acked →
      (∀ row ∈ s.db.agentSessions, row.id ≠ id) →
      Moves a s ⟨{s.db with agentSessions := s.db.agentSessions ++
        [⟨id, conn.clientId, conn.role, conn.remoteAddr, now, none⟩]}, s.conns.set i {conn with stage := .inserted id now}⟩
  | setOnline (i : Nat) (conn : Conn) (id : String) (now : Int) : s.conns[i]? = some conn →
      conn.stage = .inserted id now →
      Moves a s ⟨s.db.setOnline conn.clientId conn.role now, s.conns.set i {conn with stage := .connected id}⟩
  | leave (i : Nat) (conn : Conn) (id : String) (stage : Stage) : s.conns[i]? = some conn → conn.stage = .connected id →
      stage = .ended id ∨ stage = .gone → Moves a s ⟨s.db, s.conns.set i {conn with stage := stage}⟩
  | closeSession (i : Nat) (conn : Conn) (id : String) (now : Int) : s.conns[i]? = some conn →
      conn.stage = .ended id →
      Moves a s ⟨s.db.closeSession id now, s.conns.set i {conn with stage := .closed now}⟩
  | setOffline (i : Nat) (conn : Conn) (now : Int) : a = .conn i .setOffline → s.conns[i]? = some conn →
      conn.stage = .closed now →
      Moves a s ⟨s.db.setOffline conn.clientId now, s.conns.set i {conn with stage := .gone}⟩

theorem moves_of_step {a : Action} {s t : State} (h : step a s = some t) : Moves a s t := by
  cases a with
  | accept clientId role remoteAddr =>
    simp only [step] at h
    split at h
    · cases h
    · cases h
      exact .accept _ rfl
  | conn i a =>
    simp only [step] at h
    split at h
    · rename_i conn hi
      obtain ⟨⟨db, stage⟩, hstep, rfl⟩ := Option.map_eq_some_iff.mp h
      unfold connStep at hstep
      split at hstep
      · rename_i id now hstage
        obtain ⟨db', hinsert, heq⟩ := Option.map_eq_some_iff.mp hstep
        cases heq
        obtain ⟨hfree, rfl⟩ := Database.insertSession_eq_some hinsert
        exact .insertSession i conn id now hi hstage hfree
      · rename_i id now hstage
        cases hstep
        exact .setOnline i conn id now hi hstage
      · rename_i id hstage
        cases hstep
        exact .leave i conn id _ hi hstage (.inl rfl)
      · rename_i id hstage
        split at hstep
        · cases hstep
          exact .leave i conn id _ hi hstage (.inr rfl)
        · cases hstep
      · rename_i now id hstage
        cases hstep
        exact .closeSession i conn id now hi hstage
      · rename_i now hstage
        cases hstep
        exact .setOffline i conn now rfl hi hstage
      · cases hstep
    · cases h

/-! ### Rows and their connections -/

/-- There is a row of this id, and it is the client's and open. -/
structure Owns (db : Database) (id clientId : String) : Prop where
  row : ∃ row ∈ db.agentSessions, row.id = id
  own : ∀ row ∈ db.agentSessions, row.id = id → row.clientId = clientId ∧ row.disconnectedAt = none

/-- Every connection owns its row, and no two have the same. -/
structure Rows (s : State) : Prop where
  owns : ∀ (i : Nat) (conn : Conn) (id : String), s.conns[i]? = some conn → conn.stage.session = some id →
    Owns s.db id conn.clientId
  distinct : ∀ (i j : Nat) (conn other : Conn) (id : String), s.conns[i]? = some conn → s.conns[j]? = some other →
    conn.stage.session = some id → other.stage.session = some id → i = j

theorem Owns.insert {db : Database} {id clientId : String} (h : Owns db id clientId) {row : AgentSession}
    (hfree : ∀ old ∈ db.agentSessions, old.id ≠ row.id) :
    Owns {db with agentSessions := db.agentSessions ++ [row]} id clientId := by
  obtain ⟨old, hold, hid⟩ := h.row
  refine ⟨⟨old, List.mem_append_left _ hold, hid⟩, fun r hr hrid => ?_⟩
  rcases List.mem_append.mp hr with hr | hr
  · exact h.own r hr hrid
  · obtain rfl := List.mem_singleton.mp hr
    exact absurd (hid.trans hrid.symm) (hfree old hold)

theorem Owns.close {db : Database} {id clientId : String} (h : Owns db id clientId) {other : String} (hne : id ≠ other)
    (now : Int) : Owns (db.closeSession other now) id clientId := by
  obtain ⟨row, hrow, hid⟩ := h.row
  refine ⟨⟨row, Database.mem_closeSession_of_ne hrow (by rw [hid]; exact hne) now, hid⟩, fun r hr hrid => ?_⟩
  rcases Database.mem_closeSession hr with ⟨hold, -⟩ | ⟨hclosed, -⟩
  · exact h.own r hold hrid
  · exact absurd (hrid.symm.trans hclosed) hne

/-- A connection moves on: it keeps its row, gives it up, or gets one that nobody had. -/
theorem Rows.set {s : State} (h : Rows s) {i : Nat} {conn : Conn} (hi : s.conns[i]? = some conn) {db : Database}
    {stage : Stage}
    (hother : ∀ (j : Nat) (other : Conn) (id : String), j ≠ i → s.conns[j]? = some other →
      other.stage.session = some id → Owns db id other.clientId)
    (hself : ∀ id, stage.session = some id → Owns db id conn.clientId ∧
      (conn.stage.session = some id ∨ ∀ row ∈ s.db.agentSessions, row.id ≠ id)) :
    Rows ⟨db, s.conns.set i {conn with stage := stage}⟩ := by
  -- no other connection has the row of this one
  have hapart {j : Nat} {other : Conn} {id : String} (hne : j ≠ i) (hj : s.conns[j]? = some other)
      (hid : other.stage.session = some id) (hstage : stage.session = some id) : False := by
    rcases (hself id hstage).2 with hold | hfree
    · exact hne (h.distinct j i other conn id hj hi hid hold)
    · obtain ⟨row, hrow, hrowid⟩ := (h.owns j other id hj hid).row
      exact hfree row hrow hrowid
  constructor
  · intro j other id hj hid
    rw [Heap.get_set hi] at hj
    split at hj
    · cases hj
      exact (hself id hid).1
    · rename_i hne
      exact hother j other id hne hj hid
  · intro j k a b id hj hk ha hb
    rw [Heap.get_set hi] at hj hk
    split at hj <;> split at hk
    · rename_i hji hki
      rw [hji, hki]
    · rename_i hne
      cases hj
      exact (hapart hne hk hb ha).elim
    · rename_i hne _
      cases hk
      exact (hapart hne hj ha hb).elim
    · exact h.distinct j k a b id hj hk ha hb

theorem Rows.step {a : Action} {s t : State} (h : Rows s) (hm : Moves a s t) : Rows t := by
  cases hm with
  | accept conn hstage =>
    have hnew {j : Nat} {other : Conn} {id : String} (hj : (s.conns ++ [conn])[j]? = some other)
        (hid : other.stage.session = some id) : s.conns[j]? = some other := by
      rw [Heap.get_push] at hj
      split at hj
      · cases hj
        rw [hstage] at hid
        cases hid
      · exact hj
    exact ⟨fun j other id hj hid => h.owns j other id (hnew hj hid) hid,
      fun j k a b id hj hk ha hb => h.distinct j k a b id (hnew hj ha) (hnew hk hb) ha hb⟩
  | insertSession i conn id now hi hstage hfree =>
    refine h.set hi (fun j other id' _ hj hid => (h.owns j other id' hj hid).insert hfree) fun id' hid => ?_
    cases hid
    refine ⟨⟨⟨_, List.mem_append_right _ (List.mem_singleton_self _), rfl⟩, fun row hrow hrowid => ?_⟩, .inr hfree⟩
    rcases List.mem_append.mp hrow with hold | hnew
    · exact absurd hrowid (hfree row hold)
    · rw [List.mem_singleton.mp hnew]
      exact ⟨rfl, rfl⟩
  | setOnline i conn id now hi hstage =>
    have hid : conn.stage.session = some id := by rw [hstage, Stage.session]
    refine h.set hi (fun j other id' _ hj hid => ?_) fun id' hid' => ?_
    · exact ⟨(h.owns j other id' hj hid).row, (h.owns j other id' hj hid).own⟩
    · cases hid'
      exact ⟨⟨(h.owns i conn id hi hid).row, (h.owns i conn id hi hid).own⟩, .inl hid⟩
  | leave i conn id stage hi hstage hnext =>
    have hid : conn.stage.session = some id := by rw [hstage, Stage.session]
    refine h.set hi (fun j other id' _ hj hid => h.owns j other id' hj hid) fun id' hid' => ?_
    rcases hnext with rfl | rfl
    · cases hid'
      exact ⟨h.owns i conn id hi hid, .inl hid⟩
    · cases hid'
  | closeSession i conn id now hi hstage =>
    have hid : conn.stage.session = some id := by rw [hstage, Stage.session]
    refine h.set hi (fun j other id' hne hj hid' => (h.owns j other id' hj hid').close ?_ now) fun id' hid' => by cases hid'
    rintro rfl
    exact hne (h.distinct j i other conn id' hj hi hid' hid)
  | setOffline i conn now _ hi hstage =>
    refine h.set hi (fun j other id' _ hj hid => ?_) fun id' hid' => by cases hid'
    exact ⟨(h.owns j other id' hj hid).row, (h.owns j other id' hj hid).own⟩

/-! ### Flags -/

/-- An open session shows in the flag or is about to, and a flag that is up has an open
session behind it or is about to come down. -/
structure Flags (s : State) : Prop where
  shown : ∀ row ∈ s.db.agentSessions, row.disconnectedAt = none →
    s.db.isOnline row.clientId = true ∨ ∃ conn ∈ s.conns, conn.announces row = true
  backed : ∀ clientId, s.db.isOnline clientId = true →
    s.db.HasOpen clientId ∨ ∃ conn ∈ s.conns, conn.clientId = clientId ∧ conn.retracts = true

theorem Conn.announces_eq {conn : Conn} {row : AgentSession} (h : conn.announces row = true) :
    conn.clientId = row.clientId ∧ ∃ now, conn.stage = .inserted row.id now := by
  unfold announces at h
  split at h
  · rename_i id now hstage
    rw [Bool.and_eq_true, decide_eq_true_eq, decide_eq_true_eq] at h
    exact ⟨h.1, now, by rw [hstage, h.2]⟩
  · cases h

theorem Conn.retracts_eq {conn : Conn} (h : conn.retracts = true) : ∃ now, conn.stage = .closed now := by
  unfold retracts at h
  split at h
  · rename_i now hstage
    exact ⟨now, hstage⟩
  · cases h

section
variable {s : State} {i : Nat} {conn : Conn}

/-- The connections that announce a row go on doing so, but for the one that moves. -/
theorem announcer_set (hi : s.conns[i]? = some conn) (conn' : Conn) {row : AgentSession}
    (hnot : conn.announces row = false) (h : ∃ other ∈ s.conns, other.announces row = true) :
    ∃ other ∈ s.conns.set i conn', other.announces row = true := by
  obtain ⟨other, hother, hann⟩ := h
  rcases Heap.mem_set_of_mem hi conn' hother with rfl | hmem
  · rw [hnot] at hann
    cases hann
  · exact ⟨other, hmem, hann⟩

theorem retracter_set (hi : s.conns[i]? = some conn) (conn' : Conn) {clientId : String}
    (hnot : conn.clientId = clientId → conn.retracts = false)
    (h : ∃ other ∈ s.conns, other.clientId = clientId ∧ other.retracts = true) :
    ∃ other ∈ s.conns.set i conn', other.clientId = clientId ∧ other.retracts = true := by
  obtain ⟨other, hother, hclient, hretracts⟩ := h
  rcases Heap.mem_set_of_mem hi conn' hother with rfl | hmem
  · rw [hnot hclient] at hretracts
    cases hretracts
  · exact ⟨other, hmem, hclient, hretracts⟩

end

theorem flags_step {a : Action} {s t : State} (hrows : Rows s) (h : Flags s) (hlast : LastOut a s) (hm : Moves a s t) :
    Flags t := by
  cases hm with
  | accept conn hstage =>
    refine ⟨fun row hrow hopen => ?_, fun clientId honline => ?_⟩
    · refine (h.shown row hrow hopen).imp_right ?_
      intro hboth
      obtain ⟨other, hother, hann⟩ := hboth
      exact ⟨other, List.mem_append_left _ hother, hann⟩
    · refine (h.backed clientId honline).imp_right ?_
      intro hboth
      obtain ⟨other, hother, hretracts⟩ := hboth
      exact ⟨other, List.mem_append_left _ hother, hretracts⟩
  | insertSession i conn id now hi hstage hfree =>
    refine ⟨fun row hrow hopen => ?_, fun clientId honline => ?_⟩
    · rcases List.mem_append.mp hrow with hold | hnew
      · exact (h.shown row hold hopen).imp_right (announcer_set hi _ (by simp [Conn.announces, hstage]))
      · obtain rfl := List.mem_singleton.mp hnew
        exact .inr ⟨_, Heap.mem_set_self hi _, by simp [Conn.announces]⟩
    · rcases h.backed clientId honline with ⟨row, hrow, hopen⟩ | hretracts
      · exact .inl ⟨row, List.mem_append_left _ hrow, hopen⟩
      · exact .inr (retracter_set hi _ (fun _ => by simp [Conn.retracts, hstage]) hretracts)
  | setOnline i conn id now hi hstage =>
    refine ⟨fun row hrow hopen => ?_, fun clientId honline => ?_⟩
    · rw [Database.isOnline_setOnline]
      by_cases hclient : row.clientId = conn.clientId
      · exact .inl (if_pos hclient)
      · rw [if_neg hclient]
        refine (h.shown row hrow hopen).imp_right (announcer_set hi _ ?_)
        simp [Conn.announces, hstage, Ne.symm hclient]
    · rw [Database.isOnline_setOnline] at honline
      by_cases hclient : clientId = conn.clientId
      · -- the row of this connection is open
        obtain ⟨⟨row, hrow, hid⟩, hown⟩ := hrows.owns i conn id hi (by rw [hstage, Stage.session])
        exact .inl ⟨row, hrow, by rw [hclient]; exact hown row hrow hid⟩
      · rw [if_neg hclient] at honline
        rcases h.backed clientId honline with hopen | hretracts
        · exact .inl hopen
        · exact .inr (retracter_set hi _ (fun _ => by simp [Conn.retracts, hstage]) hretracts)
  | leave i conn id stage hi hstage hnext =>
    refine ⟨fun row hrow hopen => ?_, fun clientId honline => ?_⟩
    · exact (h.shown row hrow hopen).imp_right (announcer_set hi _ (by simp [Conn.announces, hstage]))
    · refine (h.backed clientId honline).imp_right (retracter_set hi _ fun _ => ?_)
      simp [Conn.retracts, hstage]
  | closeSession i conn id now hi hstage =>
    refine ⟨fun row hrow hopen => ?_, fun clientId honline => ?_⟩
    · rcases Database.mem_closeSession hrow with ⟨hold, -⟩ | ⟨-, hclosed⟩
      · exact (h.shown row hold hopen).imp_right (announcer_set hi _ (by simp [Conn.announces, hstage]))
      · rw [hopen] at hclosed
        cases hclosed
    · rcases h.backed clientId honline with ⟨row, hrow, hclient, hopen⟩ | hretracts
      · by_cases hid : row.id = id
        · -- its own row was the one behind the flag, and it is about to lower it
          have hown := (hrows.owns i conn id hi (by rw [hstage, Stage.session])).own row hrow hid
          exact .inr ⟨_, Heap.mem_set_self hi _, hown.1.symm.trans hclient, rfl⟩
        · exact .inl ⟨row, Database.mem_closeSession_of_ne hrow hid now, hclient, hopen⟩
      · exact .inr (retracter_set hi _ (fun _ => by simp [Conn.retracts, hstage]) hretracts)
  | setOffline i conn now ha hi hstage =>
    subst ha
    simp only [LastOut, hi] at hlast
    have hnot (row : AgentSession) : conn.announces row = false := by simp [Conn.announces, hstage]
    refine ⟨fun row hrow hopen => ?_, fun clientId honline => ?_⟩
    · rw [Database.isOnline_setOffline]
      by_cases hclient : row.clientId = conn.clientId
      · exact .inr (announcer_set hi _ (hnot row) (hlast row hrow hclient hopen))
      · rw [if_neg hclient]
        exact (h.shown row hrow hopen).imp_right (announcer_set hi _ (hnot row))
    · rw [Database.isOnline_setOffline] at honline
      by_cases hclient : clientId = conn.clientId
      · rw [if_pos hclient] at honline
        cases honline
      · rw [if_neg hclient] at honline
        rcases h.backed clientId honline with hopen | hretracts
        · exact .inl hopen
        · exact .inr (retracter_set hi _ (fun heq => absurd heq.symm hclient) hretracts)

theorem flags_agree {s : State} (h : Flags s) {clientId : String} (hquiet : Quiet s clientId) : s.db.Agrees clientId := by
  constructor
  · intro honline
    rcases h.backed clientId honline with hopen | ⟨conn, hconn, hclient, hretracts⟩
    · exact hopen
    · obtain ⟨now, hstage⟩ := Conn.retracts_eq hretracts
      have hidle := hquiet conn hconn hclient
      rw [hstage] at hidle
      cases hidle
  · intro hboth
    obtain ⟨row, hrow, rfl, hopen⟩ := hboth
    rcases h.shown row hrow hopen with honline | ⟨conn, hconn, hann⟩
    · exact honline
    · obtain ⟨hclient, now, hstage⟩ := Conn.announces_eq hann
      have hidle := hquiet conn hconn hclient
      rw [hstage] at hidle
      cases hidle

theorem flags_of_agrees {db : Database} (h : ∀ clientId, db.Agrees clientId) : Flags {db := db} where
  shown := fun row hrow hopen => .inl ((h row.clientId).mpr ⟨row, hrow, rfl, hopen⟩)
  backed := fun clientId honline => .inl ((h clientId).mp honline)

/-- **Flag and sessions agree whenever no call is under way**, in every run that lowers the
flag of a client only when its open sessions have theirs still to raise. -/
theorem online_agrees {db : Database} (hdb : ∀ clientId, db.Agrees clientId) {s : State}
    (hreach : (system db).Reach LastOut s) (clientId : String) (hquiet : Quiet s clientId) : s.db.Agrees clientId := by
  have hinv : Rows s ∧ Flags s := by
    have hinit : Rows (system db).init := ⟨by simp [system], by simp [system]⟩
    refine hreach.invariant (I := fun s => Rows s ∧ Flags s) ⟨hinit, flags_of_agrees hdb⟩ ?_
    rintro a u v ⟨hrows, hflags⟩ hlast hstep
    have hm := moves_of_step hstep
    exact ⟨hrows.step hm, flags_step hrows hflags hlast hm⟩
  exact flags_agree hinv.2 hquiet

/-! ### One connection of two ends -/

def emptyDatabase : Database := ⟨[], ∅⟩

theorem agrees_emptyDatabase (clientId : String) : emptyDatabase.Agrees clientId := by
  simp [Database.Agrees, Database.isOnline, Database.HasOpen, emptyDatabase]

/-- A data connection is replaced: the old one lowers the flag between the two statements
of the new one. -/
def replaced : List Action :=
  [.accept "a" .data "h:1", .conn 0 (.insertSession "s0" 1), .conn 0 .setOnline, .conn 0 .hangUp,
    .accept "a" .data "h:2", .conn 0 (.closeSession 5), .conn 1 (.insertSession "s1" 5), .conn 0 .setOffline,
    .conn 1 .setOnline]

theorem online_agrees_replaced : ∃ s, (system emptyDatabase).Reach LastOut s ∧ Quiet s "a" ∧ s.db.Agrees "a" := by
  obtain ⟨s, hreach, hs⟩ := System.reach_of_run (S := system emptyDatabase) (C := LastOut) replaced
    (fun s => Quiet s "a") (by decide +kernel)
  have hquiet : Quiet s "a" := of_decide_eq_true hs
  exact ⟨s, hreach, hquiet, online_agrees agrees_emptyDatabase hreach "a" hquiet⟩

/-- The data connection of a client ends, its control connection goes on. -/
def dataEnds : List Action :=
  [.accept "a" .control "h:1", .conn 0 (.insertSession "s0" 1), .conn 0 .setOnline,
    .accept "a" .data "h:2", .conn 1 (.insertSession "s1" 2), .conn 1 .setOnline,
    .conn 1 .hangUp, .conn 1 (.closeSession 9), .conn 1 .setOffline]

/-- The client is offline to the database with its control session open. -/
theorem online_disagrees : ∃ s, (system emptyDatabase).Reachable s ∧ Quiet s "a" ∧
    s.db.isOnline "a" = false ∧ s.db.HasOpen "a" ∧ ¬ s.db.Agrees "a" := by
  obtain ⟨s, hreach, hs⟩ := System.reach_of_run (S := system emptyDatabase) (C := fun _ _ => True) dataEnds
    (fun s => Quiet s "a" ∧ s.db.isOnline "a" = false ∧ s.db.HasOpen "a" ∧ ¬ s.db.Agrees "a") (by decide +kernel)
  exact ⟨s, hreach, of_decide_eq_true hs⟩

end Rps.Controller.OnlineState
