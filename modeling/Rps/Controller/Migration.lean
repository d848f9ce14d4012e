import Mathlib.Data.List.Nodup
import Rps.Base.Crash

/-! The migration of the clients table.

`Database::migrate` runs at every start. A database of the time when clients had a
`vkey` is rebuilt: the table is renamed, a new one is created, the rows are copied with
their effective key, and the old table is dropped. Nothing holds these statements
together, and whether there is anything to rebuild is read off the columns of `clients`
at the next start.

`migrated_iff`: every client with a key is there after any number of starts that were
cut off and one that was not, exactly if no start was cut off between the rename and
the copy. A start that is leaves the rows where no later start looks: the next one
creates an empty `clients` before it looks for a `vkey`. -/
namespace Rps.Controller.Migration
open Base

/-- A row of any of the clients tables; a key column the table lacks reads as null. -/
structure ClientRow where
  id : String
  psk : Option String
  vkey : Option String
  enabled : Int
  remark : Option String
  maxConnections : Option Int
  compress : Int
  encrypt : Int
  createdAt : Int
  updatedAt : Int
  deriving DecidableEq

/-- `psk` and `vkey` tell which of the key columns the table has, `pskIndex` whether
`idx_clients_psk_unique` is an index of this table. -/
structure ClientsTable where
  psk : Bool
  vkey : Bool
  pskIndex : Bool
  rows : List ClientRow
  ids : (rows.map ClientRow.id).Nodup
  noPsk : psk = false → ∀ r ∈ rows, r.psk = none
  noVkey : vkey = false → ∀ r ∈ rows, r.vkey = none

/-- The clients tables under each name, and the columns of the other tables. -/
structure MigrationDb where
  clients : Option ClientsTable
  clientsLegacy : Option ClientsTable
  clientsNew : Option ClientsTable
  others : List (String × List String)

/-! ### Statements -/

def emptyClients : ClientsTable where
  psk := true
  vkey := false
  pskIndex := false
  rows := []
  ids := List.nodup_nil
  noPsk := by simp
  noVkey := by simp

def createClientsIfNotExists (db : MigrationDb) : Option MigrationDb :=
  match db.clients with
  | some _ => some db
  | none => some {db with clients := some emptyClients}

def createTableIfNotExists (table : String × List String) (db : MigrationDb) : Option MigrationDb :=
  if table.1 ∈ db.others.map Prod.fst then some db else some {db with others := db.others ++ [table]}

/-- `alter table clients add column psk text`. -/
def ClientsTable.addPsk (t : ClientsTable) : ClientsTable :=
  {t with psk := true, noPsk := by simp}

def addPskColumn (db : MigrationDb) : Option MigrationDb :=
  match db.clients with
  | some t => if t.psk then none else some {db with clients := some t.addPsk}
  | none => none

def dropClientsNew (db : MigrationDb) : Option MigrationDb := some {db with clientsNew := none}

def dropClientsLegacyIfExists (db : MigrationDb) : Option MigrationDb := some {db with clientsLegacy := none}

def renameClients (db : MigrationDb) : Option MigrationDb :=
  match db.clients, db.clientsLegacy with
  | some t, none => some {db with clients := none, clientsLegacy := some t}
  | _, _ => none

def createClients (db : MigrationDb) : Option MigrationDb :=
  match db.clients with
  | some _ => none
  | none => some {db with clients := some emptyClients}

/-- `coalesce(nullif(psk, ''), vkey)`. -/
def ClientRow.effectiveKey (r : ClientRow) : Option String :=
  match r.psk with
  | some psk => if psk = "" then r.vkey else some psk
  | none => r.vkey

/-- The key of a row the copy selects. -/
def ClientRow.key (r : ClientRow) : Option String := r.effectiveKey.filter (· ≠ "")

/-- What the copy selects of a row. -/
def ClientRow.migrated (r : ClientRow) : Option ClientRow :=
  r.key.map fun key => {r with psk := some key, vkey := none}

/-- A row is ignored if its id or its key is taken. -/
def ClientsTable.insertOrIgnore (t : ClientsTable) (r : ClientRow) : ClientsTable :=
  if h : (t.psk = true ∧ r.psk ≠ none ∧ r.vkey = none) ∧ r.id ∉ t.rows.map ClientRow.id ∧
      r.psk ∉ t.rows.map ClientRow.psk then
    {t with
      rows := t.rows ++ [r]
      ids := by
        rw [List.map_append, List.map_singleton, List.nodup_append]
        exact ⟨t.ids, List.nodup_singleton _, by simpa using h.2.1⟩
      noPsk := by
        intro hpsk
        rw [h.1.1] at hpsk
        cases hpsk
      noVkey := by
        intro hvkey s hs
        rcases List.mem_append.mp hs with hs | hs
        · exact t.noVkey hvkey s hs
        · rw [List.mem_singleton.mp hs]
          exact h.1.2.2}
  else t

/-- `insert or ignore into clients .. select .. from clients_legacy`. -/
def copyClients (db : MigrationDb) : Option MigrationDb :=
  match db.clients, db.clientsLegacy with
  | some t, some legacy =>
    some {db with clients := some ((legacy.rows.filterMap ClientRow.migrated).foldl ClientsTable.insertOrIgnore t)}
  | _, _ => none

def dropClientsLegacy (db : MigrationDb) : Option MigrationDb :=
  match db.clientsLegacy with
  | some _ => some {db with clientsLegacy := none}
  | none => none

def hasPskIndex : Option ClientsTable → Bool
  | some t => t.pskIndex
  | none => false

/-- `create unique index if not exists`: the name of an index is one for all tables. -/
def createPskIndex (db : MigrationDb) : Option MigrationDb :=
  if hasPskIndex db.clients || hasPskIndex db.clientsLegacy || hasPskIndex db.clientsNew then some db
  else
    match db.clients with
    | some t =>
      if t.psk = true ∧ (t.rows.filterMap ClientRow.psk).Nodup then
        some {db with clients := some {t with pskIndex := true}}
      else none
    | none => none

/-! ### The program -/

/-- `pragma table_info(clients)`: whether there is a `psk`, and whether there is a `vkey`. -/
def clientsColumns (db : MigrationDb) : Bool × Bool :=
  match db.clients with
  | some t => (t.psk, t.vkey)
  | none => (false, false)

/-- The statements that replace a table with a `vkey`. -/
def rebuild : Program MigrationDb Unit :=
  Program.all [dropClientsNew, dropClientsLegacyIfExists, renameClients, createClients, copyClients, dropClientsLegacy]

def migrateClientsPsk : Program MigrationDb Unit := do
  let (hasPsk, hasVkey) ← Program.query clientsColumns
  if hasPsk then pure () else Program.execute addPskColumn
  if hasVkey then rebuild else pure ()
  Program.execute createPskIndex

def tableInfo (table : String) (db : MigrationDb) : List String :=
  (db.others.lookup table).getD []

def addColumn (table column : String) (db : MigrationDb) : Option MigrationDb :=
  some {db with others := db.others.map fun t => if t.1 = table then (t.1, t.2 ++ [column]) else t}

def ensureColumn (table column : String) : Program MigrationDb Unit := do
  let columns ← Program.query (tableInfo table)
  if column ∈ columns then pure () else Program.execute (addColumn table column)

def ensureColumns : List (String × String) → Program MigrationDb Unit
  | [] => pure ()
  | (table, column) :: rest => do
    ensureColumn table column
    ensureColumns rest

/-- The tables beside `clients`, in the order they are created. -/
def otherTables : List (String × List String) := [
  ("tunnels", ["id", "client_id", "mode", "listen", "target", "enabled", "expires_at", "traffic_limit_bytes",
    "rx_bytes", "tx_bytes", "disabled_reason", "created_at", "updated_at"]),
  ("proxy_listeners", ["kind", "listen", "client_id", "enabled", "created_at", "updated_at"]),
  ("proxy_accounts", ["id", "kind", "client_id", "username", "password", "enabled", "remark", "expires_at",
    "traffic_limit_bytes", "rx_bytes", "tx_bytes", "disabled_reason", "created_at", "updated_at"]),
  ("client_online", ["client_id", "online", "control_connected_at", "data_connected_at", "last_seen"]),
  ("agent_sessions", ["id", "client_id", "role", "remote_addr", "connected_at", "disconnected_at"]),
  ("stream_sessions", ["id", "client_id", "tunnel_id", "protocol", "target", "remote_addr", "rx_bytes", "tx_bytes",
    "opened_at", "closed_at"]),
  ("traffic_counters", ["scope", "key", "rx_bytes", "tx_bytes", "updated_at"]),
  ("usage_snapshots", ["id", "scope", "key", "rx_bytes", "tx_bytes", "captured_at"])]

def quotaColumns : List (String × String) := [
  ("tunnels", "expires_at"), ("tunnels", "traffic_limit_bytes"), ("tunnels", "rx_bytes"), ("tunnels", "tx_bytes"),
  ("tunnels", "disabled_reason"), ("proxy_accounts", "expires_at"), ("proxy_accounts", "traffic_limit_bytes"),
  ("proxy_accounts", "rx_bytes"), ("proxy_accounts", "tx_bytes"), ("proxy_accounts", "disabled_reason")]

/-- `migrate` once `clients` exists. -/
def migrateTables : Program MigrationDb Unit := do
  Program.all (otherTables.map createTableIfNotExists)
  migrateClientsPsk
  ensureColumns quotaColumns

def migrate : Program MigrationDb Unit := do
  Program.execute createClientsIfNotExists
  migrateTables

/-! ### The copy -/

/-- Rows the new table takes, all of them. -/
structure Copyable (rows : List ClientRow) : Prop where
  keyed : ∀ r ∈ rows, r.psk ≠ none ∧ r.vkey = none
  ids : (rows.map ClientRow.id).Nodup
  psks : (rows.map ClientRow.psk).Nodup

/-- A table of the new schema that holds `rows`. -/
structure Migrated (rows : List ClientRow) (t : ClientsTable) : Prop where
  psk : t.psk = true
  vkey : t.vkey = false
  rows_eq : t.rows = rows

theorem insertOrIgnore_migrated {rows : List ClientRow} {r : ClientRow} {t : ClientsTable}
    (hc : Copyable (rows ++ [r])) (ht : Migrated rows t) : Migrated (rows ++ [r]) (t.insertOrIgnore r) := by
  have hkeyed := hc.keyed r (by simp)
  have hid : r.id ∉ t.rows.map ClientRow.id := by
    have := hc.ids
    rw [List.map_append, List.map_singleton, List.nodup_append] at this
    rw [ht.rows_eq]
    exact fun hmem => this.2.2 _ hmem _ (List.mem_singleton_self _) rfl
  have hpsk : r.psk ∉ t.rows.map ClientRow.psk := by
    have := hc.psks
    rw [List.map_append, List.map_singleton, List.nodup_append] at this
    rw [ht.rows_eq]
    exact fun hmem => this.2.2 _ hmem _ (List.mem_singleton_self _) rfl
  unfold ClientsTable.insertOrIgnore
  rw [dif_pos ⟨⟨ht.psk, hkeyed⟩, hid, hpsk⟩]
  exact ⟨ht.psk, ht.vkey, congrArg (· ++ [r]) ht.rows_eq⟩

theorem Copyable.initial {a b : List ClientRow} (h : Copyable (a ++ b)) : Copyable a where
  keyed r hr := h.keyed r (List.mem_append_left b hr)
  ids := (List.map_append ▸ h.ids).of_append_left
  psks := (List.map_append ▸ h.psks).of_append_left

theorem foldl_insertOrIgnore {rows more : List ClientRow} {t : ClientsTable} (hc : Copyable (rows ++ more))
    (ht : Migrated rows t) : Migrated (rows ++ more) (more.foldl ClientsTable.insertOrIgnore t) := by
  induction more generalizing rows t with
  | nil => simpa using ht
  | cons r more ih =>
    have happend : rows ++ r :: more = (rows ++ [r]) ++ more := by simp
    rw [happend] at hc ⊢
    exact ih hc (insertOrIgnore_migrated hc.initial ht)

theorem migrated_id {r s : ClientRow} (h : r.migrated = some s) : s.id = r.id := by
  obtain ⟨key, -, rfl⟩ := Option.map_eq_some_iff.mp h
  rfl

theorem migrated_ids_sublist (rows : List ClientRow) :
    ((rows.filterMap ClientRow.migrated).map ClientRow.id).Sublist (rows.map ClientRow.id) := by
  induction rows with
  | nil => exact .slnil
  | cons r rest ih =>
    rw [List.filterMap_cons, List.map_cons]
    cases hr : r.migrated with
    | none => exact ih.cons _
    | some s =>
      rw [List.map_cons, migrated_id hr]
      exact ih.cons_cons _

theorem migrated_psks (rows : List ClientRow) :
    (rows.filterMap ClientRow.migrated).map ClientRow.psk = (rows.filterMap ClientRow.key).map some := by
  induction rows with
  | nil => rfl
  | cons r rest ih =>
    rw [List.filterMap_cons, List.filterMap_cons]
    unfold ClientRow.migrated at ih ⊢
    cases r.key with
    | none => exact ih
    | some key =>
      simp only [Option.map_some, List.map_cons]
      rw [ih]

/-- The rows of a legacy table with distinct keys are all taken. -/
theorem ClientsTable.copyable (t : ClientsTable) (hkeys : (t.rows.filterMap ClientRow.key).Nodup) :
    Copyable (t.rows.filterMap ClientRow.migrated) where
  keyed := by
    intro s hs
    obtain ⟨r, -, hr⟩ := List.mem_filterMap.mp hs
    obtain ⟨key, -, rfl⟩ := Option.map_eq_some_iff.mp hr
    exact ⟨by simp, rfl⟩
  ids := t.ids.sublist (migrated_ids_sublist t.rows)
  psks := by
    rw [migrated_psks]
    exact hkeys.map fun _ _ h => Option.some.inj h

/-! ### Where the rows are -/

/-- `clients` is the new table and holds `rows`. -/
def Holds (rows : List ClientRow) (db : MigrationDb) : Prop := ∃ t, db.clients = some t ∧ Migrated rows t

/-- `clients` is still the table with the `vkey`, and `rows` are what a copy takes of it. -/
def Pending (rows : List ClientRow) (db : MigrationDb) : Prop :=
  ∃ t, db.clients = some t ∧ t.vkey = true ∧ t.rows.filterMap ClientRow.migrated = rows

theorem createTableIfNotExists_clients {table : String × List String} {db db' : MigrationDb}
    (h : createTableIfNotExists table db = some db') : db'.clients = db.clients := by
  unfold createTableIfNotExists at h
  split at h
  · rw [Option.some.inj h]
  · rw [← Option.some.inj h]

theorem clientsColumns_eq {db : MigrationDb} {t : ClientsTable} (h : db.clients = some t) :
    clientsColumns db = (t.psk, t.vkey) := by
  rw [clientsColumns, h]

theorem ensureColumns_keeps {I : MigrationDb → Prop} (hI : ∀ db db', db'.clients = db.clients → I db → I db')
    (columns : List (String × String)) : Program.Keeps I (ensureColumns columns) := by
  induction columns with
  | nil => exact .pure ()
  | cons c rest ih =>
    refine .bind (.bind (.query _) fun columns => .ite (.pure ()) (.execute ?_)) fun _ => ih
    intro db db' hdb h
    exact hI db db' (by rw [← Option.some.inj h]) hdb

theorem Holds.of_clients {rows : List ClientRow} {db db' : MigrationDb} (h : db'.clients = db.clients)
    (hdb : Holds rows db) : Holds rows db' := by
  obtain ⟨t, ht, hm⟩ := hdb
  exact ⟨t, h.trans ht, hm⟩

theorem createPskIndex_holds {rows : List ClientRow} {db db' : MigrationDb} (hdb : Holds rows db)
    (h : createPskIndex db = some db') : Holds rows db' := by
  unfold createPskIndex at h
  split at h
  · rwa [← Option.some.inj h]
  · obtain ⟨t, ht, hm⟩ := hdb
    simp only [ht] at h
    split at h
    · rw [← Option.some.inj h]
      exact ⟨_, rfl, hm.psk, hm.vkey, hm.rows_eq⟩
    · cases h

/-- Once `clients` is the new table, no statement of a start touches its rows. -/
theorem migrateTables_keeps (rows : List ClientRow) : Program.Keeps (Holds rows) migrateTables := by
  refine .bind (.all ?_) fun _ => .bind (.query_bind ?_) fun _ => ensureColumns_keeps (fun _ _ => .of_clients) _
  · intro f hf db db' hdb h
    obtain ⟨table, -, rfl⟩ := List.mem_map.mp hf
    exact hdb.of_clients (createTableIfNotExists_clients h)
  · rintro db ⟨t, ht, hm⟩
    rw [clientsColumns_eq ht, hm.psk, hm.vkey]
    exact .bind (.pure ()) fun _ => .bind (.pure ()) fun _ => .execute fun _ _ => createPskIndex_holds

theorem migrate_states {db db' : MigrationDb} (h : createClientsIfNotExists db = some db') :
    (migrate db).states = db' :: (migrateTables db').states := by
  rw [migrate, Program.execute_bind h]

theorem migrate_keeps (rows : List ClientRow) : Program.Keeps (Holds rows) migrate := by
  refine .bind (.execute ?_) fun _ => migrateTables_keeps rows
  rintro db db' ⟨t, ht, hm⟩ h
  rw [createClientsIfNotExists, ht] at h
  rw [← Option.some.inj h]
  exact ⟨t, ht, hm⟩

/-- A start that finds no `clients` leaves an empty one. -/
theorem migrate_none {db : MigrationDb} (h : db.clients = none) :
    ∀ t ∈ (migrate db).states, Holds [] t := by
  have hcreate : createClientsIfNotExists db = some {db with clients := some emptyClients} := by
    rw [createClientsIfNotExists, h]
  have hempty : Holds [] {db with clients := some emptyClients} := ⟨emptyClients, rfl, rfl, rfl, rfl⟩
  intro t ht
  rw [migrate_states hcreate] at ht
  rcases List.mem_cons.mp ht with rfl | ht
  · exact hempty
  · exact migrateTables_keeps [] _ hempty t ht

/-! ### A start that finds a `vkey` -/

/-- The states around the rename: up to it `clients` is the old table, behind it there
is none, behind the creation an empty one, and from the copy on the new one. -/
structure Rebuild (rows : List ClientRow) (before : Nat) (states : List MigrationDb) : Prop where
  split : ∃ first renamed created rest, states = first ++ renamed :: created :: rest ∧ first.length = before ∧
    (∀ db ∈ first, Pending rows db) ∧ renamed.clients = none ∧ Holds [] created ∧
    rest ≠ [] ∧ ∀ db ∈ rest, Holds rows db

theorem Rebuild.prepend {rows : List ClientRow} {before : Nat} {states earlier : List MigrationDb}
    (h : Rebuild rows before states) (hearlier : ∀ db ∈ earlier, Pending rows db) :
    Rebuild rows (earlier.length + before) (earlier ++ states) := by
  obtain ⟨first, renamed, created, rest, rfl, rfl, hfirst, hrenamed, hcreated, hne, hrest⟩ := h.split
  refine ⟨earlier ++ first, renamed, created, rest, by simp, by simp, ?_, hrenamed, hcreated, hne, hrest⟩
  intro db hdb
  rcases List.mem_append.mp hdb with hdb | hdb
  · exact hearlier db hdb
  · exact hfirst db hdb

theorem Rebuild.append {rows : List ClientRow} {before : Nat} {states later : List MigrationDb}
    (h : Rebuild rows before states) (hlater : ∀ db ∈ later, Holds rows db) :
    Rebuild rows before (states ++ later) := by
  obtain ⟨first, renamed, created, rest, rfl, rfl, hfirst, hrenamed, hcreated, hne, hrest⟩ := h.split
  refine ⟨first, renamed, created, rest ++ later, by simp, rfl, hfirst, hrenamed, hcreated, by simp [hne], ?_⟩
  intro db hdb
  rcases List.mem_append.mp hdb with hdb | hdb
  · exact hrest db hdb
  · exact hlater db hdb

theorem Rebuild.last {rows : List ClientRow} {before : Nat} {t : Trace MigrationDb Unit} {db : MigrationDb}
    (h : Rebuild rows before t.states) : Holds rows (Program.lastState t db) := by
  obtain ⟨first, renamed, created, rest, hstates, -, -, -, -, hne, hrest⟩ := h.split
  obtain ⟨u, hu⟩ := Option.ne_none_iff_exists'.mp (mt List.getLast?_eq_none_iff.mp hne)
  have hlast : Program.lastState t db = u := by
    rw [Program.lastState, hstates, List.append_cons, List.append_cons, List.getLast?_append, hu]
    rfl
  rw [hlast]
  exact hrest u (List.mem_of_getLast? hu)

theorem rebuild_states {db : MigrationDb} {t : ClientsTable} (h : db.clients = some t) (hvkey : t.vkey = true)
    (hkeys : (t.rows.filterMap ClientRow.key).Nodup) :
    Rebuild (t.rows.filterMap ClientRow.migrated) 2 (rebuild db).states := by
  obtain ⟨clients, legacy, new, others⟩ := db
  obtain rfl : clients = some t := h
  have hempty : Migrated [] emptyClients := ⟨rfl, rfl, rfl⟩
  have hcopy := foldl_insertOrIgnore (t.copyable hkeys) hempty
  have hpending : ∀ legacy new, Pending (t.rows.filterMap ClientRow.migrated) ⟨some t, legacy, new, others⟩ :=
    fun _ _ => ⟨t, rfl, hvkey, rfl⟩
  have hholds : ∀ legacy new, Holds (t.rows.filterMap ClientRow.migrated)
      ⟨some ((t.rows.filterMap ClientRow.migrated).foldl ClientsTable.insertOrIgnore emptyClients), legacy, new,
        others⟩ := fun _ _ => ⟨_, rfl, hcopy⟩
  refine ⟨[_, _], ⟨none, some t, none, others⟩, ⟨some emptyClients, some t, none, others⟩, [_, _], rfl, rfl, ?_, rfl,
    ⟨emptyClients, rfl, rfl, rfl, rfl⟩, by simp, ?_⟩
  · intro db hdb
    rcases List.mem_pair.mp hdb with rfl | rfl
    · exact hpending _ _
    · exact hpending _ _
  · intro db hdb
    rcases List.mem_pair.mp hdb with rfl | rfl
    · exact hholds _ _
    · exact hholds _ _

theorem addPskColumn_eq {db : MigrationDb} {t : ClientsTable} (h : db.clients = some t) (hpsk : t.psk = false) :
    addPskColumn db = some {db with clients := some t.addPsk} := by
  simp [addPskColumn, h, hpsk]

theorem migrateClientsPsk_states {db : MigrationDb} {t : ClientsTable} (h : db.clients = some t)
    (hvkey : t.vkey = true) (hkeys : (t.rows.filterMap ClientRow.key).Nodup) :
    Rebuild (t.rows.filterMap ClientRow.migrated) (1 + (if t.psk then 0 else 1) + 2) (migrateClientsPsk db).states := by
  have hpending : Pending (t.rows.filterMap ClientRow.migrated) db := ⟨t, h, hvkey, rfl⟩
  have hindex : ∀ _ : Unit, Program.Keeps (Holds (t.rows.filterMap ClientRow.migrated))
      (Program.execute createPskIndex) := fun _ => .execute fun _ _ => createPskIndex_holds
  rw [migrateClientsPsk, Program.query_bind, clientsColumns_eq h, hvkey]
  cases hpsk : t.psk with
  | true =>
    have hrebuild := rebuild_states h hvkey hkeys
    obtain ⟨later, hlater, hholds⟩ := Program.bind_states rebuild hindex (s := db) hrebuild.last
    have hearlier : ∀ d ∈ [db], Pending (t.rows.filterMap ClientRow.migrated) d := by simpa using hpending
    have hall := (hrebuild.append hholds).prepend hearlier
    rw [← hlater] at hall
    exact hall
  | false =>
    have hadded : Pending (t.rows.filterMap ClientRow.migrated) {db with clients := some t.addPsk} :=
      ⟨t.addPsk, rfl, hvkey, rfl⟩
    have hclients : ({db with clients := some t.addPsk} : MigrationDb).clients = some t.addPsk := rfl
    have hrebuild := rebuild_states hclients hvkey hkeys
    obtain ⟨later, hlater, hholds⟩ :=
      Program.bind_states rebuild hindex (s := {db with clients := some t.addPsk}) hrebuild.last
    have hearlier : ∀ d ∈ [db, {db with clients := some t.addPsk}], Pending (t.rows.filterMap ClientRow.migrated) d := by
      intro d hd
      rcases List.mem_pair.mp hd with rfl | rfl
      · exact hpending
      · exact hadded
    have hall := (hrebuild.append hholds).prepend hearlier
    rw [← hlater] at hall
    simp only [Bool.false_eq_true, if_false, if_true]
    rw [Program.execute_bind (addPskColumn_eq h hpsk)]
    exact hall

/-- The number of statements of a start up to the rename: nine tables, the look at the
columns, `psk` where it is missing, and the two drops and the rename. -/
def renameAt (t : ClientsTable) : Nat := 9 + 1 + (if t.psk then 0 else 1) + 3

theorem migrate_rebuilds {db : MigrationDb} {t : ClientsTable} (h : db.clients = some t) (hvkey : t.vkey = true)
    (hkeys : (t.rows.filterMap ClientRow.key).Nodup) :
    ∃ before, before + 1 = renameAt t ∧
      Rebuild (t.rows.filterMap ClientRow.migrated) before (migrate db).states := by
  have hcreate : createClientsIfNotExists db = some db := by rw [createClientsIfNotExists, h]
  have htotal : ∀ f ∈ otherTables.map createTableIfNotExists, ∀ d, d.clients = some t →
      ∃ d', f d = some d' ∧ d'.clients = some t := by
    intro f hf d hd
    obtain ⟨table, -, rfl⟩ := List.mem_map.mp hf
    cases hd' : createTableIfNotExists table d with
    | none =>
      unfold createTableIfNotExists at hd'
      split at hd' <;> cases hd'
    | some d' => exact ⟨d', rfl, (createTableIfNotExists_clients hd').trans hd⟩
  obtain ⟨hresult, hlength, hstates⟩ := Program.all_of_total htotal h
  have hlast : (Program.lastState (Program.all (otherTables.map createTableIfNotExists) db) db).clients = some t := by
    rcases Program.mem_states_or_self (Program.all (otherTables.map createTableIfNotExists)) db with heq | hmem
    · rw [heq]
      exact h
    · exact hstates _ hmem
  have hpsk := migrateClientsPsk_states hlast hvkey hkeys
  obtain ⟨later, hlater, hholds⟩ := Program.bind_states migrateClientsPsk
    (fun _ => ensureColumns_keeps (fun _ _ => Holds.of_clients) quotaColumns) hpsk.last
  have hpending : ∀ d, d.clients = some t → Pending (t.rows.filterMap ClientRow.migrated) d :=
    fun d hd => ⟨t, hd, hvkey, rfl⟩
  have hearlier : ∀ d ∈ db :: (Program.all (otherTables.map createTableIfNotExists) db).states,
      Pending (t.rows.filterMap ClientRow.migrated) d := by
    intro d hd
    rcases List.mem_cons.mp hd with rfl | hd
    · exact hpending _ h
    · exact hpending d (hstates d hd)
  have hall := (hpsk.append hholds).prepend hearlier
  have hcount : (db :: (Program.all (otherTables.map createTableIfNotExists) db).states).length +
      (1 + (if t.psk then 0 else 1) + 2) + 1 = renameAt t := by
    rw [List.length_cons, hlength, renameAt]
    simp only [otherTables, List.map_cons, List.map_nil, List.length_cons, List.length_nil]
    omega
  refine ⟨_, hcount, ?_⟩
  rw [migrate_states hcreate, migrateTables, Program.bind_of_result hresult, hlater]
  exact hall

/-! ### Starts that are cut off -/

/-- A start on `db` that is cut behind `n` statements stops behind the rename and before
the copy. -/
def cutsCopy (db : MigrationDb) (n : Nat) : Bool :=
  match db.clients with
  | some t => t.vkey && (n == renameAt t || n == renameAt t + 1)
  | none => false

/-- No start of the sequence stops there. -/
def Spared : MigrationDb → List Nat → Prop
  | _, [] => True
  | db, n :: rest => cutsCopy db n = false ∧ Spared (migrate.cut n db) rest

/-- Neither `clients` nor a statement of `migrate` holds the rows any more. -/
def Gone (db : MigrationDb) : Prop := db.clients = none ∨ Holds [] db

theorem gone_cut {db : MigrationDb} (h : Gone db) (n : Nat) : Gone (migrate.cut n db) := by
  rcases h with h | h
  · rcases Program.cut_eq_or_mem migrate n db with heq | hmem
    · rw [heq]
      exact .inl h
    · exact .inr (migrate_none h _ hmem)
  · exact .inr ((migrate_keeps []).cut h n)

theorem gone_complete {db : MigrationDb} (h : Gone db) : Holds [] (migrate.complete db) := by
  rcases h with h | h
  · have hcreate : createClientsIfNotExists db = some {db with clients := some emptyClients} := by
      rw [createClientsIfNotExists, h]
    have hne : (migrate db).states ≠ [] := by
      rw [migrate_states hcreate]
      exact List.cons_ne_nil _ _
    exact migrate_none h _ (Program.complete_mem (List.nil_append _).symm hne)
  · exact (migrate_keeps []).last h

/-- Distinct keys, read off the rows to be copied. -/
theorem keys_nodup {rows : List ClientRow} (hc : Copyable (rows.filterMap ClientRow.migrated)) :
    (rows.filterMap ClientRow.key).Nodup := by
  have := hc.psks
  rw [migrated_psks] at this
  exact this.of_map _

theorem pending_cut {rows : List ClientRow} {db : MigrationDb} (hc : Copyable rows) (h : Pending rows db) (n : Nat) :
    (cutsCopy db n = false → Pending rows (migrate.cut n db) ∨ Holds rows (migrate.cut n db)) ∧
      (cutsCopy db n = true → Gone (migrate.cut n db)) := by
  obtain ⟨t, ht, hvkey, rfl⟩ := h
  have hpending : Pending (t.rows.filterMap ClientRow.migrated) db := ⟨t, ht, hvkey, rfl⟩
  have hcopy : cutsCopy db n = (n == renameAt t || n == renameAt t + 1) := by simp [cutsCopy, ht, hvkey]
  obtain ⟨before, hbefore, hrebuild⟩ := migrate_rebuilds ht hvkey (keys_nodup hc)
  obtain ⟨first, renamed, created, rest, hstates, rfl, hfirst, hrenamed, hcreated, hne, hrest⟩ := hrebuild.split
  rw [hcopy, ← hbefore, Bool.or_eq_false_iff, Bool.or_eq_true, beq_eq_false_iff_ne, beq_eq_false_iff_ne,
    beq_iff_eq, beq_iff_eq]
  constructor
  · intro hboth
    obtain ⟨hrename, hcreate⟩ := hboth
    by_cases hn : n ≤ first.length
    · rcases Program.cut_of_le hstates hn with heq | hmem
      · rw [heq]
        exact .inl hpending
      · exact .inl (hfirst _ hmem)
    · have hsplit : (migrate db).states = (first ++ [renamed, created]) ++ rest := by simp [hstates]
      have hlen : (first ++ [renamed, created]).length < n := by
        simp only [List.length_append, List.length_cons, List.length_nil]
        omega
      exact .inr (hrest _ (Program.cut_of_lt hsplit hne hlen))
  · intro hboth
    obtain rfl | rfl := hboth
    · have hcut : migrate.cut (first.length + 1) db = renamed := Program.cut_eq_getElem (by simp [hstates])
      exact .inl (hcut ▸ hrenamed)
    · have hcut : migrate.cut (first.length + 1 + 1) db = created := Program.cut_eq_getElem (by simp [hstates])
      exact .inr (hcut ▸ hcreated)

theorem pending_complete {rows : List ClientRow} {db : MigrationDb} (hc : Copyable rows) (h : Pending rows db) :
    Holds rows (migrate.complete db) := by
  obtain ⟨t, ht, hvkey, rfl⟩ := h
  obtain ⟨before, -, hrebuild⟩ := migrate_rebuilds ht hvkey (keys_nodup hc)
  exact hrebuild.last

theorem holds_spared {rows : List ClientRow} {db : MigrationDb} (h : Holds rows db) (ns : List Nat) :
    Spared db ns ∧ Holds rows (migrate.cuts ns db) := by
  induction ns generalizing db with
  | nil => exact ⟨trivial, h⟩
  | cons n rest ih =>
    obtain ⟨t, ht, hm⟩ := h
    have hnext := ih ((migrate_keeps rows).cut ⟨t, ht, hm⟩ n)
    exact ⟨⟨by simp [cutsCopy, ht, hm.vkey], hnext.1⟩, hnext.2⟩

theorem gone_cuts {db : MigrationDb} (h : Gone db) (ns : List Nat) : Gone (migrate.cuts ns db) := by
  induction ns generalizing db with
  | nil => exact h
  | cons n rest ih => exact ih (gone_cut h n)

/-- The starts as a whole: the rows wait or are copied while the copy is spared, and are
gone for good once it is not. -/
theorem pending_cuts {rows : List ClientRow} {db : MigrationDb} (hc : Copyable rows) (h : Pending rows db)
    (ns : List Nat) :
    (Spared db ns → Pending rows (migrate.cuts ns db) ∨ Holds rows (migrate.cuts ns db)) ∧
      (¬ Spared db ns → Gone (migrate.cuts ns db)) := by
  induction ns generalizing db with
  | nil => exact ⟨fun _ => .inl h, fun hn => absurd trivial hn⟩
  | cons n rest ih =>
    obtain ⟨hspared, hcut⟩ := pending_cut hc h n
    cases hn : cutsCopy db n with
    | true => exact ⟨fun hs => by simp [Spared, hn] at hs, fun _ => gone_cuts (hcut hn) rest⟩
    | false =>
      have hiff : Spared db (n :: rest) ↔ Spared (migrate.cut n db) rest := by simp [Spared, hn]
      rw [hiff]
      rcases hspared hn with hp | hh
      · exact ih hp
      · have hnext := holds_spared hh rest
        exact ⟨fun _ => .inr hnext.2, fun hns => absurd hnext.1 hns⟩

/-- **What a legacy database becomes.** After any starts that were cut off and one that
was not, `clients` holds the legacy rows with a key, each under its effective key and
otherwise unchanged, exactly if no start was cut off between the rename and the copy (or
there was nothing to lose). -/
theorem migrated_iff {db : MigrationDb} {t : ClientsTable} (h : db.clients = some t) (hvkey : t.vkey = true)
    (hkeys : (t.rows.filterMap ClientRow.key).Nodup) (ns : List Nat) :
    (∃ t', (migrate.complete (migrate.cuts ns db)).clients = some t' ∧
      t'.rows = t.rows.filterMap ClientRow.migrated) ↔ Spared db ns ∨ ∀ r ∈ t.rows, r.key = none := by
  have hc := t.copyable hkeys
  obtain ⟨hspared, hgone⟩ := pending_cuts hc ⟨t, h, hvkey, rfl⟩ ns
  by_cases hs : Spared db ns
  · have hholds : Holds (t.rows.filterMap ClientRow.migrated) (migrate.complete (migrate.cuts ns db)) := by
      rcases hspared hs with hp | hh
      · exact pending_complete hc hp
      · exact (migrate_keeps _).last hh
    obtain ⟨t', ht', hm⟩ := hholds
    exact ⟨fun _ => .inl hs, fun _ => ⟨t', ht', hm.rows_eq⟩⟩
  · obtain ⟨t', ht', hm⟩ := gone_complete (hgone hs)
    have hnone : (t.rows.filterMap ClientRow.migrated = []) ↔ ∀ r ∈ t.rows, r.key = none := by
      simp [List.filterMap_eq_nil_iff, ClientRow.migrated]
    rw [← hnone]
    constructor
    · intro hboth
      obtain ⟨t'', ht'', hrows⟩ := hboth
      rw [ht', Option.some.injEq] at ht''
      rw [← hrows, ← ht'', hm.rows_eq]
      exact .inr rfl
    · intro hboth
      obtain hspare | hempty := hboth
      · exact absurd hspare hs
      · exact ⟨t', ht', hm.rows_eq.trans hempty.symm⟩

/-! ### One client -/

def sampleRow : ClientRow where
  id := "a"
  psk := none
  vkey := some "secret"
  enabled := 1
  remark := none
  maxConnections := none
  compress := 0
  encrypt := 0
  createdAt := 0
  updatedAt := 0

def sampleTable : ClientsTable where
  psk := false
  vkey := true
  pskIndex := false
  rows := [sampleRow]
  ids := by decide
  noPsk := by decide
  noVkey := by decide

def sampleDb : MigrationDb := ⟨some sampleTable, none, none, []⟩

/-- The theorem where a start is cut behind the missing column and the next one behind
the copy. -/
theorem migrated_iff_spared : ∃ t', (migrate.complete (migrate.cuts [11, 15] sampleDb)).clients = some t' ∧
    t'.rows = [{sampleRow with psk := some "secret", vkey := none}] :=
  (migrated_iff (t := sampleTable) rfl rfl (by decide) [11, 15]).mpr
    (.inl ⟨by decide +kernel, by decide +kernel, trivial⟩)

/-- A start cut right behind the rename loses the client. -/
theorem migration_loses_clients :
    ¬ ∀ (db : MigrationDb) (t : ClientsTable), db.clients = some t → t.vkey = true →
      (t.rows.filterMap ClientRow.key).Nodup → ∀ ns : List Nat,
        ∃ t', (migrate.complete (migrate.cuts ns db)).clients = some t' ∧
          t'.rows = t.rows.filterMap ClientRow.migrated := by
  intro h
  obtain ⟨t', ht', hrows⟩ := h sampleDb sampleTable rfl rfl (by decide) [14]
  have hlost : ((migrate.complete (migrate.cuts [14] sampleDb)).clients.map ClientsTable.rows) = some [] := by
    decide +kernel
  rw [ht', Option.map_some, hrows] at hlost
  exact absurd hlost (by decide +kernel)

end Rps.Controller.Migration
