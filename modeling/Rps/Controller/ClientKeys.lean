import Rps.Controller.WebSessions
import Rps.Core.Psk

/-! The keys of the clients.

An agent proves who it is by the key of its client, so a stored key has to be one, and no two
clients may have the same. The schema makes the text of a key unique, but the handshake uses
the bytes the text is decoded to, and a text may be spelled with small letters or capitals and
with blanks around it. Three statements write the column: `seed_from_config` and
`create_client` store the text as it comes, `update_client` trims it, and none of them decodes it.

`keys_sound`: the keys of a run are usable and distinct exactly as long as every text that is
written is the digits of a key, and no other client has these digits in another spelling. -/
namespace Rps.Controller.ClientKeys
open Base Rps.Core WebSessions

structure Client where
  id : String
  psk : String
  enabled : Bool
  deriving DecidableEq

/-- The table `clients`. Its rows have no order: `list_clients` sorts them. -/
structure Clients where
  rows : List Client
  ids : (rows.map Client.id).Nodup
  psks : (rows.map Client.psk).Nodup

/-- A column stays unique where a row takes the place of those with its id. -/
theorem nodup_put {β : Type} {rows : List Client} {c : Client} (f : Client → β) (h : (rows.map f).Nodup)
    (hnew : ∀ r ∈ rows, r.id ≠ c.id → f r ≠ f c) : ((rows.filter (·.id ≠ c.id) ++ [c]).map f).Nodup := by
  rw [List.map_append, List.nodup_append]
  refine ⟨h.sublist (List.filter_sublist.map f), List.nodup_singleton _, ?_⟩
  intro x hx y hy
  obtain ⟨r, hr, rfl⟩ := List.mem_map.mp hx
  obtain rfl : y = f c := List.mem_singleton.mp hy
  rw [List.mem_filter] at hr
  exact hnew r hr.1 (by simpa using hr.2)

namespace Clients

def empty : Clients := ⟨[], List.nodup_nil, List.nodup_nil⟩

/-- `get_client` finds a row. -/
def Has (t : Clients) (id : String) : Prop := id ∈ t.rows.map Client.id

/-- The text is another client's. -/
def Taken (t : Clients) (c : Client) : Prop := ∃ r ∈ t.rows, r.id ≠ c.id ∧ r.psk = c.psk

instance (t : Clients) (id : String) : Decidable (t.Has id) := List.instDecidableMemOfLawfulBEq ..

instance (t : Clients) (c : Client) : Decidable (t.Taken c) := List.decidableBEx ..

/-- `c` takes the place of the row with its id; `none` is the error of the unique column. -/
def put (t : Clients) (c : Client) : Option Clients :=
  if h : t.Taken c then none
  else some
    { rows := t.rows.filter (·.id ≠ c.id) ++ [c]
      ids := nodup_put Client.id t.ids fun _ _ hne => hne
      psks := nodup_put Client.psk t.psks fun r hr hne heq => h ⟨r, hr, hne, heq⟩ }

/-- `insert into clients .. on conflict(id) do update`. -/
def insertConfigClient (t : Clients) (client : Client) : Option Clients := t.put client

/-- `insert into clients`. -/
def createClient (t : Clients) (input : Client) : Option Clients := if t.Has input.id then none else t.put input

/-- `update clients .. where id = ?`; `none` also where no row is affected. -/
def updateClient (t : Clients) (input : Client) : Option Clients := if t.Has input.id then t.put input else none

/-- `delete from clients where id = ?`. -/
def deleteClient (t : Clients) (id : String) : Option Clients :=
  if t.Has id then some
    { rows := t.rows.filter (·.id ≠ id)
      ids := t.ids.sublist (List.filter_sublist.map _)
      psks := t.psks.sublist (List.filter_sublist.map _) }
  else none

def findEnabledClientById (t : Clients) (id : String) : Option Client :=
  t.rows.find? fun r => r.enabled && r.id = id

/-- An agent with `key` is let in as client `id`: the handshake succeeds where both ends have the same key. -/
def Admits (t : Clients) (id : String) (key : Bytes) : Prop :=
  ∃ c, t.findEnabledClientById id = some c ∧ decodePsk c.psk = .ok key

end Clients

/-! ### The requests -/

structure CreateClientRequest where
  psk : Option String
  enabled : Option Bool

structure UpdateClientRequest where
  psk : String
  enabled : Bool

/-- A random id without hyphens. -/
def simple (u : Uuid) : List Char := u.digits.toList.map hexDigit

def randomPsk (a b : Uuid) : String := String.ofList (simple a ++ simple b)

/-- The statements that write the table. -/
inductive Statement where
  | insertConfigClient (client : Client)
  | createClient (input : Client)
  | updateClient (input : Client)
  | deleteClient (id : String)

def Statement.execute (t : Clients) : Statement → Option Clients
  | insertConfigClient client => t.insertConfigClient client
  | createClient input => t.createClient input
  | updateClient input => t.updateClient input
  | deleteClient id => t.deleteClient id

/-- The operations of a run. A creation draws an id and two numbers for a random key; `refused` is what
`delete_client` finds elsewhere: the client is online or referred to. -/
inductive Action where
  | seedFromConfig (clients : List Client)
  | createClient (request : CreateClientRequest) (id a b : Uuid)
  | updateClient (id : String) (request : UpdateClientRequest)
  | deleteClient (id : String) (refused : Bool)

/-- What an operation executes, up to the first statement that fails. -/
def Action.statements : Action → List Statement
  | seedFromConfig clients => clients.map .insertConfigClient
  | createClient request id a b =>
    let psk := (request.psk.filter fun value => trim value.toList ≠ []).getD (randomPsk a b)
    [.createClient ⟨id.toString, psk, request.enabled.getD true⟩]
  | updateClient id request =>
    let psk := trim request.psk.toList
    if psk = [] then [] else [.updateClient ⟨id, String.ofList psk, request.enabled⟩]
  | deleteClient id refused => if refused then [] else [.deleteClient id]

/-- The table behind each statement. -/
def execute (t : Clients) : List Statement → List Clients
  | [] => []
  | st :: rest =>
    match st.execute t with
    | some t' => t' :: execute t' rest
    | none => []

def Action.result (t : Clients) (a : Action) : Clients := (execute t a.statements).getLastD t

/-- Every table of a run, from the one it begins with. -/
def tables (t : Clients) : List Action → List Clients
  | [] => [t]
  | a :: rest => t :: execute t a.statements ++ tables (a.result t) rest

/-! ### What is asked of the keys -/

/-- Every key is one, and one client has it. -/
structure Sound (t : Clients) : Prop where
  usable : ∀ c ∈ t.rows, ∃ key, decodePsk c.psk = .ok key
  distinct : ∀ c ∈ t.rows, ∀ d ∈ t.rows, ∀ key, decodePsk c.psk = .ok key → decodePsk d.psk = .ok key → c.id = d.id

/-- The text of `c` is 64 digits, and no other client has them in another spelling. -/
structure NewKey (t : Clients) (c : Client) : Prop where
  length : (trim c.psk.toList).length = pskHexLen
  digits : ∀ ch ∈ trim c.psk.toList, Hex.IsDigit ch
  other : ∀ r ∈ t.rows, r.id ≠ c.id → eqIgnoreAsciiCase (trim r.psk.toList) (trim c.psk.toList) = false

/-- What a statement has to store, unless its id or its text makes it fail. -/
def Statement.Meets (t : Clients) : Statement → Prop
  | insertConfigClient client => ¬ t.Taken client → NewKey t client
  | createClient input => ¬ t.Has input.id → ¬ t.Taken input → NewKey t input
  | updateClient input => t.Has input.id → ¬ t.Taken input → NewKey t input
  | deleteClient _ => True

def AllMeet (t : Clients) : List Statement → Prop
  | [] => True
  | st :: rest => st.Meets t ∧ ∀ t', st.execute t = some t' → AllMeet t' rest

def Meets (t : Clients) : List Action → Prop
  | [] => True
  | a :: rest => AllMeet t a.statements ∧ Meets (a.result t) rest

/-! ### One statement -/

theorem put_eq_none {t : Clients} {c : Client} : t.put c = none ↔ t.Taken c := by
  unfold Clients.put
  split <;> simp [*]

theorem not_taken_of_put {t t' : Clients} {c : Client} (h : t.put c = some t') : ¬ t.Taken c := by
  rw [← put_eq_none, h]
  simp

theorem put_rows {t t' : Clients} {c : Client} (h : t.put c = some t') (r : Client) :
    r ∈ t'.rows ↔ r = c ∨ r ∈ t.rows ∧ r.id ≠ c.id := by
  unfold Clients.put at h
  split at h
  · cases h
  · cases h
    simp [or_comm]

/-- Two texts of the same key, as far as both are one. -/
theorem sameKey_iff {a b : String} {key : Bytes} (ha : decodePsk a = .ok key) (hb : ∃ key, decodePsk b = .ok key) :
    decodePsk b = .ok key ↔ eqIgnoreAsciiCase (trim a.toList) (trim b.toList) = true := by
  obtain ⟨key', hb⟩ := hb
  have hspelled := Hex.decode_eq_decode (decodePsk_eq_ok.mp ha).2 (decodePsk_eq_ok.mp hb).2
  rw [eqIgnoreAsciiCase, decide_eq_true_iff, ← hspelled, hb, Checked.ok.injEq, eq_comm]

/-- The written key decides whether the keys stay sound. -/
theorem sound_put_iff {t t' : Clients} {c : Client} (ht : Sound t) (h : t.put c = some t') :
    Sound t' ↔ NewKey t c := by
  have hrows := put_rows h
  constructor
  · intro hsound
    have hc : c ∈ t'.rows := (hrows c).mpr (.inl rfl)
    obtain ⟨key, hkey⟩ := hsound.usable c hc
    obtain ⟨hlength, hdigits⟩ := decodePsk_isOk.mp ⟨key, hkey⟩
    refine ⟨hlength, hdigits, ?_⟩
    intro r hr hne
    rw [← Bool.not_eq_true]
    intro hsame
    have hr' : r ∈ t'.rows := (hrows r).mpr (.inr ⟨hr, hne⟩)
    obtain ⟨key', hkey'⟩ := hsound.usable r hr'
    exact hne (hsound.distinct r hr' c hc key' hkey' ((sameKey_iff hkey' ⟨key, hkey⟩).mpr hsame))
  · intro hnew
    have hok := decodePsk_isOk.mpr ⟨hnew.length, hnew.digits⟩
    -- no other row has the key of the new one
    have hother (r : Client) (hr : r ∈ t.rows) (hne : r.id ≠ c.id) (key : Bytes) (hkey : decodePsk r.psk = .ok key)
        (hc : decodePsk c.psk = .ok key) : False := by
      have hsame := (sameKey_iff hkey hok).mp hc
      rw [hnew.other r hr hne] at hsame
      cases hsame
    refine ⟨?_, ?_⟩
    · intro r hr
      rcases (hrows r).mp hr with rfl | ⟨hr, -⟩
      · exact hok
      · exact ht.usable r hr
    · intro r hr d hd key hkr hkd
      rcases (hrows r).mp hr with rfl | ⟨hr, hrne⟩ <;> rcases (hrows d).mp hd with rfl | ⟨hd, hdne⟩
      · rfl
      · exact (hother d hd hdne key hkd hkr).elim
      · exact (hother r hr hrne key hkr hkd).elim
      · exact ht.distinct r hr d hd key hkr hkd

theorem sound_deleteClient {t t' : Clients} {id : String} (ht : Sound t) (h : t.deleteClient id = some t') :
    Sound t' := by
  unfold Clients.deleteClient at h
  split at h
  · cases h
    refine ⟨?_, ?_⟩
    · intro c hc
      exact ht.usable c (List.mem_of_mem_filter hc)
    · intro c hc d hd
      exact ht.distinct c (List.mem_of_mem_filter hc) d (List.mem_of_mem_filter hd)
  · cases h

theorem createClient_eq_some {t t' : Clients} {input : Client} (h : t.createClient input = some t') :
    ¬ t.Has input.id ∧ t.put input = some t' := by
  unfold Clients.createClient at h
  split at h
  · cases h
  · rename_i hid
    exact ⟨hid, h⟩

theorem updateClient_eq_some {t t' : Clients} {input : Client} (h : t.updateClient input = some t') :
    t.Has input.id ∧ t.put input = some t' := by
  unfold Clients.updateClient at h
  split at h
  · rename_i hid
    exact ⟨hid, h⟩
  · cases h

/-- A statement that is executed keeps the keys sound exactly if it meets the condition. -/
theorem sound_execute_iff {t t' : Clients} {st : Statement} (ht : Sound t) (h : st.execute t = some t') :
    Sound t' ↔ st.Meets t := by
  cases st with
  | insertConfigClient client =>
    have hput : t.put client = some t' := h
    rw [sound_put_iff ht hput]
    exact ⟨fun hnew _ => hnew, fun hmeets => hmeets (not_taken_of_put hput)⟩
  | createClient input =>
    obtain ⟨hid, hput⟩ := createClient_eq_some h
    rw [sound_put_iff ht hput]
    exact ⟨fun hnew _ _ => hnew, fun hmeets => hmeets hid (not_taken_of_put hput)⟩
  | updateClient input =>
    obtain ⟨hid, hput⟩ := updateClient_eq_some h
    rw [sound_put_iff ht hput]
    exact ⟨fun hnew _ _ => hnew, fun hmeets => hmeets hid (not_taken_of_put hput)⟩
  | deleteClient id => exact iff_of_true (sound_deleteClient ht h) trivial

/-- A statement that fails meets it. -/
theorem meets_of_none {t : Clients} {st : Statement} (h : st.execute t = none) : st.Meets t := by
  cases st with
  | insertConfigClient client =>
    intro htaken
    exact absurd (put_eq_none.mp h) htaken
  | createClient input =>
    intro hid htaken
    rw [Statement.execute, Clients.createClient, if_neg hid] at h
    exact absurd (put_eq_none.mp h) htaken
  | updateClient input =>
    intro hid htaken
    rw [Statement.execute, Clients.updateClient, if_pos hid] at h
    exact absurd (put_eq_none.mp h) htaken
  | deleteClient id => trivial

/-! ### Runs -/

theorem sound_empty : Sound Clients.empty := ⟨by simp [Clients.empty], by simp [Clients.empty]⟩

theorem sound_statements_iff {t : Clients} (ht : Sound t) (sts : List Statement) :
    (∀ t' ∈ execute t sts, Sound t') ↔ AllMeet t sts := by
  induction sts generalizing t with
  | nil => simp [execute, AllMeet]
  | cons st rest ih =>
    rw [execute, AllMeet]
    cases h : st.execute t with
    | none => simp [meets_of_none h]
    | some t' =>
      have hone := sound_execute_iff ht h
      simp only [List.forall_mem_cons, Option.some.injEq, forall_eq']
      constructor
      · intro hall
        exact ⟨hone.mp hall.1, (ih hall.1).mp hall.2⟩
      · intro hall
        have ht' := hone.mpr hall.1
        exact ⟨ht', (ih ht').mpr hall.2⟩

/-- An operation ends with a table of its own, or changes nothing. -/
theorem sound_result {t : Clients} {a : Action} (ht : Sound t) (h : ∀ t' ∈ execute t a.statements, Sound t') :
    Sound (a.result t) := by
  rw [Action.result, List.getLastD_eq_getLast?]
  cases hlast : (execute t a.statements).getLast? with
  | none => exact ht
  | some t' => exact h t' (List.mem_of_getLast? hlast)

theorem sound_tables_iff {t : Clients} (ht : Sound t) (actions : List Action) :
    (∀ t' ∈ tables t actions, Sound t') ↔ Meets t actions := by
  induction actions generalizing t with
  | nil => simp [tables, Meets, ht]
  | cons a rest ih =>
    rw [tables, Meets, ← sound_statements_iff ht]
    simp only [List.cons_append, List.forall_mem_cons, List.forall_mem_append]
    constructor
    · intro h
      exact ⟨h.2.1, (ih (sound_result ht h.2.1)).mp h.2.2⟩
    · intro h
      exact ⟨ht, h.1, (ih (sound_result ht h.1)).mpr h.2⟩

/-- With sound keys the key of a client lets an agent in as that client only. -/
theorem Sound.admits {t : Clients} (ht : Sound t) {c : Client} (hc : c ∈ t.rows) {key : Bytes}
    (hkey : decodePsk c.psk = .ok key) {id : String} (h : t.Admits id key) : id = c.id := by
  obtain ⟨d, hfind, hd⟩ := h
  have hid : d.enabled = true ∧ d.id = id := by
    simpa using List.find?_some hfind
  rw [← hid.2]
  exact ht.distinct d (List.mem_of_find?_eq_some hfind) c hc key hd hkey

/-- A key that is drawn is one. -/
theorem randomPsk_isOk (a b : Uuid) : ∃ key, decodePsk (randomPsk a b) = .ok key := by
  have hdigits : ∀ c ∈ simple a ++ simple b, Hex.IsDigit c := by
    have hall : ∀ d : Fin 16, Hex.IsDigit (hexDigit d) := by decide
    intro c hc
    simp only [simple, List.mem_append, List.mem_map] at hc
    rcases hc with ⟨d, -, rfl⟩ | ⟨d, -, rfl⟩
    · exact hall d
    · exact hall d
  rw [decodePsk_isOk, randomPsk, String.toList_ofList, trim_digits hdigits]
  exact ⟨by simp [simple, pskHexLen, pskLen], hdigits⟩

/-- **Stored keys are usable and distinct exactly as long as what is written is the digits of a key, and of no
other client's key.** -/
theorem keys_sound (actions : List Action) :
    ((∀ t ∈ tables Clients.empty actions, Sound t) ↔ Meets Clients.empty actions) ∧
      (Meets Clients.empty actions → ∀ t ∈ tables Clients.empty actions, ∀ c ∈ t.rows, ∀ key,
        decodePsk c.psk = .ok key → ∀ id, t.Admits id key → id = c.id) := by
  have hiff := sound_tables_iff sound_empty actions
  refine ⟨hiff, ?_⟩
  intro hmeets t ht c hc key hkey id hid
  exact (hiff.mpr hmeets t ht).admits hc hkey hid

/-- 32 bytes `ab`, as `abab..` or as `ABAB..`. -/
def sampleKey : Bytes := List.replicate 32 0xab

def spelled (upper : Bool) : String := String.ofList (Hex.text (fun _ => upper) sampleKey)

/-- A text that is no key is stored, and two clients get one key in two spellings. -/
theorem keys_unsound :
    (¬ ∀ t ∈ tables Clients.empty [.createClient ⟨some "abc", none⟩ ⟨Vector.replicate 32 0⟩ ⟨Vector.replicate 32 1⟩
      ⟨Vector.replicate 32 2⟩], Sound t) ∧
    ¬ ∀ t ∈ tables Clients.empty [.seedFromConfig [⟨"agent-1", spelled false, true⟩, ⟨"agent-2", spelled true, true⟩]],
      Sound t := by
  constructor
  · intro h
    obtain ⟨t, ht, c, hc, hfailed⟩ : ∃ t ∈ tables Clients.empty [.createClient ⟨some "abc", none⟩
        ⟨Vector.replicate 32 0⟩ ⟨Vector.replicate 32 1⟩ ⟨Vector.replicate 32 2⟩],
        ∃ c ∈ t.rows, decodePsk c.psk = .failed "psk must be 64 hex chars" := by decide +kernel
    obtain ⟨key, hkey⟩ := (h t ht).usable c hc
    rw [hfailed] at hkey
    cases hkey
  · intro h
    obtain ⟨t, ht, hsmall, hcapital⟩ : ∃ t ∈ tables Clients.empty [.seedFromConfig
        [⟨"agent-1", spelled false, true⟩, ⟨"agent-2", spelled true, true⟩]],
        ⟨"agent-1", spelled false, true⟩ ∈ t.rows ∧ ⟨"agent-2", spelled true, true⟩ ∈ t.rows := by decide +kernel
    have hid := (h t ht).distinct _ hsmall _ hcapital sampleKey (decodePsk_text rfl _) (decodePsk_text rfl _)
    exact absurd hid (by decide)

end Rps.Controller.ClientKeys
