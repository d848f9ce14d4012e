import Rps.Controller.Bridge

/-! Who is in the registry of clients.

`registry_current`: left to themselves, connections keep the registry right. The entry of
a client is that of the connection that entered itself last, for as long as that one has
not taken itself out, and a parked connection goes to one call of its own client.

`online_enabled`: an entry is that of an enabled client, under the key its connection's
handshake used, whenever no handler of the console is at work. This takes that a
connection enters itself while the row is still as it looked it up, that the row an update
changes has the key the update read before, and that no connection entered itself between
the check of a deletion and the deletion. Nothing in the source sees to any of it
(`offline_online`). -/
namespace Rps.Controller
open Base

namespace Bridge

/-! ### The entries -/

/-- The entry of a client is that of one of its connections, which has entered itself and
not taken itself out, and has a pool of the client. -/
def Wired (s : State) : Prop :=
  ∀ c e, s.clients.lookup c = some e →
    (∃ conn, s.conns[e.conn]? = some conn ∧ conn.clientId = c ∧ conn.session = some e.dataSessionId ∧
      conn.stage.enrolled = true) ∧
    ∃ channel, s.channels[e.pool]? = some channel ∧ channel.clientId = c

/-- The connection is still the same one, and entered. -/
structure Conn.Continues (conn conn' : Conn) : Prop where
  clientId : conn'.clientId = conn.clientId
  session : conn'.session = conn.session
  psk : conn'.psk = conn.psk
  enrolled : conn'.stage.enrolled = true

/-- What an entry was before a step: it was there, and its connection continues, or its
connection has just entered itself. -/
inductive Entered (a : Action) (s t : State) (c : String) (e : ClientConnection) : Prop where
  | old (conn conn' : Conn) : s.clients.lookup c = some e → s.conns[e.conn]? = some conn →
      t.conns[e.conn]? = some conn' → conn.Continues conn' → Entered a s t c e
  | new (conn : Conn) : a = .conn e.conn .insert → s.conns[e.conn]? = some conn → conn.clientId = c →
      conn.session = some e.dataSessionId → t.conns[e.conn]? = some {conn with stage := .online} →
      t.channels[e.pool]? = some ⟨c, []⟩ → t.rows = s.rows → Entered a s t c e

/-- A step that leaves the registry and the entered connections alone. -/
theorem Entered.keep {a : Action} {s t : State} (hw : Wired s) {c : String} {e : ClientConnection}
    (he : s.clients.lookup c = some e)
    (hconns : ∀ conn, s.conns[e.conn]? = some conn → conn.stage.enrolled = true → t.conns[e.conn]? = some conn) :
    Entered a s t c e := by
  obtain ⟨⟨conn, hconn, -, -, henrolled⟩, -⟩ := hw c e he
  exact .old conn conn he hconn (hconns conn hconn henrolled) ⟨rfl, rfl, rfl, henrolled⟩

/-- A connection that is not entered moves. -/
theorem Entered.keep_set {a : Action} {s t : State} (hw : Wired s) {c : String} {e : ClientConnection}
    (he : s.clients.lookup c = some e) {i : Nat} {conn conn' : Conn} (hi : s.conns[i]? = some conn)
    (hnot : conn.stage.enrolled = false) (ht : t.conns = s.conns.set i conn') : Entered a s t c e := by
  refine .keep hw he fun x hx henrolled => ?_
  rw [ht, Heap.get_set hi, if_neg, hx]
  rintro rfl
  rw [hi, Option.some.injEq] at hx
  rw [← hx, hnot] at henrolled
  cases henrolled

theorem Stage.enrolled_of_early {stage : Stage} (h : stage.early = true) : stage.enrolled = false := by
  cases stage <;> first | rfl | cases h

theorem retire_lookup {s : State} {clientId session c : String} {e : ClientConnection}
    (h : (s.retire clientId session).clients.lookup c = some e) :
    s.clients.lookup c = some e ∧ (c = clientId → e.dataSessionId ≠ session) := by
  unfold State.retire at h
  split at h
  · rename_i current hcurrent
    split at h
    · simp only [Table.lookup_erase] at h
      split at h
      · cases h
      · exact ⟨h, fun hc => absurd hc ‹_›⟩
    · rename_i hne
      refine ⟨h, fun hc => ?_⟩
      rw [hc, hcurrent, Option.some.injEq] at h
      rw [← h]
      exact hne
  · rename_i hnone
    refine ⟨h, fun hc => ?_⟩
    rw [hc, hnone] at h
    cases h

theorem retire_channels (s : State) (clientId session : String) :
    (s.retire clientId session).channels = s.channels := by
  unfold State.retire
  split
  · split <;> rfl
  · rfl

theorem park_clients (s : State) (pool i : Nat) : (s.park pool i).clients = s.clients := by
  unfold State.park
  split <;> rfl

theorem moves_entered {a : Action} {s t : State} (hw : Wired s) (h : Moves a s t) {c : String}
    {e : ClientConnection} (he : t.clients.lookup c = some e) : Entered a s t c e := by
  cases h with
  | same => exact .keep hw he fun _ hx _ => hx
  | accept clientId => exact .keep hw he fun _ hx _ => Heap.get_push_of_some hx
  | advance i conn conn' hi hearly _ _ _ _ _ =>
    exact .keep_set hw he hi (Stage.enrolled_of_early hearly) rfl
  | insert i conn session ha hi hstage hsession =>
    simp only [State.enroll, Table.lookup_insert] at he
    split at he
    · rename_i hc
      obtain rfl := Option.some.inj he
      exact .new conn ha hi hc.symm hsession (by simp [Heap.get_set hi]) (by simp [State.enroll, hc]) rfl
    · exact .keep_set hw he hi (by rw [hstage]; rfl) rfl
  | muxEnd i conn hi hstage =>
    by_cases hie : e.conn = i
    · subst hie
      exact .old conn {conn with stage := .ended} he hi (by simp [Heap.get_set hi]) ⟨rfl, rfl, rfl, rfl⟩
    · exact .keep hw he fun _ hx _ => by simp [Heap.get_set hi, hie, hx]
  | removeIf i conn session hi hstage hsession =>
    obtain ⟨hold, hother⟩ := retire_lookup he
    refine .keep hw hold fun x hx _ => ?_
    show (s.conns.set i _)[e.conn]? = some x
    rw [Heap.get_set hi, if_neg, hx]
    -- its own entry would be gone
    rintro rfl
    obtain ⟨⟨y, hy, hclient, hsess, -⟩, -⟩ := hw c e hold
    rw [hi, Option.some.injEq] at hy
    subst hy
    rw [hsession, Option.some.injEq] at hsess
    exact hother hclient.symm hsess.symm
  | send i conn pool hi hstage =>
    refine .keep_set hw ?_ hi (by rw [hstage]; rfl) rfl
    rw [← park_clients s pool i]
    exact he
  | request id request => exact .keep hw he fun _ hx _ => hx
  | admin i references admin ha hi hm =>
    cases hm with
    | keep phase _ _ => exact .keep hw he fun _ hx _ => hx
    | change old row row' _ _ => exact .keep hw he fun _ hx _ => hx
    | remove _ =>
      simp only [Table.lookup_erase] at he
      split at he
      · cases he
      · exact .keep hw he fun _ hx _ => hx
    | delete _ => exact .keep hw he fun _ hx _ => hx
  | «open» clientId current _ => exact .keep hw he fun _ hx _ => hx
  | receive i call clientId stream rest _ _ => exact .keep hw he fun _ hx _ => hx
  | ended i call _ => exact .keep hw he fun _ hx _ => hx

/-- A pool stays the pool of its client. -/
theorem moves_channels {a : Action} {s t : State} (h : Moves a s t) {p : Nat} {channel : Channel}
    (hp : s.channels[p]? = some channel) :
    ∃ channel', t.channels[p]? = some channel' ∧ channel'.clientId = channel.clientId := by
  cases h with
  | insert i conn session _ _ _ _ => exact ⟨channel, Heap.get_push_of_some hp, rfl⟩
  | removeIf i conn session _ _ _ => exact ⟨channel, by rw [← hp, ← retire_channels s conn.clientId session], rfl⟩
  | send i conn pool _ _ =>
    unfold State.park
    split
    · rename_i old hold
      simp only [Heap.get_set hold]
      split
      · rename_i hpp
        rw [hpp, hold, Option.some.injEq] at hp
        exact ⟨_, rfl, by rw [hp]⟩
      · exact ⟨channel, hp, rfl⟩
    · exact ⟨channel, hp, rfl⟩
  | receive i call clientId stream rest _ hpool =>
    simp only [Heap.get_set hpool]
    split
    · rename_i hpp
      rw [hpp, hpool, Option.some.injEq] at hp
      exact ⟨_, rfl, by rw [← hp]⟩
    · exact ⟨channel, hp, rfl⟩
  | admin i references admin _ _ hm => cases hm <;> exact ⟨channel, hp, rfl⟩
  | _ => exact ⟨channel, hp, rfl⟩

theorem wired_moves {a : Action} {s t : State} (hw : Wired s) (h : Moves a s t) : Wired t := by
  intro c e he
  cases moves_entered hw h he with
  | old conn conn' hold hconn hconn' hcont =>
    obtain ⟨⟨x, hx, hclient, hsession, -⟩, channel, hchannel, hc⟩ := hw c e hold
    obtain rfl : conn = x := Option.some.inj (hconn.symm.trans hx)
    obtain ⟨channel', hchannel', hc'⟩ := moves_channels h hchannel
    exact ⟨⟨conn', hconn', hcont.clientId.trans hclient, hcont.session.trans hsession, hcont.enrolled⟩,
      channel', hchannel', hc'.trans hc⟩
  | new conn ha hconn hclient hsession hconn' hpool _ =>
    exact ⟨⟨_, hconn', hclient, hsession, rfl⟩, _, hpool, rfl⟩

theorem wired_init (rows : Table String DbClient) : Wired (system rows).init := by
  intro c e h
  cases h

/-! ### Who is online -/

/-- While no handler of the console is at work, a client that is online is enabled, and
its connection's handshake was under its key. -/
def OnlineEnabled (s : State) : Prop :=
  (∀ admin ∈ s.admins, admin.phase = .finished) → ∀ c e, s.clients.lookup c = some e →
    ∃ conn, s.conns[e.conn]? = some conn ∧ s.rows.lookup c = some ⟨conn.psk, true⟩

/-- An update changes a row that has the key it read, a deletion is of a client that is
not online. -/
def Admin.timely (s : State) (admin : Admin) : Prop :=
  match admin.phase with
  | .loaded old => ∀ row ∈ s.rows.lookup admin.id, row.psk = old
  | .deleting => s.clients.lookup admin.id = none
  | _ => True

/-- Besides, a connection enters itself while the row is as it was looked up. -/
def Timely (a : Action) (s : State) : Prop :=
  match a with
  | .conn i .insert => ∀ conn ∈ s.conns[i]?, s.rows.lookup conn.clientId = some ⟨conn.psk, true⟩
  | .admin i _ => ∀ admin ∈ s.admins[i]?, admin.timely s
  | _ => True

/-- The handler takes the client out: it is about to, or will find that it must, if the
client is under the key `psk` and the row is not. -/
def Admin.takesOut (c psk : String) (admin : Admin) : Prop :=
  admin.id = c ∧ (admin.phase = .removing ∨ admin.phase = .changed psk)

/-- The client of an entry is enabled under its key, or a handler takes it out. -/
def Backed (s : State) (c : String) (e : ClientConnection) : Prop :=
  ∃ conn row, s.conns[e.conn]? = some conn ∧ s.rows.lookup c = some row ∧
    (row = ⟨conn.psk, true⟩ ∨ ∃ admin ∈ s.admins, admin.takesOut c conn.psk)

/-- A handler that takes a client out is there while another one moves. -/
theorem takesOut_set {l : List Admin} {i : Nat} {admin admin' : Admin} (hi : l[i]? = some admin) {c psk : String}
    (hnot : ¬ admin.takesOut c psk) (h : ∃ x ∈ l, x.takesOut c psk) : ∃ x ∈ l.set i admin', x.takesOut c psk := by
  obtain ⟨x, hx, htakes⟩ := h
  rcases Heap.mem_set_of_mem hi admin' hx with rfl | hx
  · exact absurd htakes hnot
  · exact ⟨x, hx, htakes⟩

/-- The rows and the handlers after a step that is not the console's. -/
theorem moves_rows {a : Action} {s t : State} (h : Moves a s t) :
    (t.rows = s.rows ∧ ∀ x ∈ s.admins, x ∈ t.admins) ∨
      ∃ i references admin u phase, a = .admin i references ∧ s.admins[i]? = some admin ∧
        AdminMoves s admin u phase ∧ t = {u with admins := s.admins.set i {admin with phase := phase}} := by
  cases h with
  | admin i references admin ha hi hm => exact .inr ⟨i, references, admin, _, _, ha, hi, hm, rfl⟩
  | request id request => exact .inl ⟨rfl, fun x hx => List.mem_append_left _ hx⟩
  | removeIf i conn session _ _ _ =>
    refine .inl ?_
    unfold State.retire
    split
    · split <;> exact ⟨rfl, fun x hx => hx⟩
    · exact ⟨rfl, fun x hx => hx⟩
  | send i conn pool _ _ =>
    refine .inl ?_
    unfold State.park
    split <;> exact ⟨rfl, fun x hx => hx⟩
  | _ => exact .inl ⟨rfl, fun x hx => hx⟩

/-- A handler's step keeps an entry backed that is still there. -/
theorem backed_admin {s u : State} {i : Nat} {admin : Admin} {phase : AdminPhase} (hi : s.admins[i]? = some admin)
    (htimely : admin.timely s) (hm : AdminMoves s admin u phase) {c : String} {e : ClientConnection} {conn : Conn}
    {row : DbClient} (hclient : s.clients.lookup c = some e) (hstays : u.clients.lookup c = some e)
    (hrow : s.rows.lookup c = some row)
    (hback : row = ⟨conn.psk, true⟩ ∨ ∃ x ∈ s.admins, x.takesOut c conn.psk) :
    ∃ row', u.rows.lookup c = some row' ∧ (row' = ⟨conn.psk, true⟩ ∨
      ∃ x ∈ s.admins.set i {admin with phase := phase}, x.takesOut c conn.psk) := by
  cases hm with
  | keep phase hnot hchanged =>
    refine ⟨row, hrow, ?_⟩
    rcases hback with hmatch | hpending
    · exact .inl hmatch
    · by_cases htakes : admin.takesOut c conn.psk
      · obtain ⟨hid, hphase⟩ := htakes
        rcases hchanged conn.psk (hphase.resolve_left hnot) with rfl | hnone | ⟨row', hrow', hen, hpsk⟩
        · exact .inr ⟨_, Heap.mem_set_self hi _, hid, .inl rfl⟩
        · rw [hid, hrow] at hnone
          cases hnone
        · rw [hid, hrow, Option.some.injEq] at hrow'
          subst hrow'
          left
          rw [← hpsk, ← hen]
      · exact .inr (takesOut_set hi htakes hpending)
  | change old before after hphase hbefore =>
    have hnot : ¬ admin.takesOut c conn.psk := by simp [Admin.takesOut, hphase]
    by_cases hid : c = admin.id
    · refine ⟨after, by simp [Table.lookup_insert, hid], .inr ?_⟩
      rcases hback with hmatch | hpending
      · refine ⟨_, Heap.mem_set_self hi _, hid.symm, .inr ?_⟩
        -- the row had the key of the entry, which is the one the handler has read
        have hold : before.psk = old := by
          rw [Admin.timely, hphase] at htimely
          exact htimely before hbefore
        rw [← hid, hrow, Option.some.injEq] at hbefore
        rw [← hold, ← hbefore, hmatch]
      · exact takesOut_set hi hnot hpending
    · refine ⟨row, by simpa [Table.lookup_insert, hid] using hrow, ?_⟩
      exact hback.imp_right (takesOut_set hi hnot)
  | remove hphase =>
    have hid : c ≠ admin.id := by
      rintro rfl
      simp at hstays
    exact ⟨row, hrow, hback.imp_right (takesOut_set hi fun h => hid h.1.symm)⟩
  | delete hphase =>
    have hid : c ≠ admin.id := by
      rintro rfl
      rw [Admin.timely, hphase] at htimely
      rw [hclient] at htimely
      cases htimely
    refine ⟨row, by simpa [Table.lookup_erase, hid] using hrow, ?_⟩
    exact hback.imp_right (takesOut_set hi (by simp [Admin.takesOut, hphase]))

theorem backed_moves {a : Action} {s t : State} (hw : Wired s)
    (hb : ∀ c e, s.clients.lookup c = some e → Backed s c e) (htimely : Timely a s) (h : Moves a s t) :
    ∀ c e, t.clients.lookup c = some e → Backed t c e := by
  intro c e he
  cases moves_entered hw h he with
  | new conn ha hconn hclient _ hconn' _ hrows =>
    subst ha
    have hrow := htimely conn hconn
    rw [hclient, ← hrows] at hrow
    exact ⟨_, _, hconn', hrow, .inl rfl⟩
  | old conn conn' hold hconn hconn' hcont =>
    obtain ⟨x, row, hx, hrow, hback⟩ := hb c e hold
    obtain rfl : conn = x := Option.some.inj (hconn.symm.trans hx)
    rw [← hcont.psk] at hback
    rcases moves_rows h with ⟨hrows, hadmins⟩ | ⟨i, references, admin, u, phase, rfl, hi, hm, rfl⟩
    · exact ⟨conn', row, hconn', by rw [hrows, hrow], hback.imp_right fun ⟨x, hx, ht⟩ => ⟨x, hadmins x hx, ht⟩⟩
    · obtain ⟨row', hrow', hback'⟩ := backed_admin hi (htimely admin hi) hm hold he hrow hback
      exact ⟨conn', row', hconn', hrow', hback'⟩

instance (s : State) (admin : Admin) : Decidable (admin.timely s) := by
  unfold Admin.timely
  split <;> infer_instance

instance (a : Action) (s : State) : Decidable (Timely a s) := by
  unfold Timely
  split <;> infer_instance

/-- One client, enabled under the key `k`. -/
def oneClient : Table String DbClient := (∅ : Table String DbClient).insert "c" ⟨"k", true⟩

/-- A Data connection from the handshake to its entry. -/
def enters (i : Nat) (session : String) : List Action :=
  [.conn i .handshake, .conn i (.hello "c" .data), .conn i (.connected session), .conn i .insert]

/-- The client connects and is given another key, which takes it out; it connects again
under that key. -/
def rekeyedRun : List Action :=
  ([.accept "c", .conn 0 .lookup] : List Action) ++ enters 0 "s0" ++
    ([.request "c" (.update "k2" true), .admin 0 0, .admin 0 0, .admin 0 0, .admin 0 0] : List Action) ++
    ([.accept "c", .conn 1 .lookup] : List Action) ++ enters 1 "s1"

/-- The client is disabled while its connection is at the handshake. -/
def disabledRun : List Action :=
  [.accept "c", .conn 0 .lookup, .request "c" (.update "k" false), .admin 0 0, .admin 0 0, .admin 0 0, .admin 0 0] ++
    enters 0 "s0"

/-- A connection gets a session id that no connection has had, and no handler takes a
client out. -/
def Undisturbed (a : Action) (s : State) : Prop :=
  match a with
  | .conn _ (.connected session) => ∀ conn ∈ s.conns, conn.session ≠ some session
  | .admin i _ => ∀ admin ∈ s.admins[i]?, admin.phase ≠ .removing
  | _ => True

/-- The connection entered itself and is past that. -/
def Stage.entered : Stage → Bool
  | .online | .ended | .closed => true
  | _ => false

structure Latest (s : State) : Prop where
  wired : Wired s
  distinct : ∀ (i j : Nat) (conn conn' : Conn) (session : String), s.conns[i]? = some conn →
    s.conns[j]? = some conn' → conn.session = some session → conn'.session = some session → i = j
  entry : ∀ c e, s.clients.lookup c = some e → s.latest.lookup c = some e.conn
  latest : ∀ c i, s.latest.lookup c = some i → ∃ conn, s.conns[i]? = some conn ∧ conn.stage.entered = true ∧
    (conn.stage.enrolled = true → ∃ e, s.clients.lookup c = some e ∧ e.conn = i)

/-- A connection keeps its session id, or is given one. -/
theorem moves_session {a : Action} {s t : State} (h : Moves a s t) {i : Nat} {conn' : Conn}
    (hi : t.conns[i]? = some conn') : conn'.session = none ∨
      (∃ conn, s.conns[i]? = some conn ∧ conn'.session = conn.session) ∨
      ∃ x, a = .conn i (.connected x) ∧ conn'.session = some x := by
  -- a connection that moves without getting a session id
  have hset {j : Nat} {conn new : Conn} (hj : s.conns[j]? = some conn)
      (ht : (s.conns.set j new)[i]? = some conn') (hsession : new.session = conn.session) :
      ∃ conn, s.conns[i]? = some conn ∧ conn'.session = conn.session := by
    rw [Heap.get_set hj] at ht
    split at ht
    · rename_i hij
      obtain rfl := Option.some.inj ht
      exact ⟨conn, by rw [hij, hj], hsession⟩
    · exact ⟨conn', ht, rfl⟩
  cases h with
  | accept clientId =>
    simp only [Heap.get_push] at hi
    split at hi
    · obtain rfl := Option.some.inj hi
      exact .inl rfl
    · exact .inr (.inl ⟨conn', hi, rfl⟩)
  | advance j conn new hj _ _ _ _ hsession _ =>
    rcases hsession with hsame | ⟨x, ha, hx⟩
    · exact .inr (.inl (hset hj hi hsame))
    · simp only [Heap.get_set hj] at hi
      split at hi
      · rename_i hij
        obtain rfl := Option.some.inj hi
        exact .inr (.inr ⟨x, by rw [ha, hij], hx⟩)
      · exact .inr (.inl ⟨conn', hi, rfl⟩)
  | insert j conn session _ hj _ _ => exact .inr (.inl (hset hj hi rfl))
  | muxEnd j conn hj _ => exact .inr (.inl (hset hj hi rfl))
  | removeIf j conn session hj _ _ => exact .inr (.inl (hset hj hi rfl))
  | send j conn pool hj _ => exact .inr (.inl (hset hj hi rfl))
  | admin j references admin _ _ hm => cases hm <;> exact .inr (.inl ⟨conn', hi, rfl⟩)
  | _ => exact .inr (.inl ⟨conn', hi, rfl⟩)

theorem distinct_moves {a : Action} {s t : State} (h : Latest s) (hu : Undisturbed a s) (hm : Moves a s t)
    {i j : Nat} {conn conn' : Conn} {session : String} (hi : t.conns[i]? = some conn) (hj : t.conns[j]? = some conn')
    (hsi : conn.session = some session) (hsj : conn'.session = some session) : i = j := by
  -- nobody has had the id that is given out
  have hfresh {k l : Nat} {x : Conn} (ha : a = .conn k (.connected session)) (hl : s.conns[l]? = some x)
      (hx : x.session = some session) : False := by
    subst ha
    exact hu x (List.mem_of_getElem? hl) hx
  rcases moves_session hm hi with hnone | ⟨old, hold, hold'⟩ | ⟨x, ha, hx⟩
  · rw [hnone] at hsi
    cases hsi
  · rw [hold'] at hsi
    rcases moves_session hm hj with hnone | ⟨old₂, hold₂, hold₂'⟩ | ⟨y, ha, hy⟩
    · rw [hnone] at hsj
      cases hsj
    · exact h.distinct i j old old₂ session hold hold₂ hsi (by rw [← hold₂', hsj])
    · obtain rfl := Option.some.inj (hsj.symm.trans hy)
      exact (hfresh ha hold hsi).elim
  · obtain rfl := Option.some.inj (hsi.symm.trans hx)
    rcases moves_session hm hj with hnone | ⟨old₂, hold₂, hold₂'⟩ | ⟨y, ha', hy⟩
    · rw [hnone] at hsj
      cases hsj
    · exact (hfresh ha hold₂ (by rw [← hold₂', hsj])).elim
    · rw [ha] at ha'
      simp only [Action.conn.injEq] at ha'
      exact ha'.1

theorem retire_keeps {s : State} {clientId session c : String} {e : ClientConnection}
    (h : s.clients.lookup c = some e) (hother : c = clientId → e.dataSessionId ≠ session) :
    (s.retire clientId session).clients.lookup c = some e := by
  unfold State.retire
  split
  · rename_i current hcurrent
    split
    · rename_i heq
      simp only [Table.lookup_erase]
      rw [if_neg, h]
      rintro rfl
      rw [h, Option.some.injEq] at hcurrent
      exact hother rfl (by rw [hcurrent, heq])
    · exact h
  · exact h

/-- The entry of another connection stays when a connection takes itself out. -/
theorem retire_other {s : State} (h : Latest s) {i : Nat} {conn : Conn} {session : String}
    (hi : s.conns[i]? = some conn) (hsession : conn.session = some session) {c : String} {e : ClientConnection}
    (he : s.clients.lookup c = some e) (hne : e.conn ≠ i) :
    (s.retire conn.clientId session).clients.lookup c = some e := by
  refine retire_keeps he fun _ heq => ?_
  obtain ⟨⟨x, hx, -, hsx, -⟩, -⟩ := h.wired c e he
  exact hne (h.distinct e.conn i x conn session hx hi (by rw [hsx, heq]) hsession)

theorem retire_latest (s : State) (clientId session : String) : (s.retire clientId session).latest = s.latest := by
  unfold State.retire
  split
  · split <;> rfl
  · rfl

theorem park_latest (s : State) (pool i : Nat) : (s.park pool i).latest = s.latest := by
  unfold State.park
  split <;> rfl

/-- A connection that moves without having entered itself is not the latest of any
client. -/
theorem Latest.set {s : State} (h : Latest s) {i : Nat} {conn conn' : Conn} (hi : s.conns[i]? = some conn)
    (hstage : conn.stage.entered = false) {c : String} {k : Nat} (hk : s.latest.lookup c = some k) :
    ∃ x, (s.conns.set i conn')[k]? = some x ∧ x.stage.entered = true ∧
      (x.stage.enrolled = true → ∃ e, s.clients.lookup c = some e ∧ e.conn = k) := by
  obtain ⟨x, hx, hentered, hx'⟩ := h.latest c k hk
  refine ⟨x, ?_, hentered, hx'⟩
  rw [Heap.get_set hi, if_neg, hx]
  rintro rfl
  rw [hi, Option.some.injEq] at hx
  rw [← hx, hstage] at hentered
  cases hentered

theorem Stage.entered_of_early {stage : Stage} (h : stage.early = true) : stage.entered = false := by
  cases stage <;> first | rfl | cases h

theorem latest_moves {a : Action} {s t : State} (h : Latest s) (hu : Undisturbed a s) (hm : Moves a s t) :
    Latest t := by
  refine ⟨wired_moves h.wired hm, fun i j conn conn' session => distinct_moves h hu hm, ?_, ?_⟩
  · intro c e he
    cases hm with
    | insert i conn session ha hi hstage hsession =>
      simp only [State.enroll, Table.lookup_insert] at he ⊢
      split at he
      · rename_i hc
        obtain rfl := Option.some.inj he
        rw [if_pos hc]
      · rename_i hc
        rw [if_neg hc]
        exact h.entry c e he
    | removeIf i conn session hi hstage hsession =>
      show (s.retire conn.clientId session).latest.lookup c = _
      rw [retire_latest]
      exact h.entry c e (retire_lookup he).1
    | send i conn pool hi hstage =>
      show (s.park pool i).latest.lookup c = _
      rw [park_latest]
      exact h.entry c e (by rw [← park_clients s pool i]; exact he)
    | admin i references admin ha hi hm =>
      subst ha
      cases hm with
      | remove hphase => exact absurd hphase (hu admin hi)
      | _ => exact h.entry c e he
    | _ => exact h.entry c e he
  · intro c k hk
    cases hm with
    | accept clientId =>
      obtain ⟨x, hx, hrest⟩ := h.latest c k hk
      exact ⟨x, Heap.get_push_of_some hx, hrest⟩
    | advance i conn conn' hi hearly _ _ _ _ _ => exact h.set hi (Stage.entered_of_early hearly) hk
    | insert i conn session ha hi hstage hsession =>
      simp only [State.enroll, Table.lookup_insert] at hk ⊢
      split at hk
      · rename_i hc
        obtain rfl := Option.some.inj hk
        exact ⟨_, by rw [Heap.get_set hi, if_pos rfl], rfl, fun _ => ⟨_, by rw [if_pos hc], rfl⟩⟩
      · rename_i hc
        simp only [if_neg hc]
        exact h.set hi (by rw [hstage]; rfl) hk
    | muxEnd i conn hi hstage =>
      obtain ⟨x, hx, hentered, hx'⟩ := h.latest c k hk
      by_cases hki : k = i
      · subst hki
        rw [hi, Option.some.injEq] at hx
        subst hx
        exact ⟨_, by rw [Heap.get_set hi, if_pos rfl], rfl, fun _ => hx' (by rw [hstage]; rfl)⟩
      · exact ⟨x, by rw [Heap.get_set hi, if_neg hki, hx], hentered, hx'⟩
    | removeIf i conn session hi hstage hsession =>
      have hk : s.latest.lookup c = some k := by
        rw [← retire_latest s conn.clientId session]
        exact hk
      obtain ⟨x, hx, hentered, hx'⟩ := h.latest c k hk
      by_cases hki : k = i
      · subst hki
        exact ⟨_, by rw [Heap.get_set hi, if_pos rfl], rfl, by simp [Stage.enrolled]⟩
      · refine ⟨x, by rw [Heap.get_set hi, if_neg hki, hx], hentered, fun henrolled => ?_⟩
        obtain ⟨e, he, hek⟩ := hx' henrolled
        exact ⟨e, retire_other h hi hsession he (by rw [hek]; exact hki), hek⟩
    | send i conn pool hi hstage =>
      have hk : s.latest.lookup c = some k := by
        rw [← park_latest s pool i]
        exact hk
      have hclients : (s.park pool i).clients = s.clients := park_clients s pool i
      simp only [hclients]
      exact h.set hi (by rw [hstage]; rfl) hk
    | admin i references admin ha hi hm =>
      subst ha
      cases hm with
      | remove hphase => exact absurd hphase (hu admin hi)
      | _ => exact h.latest c k hk
    | _ => exact h.latest c k hk

/-! ### Parked connections -/

def PoolOf (s : State) (pool : Nat) (c : String) : Prop :=
  ∃ channel, s.channels[pool]? = some channel ∧ channel.clientId = c

def ParkedAs (s : State) (i : Nat) (c : String) : Prop :=
  ∃ conn, s.conns[i]? = some conn ∧ conn.clientId = c ∧ conn.stage = .parked

/-- How often a call has received the stream. -/
def handed (s : State) (i : Nat) : Nat := (s.calls.map fun call => call.received.count i).sum

/-- How often the stream is in a pool. -/
def waiting (s : State) (i : Nat) : Nat := (s.channels.map fun channel => channel.queue.count i).sum

structure Pooled (s : State) : Prop where
  parking : ∀ (i : Nat) (conn : Conn) (pool : Nat), s.conns[i]? = some conn → conn.stage = .parking pool →
    PoolOf s pool conn.clientId
  calls : ∀ call ∈ s.calls, PoolOf s call.pool call.clientId
  queued : ∀ (p : Nat) (channel : Channel), s.channels[p]? = some channel → ∀ i ∈ channel.queue,
    ParkedAs s i channel.clientId
  received : ∀ call ∈ s.calls, ∀ i ∈ call.received, ParkedAs s i call.clientId
  once : ∀ i, waiting s i + handed s i ≤ 1

theorem moves_poolOf {a : Action} {s t : State} (hm : Moves a s t) {pool : Nat} {c : String} (h : PoolOf s pool c) :
    PoolOf t pool c := by
  obtain ⟨channel, hchannel, hc⟩ := h
  obtain ⟨channel', hchannel', hc'⟩ := moves_channels hm hchannel
  exact ⟨channel', hchannel', hc'.trans hc⟩

/-- A parked connection does nothing. -/
theorem moves_parkedAs {a : Action} {s t : State} (hm : Moves a s t) {i : Nat} {c : String} (h : ParkedAs s i c) :
    ParkedAs t i c := by
  obtain ⟨conn, hi, hc, hparked⟩ := h
  have hset {j : Nat} {x new : Conn} (hj : s.conns[j]? = some x) (hx : x.stage ≠ .parked) :
      (s.conns.set j new)[i]? = some conn := by
    rw [Heap.get_set hj, if_neg, hi]
    rintro rfl
    rw [hj, Option.some.injEq] at hi
    exact hx (by rw [hi, hparked])
  cases hm with
  | accept clientId => exact ⟨conn, Heap.get_push_of_some hi, hc, hparked⟩
  | advance j x new hj hearly _ _ _ _ _ =>
    refine ⟨conn, hset hj ?_, hc, hparked⟩
    intro hx
    rw [hx] at hearly
    cases hearly
  | insert j x session _ hj hstage _ => exact ⟨conn, hset hj (by simp [hstage]), hc, hparked⟩
  | muxEnd j x hj hstage => exact ⟨conn, hset hj (by simp [hstage]), hc, hparked⟩
  | removeIf j x session hj hstage _ => exact ⟨conn, hset hj (by simp [hstage]), hc, hparked⟩
  | send j x pool hj hstage => exact ⟨conn, hset hj (by simp [hstage]), hc, hparked⟩
  | admin j references admin _ _ hm => cases hm <;> exact ⟨conn, hi, hc, hparked⟩
  | _ => exact ⟨conn, hi, hc, hparked⟩

/-- A connection that has got hold of a pool had, or found it in the entry of its
client. -/
theorem moves_parking {a : Action} {s t : State} (hm : Moves a s t) {i : Nat} {conn : Conn} {pool : Nat}
    (hi : t.conns[i]? = some conn) (hstage : conn.stage = .parking pool) :
    s.conns[i]? = some conn ∨ ∃ current, s.clients.lookup conn.clientId = some current ∧ current.pool = pool := by
  have hset {j : Nat} {x new : Conn} (hj : s.conns[j]? = some x) (ht : (s.conns.set j new)[i]? = some conn)
      (hnew : new.stage ≠ .parking pool) : s.conns[i]? = some conn := by
    rw [Heap.get_set hj] at ht
    split at ht
    · rw [Option.some.injEq] at ht
      exact absurd (by rw [ht, hstage]) hnew
    · exact ht
  cases hm with
  | accept clientId =>
    simp only [Heap.get_push] at hi
    split at hi
    · obtain rfl := Option.some.inj hi
      cases hstage
    · exact .inl hi
  | advance j x new hj _ _ _ hclient _ hpool =>
    simp only [Heap.get_set hj] at hi
    split at hi
    · obtain rfl := Option.some.inj hi
      rw [hclient]
      exact .inr (hpool pool hstage)
    · exact .inl hi
  | insert j x session _ hj _ _ => exact .inl (hset hj hi (by simp))
  | muxEnd j x hj _ => exact .inl (hset hj hi (by simp))
  | removeIf j x session hj _ _ => exact .inl (hset hj hi (by simp))
  | send j x pool hj _ => exact .inl (hset hj hi (by simp))
  | admin j references admin _ _ hm => cases hm <;> exact .inl hi
  | _ => exact .inl hi

/-- What a step does to the pools and the calls. -/
inductive Serves (s t : State) : Prop where
  | same : t.channels = s.channels → t.calls = s.calls → Serves s t
  | pool (c : String) : t.channels = s.channels ++ [⟨c, []⟩] → t.calls = s.calls → Serves s t
  | park (i : Nat) (conn : Conn) (pool : Nat) : s.conns[i]? = some conn → conn.stage = .parking pool →
      t.conns = s.conns.set i {conn with stage := .parked} → t.channels = (s.park pool i).channels →
      t.calls = s.calls → Serves s t
  | call (c : String) (current : ClientConnection) : s.clients.lookup c = some current → t.channels = s.channels →
      t.calls = s.calls ++ [⟨c, current.pool, [], false⟩] → Serves s t
  | receive (i : Nat) (call : Call) (c : String) (stream : Nat) (rest : List Nat) : s.calls[i]? = some call →
      s.channels[call.pool]? = some ⟨c, stream :: rest⟩ → t.channels = s.channels.set call.pool ⟨c, rest⟩ →
      t.calls = s.calls.set i {call with received := call.received ++ [stream]} → Serves s t
  | ended (i : Nat) (call : Call) : s.calls[i]? = some call → t.channels = s.channels →
      t.calls = s.calls.set i {call with ended := true} → Serves s t

theorem moves_serves {a : Action} {s t : State} (hm : Moves a s t) : Serves s t := by
  cases hm with
  | insert i conn session _ _ _ _ => exact .pool conn.clientId rfl rfl
  | removeIf i conn session _ _ _ =>
    refine .same (retire_channels s conn.clientId session) ?_
    unfold State.retire
    split
    · split <;> rfl
    · rfl
  | send i conn pool hi hstage =>
    refine .park i conn pool hi hstage rfl rfl ?_
    unfold State.park
    split <;> rfl
  | admin i references admin _ _ hm => cases hm <;> exact .same rfl rfl
  | «open» clientId current hcurrent => exact .call clientId current hcurrent rfl rfl
  | receive i call clientId stream rest hi hpool => exact .receive i call clientId stream rest hi hpool rfl rfl
  | ended i call hi => exact .ended i call hi rfl rfl
  | _ => exact .same rfl rfl

/-- A call was there before, with what it had received but perhaps the last stream, or it
has just found its pool. -/
theorem serves_call {s t : State} (h : Serves s t) {call : Call} (hcall : call ∈ t.calls) :
    (∃ old ∈ s.calls, call.pool = old.pool ∧ call.clientId = old.clientId ∧ ∀ i ∈ call.received,
      i ∈ old.received ∨ ∃ channel, s.channels[old.pool]? = some channel ∧ i ∈ channel.queue) ∨
    ∃ current, s.clients.lookup call.clientId = some current ∧ call.pool = current.pool ∧ call.received = [] := by
  have hkeep (x : Call) (hx : x ∈ s.calls) : ∃ old ∈ s.calls, x.pool = old.pool ∧ x.clientId = old.clientId ∧
      ∀ i ∈ x.received, i ∈ old.received ∨ ∃ channel, s.channels[old.pool]? = some channel ∧ i ∈ channel.queue :=
    ⟨x, hx, rfl, rfl, fun _ hi => .inl hi⟩
  cases h with
  | same _ ht => exact .inl (hkeep call (by rw [← ht]; exact hcall))
  | pool c _ ht => exact .inl (hkeep call (by rw [← ht]; exact hcall))
  | park i conn pool _ _ _ _ ht => exact .inl (hkeep call (by rw [← ht]; exact hcall))
  | call c current hcurrent _ ht =>
    rw [ht, List.mem_append, List.mem_singleton] at hcall
    rcases hcall with hold | rfl
    · exact .inl (hkeep call hold)
    · exact .inr ⟨current, hcurrent, rfl, rfl⟩
  | receive i old c stream rest hi hpool _ ht =>
    rw [ht] at hcall
    rcases List.mem_or_eq_of_mem_set hcall with hold | rfl
    · exact .inl (hkeep call hold)
    · refine .inl ⟨old, List.mem_of_getElem? hi, rfl, rfl, fun j hj => ?_⟩
      rcases List.mem_append.mp hj with hj | hj
      · exact .inl hj
      · exact .inr ⟨_, hpool, by rw [List.mem_singleton.mp hj]; simp⟩
  | ended i old hi _ ht =>
    rw [ht] at hcall
    rcases List.mem_or_eq_of_mem_set hcall with hold | rfl
    · exact .inl (hkeep call hold)
    · exact .inl ⟨old, List.mem_of_getElem? hi, rfl, rfl, fun _ hj => .inl hj⟩

/-- A stream that waits in a pool did before, or has just been parked there. -/
theorem serves_queue {s t : State} (h : Serves s t) {p i : Nat} {channel : Channel}
    (hp : t.channels[p]? = some channel) (hi : i ∈ channel.queue) :
    ∃ old, s.channels[p]? = some old ∧ old.clientId = channel.clientId ∧ (i ∈ old.queue ∨
      ∃ conn, s.conns[i]? = some conn ∧ conn.stage = .parking p ∧
        t.conns[i]? = some {conn with stage := .parked}) := by
  cases h with
  | same hc _ => exact ⟨channel, by rw [← hc, hp], rfl, .inl hi⟩
  | pool c hc _ =>
    rw [hc, Heap.get_push] at hp
    split at hp
    · obtain rfl := Option.some.inj hp
      cases hi
    · exact ⟨channel, hp, rfl, .inl hi⟩
  | park j conn pool hj hstage hconns hc _ =>
    unfold State.park at hc
    split at hc
    · rename_i old hold
      rw [hc, Heap.get_set hold] at hp
      split at hp
      · rename_i hpp
        obtain rfl := Option.some.inj hp
        refine ⟨old, by rw [hpp, hold], rfl, ?_⟩
        rcases List.mem_append.mp hi with hi | hi
        · exact .inl hi
        · obtain rfl := List.mem_singleton.mp hi
          exact .inr ⟨conn, hj, by rw [hpp, hstage], by rw [hconns, Heap.get_set hj, if_pos rfl]⟩
      · exact ⟨channel, hp, rfl, .inl hi⟩
    · exact ⟨channel, by rw [← hc, hp], rfl, .inl hi⟩
  | call c current _ hc _ => exact ⟨channel, by rw [← hc, hp], rfl, .inl hi⟩
  | receive j call c stream rest _ hpool hc _ =>
    rw [hc, Heap.get_set hpool] at hp
    split at hp
    · rename_i hpp
      obtain rfl := Option.some.inj hp
      exact ⟨⟨c, stream :: rest⟩, by rw [hpp, hpool], rfl, .inl (List.mem_cons_of_mem _ hi)⟩
    · exact ⟨channel, hp, rfl, .inl hi⟩
  | ended j call _ hc _ => exact ⟨channel, by rw [← hc, hp], rfl, .inl hi⟩

/-- A stream that is nowhere is not counted. -/
theorem copies_eq_zero {s : State} (h : Pooled s) {i : Nat} (hi : ∀ c, ¬ ParkedAs s i c) :
    waiting s i + handed s i = 0 := by
  have hwaiting : waiting s i = 0 := by
    rw [waiting, List.sum_eq_zero_iff_forall_eq_nat]
    intro n hn
    obtain ⟨channel, hchannel, rfl⟩ := List.mem_map.mp hn
    obtain ⟨p, hp⟩ := List.mem_iff_getElem?.mp hchannel
    exact List.count_eq_zero.mpr fun hmem => hi _ (h.queued p channel hp i hmem)
  have hhanded : handed s i = 0 := by
    rw [handed, List.sum_eq_zero_iff_forall_eq_nat]
    intro n hn
    obtain ⟨call, hcall, rfl⟩ := List.mem_map.mp hn
    exact List.count_eq_zero.mpr fun hmem => hi _ (h.received call hcall i hmem)
  rw [hwaiting, hhanded]

theorem once_serves {s t : State} (h : Pooled s) (hs : Serves s t) (k : Nat) : waiting t k + handed t k ≤ 1 := by
  have hk := h.once k
  cases hs with
  | same hc hcalls =>
    rw [waiting, handed, hc, hcalls]
    exact hk
  | pool c hc hcalls =>
    rw [waiting, handed, hc, hcalls]
    simpa [waiting, handed] using hk
  | park i conn pool hi hstage _ hc hcalls =>
    obtain ⟨channel, hchannel, -⟩ := h.parking i conn pool hi hstage
    have hsum := Heap.sum_set hchannel {channel with queue := channel.queue ++ [i]} fun x => x.queue.count k
    simp only [State.park, hchannel] at hc
    rw [waiting, handed, hc, hcalls]
    simp only [List.count_append] at hsum
    by_cases hki : k = i
    · -- the stream was nowhere before
      subst hki
      have hnowhere : ∀ c, ¬ ParkedAs s k c := by
        rintro c ⟨x, hx, -, hparked⟩
        rw [hi, Option.some.injEq] at hx
        rw [← hx, hstage] at hparked
        cases hparked
      have hzero := copies_eq_zero h hnowhere
      rw [waiting, handed] at hzero
      simp only [List.count_singleton_self] at hsum
      omega
    · have hcount : [i].count k = 0 := by simp [Ne.symm hki]
      rw [waiting, handed] at hk
      omega
  | call c current _ hc hcalls =>
    rw [waiting, handed, hc, hcalls]
    simpa [waiting, handed] using hk
  | receive i call c stream rest hi hpool hc hcalls =>
    -- the stream goes from the pool to the call
    have hqueue := Heap.sum_set hpool ⟨c, rest⟩ fun x => x.queue.count k
    have hcall := Heap.sum_set hi {call with received := call.received ++ [stream]} fun x => x.received.count k
    rw [waiting, handed] at hk ⊢
    rw [hc, hcalls]
    simp only [List.count_cons, List.count_append, List.count_nil] at hqueue hcall
    omega
  | ended i call hi hc hcalls =>
    have hcall := Heap.sum_set hi {call with ended := true} fun x => x.received.count k
    rw [waiting, handed] at hk ⊢
    rw [hc, hcalls]
    simp only at hcall
    omega

theorem pooled_moves {a : Action} {s t : State} (hw : Wired s) (h : Pooled s) (hm : Moves a s t) : Pooled t := by
  have hs := moves_serves hm
  -- the pool of a client's entry is a pool of the client
  have hpool {c : String} {current : ClientConnection} (hc : s.clients.lookup c = some current) :
      PoolOf t current.pool c := moves_poolOf hm (hw c current hc).2
  refine ⟨?_, ?_, ?_, ?_, once_serves h hs⟩
  · intro i conn pool hi hstage
    rcases moves_parking hm hi hstage with hold | ⟨current, hcurrent, rfl⟩
    · exact moves_poolOf hm (h.parking i conn pool hold hstage)
    · exact hpool hcurrent
  · intro call hcall
    rcases serves_call hs hcall with ⟨old, hold, hp, hc, -⟩ | ⟨current, hcurrent, hp, -⟩
    · rw [hp, hc]
      exact moves_poolOf hm (h.calls old hold)
    · rw [hp]
      exact hpool hcurrent
  · intro p channel hp i hi
    obtain ⟨old, hold, hc, hwas | ⟨conn, hconn, hstage, hconn'⟩⟩ := serves_queue hs hp hi
    · rw [← hc]
      exact moves_parkedAs hm (h.queued p old hold i hwas)
    · obtain ⟨x, hx, hxc⟩ := h.parking i conn p hconn hstage
      rw [hold, Option.some.injEq] at hx
      exact ⟨_, hconn', by rw [← hc, hx, hxc], rfl⟩
  · intro call hcall i hi
    rcases serves_call hs hcall with ⟨old, hold, -, hc, hreceived⟩ | ⟨current, -, -, hnone⟩
    · rw [hc]
      rcases hreceived i hi with hwas | ⟨channel, hchannel, hmem⟩
      · exact moves_parkedAs hm (h.received old hold i hwas)
      · obtain ⟨x, hx, hxc⟩ := h.calls old hold
        rw [hchannel, Option.some.injEq] at hx
        rw [← hxc, ← hx]
        exact moves_parkedAs hm (h.queued _ channel hchannel i hmem)
    · rw [hnone] at hi
      cases hi

theorem connStep_removeIf {s u : State} {i : Nat} {conn conn' : Conn}
    (h : connStep .removeIf s i conn = some (u, conn')) :
    ∃ session, conn.session = some session ∧ u = s.retire conn.clientId session := by
  cases hstage : conn.stage with
  | ended =>
    simp only [connStep, hstage] at h
    split at h
    · rename_i session hsession
      cases h
      exact ⟨session, hsession, rfl⟩
    · cases h
  | _ => simp [connStep, hstage] at h

/-- **The registry under reconnects.** A client has an entry exactly while the connection
that entered itself last has not taken itself out, and it is that connection's; taking out
another connection leaves it alone. A stream that a call receives was parked by a connection
of the call's client, and it is received once. -/
theorem registry_current (rows : Table String DbClient) (s : State) (h : (system rows).Reach Undisturbed s) :
    (∀ c i, (∃ e, s.clients.lookup c = some e ∧ e.conn = i) ↔
      s.latest.lookup c = some i ∧ ∃ conn, s.conns[i]? = some conn ∧ conn.stage.enrolled = true) ∧
    (∀ i t, step (.conn i .removeIf) s = some t → ∀ c e, s.clients.lookup c = some e → e.conn ≠ i →
      t.clients.lookup c = some e) ∧
    (∀ call ∈ s.calls, ∀ i ∈ call.received, ParkedAs s i call.clientId) ∧ ∀ i, handed s i ≤ 1 := by
  have hinv : Latest s ∧ Pooled s := by
    refine h.invariant (I := fun s => Latest s ∧ Pooled s) ⟨⟨wired_init rows, ?_, ?_, ?_⟩, ?_, ?_, ?_, ?_, ?_⟩ ?_
    · simp [system]
    · intro c e he
      cases he
    · intro c i hi
      cases hi
    · simp [system]
    · simp [system]
    · simp [system]
    · simp [system]
    · simp [system, waiting, handed]
    · intro a u v hu hundisturbed hstep
      have hmoves := step_moves hstep
      exact ⟨latest_moves hu.1 hundisturbed hmoves, pooled_moves hu.1.wired hu.2 hmoves⟩
  obtain ⟨hlatest, hpooled⟩ := hinv
  refine ⟨fun c i => ⟨?_, ?_⟩, ?_, hpooled.received, fun i => ?_⟩
  · intro hboth
    obtain ⟨e, he, rfl⟩ := hboth
    obtain ⟨⟨conn, hconn, -, -, henrolled⟩, -⟩ := hlatest.wired c e he
    exact ⟨hlatest.entry c e he, conn, hconn, henrolled⟩
  · intro hboth
    obtain ⟨hi, conn, hconn, henrolled⟩ := hboth
    obtain ⟨x, hx, -, hentry⟩ := hlatest.latest c i hi
    obtain rfl : conn = x := Option.some.inj (hconn.symm.trans hx)
    exact hentry henrolled
  · intro i t hstep c e he hne
    simp only [step] at hstep
    split at hstep
    · rename_i conn hi
      obtain ⟨⟨u, conn'⟩, hconn, rfl⟩ := Option.map_eq_some_iff.mp hstep
      obtain ⟨session, hsession, rfl⟩ := connStep_removeIf hconn
      exact retire_other hlatest hi hsession he hne
    · cases hstep
  · have := hpooled.once i
    omega

instance (a : Action) (s : State) : Decidable (Undisturbed a s) := by
  unfold Undisturbed
  split <;> infer_instance

/-- The agent connects, connects again, and only then its first mux ends; a Pool
connection is parked with the second and received by a call. -/
def reconnectRun : List Action :=
  ([.accept "c", .conn 0 .lookup] : List Action) ++ enters 0 "s0" ++
    ([.accept "c", .conn 1 .lookup] : List Action) ++ enters 1 "s1" ++
    ([.conn 0 .muxEnd, .conn 0 .removeIf, .accept "c", .conn 2 .lookup, .conn 2 .handshake,
      .conn 2 (.hello "c" .pool), .conn 2 .getPool, .conn 2 .send, .open "c", .receive 0] : List Action)

theorem registry_current_reconnect : ∃ s, (system oneClient).Reach Undisturbed s ∧
    s.clients.lookup "c" = some ⟨1, "s1", 1⟩ ∧ s.latest.lookup "c" = some 1 ∧ handed s 2 = 1 ∧
    ParkedAs s 2 "c" := by
  obtain ⟨s, hs, hp⟩ := System.reach_of_run (S := system oneClient) (C := Undisturbed) reconnectRun
    (fun s => s.clients.lookup "c" = some ⟨1, "s1", 1⟩ ∧ s.calls = [⟨"c", 1, [2], false⟩]) (by decide +kernel)
  obtain ⟨hentry, hcalls⟩ := of_decide_eq_true hp
  obtain ⟨hlatest, -, hparked, -⟩ := registry_current oneClient s hs
  exact ⟨s, hs, hentry, ((hlatest "c" 1).mp ⟨_, hentry, rfl⟩).1, by rw [handed, hcalls]; rfl,
    hparked ⟨"c", 1, [2], false⟩ (by rw [hcalls]; simp) 2 (by simp)⟩

end Bridge

end Rps.Controller
