import Rps.Pool.Transparency

/-! What the pooled TCP path records.

`pool_path`: whatever connections died before, however the loops chunk, fail, or are
aborted, the path is transparent, and once the pipe has begun the recorder has the
initial data and the chunks that were written in full, in each direction. Before, it
has nothing: a path that never opens records nothing of its initial data
(`unopened_unmetered`). -/
namespace Rps.Pool
open Base
open Rps.Core

/-- The recorder has the initial data and the chunks that were written in full. -/
def Metered (P : Setup) (s : Path) : Prop :=
  ∀ t, s.recorder = some t → t.txBytes = P.initial.length + s.uplink.size ∧ t.rxBytes = s.downlink.size

section
variable {P : Setup} {s : Path}

def StartedAt (phase : Phase) (started : Bool) : Prop :=
  match phase with
  | .acquiring | .requesting _ _ | .awaiting _ | .opened _ => started = false
  | .greeting _ _ | .relaying _ => started = true
  | .failed _ | .dropped => True

structure MeterInv (P : Setup) (s : Path) : Prop where
  metered : s.started = true → Metered P s
  nothing : s.started = false →
    (∀ t, s.recorder = some t → t = {}) ∧ s.uplink.size = 0 ∧ s.downlink.size = 0
  phase : StartedAt s.phase s.started

theorem meterInv_init : MeterInv P (system P).init where
  metered := by simp [system]
  nothing := fun _ => ⟨by simp [system], rfl, rfl⟩
  phase := rfl

/-- A step that records nothing and completes no chunk. -/
theorem MeterInv.same (h : MeterInv P s) {u : Path} (hrec : u.recorder = s.recorder) (hstarted : u.started = s.started)
    (hup : u.uplink.size = s.uplink.size) (hdown : u.downlink.size = s.downlink.size)
    (hphase : StartedAt u.phase u.started) : MeterInv P u where
  metered := by
    unfold Metered
    rw [hstarted, hrec, hup, hdown]
    exact h.metered
  nothing := by
    rw [hstarted, hrec, hup, hdown]
    exact h.nothing
  phase := hphase

theorem send_meter (s : Path) (c : Nat) (bytes : Bytes) :
    (s.send c bytes).recorder = s.recorder ∧ (s.send c bytes).started = s.started ∧
      (s.send c bytes).downlink = s.downlink := by
  unfold Path.send
  split <;> exact ⟨rfl, rfl, rfl⟩

theorem meterInv_fail (h : MeterInv P s) (error : String) : MeterInv P (s.fail error) := h.same rfl rfl rfl rfl trivial

theorem meterInv_retry (h : MeterInv P s) (hstarted : s.started = false) : MeterInv P (s.retry P) := by
  unfold Path.retry
  split
  · exact h.same rfl rfl rfl rfl hstarted
  · exact meterInv_fail h _

theorem meterInv_setup (h : MeterInv P s) {c : Nat} (hphase : s.phase = .opened c) : MeterInv P (s.setup P c) := by
  have hstarted := h.phase
  simp only [StartedAt, hphase] at hstarted
  obtain ⟨hrec, hup, hdown⟩ := h.nothing hstarted
  unfold Path.setup
  cases hdata : P.initialData with
  | none =>
    refine ⟨fun _ t ht => ?_, fun hs => Bool.noConfusion hs, rfl⟩
    obtain rfl := hrec t ht
    show 0 = P.initial.length + s.uplink.size ∧ 0 = s.downlink.size
    rw [hup, hdown, Setup.initial, hdata]
    exact ⟨rfl, rfl⟩
  | some data =>
    refine ⟨fun _ t ht => ?_, fun hs => Bool.noConfusion hs, rfl⟩
    obtain ⟨t₀, ht₀, rfl⟩ := Option.map_eq_some_iff.mp ht
    obtain rfl := hrec t₀ ht₀
    show 0 + data.length = P.initial.length + s.uplink.size ∧ 0 + 0 = s.downlink.size
    rw [hup, hdown, Setup.initial, hdata]
    exact ⟨Nat.zero_add _, rfl⟩

/-- A chunk is recorded in the step that completes it. -/
theorem meterInv_copy (h : MeterInv P s) {c : Nat} (hphase : s.phase = .relaying c) {direction : Direction}
    {a : CopyAction} {u : Path} (hstep : s.copy c direction a = some u) : MeterInv P u := by
  have hstarted := h.phase
  simp only [StartedAt, hphase] at hstarted
  have hmetered := h.metered hstarted
  unfold Path.copy at hstep
  split at hstep
  · cases hstep
  · rename_i k hk
    cases direction with
    | up =>
      obtain ⟨r, hr, rfl⟩ := Option.map_eq_some_iff.mp hstep
      have hspec := Copy.step_spec hr
      rw [send_eq hk]
      refine ⟨fun _ t ht => ?_, fun hs => ?_, ?_⟩
      · obtain ⟨t₀, ht₀, rfl⟩ := Option.map_eq_some_iff.mp ht
        obtain ⟨htx, hrx⟩ := hmetered t₀ ht₀
        show t₀.txBytes + r.size = P.initial.length + r.copy.size ∧ t₀.rxBytes + 0 = s.downlink.size
        rw [hspec.size, htx, hrx]
        exact ⟨Nat.add_assoc .., rfl⟩
      · exact absurd (hs.symm.trans hstarted) Bool.false_ne_true
      · unfold Path.record
        simp only [StartedAt, hphase]
        exact hstarted
    | down =>
      obtain ⟨r, hr, rfl⟩ := Option.map_eq_some_iff.mp hstep
      have hspec := Copy.step_spec hr
      refine ⟨fun _ t ht => ?_, fun hs => ?_, ?_⟩
      · obtain ⟨t₀, ht₀, rfl⟩ := Option.map_eq_some_iff.mp ht
        obtain ⟨htx, hrx⟩ := hmetered t₀ ht₀
        show t₀.txBytes + 0 = P.initial.length + s.uplink.size ∧ t₀.rxBytes + r.size = r.copy.size
        rw [hspec.size, htx, hrx]
        exact ⟨rfl, rfl⟩
      · exact absurd (hs.symm.trans hstarted) Bool.false_ne_true
      · unfold Path.record
        simp only [StartedAt, hphase]
        exact hstarted

theorem meterInv_acquire (h : MeterInv P s) (hphase : s.phase = .acquiring) {u : Path}
    (hstep : s.acquire P = some u) : MeterInv P u := by
  have hp := h.phase
  simp only [StartedAt, hphase] at hp
  unfold Path.acquire at hstep
  split at hstep
  · cases hstep
  · simp only at hstep
    split at hstep
    · cases hstep
      exact h.same rfl rfl rfl rfl hp
    · cases hstep
      exact meterInv_retry (h.same rfl rfl rfl rfl h.phase) hp

theorem meterInv_responseRead (h : MeterInv P s) {c : Nat} (hphase : s.phase = .awaiting c) {u : Path}
    (hstep : s.responseRead P c = some u) : MeterInv P u := by
  have hp := h.phase
  simp only [StartedAt, hphase] at hp
  unfold Path.responseRead at hstep
  split at hstep
  · cases hstep
  · split at hstep
    · cases hstep
    · cases hstep
      exact meterInv_retry h hp
    · split at hstep
      · cases hstep
        exact h.same rfl rfl rfl rfl hp
      · cases hstep
        exact meterInv_fail h _

/-- Writing the request or the initial data records nothing. -/
theorem meterInv_send (h : MeterInv P s) (c : Nat) (bytes : Bytes) {phase : Phase}
    (hphase : StartedAt phase s.started) : MeterInv P {s.send c bytes with phase := phase} := by
  obtain ⟨hf1, hf2, hf3⟩ := send_meter s c bytes
  obtain ⟨-, hf4, -⟩ := send_frame s c bytes
  refine h.same hf1 hf2 (by rw [hf4]) (by rw [hf3]) ?_
  rw [hf2]
  exact hphase

theorem meterInv_moves (h : MeterInv P s) {u : Path} (hmoves : Moves P s u) : MeterInv P u := by
  have hp := h.phase
  unfold StartedAt at hp
  cases hmoves with
  | fail error => exact meterInv_fail h error
  | drop => exact h.same rfl rfl rfl rfl trivial
  | acquire hphase hstep => exact meterInv_acquire h hphase hstep
  | requestWrite c rest n hphase =>
    simp only [hphase] at hp
    refine meterInv_send h c _ ?_
    split <;> exact hp
  | requestFail c rest hphase =>
    simp only [hphase] at hp
    exact meterInv_retry h hp
  | responseRead c hphase hstep => exact meterInv_responseRead h hphase hstep
  | responseFail c hphase =>
    simp only [hphase] at hp
    exact meterInv_retry h hp
  | setup c hphase => exact meterInv_setup h hphase
  | greet c rest n hphase =>
    simp only [hphase] at hp
    refine meterInv_send h c _ ?_
    split <;> exact hp
  | copy c direction a hphase hstep => exact meterInv_copy h hphase hstep
  | loops c selecting uplink downlink hphase hup hdown =>
    refine h.same rfl rfl ?_ ?_ h.phase
    · rw [Copy.size, Copy.size, hup.1]
    · rw [Copy.size, Copy.size, hdown.1]

theorem meterInv_step (h : MeterInv P s) {a : Action} {u : Path} (hstep : (system P).step a s = some u) :
    MeterInv P u := by
  rcases around_or_control hstep with haround | hcontrol
  · refine h.same haround.recorder haround.started (by rw [haround.uplink]) (by rw [haround.downlink]) ?_
    rw [haround.phase, haround.started]
    exact h.phase
  · exact meterInv_moves h (control_moves hcontrol)

end

/-- **The pooled path is transparent, and metered once the pipe has begun**: a path
whose pipe never began has recorded nothing. -/
theorem pool_path (P : Setup) (hdoc : P.Documented) (s : Path) (h : (system P).Reachable s) :
    Transparent P s ∧ (s.started = true → Metered P s) ∧
      (s.started = false → ∀ t, s.recorder = some t → t = {}) := by
  have hpath : PathInv P s := System.Reach.invariant h pathInv_init fun _ _ _ h _ hs => pathInv_step hdoc h hs
  have hmeter : MeterInv P s := System.Reach.invariant h meterInv_init fun _ _ _ h _ hs => meterInv_step h hs
  exact ⟨transparent_of_inv hpath, hmeter.metered, fun hs => (hmeter.nothing hs).1⟩

/-! ### A path on JSON text -/

def utf8 (text : String) : Bytes := text.toUTF8.data.toList

def ofUtf8 (bytes : Bytes) : String := (String.fromUTF8? ⟨bytes.toArray⟩).getD ""

theorem ofUtf8_utf8 (text : String) : ofUtf8 (utf8 text) = text := by
  have hbytes : (⟨(utf8 text).toArray⟩ : ByteArray) = text.toUTF8 := by simp [utf8]
  rw [ofUtf8, hbytes, String.fromUTF8?, dif_pos (show text.toUTF8.IsValidUTF8 from text.isValidUTF8)]
  rfl

def okHead (ok : Bool) : Bytes :=
  utf8 (if ok then "\x7b\"ok\":true,\"error\":" else "\x7b\"ok\":false,\"error\":")

def errorText (error : Option String) : Bytes :=
  match error with
  | none => utf8 "null\x7d"
  | some error => utf8 "\"" ++ utf8 error ++ utf8 "\"\x7d"

def readError (bytes : Bytes) : Option String :=
  if bytes = errorText none then none else some (ofUtf8 ((bytes.drop 1).dropLast.dropLast))

/-- The text of a response whose error needs no escapes. -/
def responseText : Codec OpenResponse where
  toVec response := okHead response.ok ++ errorText response.error
  fromSlice bytes :=
    if okHead true <+: bytes then .ok ⟨true, readError (bytes.drop (okHead true).length)⟩
    else if okHead false <+: bytes then .ok ⟨false, readError (bytes.drop (okHead false).length)⟩
    else .error "expected value"

theorem readError_errorText (error : Option String) : readError (errorText error) = error := by
  cases error with
  | none => rw [readError, if_pos rfl]
  | some error =>
    have hopen : utf8 "\"" = [34] := by decide +kernel
    have hclose : utf8 "\"\x7d" = [34, 125] := by decide +kernel
    have hnull : errorText none = [110, 117, 108, 108, 125] := by decide +kernel
    have htext : errorText (some error) = 34 :: (utf8 error ++ [34, 125]) := by
      rw [errorText, hopen, hclose]
      rfl
    have hback : ((34 :: (utf8 error ++ [34, 125])).drop 1).dropLast.dropLast = utf8 error := by
      rw [List.drop_one, List.tail_cons, List.dropLast_append_of_ne_nil (by simp)]
      exact List.dropLast_concat
    rw [readError, if_neg (by rw [htext, hnull]; simp), htext, hback, ofUtf8_utf8]

theorem responseText_decodes (response : OpenResponse) : responseText.Decodes response := by
  obtain ⟨ok, error⟩ := response
  have hhead (ok : Bool) (rest : Bytes) : (okHead ok ++ rest).drop (okHead ok).length = rest := List.drop_left
  cases ok with
  | true =>
    simp only [Codec.Decodes, responseText]
    rw [if_pos (List.prefix_append _ _), hhead, readError_errorText]
  | false =>
    have hne : ¬ okHead true <+: okHead false ++ errorText error := by
      rintro ⟨rest, hrest⟩
      have h := congrArg (List.take 7) hrest
      rw [List.take_append_of_le_length (by decide +kernel), List.take_append_of_le_length (by decide +kernel)] at h
      exact absurd h (by decide +kernel)
    simp only [Codec.Decodes, responseText]
    rw [if_neg hne, if_pos (List.prefix_append _ _), hhead, readError_errorText]

def requestText (request : OpenRequest) : Bytes :=
  let protocol := match request.protocol with
    | .tcp => "tcp"
    | .udp => "udp"
  utf8 ("\x7b\"tunnel_id\":\"" ++ request.tunnelId ++ "\",\"protocol\":\"" ++ protocol ++
    "\",\"target\":\"" ++ request.target ++ "\",\"remote_addr\":\"" ++ request.remoteAddr ++
    "\",\"timeout_ms\":" ++ toString request.timeoutMs ++ "\x7d")

/-- A path for one request, whose text is the only one that is read as a request. -/
def textSetup (request : OpenRequest) (initialData : Option Bytes) : Setup where
  requestCodec := {
    toVec := requestText
    fromSlice := fun bytes => if bytes = requestText request then .ok request else .error "expected value"}
  responseCodec := responseText
  clientId := "c"
  request := request
  initialData := initialData
  recorder := true
  shutdown := true

theorem textSetup_documented (request : OpenRequest) (initialData : Option Bytes) :
    (textSetup request initialData).Documented where
  request := by simp [Codec.Decodes, textSetup]
  response := responseText_decodes

/-- Two bytes of initial data, for a target that the agent reaches. -/
def greetedSetup : Setup := textSetup ⟨"t", .tcp, "h:80", "a:9", 5000⟩ (some [1, 2])

/-- The first connection is dead; the second relays until the shutdown. -/
def relayedRun : List Action :=
  [.dial, .dial, .acquire, .requestFail, .acquire, .requestWrite 5,
    .requestWrite (greetedSetup.requestMessage.length - 5), .agent 1 .requestRead, .agent 1 .connected,
    .agent 1 (.answer (greetedSetup.responseMessage .success).length), .targetSend 1 [9, 8],
    .agent 1 (.copy .down (.read 2)), .agent 1 (.copy .down (.write 2)), .responseRead, .setup, .greet 1, .greet 1,
    .clientSend [3, 4, 5], .copy .up (.read 2), .copy .up (.write 1), .copy .up (.write 1),
    .agent 1 (.copy .up (.read 3)), .agent 1 (.copy .up (.write 3)),
    .copy .down (.read 1), .copy .down (.write 1), .copy .up (.read 1), .shutdown, .copy .up .abort]

theorem pool_path_relayed : ∃ s, (system greetedSetup).Reachable s ∧ Transparent greetedSetup s ∧
    Metered greetedSetup s ∧ s.recorder = some ⟨1, 4⟩ ∧ s.clientGot = [9] ∧
    s.conns.map (·.targetGot) = [[], [1, 2, 3]] := by
  obtain ⟨s, hs, hp⟩ := System.reach_of_run (S := system greetedSetup) (C := fun _ _ => True) relayedRun
    (fun s => s.started ∧ s.recorder = some ⟨1, 4⟩ ∧ s.clientGot = [9] ∧
      s.conns.map (·.targetGot) = [[], [1, 2, 3]]) (by decide +kernel)
  simp only [decide_eq_true_eq] at hp
  obtain ⟨hstarted, hp⟩ := hp
  obtain ⟨htransparent, hmetered, -⟩ := pool_path greetedSetup (textSetup_documented _ _) s hs
  exact ⟨s, hs, htransparent, hmetered hstarted, hp⟩

/-- Four dead connections. -/
def deadRun : List Action :=
  [.dial, .dial, .dial, .dial, .acquire, .requestFail, .acquire, .requestFail, .acquire, .requestFail,
    .acquire, .requestFail]

/-- No connection of the pool is alive, and nothing of the initial data is recorded. -/
theorem unopened_unmetered :
    ¬ ∀ (P : Setup) (s : Path), P.Documented → (system P).Reachable s → Transparent P s ∧ Metered P s := by
  intro h
  obtain ⟨s, hs, hp⟩ := System.reach_of_run (S := system greetedSetup) (C := fun _ _ => True) deadRun
    (fun s => s.phase = .failed "no live pooled connection available for client c" ∧ s.recorder = some {} ∧
      s.uplink.size = 0) (by decide +kernel)
  simp only [decide_eq_true_eq] at hp
  obtain ⟨-, hrec, hsize⟩ := hp
  have htx := ((h greetedSetup s (textSetup_documented _ _) hs).2 {} hrec).1
  rw [hsize] at htx
  exact absurd htx (by decide)

end Rps.Pool
