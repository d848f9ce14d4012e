import Rps.Base.Bytes

/-! Mux frames on the wire: a type byte, the stream id and the payload length in
big endian, then the payload. `readFrame` consumes a frame with two `read_exact`
calls, so it takes no byte of the frame behind it: frames within the payload
limit delimit themselves (`frames_delimit`), and bytes that are read as a frame are
the ones `write_frame` puts on the wire for it (`encode_of_readFrame`). -/
namespace Rps.Mux
open Base

def headerLen : Nat := 9
def maxPayloadLen : Nat := 16 * 1024 * 1024

inductive FrameType where
  | «open»
  | openAck
  | data
  | close
  | ping
  | pong
  | error
  deriving DecidableEq, Repr

/-- `frame_type as u8`. -/
def FrameType.toU8 : FrameType → UInt8
  | .open => 0x01
  | .openAck => 0x02
  | .data => 0x03
  | .close => 0x04
  | .ping => 0x05
  | .pong => 0x06
  | .error => 0x07

def FrameType.tryFrom (value : UInt8) : Except String FrameType :=
  if value = 0x01 then .ok .open
  else if value = 0x02 then .ok .openAck
  else if value = 0x03 then .ok .data
  else if value = 0x04 then .ok .close
  else if value = 0x05 then .ok .ping
  else if value = 0x06 then .ok .pong
  else if value = 0x07 then .ok .error
  else .error s!"unknown frame type {value}"

theorem FrameType.tryFrom_toU8 (t : FrameType) : FrameType.tryFrom t.toU8 = .ok t := by
  cases t <;> rfl

theorem FrameType.toU8_of_tryFrom {value : UInt8} {t : FrameType}
    (h : FrameType.tryFrom value = .ok t) : t.toU8 = value := by
  unfold FrameType.tryFrom at h
  split_ifs at h with h1 h2 h3 h4 h5 h6 h7
  all_goals
    cases h
    exact Eq.symm ‹_›

structure Frame where
  frameType : FrameType
  streamId : UInt32
  payload : Bytes
  deriving DecidableEq, Repr

/-- The header `write_frame` puts before the payload; the length is cast to `u32`. -/
def Frame.header (f : Frame) : Bytes :=
  f.frameType.toU8 :: (toBe 4 f.streamId.toNat ++ toBe 4 f.payload.length)

/-- What `write_frame` puts on the wire. -/
def Frame.encode (f : Frame) : Bytes := f.header ++ f.payload

/-- `write_frame`: the bytes written, or the error before anything is written. -/
def writeFrame (f : Frame) : Except String Bytes :=
  if f.payload.length > maxPayloadLen then .error "mux payload too large" else .ok f.encode

theorem writeFrame_of_le {f : Frame} (h : f.payload.length ≤ maxPayloadLen) :
    writeFrame f = .ok f.encode := by
  rw [writeFrame, if_neg (Nat.not_lt_of_le h)]

def readFrame : Reader Frame := do
  let header ← Reader.readExact headerLen
  let frameType ← Reader.ofExcept (FrameType.tryFrom (header.headD 0))
  let streamId := UInt32.ofNat (ofBe ((header.drop 1).take 4))
  let len := ofBe ((header.drop 5).take 4)
  if len > maxPayloadLen then Reader.fail "mux payload too large"
  else do
    let payload ← Reader.readExact len
    pure ⟨frameType, streamId, payload⟩

@[simp] theorem length_header (f : Frame) : f.header.length = headerLen := by
  simp [Frame.header, headerLen]

theorem header_stream (f : Frame) : UInt32.ofNat (ofBe ((f.header.drop 1).take 4)) = f.streamId := by
  have hlt : f.streamId.toNat < 256 ^ 4 := f.streamId.toNat_lt
  simp only [Frame.header, List.drop_succ_cons, List.drop_zero]
  rw [List.take_append_of_le_length (by simp), List.take_of_length_le (by simp), ofBe_toBe _ _ hlt]
  exact UInt32.ofNat_toNat

theorem header_len (f : Frame) (h : f.payload.length ≤ maxPayloadLen) :
    ofBe ((f.header.drop 5).take 4) = f.payload.length := by
  have hlt : f.payload.length < 256 ^ 4 := by
    unfold maxPayloadLen at h
    omega
  have hdrop : f.header.drop 5 = toBe 4 f.payload.length := by
    simp only [Frame.header, List.drop_succ_cons]
    rw [List.drop_append_of_le_length (by simp), List.drop_of_length_le (by simp), List.nil_append]
  rw [hdrop, List.take_of_length_le (by simp), ofBe_toBe _ _ hlt]

/-- A frame within the limit is read back, and the bytes behind it are left. -/
theorem readFrame_encode (f : Frame) (rest : Bytes) (h : f.payload.length ≤ maxPayloadLen) :
    readFrame (f.encode ++ rest) = .done f rest := by
  have hheader : Reader.readExact headerLen (f.encode ++ rest) = .done f.header (f.payload ++ rest) := by
    rw [Frame.encode, List.append_assoc]
    exact Reader.readExact_of_length (length_header f) _
  have htype : FrameType.tryFrom (f.header.headD 0) = .ok f.frameType := FrameType.tryFrom_toU8 f.frameType
  unfold readFrame
  rw [Reader.bind_of_done hheader, htype]
  simp only [Reader.ofExcept, header_stream, header_len f h]
  rw [Reader.bind_of_done (Reader.pure_apply ..), if_neg (by omega),
    Reader.bind_of_done (Reader.readExact_append ..)]
  rfl

/-- Nine bytes as the header of the frame they announce. -/
theorem header_eq (bytes : Bytes) (hlen : bytes.length = headerLen) {t : FrameType}
    (ht : t.toU8 = bytes.headD 0) (payload : Bytes)
    (hpayload : payload.length = ofBe ((bytes.drop 5).take 4)) :
    Frame.header ⟨t, UInt32.ofNat (ofBe ((bytes.drop 1).take 4)), payload⟩ = bytes := by
  obtain ⟨b, fields, rfl⟩ : ∃ b fields, bytes = b :: fields := by
    cases bytes with
    | nil => cases hlen
    | cons b fields => exact ⟨b, fields, rfl⟩
  have hfields : fields.length = 8 := by simpa [headerLen] using hlen
  have hid : (fields.take 4).length = 4 := by simp [hfields]
  have hrest : ((fields.drop 4).take 4).length = 4 := by simp [hfields]
  have hid_lt : ofBe (fields.take 4) < UInt32.size := by simpa [hid] using ofBe_lt (fields.take 4)
  simp only [List.drop_succ_cons, List.headD_cons] at ht hpayload
  have hid_nat : (UInt32.ofNat (ofBe (fields.take 4))).toNat = ofBe (fields.take 4) :=
    UInt32.toNat_ofNat_of_lt' hid_lt
  simp only [Frame.header, List.drop_succ_cons, List.drop_zero]
  rw [hid_nat, hpayload, toBe_ofBe hid, toBe_ofBe hrest, ht,
    List.take_of_length_le (l := fields.drop 4) (by simp [hfields]), List.take_append_drop]

/-- What was read as a frame is what `write_frame` puts on the wire for it. -/
theorem encode_of_readFrame {bs rest : Bytes} {f : Frame} (h : readFrame bs = .done f rest) :
    f.payload.length ≤ maxPayloadLen ∧ bs = f.encode ++ rest := by
  obtain ⟨header, mid, hheader, htyped⟩ := Reader.bind_eq_done h
  obtain ⟨t, mid', htype, hbody⟩ := Reader.bind_eq_done htyped
  obtain ⟨ht, rfl⟩ := Reader.ofExcept_eq_done htype
  obtain ⟨hlen, rfl⟩ := Reader.readExact_eq_done hheader
  simp only at hbody
  split at hbody
  · cases hbody
  · rename_i hlimit
    obtain ⟨payload, mid'', hread, hdone⟩ := Reader.bind_eq_done hbody
    obtain ⟨hpayload, rfl⟩ := Reader.readExact_eq_done hread
    simp only [Reader.pure_apply, Read.done.injEq] at hdone
    obtain ⟨rfl, rfl⟩ := hdone
    refine ⟨hpayload ▸ Nat.le_of_not_gt hlimit, ?_⟩
    rw [Frame.encode, header_eq header hlen (FrameType.toU8_of_tryFrom ht) payload hpayload,
      List.append_assoc]

/-- A complete header that names no frame type, or a payload above the limit, is
refused whatever follows it. -/
theorem readFrame_refused {header : Bytes} (hlen : header.length = headerLen) (rest : Bytes)
    (hbad : (∀ t : FrameType, t.toU8 ≠ header.headD 0) ∨ ofBe ((header.drop 5).take 4) > maxPayloadLen) :
    ∃ error, readFrame (header ++ rest) = .invalid error := by
  unfold readFrame
  rw [Reader.bind_of_done (Reader.readExact_of_length hlen rest)]
  cases ht : FrameType.tryFrom (header.headD 0) with
  | error error => exact ⟨error, rfl⟩
  | ok t =>
    refine ⟨"mux payload too large", ?_⟩
    rcases hbad with hunknown | hlarge
    · exact absurd (FrameType.toU8_of_tryFrom ht) (hunknown t)
    · simp only [Reader.ofExcept]
      rw [Reader.bind_of_done (Reader.pure_apply ..), if_pos hlarge]
      rfl

theorem readFrame_stable : Reader.Stable readFrame := by
  refine .bind (.readExact _) fun header => .bind (.ofExcept _) fun frameType => ?_
  exact .ite (.fail _) (.bind (.readExact _) fun payload => .pure _)

/-- **Frames within the payload limit delimit themselves.** -/
theorem frames_delimit :
    Reader.Delimits (fun f : Frame => f.payload.length ≤ maxPayloadLen) Frame.encode readFrame where
  stable := readFrame_stable
  nil := rfl
  read := fun f rest h => readFrame_encode f rest h

end Rps.Mux
