import Rps.Mux.Frame
import Rps.Core.Protocol

/-! The two framings of a connection.

Before the handshake the ends exchange JSON messages, behind it mux frames; each
layer starts at the byte where the one before it stopped. So both readers have to
stop exactly behind what was written, for any number of messages and whatever
follows them. Frames are also the only bytes their reader accepts: a header cut
short, a type byte without a meaning and a length above the limit are errors. -/
namespace Rps.Core
open Base Mux

variable {α : Type}

/-- A cut frame is waited for; at the end of the stream it is an error. -/
theorem readFrame_cut {f : Frame} (hf : f.payload.length ≤ maxPayloadLen) {cut missing output : Bytes}
    (hw : writeFrame f = .ok output) (hs : cut ++ missing = output) (hne : missing ≠ []) :
    readFrame cut = .more ∧ readFrame.closed cut = .invalid "early eof" := by
  rw [writeFrame_of_le hf, Except.ok.injEq] at hw
  have hmore := frames_delimit.more_of_cut hf (hs.trans hw.symm) hne
  exact ⟨hmore, Reader.closed_of_more hmore⟩

/-- Bytes whose type byte has no meaning are never a frame, however many there are. -/
theorem readFrame_unknown_type {value : UInt8} (hvalue : ∀ t : FrameType, t.toU8 ≠ value) (bs : Bytes) :
    ∃ error, readFrame.closed (value :: bs) = .invalid error := by
  by_cases hlen : (value :: bs).length < headerLen
  · refine ⟨"early eof", Reader.closed_of_more ?_⟩
    have hheader : Reader.readExact headerLen (value :: bs) = .more := if_pos hlen
    rw [readFrame, Reader.bind_apply, hheader]
  · have hheader : ((value :: bs).take headerLen).length = headerLen :=
      List.length_take_of_le (Nat.le_of_not_lt hlen)
    obtain ⟨error, herror⟩ := readFrame_refused hheader ((value :: bs).drop headerLen) (.inl hvalue)
    rw [List.take_append_drop] at herror
    exact ⟨error, Reader.closed_of_invalid herror⟩

/-- **Both framings delimit themselves, and frames are read as they are written.** -/
theorem framings_self_delimiting (C : Codec α) :
    (∀ (frames : List Frame) (suffix : Bytes), (∀ f ∈ frames, f.payload.length ≤ maxPayloadLen) →
      ∃ outputs, frames.mapM writeFrame = .ok outputs ∧
        Reader.readMany readFrame frames.length (outputs.flatten ++ suffix) = .done frames suffix) ∧
    (∀ (bs rest : Bytes) (f : Frame), readFrame bs = .done f rest →
      ∃ output, writeFrame f = .ok output ∧ bs = output ++ rest) ∧
    (∀ (f : Frame) (cut missing output : Bytes), f.payload.length ≤ maxPayloadLen →
      writeFrame f = .ok output → cut ++ missing = output → missing ≠ [] →
      readFrame cut = .more ∧ readFrame.closed cut = .invalid "early eof") ∧
    (∀ (value : UInt8) (bs : Bytes), (∀ t : FrameType, t.toU8 ≠ value) →
      ∃ error, readFrame.closed (value :: bs) = .invalid error) ∧
    (∀ (header rest : Bytes), header.length = headerLen →
      ofBe ((header.drop 5).take 4) > maxPayloadLen →
      ∃ error, readFrame.closed (header ++ rest) = .invalid error) ∧
    (∀ (values : List α) (suffix : Bytes), (∀ a ∈ values, C.Decodes a) →
      (∀ a ∈ values, (C.toVec a).length ≤ maxJsonMessageLen) →
      ∃ outputs, values.mapM C.writeJson = .ok outputs ∧
        Reader.readMany C.readJson values.length (outputs.flatten ++ suffix) = .done values suffix) := by
  refine ⟨?_, ?_, ?_, ?_, ?_, ?_⟩
  · intro frames suffix hlimit
    exact frames_delimit.readMany_written (fun f => writeFrame_of_le) frames hlimit suffix
  · intro bs rest f h
    obtain ⟨hlimit, hbs⟩ := encode_of_readFrame h
    exact ⟨f.encode, writeFrame_of_le hlimit, hbs⟩
  · intro f cut missing output hf hw hs hne
    exact readFrame_cut hf hw hs hne
  · intro value bs hvalue
    exact readFrame_unknown_type hvalue bs
  · intro header rest hlen hlarge
    obtain ⟨error, herror⟩ := readFrame_refused hlen rest (.inr hlarge)
    exact ⟨error, Reader.closed_of_invalid herror⟩
  · intro values suffix hdecodes hlimit
    exact Codec.json_delimits.readMany_written (fun a ha => Codec.writeJson_of_le ha.2) values
      (fun a ha => ⟨hdecodes a ha, hlimit a ha⟩) suffix

end Rps.Core
