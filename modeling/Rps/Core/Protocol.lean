import Rps.Base.Bytes

/-! JSON messages on a byte stream: a length in big endian, then the text.

The text itself is `serde_json`'s (`Codec`). A message is read with two `read_exact`
calls, so what is behind it on the stream stays there: `readJson_of_written` says so
for a stream of which any part has arrived. -/
namespace Rps.Core
open Base

def maxJsonMessageLen : Nat := 1024 * 1024

/-- `serde_json::to_vec` and `serde_json::from_slice` at one type. -/
structure Codec (α : Type) where
  toVec : α → Bytes
  fromSlice : Bytes → Except String α

namespace Codec
variable {α : Type} (C : Codec α)

/-- The text of a value is read as that value. -/
def Decodes (a : α) : Prop := C.fromSlice (C.toVec a) = .ok a

def writeJson (a : α) : Except String Bytes :=
  if (C.toVec a).length > maxJsonMessageLen then .error "json message too large"
  else .ok (withPrefix (C.toVec a))

def readJson : Reader α := do
  let bytes ← Reader.prefixed maxJsonMessageLen "json message too large"
  Reader.ofExcept (C.fromSlice bytes)

variable {C}

theorem writeJson_eq_ok {a : α} {bytes : Bytes} (h : C.writeJson a = .ok bytes) :
    (C.toVec a).length ≤ maxJsonMessageLen ∧ bytes = withPrefix (C.toVec a) := by
  unfold writeJson at h
  split at h
  · cases h
  · rename_i hlen
    exact ⟨Nat.le_of_not_gt hlen, (Except.ok.inj h).symm⟩

theorem writeJson_of_le {a : α} (h : (C.toVec a).length ≤ maxJsonMessageLen) :
    C.writeJson a = .ok (withPrefix (C.toVec a)) := by
  rw [writeJson, if_neg (Nat.not_lt_of_le h)]

theorem readJson_stable : Reader.Stable C.readJson :=
  .bind (Reader.prefixed_stable _ _) fun _ => .ofExcept _

theorem readJson_nil : C.readJson [] = .more := rfl

theorem readJson_withPrefix {a : α} (hd : C.Decodes a) (hlen : (C.toVec a).length ≤ maxJsonMessageLen)
    (rest : Bytes) : C.readJson (withPrefix (C.toVec a) ++ rest) = .done a rest := by
  have hlimit : maxJsonMessageLen < 2 ^ 32 := by decide
  have hprefixed := (Reader.prefixed_delimits hlimit "json message too large").read (C.toVec a) rest hlen
  unfold readJson
  rw [Reader.bind_of_done hprefixed, hd]
  rfl

/-- The values `serde_json` reads back delimit themselves within the limit. -/
theorem json_delimits : Reader.Delimits
    (fun a => C.Decodes a ∧ (C.toVec a).length ≤ maxJsonMessageLen) (fun a => withPrefix (C.toVec a))
    C.readJson where
  stable := readJson_stable
  nil := readJson_nil
  read := fun _ rest h => readJson_withPrefix h.1 h.2 rest

/-- A message that has been read is the one that was written, and what is behind it
was not touched. -/
theorem readJson_of_written {a b : α} {arrived later behind rest : Bytes} (hd : C.Decodes a)
    (hlen : (C.toVec a).length ≤ maxJsonMessageLen)
    (hs : arrived ++ later = withPrefix (C.toVec a) ++ behind) (h : C.readJson arrived = .done b rest) :
    b = a ∧ rest ++ later = behind := by
  have hlater := readJson_stable.done arrived later b rest h
  rw [hs, readJson_withPrefix hd hlen] at hlater
  simp only [Read.done.injEq] at hlater
  exact ⟨hlater.1.symm, hlater.2.symm⟩

end Codec

/-! ### Opening a target -/

inductive TargetProtocol where
  | tcp
  | udp
  deriving DecidableEq

structure OpenRequest where
  tunnelId : String
  protocol : TargetProtocol
  target : String
  remoteAddr : String
  timeoutMs : Nat
  deriving DecidableEq

structure OpenResponse where
  ok : Bool
  error : Option String
  deriving DecidableEq

namespace OpenResponse

/-- `OpenResponse::ok`. -/
def success : OpenResponse := ⟨true, none⟩

def err (error : String) : OpenResponse := ⟨false, some error⟩

end OpenResponse

end Rps.Core
