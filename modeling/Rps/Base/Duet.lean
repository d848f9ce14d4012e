import Rps.Base.Dialog
import Rps.Base.Progress

/-! Two tasks that talk over a link.

Each end of a connection is a `Dialog`: what it has written is a function of what it
has been handed. The link hands over what the other end wrote, in order, in pieces of
any size and at any time, and the end of the stream once the other end has failed and
all it wrote is handed over. A `Talk` is what has been handed over so far.

Dialogs built from stable readers are `Causal`: more input extends what they write and
changes no outcome. Two causal dialogs end in one way: once one order of hand-overs
leads to a state in which nothing is left to hand over, every order ends in that state
(`Talk.settles`). So a protocol is followed along one order only. -/
namespace Rps.Base

namespace Dialog
variable {α β : Type}

/-- More input extends what is written, and an outcome does not change. -/
structure Causal (d : Dialog α) : Prop where
  grows : ∀ ended bs later, (d false bs).written <+: (d ended (bs ++ later)).written
  done : ∀ ended bs later a rest, (d false bs).read = .done a rest →
    d ended (bs ++ later) = ⟨(d false bs).written, .done a (rest ++ later)⟩
  invalid : ∀ ended bs later error, (d false bs).read = .invalid error →
    d ended (bs ++ later) = ⟨(d false bs).written, .invalid error⟩

theorem Causal.pure (a : α) : Causal (Pure.pure a : Dialog α) where
  grows := fun _ _ _ => List.prefix_rfl
  done := by
    intro ended bs later b rest h
    obtain ⟨rfl, rfl⟩ := Read.done.inj h
    rfl
  invalid := by
    intro ended bs later error h
    cases h

theorem Causal.write (bytes : Bytes) : Causal (Dialog.write bytes) where
  grows := fun _ _ _ => List.prefix_rfl
  done := by
    intro ended bs later b rest h
    obtain ⟨rfl, rfl⟩ := Read.done.inj h
    rfl
  invalid := by
    intro ended bs later error h
    cases h

theorem Causal.ofReader {r : Reader α} (hr : r.Stable) : Causal (Dialog.ofReader r) where
  grows := fun _ _ _ => List.prefix_rfl
  done := by
    intro ended bs later a rest h
    have hdone := hr.done bs later a rest h
    cases ended with
    | false => exact congrArg (Turn.mk []) hdone
    | true => exact congrArg (Turn.mk []) (Reader.closed_eq_done.mpr hdone)
  invalid := by
    intro ended bs later error h
    have hinvalid := hr.invalid bs later error h
    cases ended with
    | false => exact congrArg (Turn.mk []) hinvalid
    | true => exact congrArg (Turn.mk []) (Reader.closed_of_invalid hinvalid)

theorem Causal.fail (error : String) : Causal (Dialog.fail error : Dialog α) := .ofReader (.fail error)

theorem Causal.ofExcept (e : Except String α) : Causal (Dialog.ofExcept e) := .ofReader (.ofExcept e)

theorem bind_more {d : Dialog α} {f : α → Dialog β} {ended : Bool} {bs : Bytes} (h : (d ended bs).read = .more) :
    (d >>= f) ended bs = ⟨(d ended bs).written, .more⟩ := by
  show Dialog.bind d f ended bs = _
  unfold Dialog.bind
  cases hd : d ended bs with
  | mk written read =>
    rw [hd] at h
    cases h
    rfl

theorem bind_invalid {d : Dialog α} {f : α → Dialog β} {ended : Bool} {bs : Bytes} {error : String}
    (h : (d ended bs).read = .invalid error) : (d >>= f) ended bs = ⟨(d ended bs).written, .invalid error⟩ := by
  show Dialog.bind d f ended bs = _
  unfold Dialog.bind
  cases hd : d ended bs with
  | mk written read =>
    rw [hd] at h
    cases h
    rfl

theorem bind_done {d : Dialog α} {f : α → Dialog β} {ended : Bool} {bs rest : Bytes} {a : α}
    (h : (d ended bs).read = .done a rest) :
    (d >>= f) ended bs = ⟨(d ended bs).written ++ (f a ended rest).written, (f a ended rest).read⟩ := by
  show Dialog.bind d f ended bs = _
  unfold Dialog.bind
  cases hd : d ended bs with
  | mk written read =>
    rw [hd] at h
    cases h
    rfl

theorem pure_bind_eq (a : α) (f : α → Dialog β) : ((Pure.pure a : Dialog α) >>= f) = f a := rfl

theorem bind_bind {γ : Type} (d : Dialog α) (f : α → Dialog β) (g : β → Dialog γ) :
    ((d >>= f) >>= g) = (d >>= fun a => f a >>= g) := by
  funext ended bs
  cases hd : (d ended bs).read with
  | more =>
    rw [bind_more hd, bind_more (congrArg Turn.read (bind_more hd)), bind_more hd]
  | invalid error =>
    rw [bind_invalid hd, bind_invalid (congrArg Turn.read (bind_invalid hd)), bind_invalid hd]
  | done a rest =>
    have hboth := bind_done (f := f) hd
    rw [bind_done hd]
    cases hf : (f a ended rest).read with
    | more => rw [bind_more (by rw [hboth]; exact hf), bind_more hf, hboth]
    | invalid error => rw [bind_invalid (by rw [hboth]; exact hf), bind_invalid hf, hboth]
    | done b rest' => rw [bind_done (by rw [hboth]; exact hf), bind_done hf, hboth, List.append_assoc]

theorem fail_bind (error : String) (f : α → Dialog β) : (Dialog.fail error >>= f) = Dialog.fail error := by
  funext ended bs
  cases ended <;> rfl

/-- A message that has arrived is read, whether or not the stream ends behind it. -/
theorem ofReader_bind_done {r : Reader α} {f : α → Dialog β} {bs rest : Bytes} {a : α} (h : r bs = .done a rest)
    (ended : Bool) : (ofReader r >>= f) ended bs = f a ended rest := by
  have hread : (ofReader r ended bs).read = .done a rest := by
    cases ended with
    | false => exact h
    | true => exact Reader.closed_eq_done.mpr h
  rw [bind_done hread]
  rfl

theorem readExact_bind {n : Nat} {word : Bytes} (h : word.length = n) (f : Bytes → Dialog β) (ended : Bool) (bs : Bytes) :
    (ofReader (Reader.readExact n) >>= f) ended (word ++ bs) = f word ended bs :=
  ofReader_bind_done (Reader.readExact_of_length h bs) ended

/-- Where nothing has arrived the task waits, or fails if the stream has ended. -/
theorem ofReader_bind_more {r : Reader α} {f : α → Dialog β} {bs : Bytes} (h : r bs = .more) :
    (ofReader r >>= f) false bs = ⟨[], .more⟩ ∧ (ofReader r >>= f) true bs = ⟨[], .invalid "early eof"⟩ :=
  ⟨bind_more h, bind_invalid (Reader.closed_of_more h)⟩

/-- What the first part has written comes first. -/
theorem written_bind (d : Dialog α) (f : α → Dialog β) (ended : Bool) (bs : Bytes) :
    (d ended bs).written <+: ((d >>= f) ended bs).written := by
  cases h : (d ended bs).read with
  | more => exact ⟨[], by rw [bind_more h, List.append_nil]⟩
  | invalid error => exact ⟨[], by rw [bind_invalid h, List.append_nil]⟩
  | done a rest =>
    rw [bind_done h]
    exact List.prefix_append _ _

theorem Causal.bind {d : Dialog α} {f : α → Dialog β} (hd : d.Causal) (hf : ∀ a, (f a).Causal) :
    (d >>= f).Causal where
  grows := by
    intro ended bs later
    cases h : (d false bs).read with
    | more =>
      rw [bind_more h]
      exact (hd.grows ended bs later).trans (written_bind d f ended _)
    | invalid error =>
      rw [bind_invalid h]
      exact (hd.grows ended bs later).trans (written_bind d f ended _)
    | done a rest =>
      have hlater := hd.done ended bs later a rest h
      rw [bind_done h, bind_done (congrArg Turn.read hlater), congrArg Turn.written hlater]
      exact (List.prefix_append_right_inj _).mpr ((hf a).grows ended rest later)
  done := by
    intro ended bs later b rest h
    cases hread : (d false bs).read with
    | more =>
      rw [bind_more hread] at h
      cases h
    | invalid error =>
      rw [bind_invalid hread] at h
      cases h
    | done a mid =>
      have hlater := hd.done ended bs later a mid hread
      rw [bind_done hread] at h ⊢
      rw [bind_done (congrArg Turn.read hlater), congrArg Turn.written hlater, (hf a).done ended mid later b rest h]
  invalid := by
    intro ended bs later error h
    cases hread : (d false bs).read with
    | more =>
      rw [bind_more hread] at h
      cases h
    | invalid error' =>
      have hlater := hd.invalid ended bs later error' hread
      rw [bind_invalid hread] at h ⊢
      obtain rfl := Read.invalid.inj h
      rw [bind_invalid (congrArg Turn.read hlater), congrArg Turn.written hlater]
    | done a mid =>
      have hlater := hd.done ended bs later a mid hread
      rw [bind_done hread] at h ⊢
      rw [bind_done (congrArg Turn.read hlater), congrArg Turn.written hlater, (hf a).invalid ended mid later error h]

theorem Causal.ite {c : Prop} [Decidable c] {d d' : Dialog α} (hd : d.Causal) (hd' : d'.Causal) :
    (if c then d else d').Causal := by
  split
  · exact hd
  · exact hd'

section OnError
variable {d : Dialog α} {answer : String → Bytes} {ended : Bool} {bs : Bytes}

theorem onError_of_not_invalid (h : ∀ error, (d ended bs).read ≠ .invalid error) :
    d.onError answer ended bs = d ended bs := by
  unfold Dialog.onError
  split
  · next hturn => exact absurd (congrArg Turn.read hturn) (h _)
  · rfl

theorem onError_of_invalid {error : String} (h : (d ended bs).read = .invalid error) :
    d.onError answer ended bs = ⟨(d ended bs).written ++ answer error, .invalid error⟩ := by
  unfold Dialog.onError
  cases hturn : d ended bs with
  | mk written read =>
    rw [hturn] at h
    cases h
    rfl

theorem written_onError (d : Dialog α) (answer : String → Bytes) (ended : Bool) (bs : Bytes) :
    (d ended bs).written <+: (d.onError answer ended bs).written := by
  by_cases h : ∃ error, (d ended bs).read = .invalid error
  · obtain ⟨error, h⟩ := h
    rw [onError_of_invalid h]
    exact List.prefix_append _ _
  · exact ⟨[], by rw [onError_of_not_invalid (not_exists.mp h), List.append_nil]⟩

theorem Causal.onError (hd : d.Causal) (answer : String → Bytes) : (d.onError answer).Causal where
  grows := by
    intro ended bs later
    by_cases h : ∃ error, (d false bs).read = .invalid error
    · obtain ⟨error, h⟩ := h
      have hlater := hd.invalid ended bs later error h
      exact ⟨[], by rw [onError_of_invalid h, onError_of_invalid (congrArg Turn.read hlater), hlater, List.append_nil]⟩
    · rw [onError_of_not_invalid (not_exists.mp h)]
      exact (hd.grows ended bs later).trans (written_onError d answer ended _)
  done := by
    intro ended bs later a rest h
    by_cases hread : ∃ error, (d false bs).read = .invalid error
    · obtain ⟨error, hread⟩ := hread
      rw [onError_of_invalid hread] at h
      cases h
    · rw [onError_of_not_invalid (not_exists.mp hread)] at h ⊢
      have hlater := hd.done ended bs later a rest h
      rw [onError_of_not_invalid (by simp [hlater]), hlater]
  invalid := by
    intro ended bs later error h
    by_cases hread : ∃ error, (d false bs).read = .invalid error
    · obtain ⟨error', hread⟩ := hread
      have hlater := hd.invalid ended bs later error' hread
      rw [onError_of_invalid hread] at h ⊢
      obtain rfl := Read.invalid.inj h
      rw [onError_of_invalid (congrArg Turn.read hlater), hlater]
    · rw [onError_of_not_invalid (not_exists.mp hread)] at h
      exact absurd ⟨error, h⟩ hread

end OnError

end Dialog

/-! ### Handing over -/

def Read.Failed {α : Type} (r : Read α) : Prop := ∃ error, r = .invalid error

/-- The task has ended with an error, which closes its end of the link. -/
def Turn.hung {α : Type} (t : Turn α) : Prop := t.read.Failed

/-- What each end has been handed, and whether it has seen the end of the stream. -/
structure Talk where
  left : Bytes := []
  leftEnded : Bool := false
  right : Bytes := []
  rightEnded : Bool := false
  deriving DecidableEq

/-- What the link does next: some bytes, or the end of the stream, to one end. -/
inductive HandOver where
  | toRight (n : Nat)
  | toLeft (n : Nat)
  | endRight
  | endLeft
  deriving DecidableEq

/-- The same at the other end. -/
def HandOver.swap : HandOver → HandOver
  | .toRight n => .toLeft n
  | .toLeft n => .toRight n
  | .endRight => .endLeft
  | .endLeft => .endRight

/-- The next bytes of what was written, unless nothing is left. -/
def nextBytes (written got : Bytes) (n : Nat) : Option Bytes :=
  if 0 < n ∧ got.length + n ≤ written.length then some (got ++ (written.drop got.length).take n) else none

/-- The end of the stream, behind everything that was written. -/
def nextEnd {α : Type} (turn : Turn α) (got : Bytes) (ended : Bool) : Option Bool :=
  match turn.read with
  | .invalid _ => if got = turn.written ∧ ended = false then some true else none
  | _ => none

/-- One input is a part of another. -/
structure Part (got : Bytes) (ended : Bool) (got' : Bytes) (ended' : Bool) : Prop where
  bytes : got <+: got'
  ended : ended = true → ended' = true ∧ got' = got

/-- An input comes from what the other end wrote. -/
structure Fed {α : Type} (turn : Turn α) (got : Bytes) (ended : Bool) : Prop where
  bytes : got <+: turn.written
  ended : ended = true → turn.hung ∧ got = turn.written

/-- Everything was handed over. -/
structure Heard {α : Type} (turn : Turn α) (got : Bytes) (ended : Bool) : Prop where
  bytes : got = turn.written
  ended : turn.hung → ended = true

section Feeding
variable {α : Type}

theorem Part.refl (got : Bytes) (ended : Bool) : Part got ended got ended :=
  ⟨List.prefix_rfl, fun h => ⟨h, rfl⟩⟩

theorem Part.antisymm {got got' : Bytes} {ended ended' : Bool} (h : Part got ended got' ended')
    (h' : Part got' ended' got ended) : got = got' ∧ ended = ended' := by
  refine ⟨h.bytes.eq_of_length_le h'.bytes.length_le, ?_⟩
  rw [Bool.eq_iff_iff]
  exact ⟨fun he => (h.ended he).1, fun he => (h'.ended he).1⟩

/-- With more input a causal task has written more, and the same once it has failed. -/
theorem Dialog.Causal.mono {d : Dialog α} (hd : d.Causal) {got got' : Bytes} {ended ended' : Bool}
    (h : Part got ended got' ended') : (d ended got).written <+: (d ended' got').written ∧
      ((d ended got).hung → (d ended' got').hung ∧ (d ended' got').written = (d ended got).written) := by
  cases ended with
  | true =>
    obtain ⟨rfl, rfl⟩ := h.ended rfl
    exact ⟨List.prefix_rfl, fun hung => ⟨hung, rfl⟩⟩
  | false =>
    obtain ⟨later, rfl⟩ := h.bytes
    refine ⟨hd.grows ended' got later, ?_⟩
    intro hung
    obtain ⟨error, herror⟩ := hung
    rw [hd.invalid ended' got later error herror]
    exact ⟨⟨error, rfl⟩, rfl⟩

theorem Fed.mono {d : Dialog α} (hd : d.Causal) {got got' out : Bytes} {ended ended' seen : Bool}
    (h : Fed (d ended got) out seen) (hp : Part got ended got' ended') : Fed (d ended' got') out seen := by
  obtain ⟨hgrows, hhung⟩ := hd.mono hp
  refine ⟨h.bytes.trans hgrows, fun hseen => ?_⟩
  obtain ⟨hung, rfl⟩ := h.ended hseen
  obtain ⟨hung', heq⟩ := hhung hung
  exact ⟨hung', heq.symm⟩

/-- What a smaller input was answered is part of what a larger one was, once all of that is handed over. -/
theorem Fed.part {d : Dialog α} (hd : d.Causal) {got got' out out' : Bytes} {ended ended' seen seen' : Bool}
    (hp : Part got ended got' ended') (hf : Fed (d ended got) out seen) (hh : Heard (d ended' got') out' seen') :
    Part out seen out' seen' := by
  obtain ⟨hgrows, hhung⟩ := hd.mono hp
  refine ⟨by rw [hh.bytes]; exact hf.bytes.trans hgrows, fun hseen => ?_⟩
  obtain ⟨hung, rfl⟩ := hf.ended hseen
  obtain ⟨hung', heq⟩ := hhung hung
  exact ⟨hh.ended hung', by rw [hh.bytes, heq]⟩

/-- The next bytes add to what was handed over; behind the end there are none. -/
theorem Fed.next {turn : Turn α} {got got' : Bytes} {ended : Bool} {n : Nat} (hf : Fed turn got ended)
    (h : nextBytes turn.written got n = some got') :
    Part got ended got' ended ∧ got.length < got'.length ∧ Fed turn got' ended := by
  unfold nextBytes at h
  split at h
  · next hn =>
    obtain rfl := Option.some.inj h
    obtain ⟨rest, hrest⟩ := hf.bytes
    have hopen : ended ≠ true := by
      intro he
      rw [(hf.ended he).2] at hn
      omega
    have hlen : turn.written.length = got.length + rest.length := by rw [← hrest, List.length_append]
    have hnext : (turn.written.drop got.length).take n = rest.take n := by rw [← hrest, List.drop_left]
    rw [hnext]
    refine ⟨⟨List.prefix_append _ _, fun he => absurd he hopen⟩, ?_, ?_, fun he => absurd he hopen⟩
    · rw [List.length_append, List.length_take]
      omega
    · rw [← hrest]
      exact (List.prefix_append_right_inj _).mpr (List.take_prefix _ _)
  · cases h

theorem Fed.next_end {turn : Turn α} {got : Bytes} {ended ended' : Bool} (hf : Fed turn got ended)
    (h : nextEnd turn got ended = some ended') :
    Part got ended got ended' ∧ ended = false ∧ ended' = true ∧ Fed turn got ended' := by
  unfold nextEnd at h
  split at h
  · next error herror =>
    split at h
    · next hc =>
      obtain rfl := Option.some.inj h
      exact ⟨⟨List.prefix_rfl, fun _ => ⟨rfl, rfl⟩⟩, hc.2, rfl, hf.bytes, fun _ => ⟨⟨error, herror⟩, hc.1⟩⟩
    · cases h
  · cases h

/-- Where neither is possible, everything was handed over. -/
theorem heard_of_none {turn : Turn α} {got : Bytes} {ended : Bool} (hf : Fed turn got ended)
    (hbytes : nextBytes turn.written got 1 = none) (hend : nextEnd turn got ended = none) : Heard turn got ended := by
  have heq : got = turn.written := by
    apply hf.bytes.eq_of_length_le
    by_contra hlt
    simp [nextBytes] at hbytes
    omega
  refine ⟨heq, fun hung => ?_⟩
  obtain ⟨error, herror⟩ := hung
  simpa [nextEnd, herror, heq] using hend

end Feeding

namespace Talk
variable {α β : Type} (l : Dialog α) (r : Dialog β)

def leftTurn (t : Talk) : Turn α := l t.leftEnded t.left

def rightTurn (t : Talk) : Turn β := r t.rightEnded t.right

def step (h : HandOver) (t : Talk) : Option Talk :=
  match h with
  | .toRight n => (nextBytes (t.leftTurn l).written t.right n).map fun got => {t with right := got}
  | .toLeft n => (nextBytes (t.rightTurn r).written t.left n).map fun got => {t with left := got}
  | .endRight => (nextEnd (t.leftTurn l) t.right t.rightEnded).map fun ended => {t with rightEnded := ended}
  | .endLeft => (nextEnd (t.rightTurn r) t.left t.leftEnded).map fun ended => {t with leftEnded := ended}

/-- Two tasks that have been handed nothing yet. -/
def system : System Talk HandOver where
  init := {}
  step := step l r

/-- Both ends have been handed all there is. -/
structure Complete (t : Talk) : Prop where
  right : Heard (t.leftTurn l) t.right t.rightEnded
  left : Heard (t.rightTurn r) t.left t.leftEnded

/-- Both ends were handed only what the other wrote. -/
structure Faithful (t : Talk) : Prop where
  right : Fed (t.leftTurn l) t.right t.rightEnded
  left : Fed (t.rightTurn r) t.left t.leftEnded

/-- One talk is an earlier stage of another. -/
structure Before (t u : Talk) : Prop where
  left : Part t.left t.leftEnded u.left u.leftEnded
  right : Part t.right t.rightEnded u.right u.rightEnded

/-- The hand-overs there have been. -/
def size (t : Talk) : Nat := t.left.length + t.right.length + t.leftEnded.toNat + t.rightEnded.toNat

variable {l r}

theorem Before.antisymm {t u : Talk} (h : Before t u) (h' : Before u t) : t = u := by
  obtain ⟨hl, hle⟩ := h.left.antisymm h'.left
  obtain ⟨hr, hre⟩ := h.right.antisymm h'.right
  cases t
  cases u
  simp_all

theorem Before.size_le {t u : Talk} (h : Before t u) : t.size ≤ u.size := by
  have hl := h.left.bytes.length_le
  have hr := h.right.bytes.length_le
  have hle : t.leftEnded.toNat ≤ u.leftEnded.toNat := Bool.toNat_le_toNat fun he => (h.left.ended he).1
  have hre : t.rightEnded.toNat ≤ u.rightEnded.toNat := Bool.toNat_le_toNat fun he => (h.right.ended he).1
  simp only [size]
  omega

theorem faithful_init : Faithful l r (system l r).init where
  right := ⟨List.nil_prefix, fun he => by cases he⟩
  left := ⟨List.nil_prefix, fun he => by cases he⟩

theorem complete_of_idle {t : Talk} (hf : Faithful l r t) (h : (system l r).Idle (fun _ => True) t) :
    Complete l r t where
  right := heard_of_none hf.right (by simpa [system, step] using h (.toRight 1) trivial)
    (by simpa [system, step] using h .endRight trivial)
  left := heard_of_none hf.left (by simpa [system, step] using h (.toLeft 1) trivial)
    (by simpa [system, step] using h .endLeft trivial)

section Causal
variable (hl : l.Causal) (hr : r.Causal)
include hl hr

/-- A hand-over keeps what was handed over, adds to it, and adds only what was written. -/
theorem Faithful.step {h : HandOver} {t u : Talk} (hf : Faithful l r t) (hs : step l r h t = some u) :
    Faithful l r u ∧ Before t u ∧ t.size < u.size := by
  cases h with
  | toRight n =>
    obtain ⟨got, hgot, rfl⟩ := Option.map_eq_some_iff.mp hs
    obtain ⟨hpart, hlen, hfed⟩ := hf.right.next hgot
    exact ⟨⟨hfed, hf.left.mono hr hpart⟩, ⟨.refl _ _, hpart⟩, by simp only [size]; omega⟩
  | toLeft n =>
    obtain ⟨got, hgot, rfl⟩ := Option.map_eq_some_iff.mp hs
    obtain ⟨hpart, hlen, hfed⟩ := hf.left.next hgot
    exact ⟨⟨hf.right.mono hl hpart, hfed⟩, ⟨hpart, .refl _ _⟩, by simp only [size]; omega⟩
  | endRight =>
    obtain ⟨ended, hended, rfl⟩ := Option.map_eq_some_iff.mp hs
    obtain ⟨hpart, hbefore, rfl, hfed⟩ := hf.right.next_end hended
    exact ⟨⟨hfed, hf.left.mono hr hpart⟩, ⟨.refl _ _, hpart⟩, by simp [size, hbefore]⟩
  | endLeft =>
    obtain ⟨ended, hended, rfl⟩ := Option.map_eq_some_iff.mp hs
    obtain ⟨hpart, hbefore, rfl, hfed⟩ := hf.left.next_end hended
    exact ⟨⟨hf.right.mono hl hpart, hfed⟩, ⟨hpart, .refl _ _⟩, by simp [size, hbefore]⟩

theorem faithful_of_reachable {t : Talk} (h : (system l r).Reachable t) : Faithful l r t :=
  h.invariant faithful_init fun _ _ _ hf _ hs => (hf.step hl hr hs).1

/-- No order of hand-overs gets past a talk that is complete. -/
theorem before_complete {t u : Talk} (h : (system l r).Reachable t) (hc : Complete l r u) : Before t u := by
  have hboth : Faithful l r t ∧ Before t u := by
    refine h.invariant (I := fun t => Faithful l r t ∧ Before t u) ⟨faithful_init, ⟨List.nil_prefix, ?_⟩,
      ⟨List.nil_prefix, ?_⟩⟩ ?_
    · intro he
      cases he
    · intro he
      cases he
    · intro a v w hv _ hs
      have hw := (hv.1.step hl hr hs).1
      refine ⟨hw, ?_⟩
      cases a with
      | toRight n =>
        obtain ⟨got, -, rfl⟩ := Option.map_eq_some_iff.mp hs
        exact ⟨hv.2.left, hw.right.part hl hv.2.left hc.right⟩
      | toLeft n =>
        obtain ⟨got, -, rfl⟩ := Option.map_eq_some_iff.mp hs
        exact ⟨hw.left.part hr hv.2.right hc.left, hv.2.right⟩
      | endRight =>
        obtain ⟨ended, -, rfl⟩ := Option.map_eq_some_iff.mp hs
        exact ⟨hv.2.left, hw.right.part hl hv.2.left hc.right⟩
      | endLeft =>
        obtain ⟨ended, -, rfl⟩ := Option.map_eq_some_iff.mp hs
        exact ⟨hw.left.part hr hv.2.right hc.left, hv.2.right⟩
  exact hboth.2

/-- **Every order ends alike.** If some order of hand-overs completes the talk in `u`,
then from wherever another order has led, only so many hand-overs are left, and they
end in `u`. -/
theorem settles {t u : Talk} (hu : (system l r).Reachable u) (hc : Complete l r u)
    (ht : (system l r).Reachable t) :
    (∀ n v, (system l r).Work (fun _ => True) t n v → n ≤ u.size) ∧
      (∃ n, (system l r).Work (fun _ => True) t n u) ∧
      ∀ n v, (system l r).Work (fun _ => True) t n v → (system l r).Idle (fun _ => True) v → v = u := by
  have hreach : ∀ {n v}, (system l r).Work (fun _ => True) t n v → (system l r).Reachable v := fun hw =>
    ht.steps (hw.steps fun _ _ _ => trivial)
  have hend : ∀ n v, (system l r).Work (fun _ => True) t n v → (system l r).Idle (fun _ => True) v → v = u := by
    intro n v hw hidle
    have hv := complete_of_idle (faithful_of_reachable hl hr (hreach hw)) hidle
    exact (before_complete hl hr (hreach hw) hc).antisymm (before_complete hl hr hu hv)
  have hstep : ∀ a v w, (system l r).Reachable v → True → (system l r).step a v = some w →
      (system l r).Reachable w ∧ u.size - w.size < u.size - v.size := by
    intro a v w hv _ hs
    have hw : (system l r).Reachable w := .step hv trivial hs
    have hlt := ((faithful_of_reachable hl hr hv).step hl hr hs).2.2
    have hle := (before_complete hl hr hw hc).size_le
    exact ⟨hw, by omega⟩
  refine ⟨fun n v hw => ?_, ?_, hend⟩
  · have hbound := (hw.bounded hstep ht).2
    omega
  · obtain ⟨n, v, hw, hidle⟩ := System.exists_idle hstep ht
    obtain rfl := hend n v hw hidle
    exact ⟨n, hw⟩

end Causal

/-! ### One order -/

variable (l r)

/-- Some order of hand-overs completes the talk, and its ends have read what `P` says. -/
def Finishes (P : Read α → Read β → Prop) : Prop :=
  ∃ u, (system l r).Reachable u ∧ Complete l r u ∧ P (u.leftTurn l).read (u.rightTurn r).read

/-- Every order of hand-overs comes to an end, and to the same one, where the ends have read what `P` says. -/
def EndsIn (P : Read α → Read β → Prop) : Prop :=
  ∃ u, P (u.leftTurn l).read (u.rightTurn r).read ∧ ∀ t, (system l r).Reachable t →
    (∀ n v, (system l r).Work (fun _ => True) t n v → n ≤ u.size) ∧
      (∃ n, (system l r).Work (fun _ => True) t n u) ∧
      ∀ n v, (system l r).Work (fun _ => True) t n v → (system l r).Idle (fun _ => True) v → v = u

variable {l r} {P : Read α → Read β → Prop}

theorem Finishes.endsIn (h : Finishes l r P) (hl : l.Causal) (hr : r.Causal) : EndsIn l r P := by
  obtain ⟨u, hu, hc, hP⟩ := h
  exact ⟨u, hP, fun _ ht => settles hl hr hu hc ht⟩

theorem EndsIn.mono {Q : Read α → Read β → Prop} (hPQ : ∀ x y, P x y → Q x y) (h : EndsIn l r P) : EndsIn l r Q := by
  obtain ⟨u, hP, hu⟩ := h
  exact ⟨u, hPQ _ _ hP, hu⟩

/-- The other end on the left. -/
def swap (t : Talk) : Talk := ⟨t.right, t.rightEnded, t.left, t.leftEnded⟩

theorem reachable_swap {t : Talk} (h : (system l r).Reachable t) : (system r l).Reachable t.swap := by
  induction h with
  | refl => exact .refl
  | @step t u a _ _ hs ih =>
    refine .step (a := a.swap) ih trivial ?_
    cases a with
    | toRight n =>
      obtain ⟨got, hgot, rfl⟩ := Option.map_eq_some_iff.mp hs
      exact Option.map_eq_some_iff.mpr ⟨got, hgot, rfl⟩
    | toLeft n =>
      obtain ⟨got, hgot, rfl⟩ := Option.map_eq_some_iff.mp hs
      exact Option.map_eq_some_iff.mpr ⟨got, hgot, rfl⟩
    | endRight =>
      obtain ⟨ended, hended, rfl⟩ := Option.map_eq_some_iff.mp hs
      exact Option.map_eq_some_iff.mpr ⟨ended, hended, rfl⟩
    | endLeft =>
      obtain ⟨ended, hended, rfl⟩ := Option.map_eq_some_iff.mp hs
      exact Option.map_eq_some_iff.mpr ⟨ended, hended, rfl⟩

theorem Finishes.swap (h : Finishes l r P) : Finishes r l fun x y => P y x := by
  obtain ⟨u, hu, hc, hP⟩ := h
  exact ⟨u.swap, reachable_swap hu, ⟨hc.left, hc.right⟩, hP⟩

/-- Both are done with what they have. -/
theorem Finishes.done {a : α} {b : β} (hP : P (.done a []) (.done b [])) :
    Finishes (Pure.pure a : Dialog α) (Pure.pure b : Dialog β) P := by
  refine ⟨{}, .refl, ⟨⟨rfl, ?_⟩, ⟨rfl, ?_⟩⟩, hP⟩
  · intro hung
    obtain ⟨error, herror⟩ := hung
    cases herror
  · intro hung
    obtain ⟨error, herror⟩ := hung
    cases herror

/-- Both have failed. -/
theorem Finishes.failed {e e' : String} (hP : P (.invalid e) (.invalid e')) :
    Finishes (Dialog.fail e : Dialog α) (Dialog.fail e' : Dialog β) P := by
  have hl (ended : Bool) : (Dialog.fail e : Dialog α) ended [] = ⟨[], .invalid e⟩ := by cases ended <;> rfl
  have hr (ended : Bool) : (Dialog.fail e' : Dialog β) ended [] = ⟨[], .invalid e'⟩ := by cases ended <;> rfl
  have hend : (system (Dialog.fail e : Dialog α) (Dialog.fail e' : Dialog β)).Reachable {rightEnded := true} :=
    .step (a := .endRight) .refl trivial (by simp [system, Talk.step, leftTurn, nextEnd, hl])
  refine ⟨{leftEnded := true, rightEnded := true}, ?_, ⟨⟨?_, fun _ => rfl⟩, ⟨?_, fun _ => rfl⟩⟩, ?_⟩
  · exact .step (a := .endLeft) hend trivial (by simp [system, Talk.step, rightTurn, nextEnd, hr])
  · simp [leftTurn, hl]
  · simp [rightTurn, hr]
  · simpa [leftTurn, rightTurn, hl, hr] using hP

/-- The left end has failed, and the right end sees the end of the stream where it reads. -/
theorem Finishes.left_failed {γ : Type} {e : String} {rd : Reader γ} {g : γ → Dialog β} (hmore : rd [] = .more)
    (hP : P (.invalid e) (.invalid "early eof")) : Finishes (Dialog.fail e : Dialog α) (Dialog.ofReader rd >>= g) P := by
  have hl (ended : Bool) : (Dialog.fail e : Dialog α) ended [] = ⟨[], .invalid e⟩ := by cases ended <;> rfl
  obtain ⟨hwait, heof⟩ := Dialog.ofReader_bind_more (f := g) hmore
  have hend : (system (Dialog.fail e : Dialog α) (Dialog.ofReader rd >>= g)).Reachable {rightEnded := true} :=
    .step (a := .endRight) .refl trivial (by simp [system, Talk.step, leftTurn, nextEnd, hl])
  refine ⟨{leftEnded := true, rightEnded := true}, ?_, ⟨⟨?_, fun _ => rfl⟩, ⟨?_, fun _ => rfl⟩⟩, ?_⟩
  · exact .step (a := .endLeft) hend trivial (by simp [system, Talk.step, rightTurn, nextEnd, heof])
  · simp [leftTurn, hl]
  · simp [rightTurn, heof]
  · simpa [leftTurn, rightTurn, hl, heof] using hP

theorem Finishes.right_failed {γ : Type} {e : String} {rd : Reader γ} {f : γ → Dialog α} (hmore : rd [] = .more)
    (hP : P (.invalid "early eof") (.invalid e)) : Finishes (Dialog.ofReader rd >>= f) (Dialog.fail e : Dialog β) P :=
  (Finishes.left_failed (P := fun x y => P y x) hmore hP).swap

/-! ### A message -/

/-- The talk behind a message to the right end. -/
def behind (w : Bytes) (t : Talk) : Talk := {t with right := w ++ t.right}

theorem nextBytes_behind {w written got got' : Bytes} {n : Nat} (h : nextBytes written got n = some got') :
    nextBytes (w ++ written) (w ++ got) n = some (w ++ got') := by
  unfold nextBytes at h ⊢
  split at h
  · next hn =>
    obtain rfl := Option.some.inj h
    rw [if_pos ⟨hn.1, by simp only [List.length_append]; omega⟩, List.length_append, ← List.drop_drop, List.drop_left,
      List.append_assoc]
  · cases h

theorem nextEnd_behind (w : Bytes) (turn : Turn α) (got : Bytes) (ended : Bool) :
    nextEnd ⟨w ++ turn.written, turn.read⟩ (w ++ got) ended = nextEnd turn got ended := by
  unfold nextEnd
  cases turn.read <;> simp

section Message
variable {l' : Dialog α} {r r' : Dialog β} {w : Bytes}

/-- A talk goes on behind a message as if it began there, if the right end then goes on as `r'`. -/
theorem Finishes.behind (hr : ∀ ended bs, r ended (w ++ bs) = r' ended bs) (h : Finishes l' r' P) :
    Finishes (Dialog.write w >>= fun _ => l') r P := by
  have hleft (t : Talk) : (t.behind w).leftTurn (Dialog.write w >>= fun _ => l') =
      ⟨w ++ (t.leftTurn l').written, (t.leftTurn l').read⟩ := Dialog.write_bind _ _ _ _
  have hright (t : Talk) : (t.behind w).rightTurn r = t.rightTurn r' := hr _ _
  have hreach : ∀ t, (system l' r').Reachable t →
      (system (Dialog.write w >>= fun _ => l') r).Reachable (t.behind w) := by
    intro t ht
    induction ht with
    | refl =>
      by_cases hw : w = []
      · subst hw
        exact .refl
      · refine .step (a := .toRight w.length) .refl trivial (Option.map_eq_some_iff.mpr ⟨w, ?_, ?_⟩)
        · have hpos := List.length_pos_iff.mpr hw
          simp [leftTurn, Dialog.write_bind, nextBytes, system, hpos]
        · simp [Talk.behind, system]
    | @step t u a _ _ hs ih =>
      refine .step (a := a) ih trivial ?_
      cases a with
      | toRight n =>
        obtain ⟨got, hgot, rfl⟩ := Option.map_eq_some_iff.mp hs
        refine Option.map_eq_some_iff.mpr ⟨w ++ got, ?_, rfl⟩
        rw [hleft]
        exact nextBytes_behind hgot
      | toLeft n =>
        obtain ⟨got, hgot, rfl⟩ := Option.map_eq_some_iff.mp hs
        refine Option.map_eq_some_iff.mpr ⟨got, ?_, rfl⟩
        rw [hright]
        exact hgot
      | endRight =>
        obtain ⟨ended, hended, rfl⟩ := Option.map_eq_some_iff.mp hs
        refine Option.map_eq_some_iff.mpr ⟨ended, ?_, rfl⟩
        rw [hleft]
        exact (nextEnd_behind w _ _ _).trans hended
      | endLeft =>
        obtain ⟨ended, hended, rfl⟩ := Option.map_eq_some_iff.mp hs
        refine Option.map_eq_some_iff.mpr ⟨ended, ?_, rfl⟩
        rw [hright]
        exact hended
  obtain ⟨u, hu, hc, hP⟩ := h
  refine ⟨u.behind w, hreach u hu, ⟨⟨?_, ?_⟩, ⟨?_, ?_⟩⟩, ?_⟩
  · rw [hleft]
    exact congrArg (w ++ ·) hc.right.bytes
  · rw [hleft]
    exact hc.right.ended
  · rw [hright]
    exact hc.left.bytes
  · rw [hright]
    exact hc.left.ended
  · rw [hleft, hright]
    exact hP

/-- The left end says something the right end reads. -/
theorem Finishes.say {γ : Type} {rd : Reader γ} {g : γ → Dialog β} {c : γ} (hread : ∀ bs, rd (w ++ bs) = .done c bs)
    (h : Finishes l' (g c) P) : Finishes (Dialog.write w >>= fun _ => l') (Dialog.ofReader rd >>= g) P :=
  h.behind fun ended bs => Dialog.ofReader_bind_done (hread bs) ended

/-- The left end says something to a right end that has failed. -/
theorem Finishes.unheard {e : String} (h : Finishes l' (Dialog.fail e : Dialog β) P) :
    Finishes (Dialog.write w >>= fun _ => l') (Dialog.fail e : Dialog β) P := by
  refine h.behind fun ended bs => ?_
  cases ended <;> rfl

end Message

/-- The right end says something the left end reads. -/
theorem Finishes.hear {γ : Type} {rd : Reader γ} {f : γ → Dialog α} {r' : Dialog β} {w : Bytes} {c : γ}
    (hread : ∀ bs, rd (w ++ bs) = .done c bs) (h : Finishes (f c) r' P) :
    Finishes (Dialog.ofReader rd >>= f) (Dialog.write w >>= fun _ => r') P :=
  (h.swap.say hread).swap

/-- The right end says something behind which the left end goes on as `l'`. -/
theorem Finishes.told {l l' : Dialog α} {r' : Dialog β} {w : Bytes} (hl : ∀ ended bs, l ended (w ++ bs) = l' ended bs)
    (h : Finishes l' r' P) : Finishes l (Dialog.write w >>= fun _ => r') P :=
  (h.swap.behind hl).swap

end Talk

end Rps.Base
