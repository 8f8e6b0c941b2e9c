import HashedTree.JsonReading
import HashedTree.Proofs.Outcomes

/-!
# Reading on, one character at a time

What a reader does next depends on the state that settles before the next character. As long as it
has no objection, it goes from state to state by the steps of the machine alone; nothing that it may
object to is missed by looking at a state once.
-/
namespace HashedTree.ReadingSteps
open JsonReading Outcomes

variable {ε : Type} {r : Reader ε} {frames : List Frame} {s t : State} {c : Char} {rest : List Char}

/-- A reader that reads every value to its end. -/
def Attentive (r : Reader ε) : Prop := ∀ s, r.skipping s = false

/-- A reader of any document whatever. -/
def impartial : Reader ε where
  skipping _ := false
  objection _ := none

/-- The reader has no objection while exactly these arrays and objects are open. -/
def Quiet (r : Reader ε) (frames : List Frame) : Prop :=
  ∀ mode, r.objection ⟨frames, mode⟩ = none

/-- The reader has no objection as long as these arrays and objects stay open. -/
def Silent (r : Reader ε) (frames : List Frame) : Prop := ∀ inner, Quiet r (inner ++ frames)

/-- No numeral is waiting for its end. -/
def Settled (s : State) : Prop :=
  match s.mode with
  | .numeral _ _ => False
  | _ => True

theorem attentive_impartial : Attentive (impartial : Reader ε) := fun _ => rfl

theorem quiet_impartial (frames : List Frame) : Quiet (impartial : Reader ε) frames := fun _ => rfl

theorem Silent.quiet (silent : Silent r frames) : Quiet r frames := silent []

theorem Silent.cons (silent : Silent r frames) (frame : Frame) : Silent r (frame :: frames) := by
  intro inner
  have h := silent (inner ++ [frame])
  rwa [List.append_assoc] at h

theorem settled_deliver (v : Json) (frames : List Frame) : Settled (deliver v frames) := by
  cases frames with
  | nil => trivial
  | cons frame outer => cases frame <;> trivial

@[simp] theorem lifted_ok {α : Type} (a : α) : lifted (ε := ε) (.ok a) = .ok a := rfl

@[simp] theorem lifted_error {α : Type} (f : Fault) :
    lifted (ε := ε) (α := α) (.error f) = .error (.fault f) := rfl

theorem check_of_quiet (quiet : r.objection s = none) : r.check s = .ok s := by
  rw [Reader.check, quiet]

theorem settled_of_settled (settled : Settled s) (next : Option Char) :
    r.settled s next = r.check s := by
  have hsettle : settle (r.skipping s) s next = .ok s := by
    obtain ⟨frames, mode⟩ := s
    cases mode with
    | numeral negative place => cases settled
    | _ => rfl
  rw [Reader.settled, hsettle, lifted_ok, ok_bind]

/-- Reading depends on nothing but what settles before the next character. -/
theorem readFrom_congr (h : r.settled s rest.head? = r.settled t rest.head?) :
    r.readFrom s rest = r.readFrom t rest := by
  cases rest with
  | nil => rw [Reader.readFrom, Reader.readFrom, Reader.finish, Reader.finish, ← List.head?_nil, h]
  | cons c rest =>
    rw [List.head?_cons] at h
    rw [Reader.readFrom, Reader.readFrom, Reader.advance, Reader.advance, h]

/-- A state is looked at again before it is left. -/
theorem check_bind_readFrom (settled : Settled s) :
    (r.check s).bind (r.readFrom · rest) = r.readFrom s rest := by
  cases h : r.check s with
  | ok t =>
    rw [Reader.check] at h
    split at h
    · cases h
    · cases h
      rw [ok_bind]
  | error e =>
    have hsettled := (settled_of_settled (r := r) settled rest.head?).trans h
    cases rest with
    | nil => rw [Reader.readFrom, Reader.finish, ← List.head?_nil (α := Char), hsettled]; rfl
    | cons c rest => rw [Reader.readFrom, Reader.advance, ← List.head?_cons, hsettled]; rfl

theorem readFrom_cons (attentive : Attentive r) (quiet : r.objection s = none)
    (settled : Settled s) :
    r.readFrom s (c :: rest) =
      (lifted (step false s c)).bind fun t => (r.check t).bind (r.readFrom · rest) := by
  rw [Reader.readFrom, Reader.advance, settled_of_settled settled, check_of_quiet quiet, ok_bind,
    attentive s]
  cases step false s c <;> rfl

theorem readFrom_of_step (attentive : Attentive r) (quiet : r.objection s = none)
    (hstep : step false s c = .ok t) (settled : Settled s) (settledNext : Settled t) :
    r.readFrom s (c :: rest) = r.readFrom t rest := by
  rw [readFrom_cons attentive quiet settled, hstep, lifted_ok, ok_bind,
    check_bind_readFrom settledNext]

theorem readFrom_of_quiet_step (attentive : Attentive r) (quiet : r.objection s = none)
    (hstep : step false s c = .ok t) (settled : Settled s) (quietNext : r.objection t = none) :
    r.readFrom s (c :: rest) = r.readFrom t rest := by
  rw [readFrom_cons attentive quiet settled, hstep, lifted_ok, ok_bind, check_of_quiet quietNext,
    ok_bind]

theorem readFrom_of_fault (attentive : Attentive r) (quiet : r.objection s = none)
    {f : Fault} (hstep : step false s c = .error f) (settled : Settled s) :
    r.readFrom s (c :: rest) = .error (.fault f) := by
  rw [readFrom_cons attentive quiet settled, hstep, lifted_error, error_bind]

/-- A numeral that cannot end here ends the reading. -/
theorem readFrom_of_settled_error {e : Failure ε} (h : r.settled s rest.head? = .error e) :
    r.readFrom s rest = .error e := by
  cases rest with
  | nil => rw [Reader.readFrom, Reader.finish, ← List.head?_nil, h, error_bind]
  | cons c rest =>
    rw [List.head?_cons] at h
    rw [Reader.readFrom, Reader.advance, h, error_bind, error_bind]

/-- Reading goes on with a value; without one, the text is malformed. -/
def onward {α : Type} (value : Option α) (next : α → Except (Failure ε) Json) :
    Except (Failure ε) Json :=
  match value with
  | some a => next a
  | none => .error (.fault .malformed)

section Onward
variable {α β : Type} {next : α → Except (Failure ε) Json}

@[simp] theorem onward_some (a : α) : onward (some a) next = next a := rfl

@[simp] theorem onward_none : onward (none : Option α) next = .error (.fault .malformed) := rfl

theorem onward_map (x : Option β) (f : β → α) :
    onward (x.map f) next = onward x fun b => next (f b) := by
  cases x <;> rfl

theorem onward_bind (x : Option β) (f : β → Option α) :
    onward (x.bind f) next = onward x fun b => onward (f b) next := by
  cases x <;> rfl

end Onward

end HashedTree.ReadingSteps
