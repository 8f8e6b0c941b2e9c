import HashedTree.Proofs.ReadingMoves

/-!
# What is still to come

Whatever is read from a state on, what stands in the open arrays and objects stays. A document that
a reader objects to is therefore known in part when the objection is raised.
-/
namespace HashedTree.ReadingObjections
open JsonReading ReadingSteps DocumentReading ReadingMoves Outcomes

/-- With a value in the innermost place, the open frames may become a document. -/
inductive Fills : List Frame → Json → Json → Prop where
  | done (v : Json) : Fills [] v v
  | array {done more : List Json} {outer : List Frame} {inner v : Json}
      (h : Fills outer (.array (done.reverse ++ inner :: more)) v) :
      Fills (.array done :: outer) inner v
  | object {done more : List (String × Json)} {name : String} {outer : List Frame} {inner v : Json}
      (h : Fills outer (.object (done.reverse ++ (name, inner) :: more)) v) :
      Fills (.object done name :: outer) inner v

/-- With more in the innermost frame, or nothing, the open frames may become a document. -/
def Continues : List Frame → Json → Prop
  | [], _ => True
  | .array done :: outer, v => ∃ more, Fills outer (.array (done.reverse ++ more)) v
  | .object done _ :: outer, v => ∃ more, Fills outer (.object (done.reverse ++ more)) v

/-- What a document has to be like if it is read from a state on. -/
def Leads (s : State) (v : Json) : Prop :=
  match s.mode with
  | .done document => document = v
  | .value | .colon | .word _ _ | .numeral _ _ | .string .value _ _ => ∃ inner, Fills s.frames inner v
  | .firstElement | .firstName | .name | .next | .string .name _ _ => Continues s.frames v

variable {frames : List Frame} {s t : State} {c : Char} {rest : List Char} {v inner : Json}

theorem Fills.continues (h : Fills frames inner v) : Continues frames v := by
  cases h with
  | done => trivial
  | array h => exact ⟨_, h⟩
  | object h => exact ⟨_, h⟩

theorem fills_of_leads_deliver (h : Leads (deliver inner frames) v) : Fills frames inner v := by
  rcases frames with _ | ⟨done | ⟨done, name⟩, outer⟩
  · have hv : inner = v := h
    exact hv ▸ .done inner
  · obtain ⟨more, h⟩ := h
    rw [List.reverse_cons, List.append_assoc, List.singleton_append] at h
    exact .array h
  · obtain ⟨more, h⟩ := h
    rw [List.reverse_cons, List.append_assoc, List.singleton_append] at h
    exact .object h

/-- A frame in which a value may begin is not closed by it. -/
private theorem leads_of_fills {mode : Mode} (hmode : ValueMode mode)
    (h : ∃ inner, Fills frames inner v) : Leads ⟨frames, mode⟩ v := by
  obtain ⟨inner, h⟩ := h
  rcases hmode with rfl | rfl
  · exact ⟨inner, h⟩
  · exact h.continues

theorem leads_of_moves (moves : Moves s c t) (h : Leads t v) : Leads s v := by
  cases moves with
  | blank patient blank => exact h
  | openString hmode => exact leads_of_fills hmode h
  | openWord hmode starts => exact leads_of_fills hmode h
  | openNumeral hmode starts => exact leads_of_fills hmode h
  | openArray hmode =>
    obtain ⟨more, h⟩ := h
    exact leads_of_fills hmode ⟨_, h⟩
  | openObject hmode =>
    obtain ⟨more, h⟩ := h
    exact leads_of_fills hmode ⟨_, h⟩
  | openName hmode =>
    rcases hmode with rfl | rfl <;> exact h
  | @closeArray done outer mode hmode =>
    have closed : Continues (.array done :: outer) v :=
      ⟨[], by rw [List.append_nil]; exact fills_of_leads_deliver h⟩
    rcases hmode with rfl | rfl <;> exact closed
  | @closeObject done name outer mode hmode =>
    have closed : Continues (.object done name :: outer) v :=
      ⟨[], by rw [List.append_nil]; exact fills_of_leads_deliver h⟩
    rcases hmode with rfl | rfl <;> exact closed
  | nextElement =>
    obtain ⟨inner, h⟩ := h
    exact h.continues
  | nextMember => exact h
  | colon => exact h
  | inWord => exact h
  | endWord => exact ⟨_, fills_of_leads_deliver h⟩
  | inNumeral extended => exact h
  | @inString frames role place next read reading c moves => cases role <;> exact h
  | endText => exact ⟨_, fills_of_leads_deliver h⟩
  | endName =>
    obtain ⟨inner, h⟩ := h
    cases h with
    | object h => exact ⟨_, h⟩

theorem leads_of_settles (settles : Settles s t) (h : Leads t v) : Leads s v := by
  cases settles with
  | same => exact h
  | ended hended => exact ⟨_, fills_of_leads_deliver h⟩

/-- Every document that is read from a state on has in it what the state has. -/
theorem leads_of_accepts (accepts : Accepts s rest v) : Leads s v := by
  induction accepts with
  | finish settles => exact leads_of_settles settles rfl
  | step settles moves accepts ih => exact leads_of_settles settles (leads_of_moves moves ih)

section Objections
variable {ε : Type} {r : Reader ε}

theorem settled_eq (attentive : Attentive r) {next : Option Char} (h : settle false s next = .ok t) :
    r.settled s next = r.check t := by
  rw [Reader.settled, attentive, h, lifted_ok, ok_bind]

theorem check_of_objection {e : Failure ε} (h : r.objection s = some e) : r.check s = .error e := by
  rw [Reader.check, h]

/-- A reader reads what one without objections reads, unless it meets a state that it objects to. -/
theorem reads_or_objects (attentive : Attentive r) (coherent : Coherent s)
    (h : (impartial : Reader ε).readFrom s rest = .ok v) :
    r.readFrom s rest = .ok v ∨
      ∃ t e, Coherent t ∧ Leads t v ∧ r.objection t = some e ∧ r.readFrom s rest = .error e := by
  induction rest generalizing s with
  | nil =>
    obtain ⟨frames, hsettle, -⟩ := (readFrom_nil_eq_ok attentive_impartial).mp h
    have hsettled := settled_eq attentive hsettle
    cases hobjection : r.objection ⟨frames, .done v⟩ with
    | none => exact .inl ((readFrom_nil_eq_ok attentive).mpr ⟨frames, hsettle, hobjection⟩)
    | some e =>
      rw [check_of_objection hobjection] at hsettled
      exact .inr ⟨_, e, (settles_of_settle hsettle).coherent coherent, rfl, hobjection,
        readFrom_of_settled_error hsettled⟩
  | cons c rest ih =>
    obtain ⟨settled, next, hsettle, -, hstep, -, hread⟩ :=
      (readFrom_cons_eq_ok attentive_impartial).mp h
    have coherentSettled := (settles_of_settle hsettle).coherent coherent
    have moves := moves_of_step coherentSettled hstep
    have coherentNext := moves.coherent coherentSettled
    have leads := leads_of_accepts (accepts_of_readFrom attentive_impartial coherentNext hread)
    have hsettled := settled_eq attentive hsettle
    cases hobjection : r.objection settled with
    | some e =>
      rw [check_of_objection hobjection] at hsettled
      exact .inr ⟨settled, e, coherentSettled, leads_of_moves moves leads, hobjection,
        readFrom_of_settled_error hsettled⟩
    | none =>
      rw [check_of_quiet hobjection] at hsettled
      have hadvance : r.advance s c = r.check next := by
        rw [Reader.advance, hsettled, ok_bind, attentive, hstep, lifted_ok, ok_bind]
      cases hnext : r.objection next with
      | some e =>
        refine .inr ⟨next, e, coherentNext, leads, hnext, ?_⟩
        rw [Reader.readFrom, hadvance, check_of_objection hnext, error_bind]
      | none =>
        have hfrom : r.readFrom s (c :: rest) = r.readFrom next rest := by
          rw [Reader.readFrom, hadvance, check_of_quiet hnext, ok_bind]
        rw [hfrom]
        exact ih coherentNext hread

end Objections

end HashedTree.ReadingObjections
