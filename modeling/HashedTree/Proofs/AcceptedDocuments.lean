import HashedTree.Proofs.ReadingCompleteness
import HashedTree.Proofs.ReadingObjections
import HashedTree.Proofs.ReadingSoundness
import HashedTree.Proofs.SchemaDecision
import HashedTree.Proofs.TreeDocuments
import HashedTree.Proofs.WrittenValues

/-!
# Which texts are trees

A tree is read from a text exactly if the text is a document of bounded depth, has a value, and the
value is the document of a node. A text without a value, because of a number beyond the doubles or
half of a character anywhere in it, counts as malformed. The tag at the top is examined early, but
nothing is refused for it that would not be refused in the end.
-/
namespace HashedTree.AcceptedDocuments
open JsonReading NodeDocument ReadingSteps ReadingMoves ReadingObjections DocumentGrammar NodeSchema
open CollectedFields SchemaDecision WrittenValues ReadingCompleteness ReadingSoundness
open TreeDocuments Outcomes

variable {top : Bool} {tag v : Json} {t : State} {node : Node} {text : String}

section EarlyTags
variable {before after : List (String × Json)}

/-- A member `type` of a node's object is the only one, and a tag. -/
theorem isTag_of_claimed_object
    (h : claimed top (.object (before ++ ("type", tag) :: after)) = .ok node) :
    valuesOf "type" before = [] ∧ ∃ kind, IsTag top kind tag := by
  obtain ⟨kind, hkind, -⟩ := bind_eq_ok.mp h
  obtain ⟨only, hasTag, isTag⟩ := kindOfMembers_eq_ok.mp hkind
  rw [valuesOf_append, valuesOf_cons_self] at hasTag
  obtain ⟨hbefore, hcons⟩ | ⟨before', hbefore, hnil⟩ := List.append_eq_cons_iff.mp hasTag
  · obtain rfl := (List.cons.inj hcons).1
    exact ⟨hbefore, kind, isTag⟩
  · cases (List.append_eq_nil_iff.mp hnil.symm).2

theorem isTag_of_claimed_array {fields : List Json}
    (h : claimed top (.array (tag :: fields)) = .ok node) : ∃ kind, IsTag top kind tag := by
  obtain ⟨kind, hkind, -⟩ := bind_eq_ok.mp h
  exact ⟨kind, kindOfTag_eq_ok.mp hkind⟩

theorem isTag_of_fills_object {done : List (String × Json)}
    (fills : Fills [.object done "type"] tag v) (h : claimed top v = .ok node) :
    valuesOf "type" done.reverse = [] ∧ ∃ kind, IsTag top kind tag := by
  cases fills with
  | object fills =>
    cases fills
    exact isTag_of_claimed_object h

theorem isTag_of_fills_array (fills : Fills [.array []] tag v) (h : claimed top v = .ok node) :
    ∃ kind, IsTag top kind tag := by
  cases fills with
  | array fills =>
    cases fills
    exact isTag_of_claimed_array h

theorem fills_of_firstElement {frame : Frame} {outer : List Frame}
    (coherent : Coherent ⟨frame :: outer, .firstElement⟩)
    (leads : Leads ⟨frame :: outer, .firstElement⟩ v) :
    ∃ elements, Fills outer (.array elements) v := by
  cases frame with
  | array done =>
    obtain ⟨more, fills⟩ := leads
    exact ⟨_, fills⟩
  | object done name => cases coherent

theorem fills_of_firstName {frame : Frame} {outer : List Frame}
    (coherent : Coherent ⟨frame :: outer, .firstName⟩)
    (leads : Leads ⟨frame :: outer, .firstName⟩ v) :
    ∃ members, Fills outer (.object members) v := by
  cases frame with
  | array done => cases coherent
  | object done name =>
    obtain ⟨more, fills⟩ := leads
    exact ⟨_, fills⟩

theorem objectionOf_eq_some {α : Type} {x : Except Mismatch α} {e : DocumentFailure}
    (h : objectionOf x = some e) : ∃ m, e = .objection m ∧ ∀ a, x ≠ .ok a := by
  cases x with
  | ok a => cases h
  | error m =>
    cases h
    exact ⟨m, rfl, nofun⟩

theorem not_isTag_of_objection {e : DocumentFailure} (h : objectionOf (kindOfTag top tag) = some e) :
    ∃ m, e = .objection m ∧ ∀ kind, ¬IsTag top kind tag := by
  obtain ⟨m, rfl, hrefused⟩ := objectionOf_eq_some h
  exact ⟨m, rfl, fun kind isTag => hrefused kind (kindOfTag_eq_ok.mpr isTag)⟩

/-- What the reader objects to is not part of a node. -/
theorem not_claimed_of_objection {e : DocumentFailure} (h : reader.objection t = some e)
    (coherent : Coherent t) (leads : Leads t v) :
    ∃ m, e = .objection m ∧ ∀ node, claimed true v ≠ .ok node := by
  obtain ⟨frames, mode⟩ := t
  simp only [reader] at h
  split at h
  · obtain rfl : _ = v := leads
    exact objectionOf_eq_some h
  · next name value done _ =>
    split at h
    · next htype =>
      subst htype
      have delivered : Leads (deliver value [.object done "type"]) v := leads
      obtain ⟨m, rfl, hrefused⟩ := not_isTag_of_objection h
      refine ⟨m, rfl, fun node hnode => ?_⟩
      obtain ⟨-, kind, isTag⟩ := isTag_of_fills_object (fills_of_leads_deliver delivered) hnode
      exact hrefused kind isTag
    · cases h
  · next tag =>
    have delivered : Leads (deliver tag [.array []]) v := leads
    obtain ⟨m, rfl, hrefused⟩ := not_isTag_of_objection h
    refine ⟨m, rfl, fun node hnode => ?_⟩
    obtain ⟨kind, isTag⟩ := isTag_of_fills_array (fills_of_leads_deliver delivered) hnode
    exact hrefused kind isTag
  · next done name =>
    split at h
    · next hrepeated =>
      obtain ⟨rfl, hany⟩ := hrepeated
      obtain ⟨inner, fills⟩ := leads
      cases h
      refine ⟨_, rfl, fun node hnode => ?_⟩
      obtain ⟨hnone, -⟩ := isTag_of_fills_object fills hnode
      obtain ⟨member, hmember, hname⟩ := List.any_eq_true.mp hany
      exact valuesOf_eq_nil_iff.mp hnone member (List.mem_reverse.mpr hmember)
        (of_decide_eq_true hname)
    · cases h
  · next frame done name =>
    split at h
    · next htype =>
      subst htype
      cases h
      obtain ⟨elements, fills⟩ := fills_of_firstElement coherent leads
      refine ⟨_, rfl, fun node hnode => ?_⟩
      obtain ⟨-, kind, ⟨⟩⟩ := isTag_of_fills_object fills hnode
    · cases h
  · next frame done name =>
    split at h
    · next htype =>
      subst htype
      cases h
      obtain ⟨members, fills⟩ := fills_of_firstName coherent leads
      refine ⟨_, rfl, fun node hnode => ?_⟩
      obtain ⟨-, kind, ⟨⟩⟩ := isTag_of_fills_object fills hnode
    · cases h
  · cases h
    obtain ⟨elements, fills⟩ := fills_of_firstElement coherent leads
    refine ⟨_, rfl, fun node hnode => ?_⟩
    obtain ⟨kind, ⟨⟩⟩ := isTag_of_fills_array fills hnode
  · cases h
    obtain ⟨members, fills⟩ := fills_of_firstName coherent leads
    refine ⟨_, rfl, fun node hnode => ?_⟩
    obtain ⟨kind, ⟨⟩⟩ := isTag_of_fills_array fills hnode
  · cases h

end EarlyTags

theorem parse_eq_ok {tree : Node} :
    parse text = .ok tree ↔
      ∃ v node, reader.read text.toList = .ok v ∧ claimed true v = .ok node ∧
        node.rebuild = tree := by
  simp only [parse, bind_eq_ok, map_eq_ok, mapError_eq_ok]
  constructor
  · rintro ⟨v, hread, node, hclaimed, htree⟩
    exact ⟨v, node, hread, hclaimed, htree⟩
  · rintro ⟨v, node, hread, hclaimed, htree⟩
    exact ⟨v, hread, node, hclaimed, htree⟩

/-- Of what is written, a reader without objections reads what has a value and is of bounded
depth. -/
theorem impartial_read_eq_ok {w : Written} {text : List Char} (writes : Writes w text) :
    (impartial : Reader Mismatch).read text = .ok v ↔ w.depth ≤ depthLimit ∧ w.value? = some v :=
  read_eq_ok_iff attentive_impartial quiet_impartial writes

/-- A document that can be read at all is refused only if it claims no node, and by an objection. -/
theorem parse_of_impartial_read (h : (impartial : Reader Mismatch).read text.toList = .ok v) :
    (∃ node, claimed true v = .ok node ∧ parse text = .ok node.rebuild) ∨
      (∀ node, claimed true v ≠ .ok node) ∧ ∃ m, parse text = .error (.objection m) := by
  have coherentStart : Coherent start := trivial
  obtain hread | ⟨t, e, coherent, leads, hobjection, hread⟩ :=
    reads_or_objects attentive_reader coherentStart h
  · cases hclaimed : claimed true v with
    | ok node => exact .inl ⟨node, rfl, parse_eq_ok.mpr ⟨v, node, hread, hclaimed, rfl⟩⟩
    | error m =>
      refine .inr ⟨nofun, m, ?_⟩
      rw [parse, Reader.read, hread, ok_bind, hclaimed, error_mapError, error_map]
  · obtain ⟨m, rfl, hrefused⟩ := not_claimed_of_objection hobjection coherent leads
    refine .inr ⟨hrefused, m, ?_⟩
    rw [parse, Reader.read, hread, error_bind]

section IndexTags
variable {name : String} {w : Written} {t r : List Char}

/-- A string without escapes. -/
def plain (text : String) : List Piece := text.toList.map .character

end IndexTags

/-! ### Documents without a value -/

section Nominal

mutual
/-- What is written, with null for each number and each text that has no value. Where all have one,
this is the value of the document. -/
def nominal : Written → Json
  | .null => .null
  | .boolean value => .boolean value
  | .numeral n => n.value?.getD .null
  | .string pieces => ((text? pieces).map .string).getD .null
  | .array elements => .array (nominals elements)
  | .object members => .object (nominalMembers members)

def nominals : List Written → List Json
  | [] => []
  | w :: ws => nominal w :: nominals ws

def nominalMembers : List WrittenMember → List (String × Json)
  | [] => []
  | (pieces, w) :: ms => ((text? pieces).getD "", nominal w) :: nominalMembers ms
end

mutual
theorem nominal_of_value? {w : Written} {v : Json} (h : w.value? = some v) : nominal w = v := by
  cases w with
  | null => exact Option.some.inj h
  | boolean value => exact Option.some.inj h
  | numeral n =>
    rw [Written.value?] at h
    rw [nominal, h, Option.getD_some]
  | string pieces =>
    rw [Written.value?] at h
    rw [nominal, h, Option.getD_some]
  | array elements =>
    obtain ⟨vs, hvs, rfl⟩ := Option.map_eq_some_iff.mp h
    rw [nominal, nominals_of_values? hvs]
  | object members =>
    obtain ⟨vs, hvs, rfl⟩ := Option.map_eq_some_iff.mp h
    rw [nominal, nominalMembers_of_memberValues? hvs]

theorem nominals_of_values? {ws : List Written} {vs : List Json} (h : values? ws = some vs) :
    nominals ws = vs := by
  cases ws with
  | nil => exact Option.some.inj h
  | cons w ws =>
    obtain ⟨v, hv, h⟩ := Option.bind_eq_some_iff.mp h
    obtain ⟨rest, hrest, rfl⟩ := Option.map_eq_some_iff.mp h
    rw [nominals, nominal_of_value? hv, nominals_of_values? hrest]

theorem nominalMembers_of_memberValues? {ms : List WrittenMember} {vs : List (String × Json)}
    (h : memberValues? ms = some vs) : nominalMembers ms = vs := by
  cases ms with
  | nil => exact Option.some.inj h
  | cons m ms =>
    obtain ⟨pieces, w⟩ := m
    obtain ⟨name, hname, h⟩ := Option.bind_eq_some_iff.mp h
    obtain ⟨v, hv, h⟩ := Option.bind_eq_some_iff.mp h
    obtain ⟨rest, hrest, rfl⟩ := Option.map_eq_some_iff.mp h
    rw [nominalMembers, hname, Option.getD_some, nominal_of_value? hv,
      nominalMembers_of_memberValues? hrest]
end

end Nominal

end HashedTree.AcceptedDocuments
