import HashedTree.Proofs.NumeralReading
import HashedTree.Proofs.StringReading

/-!
# A document is read back from its text

In both layouts, and wherever it stands, a document without doubles is read back from its text if
its arrays and objects are not nested too deep for what is open already. Otherwise the text is
malformed, whatever follows.
-/
namespace HashedTree.DocumentReading
open Json JsonReading ReadingSteps StringReading NumeralReading AsciiCharacters

variable {ε : Type} {r : Reader ε} {layout : Layout} {depth : Nat} {frames outer : List Frame}
  {rest : List Char}

mutual
/-- How many arrays and objects of a document are open at once. -/
def nesting : Json → Nat
  | .array elements => nestingOfElements elements + 1
  | .object members => nestingOfMembers members + 1
  | .null | .boolean _ | .integer _ | .real _ | .string _ => 0

def nestingOfElements : List Json → Nat
  | [] => 0
  | element :: rest => max (nesting element) (nestingOfElements rest)

def nestingOfMembers : List (String × Json) → Nat
  | [] => 0
  | (_, value) :: rest => max (nesting value) (nestingOfMembers rest)
end

/-- Documents without doubles whose integers a numeral may stand for. -/
inductive Exact : Json → Prop where
  | null : Exact .null
  | boolean (value : Bool) : Exact (.boolean value)
  | integer {value : Int} (inRange : InRange value) : Exact (.integer value)
  | string (value : String) : Exact (.string value)
  | array {elements : List Json} (all : ∀ element ∈ elements, Exact element) :
      Exact (.array elements)
  | object {members : List (String × Json)} (all : ∀ member ∈ members, Exact member.2) :
      Exact (.object members)

/-- The way on if there is room for as many open arrays and objects; otherwise the text is
malformed. -/
def within (count : Nat) (next : Except (Failure ε) Json) : Except (Failure ε) Json :=
  if count ≤ depthLimit then next else .error (.fault .malformed)

/-- Where the given arrays and objects are open, a document is read back from its text. -/
def Reads (r : Reader ε) (layout : Layout) (depth : Nat) (frames : List Frame) (v : Json) : Prop :=
  ∀ rest, Delimits rest → r.readFrom ⟨frames, .value⟩ (write layout depth v ++ rest) =
    within (frames.length + nesting v) (r.readFrom (deliver v frames) rest)

theorem within_of_le {n : Nat} (h : n ≤ depthLimit) (next : Except (Failure ε) Json) :
    within n next = next := if_pos h

theorem within_of_lt {n : Nat} (h : depthLimit < n) (next : Except (Failure ε) Json) :
    within n next = .error (.fault .malformed) := if_neg (Nat.not_le.mpr h)

/-- Two values side by side need room for the deeper one. -/
theorem within_max (n a b : Nat) (next : Except (Failure ε) Json) :
    within (n + a) (within (n + b) next) = within (n + max a b) next := by
  by_cases ha : n + a ≤ depthLimit
  · by_cases hb : n + b ≤ depthLimit
    · rw [within_of_le ha, within_of_le hb, within_of_le (by omega)]
    · rw [within_of_le ha, within_of_lt (by omega), within_of_lt (by omega)]
  · rw [within_of_lt (by omega), within_of_lt (by omega)]

/-- Where blanks may stand. -/
def Patient : Mode → Prop
  | .value | .firstElement | .firstName | .name | .colon | .next | .done _ => True
  | .word _ _ | .string _ _ _ | .numeral _ _ => False

/-- Where the value of an element may begin. -/
def ValueMode (mode : Mode) : Prop := mode = .value ∨ mode = .firstElement

private theorem step_blank {mode : Mode} (patient : Patient mode) {c : Char} (blank : isBlank c) :
    step false ⟨frames, mode⟩ c = .ok ⟨frames, mode⟩ := by
  cases mode <;> first | exact if_pos blank | cases patient

private theorem settled_of_patient {mode : Mode} (patient : Patient mode) : Settled ⟨frames, mode⟩ := by
  cases mode with
  | numeral negative place => exact patient
  | _ => trivial

theorem readFrom_blanks (attentive : Attentive r) (quiet : Quiet r frames) {mode : Mode}
    (patient : Patient mode) {blanks : List Char} (h : ∀ c ∈ blanks, isBlank c) :
    r.readFrom ⟨frames, mode⟩ (blanks ++ rest) = r.readFrom ⟨frames, mode⟩ rest := by
  induction blanks with
  | nil => rfl
  | cons c blanks ih =>
    rw [List.forall_mem_cons] at h
    rw [List.cons_append, readFrom_of_step attentive (quiet _) (step_blank patient h.1)
      (settled_of_patient patient) (settled_of_patient patient), ih h.2]

theorem blank_lineBreak (layout : Layout) (depth : Nat) :
    ∀ c ∈ lineBreak layout depth, isBlank c := by
  cases layout with
  | compact => nofun
  | indented =>
    intro c hc
    rw [lineBreak, List.mem_cons] at hc
    rcases hc with rfl | hc
    · rfl
    · rw [List.eq_of_mem_replicate hc]
      rfl

theorem readFrom_lineBreak (attentive : Attentive r) (quiet : Quiet r frames) {mode : Mode}
    (patient : Patient mode) (layout : Layout) (depth : Nat) :
    r.readFrom ⟨frames, mode⟩ (lineBreak layout depth ++ rest) = r.readFrom ⟨frames, mode⟩ rest :=
  readFrom_blanks attentive quiet patient (blank_lineBreak layout depth)

theorem readFrom_colon (attentive : Attentive r) (quiet : Quiet r frames) (layout : Layout) :
    r.readFrom ⟨frames, .colon⟩ (colon layout ++ rest) = r.readFrom ⟨frames, .value⟩ rest := by
  have hstep : step false ⟨frames, .colon⟩ ':' = .ok ⟨frames, .value⟩ := rfl
  cases layout with
  | compact => exact readFrom_of_step attentive (quiet _) hstep trivial trivial
  | indented =>
    have hblank : step false ⟨frames, .value⟩ ' ' = .ok ⟨frames, .value⟩ := rfl
    exact (readFrom_of_step attentive (quiet _) hstep trivial trivial).trans
      (readFrom_of_step attentive (quiet _) hblank trivial trivial)

theorem readFrom_word (attentive : Attentive r) (quiet : Quiet r frames) (document : Json) :
    ∀ word ≠ [], r.readFrom ⟨frames, .word word document⟩ (word ++ rest) =
      r.readFrom (deliver document frames) rest
  | [last], _ => by
    have hstep : step false ⟨frames, .word [last] document⟩ last = .ok (deliver document frames) :=
      if_pos rfl
    exact readFrom_of_step attentive (quiet _) hstep trivial (settled_deliver _ _)
  | first :: second :: word, _ => by
    have hstep : step false ⟨frames, .word (first :: second :: word) document⟩ first =
        .ok ⟨frames, .word (second :: word) document⟩ := if_pos rfl
    exact (readFrom_of_step attentive (quiet _) hstep trivial trivial).trans
      (readFrom_word attentive quiet document (second :: word) (List.cons_ne_nil _ _))

theorem delimits_lineBreak (layout : Layout) (depth : Nat) {c : Char}
    (hc : c = ']' ∨ c = '\x7d') : Delimits (lineBreak layout depth ++ c :: rest) := by
  rintro d hd
  cases layout with
  | compact =>
    obtain rfl : c = d := Option.some.inj hd
    exact .inr (hc.imp_right .inl)
  | indented =>
    obtain rfl : '\n' = d := Option.some.inj hd
    exact .inr (.inr (.inr rfl))

theorem delimits_writeElements (layout : Layout) (depth : Nat) (elements : List Json)
    (delimits : Delimits rest) :
    Delimits (writeElements layout depth elements ++ rest) := by
  cases elements with
  | nil => exact delimits
  | cons e es =>
    rintro d hd
    obtain rfl : ',' = d := Option.some.inj hd
    exact .inl rfl

theorem delimits_writeMembers (layout : Layout) (depth : Nat) (members : List (String × Json))
    (delimits : Delimits rest) :
    Delimits (writeMembers layout depth members ++ rest) := by
  cases members with
  | nil => exact delimits
  | cons m ms =>
    rintro d hd
    obtain rfl : ',' = d := Option.some.inj hd
    exact .inl rfl

/-- No document starts with a blank or the end of an array. -/
theorem write_eq_cons (layout : Layout) (depth : Nat) {v : Json} (hexact : Exact v) :
    ∃ c text, write layout depth v = c :: text ∧ isBlank c = false ∧ c ≠ ']' := by
  cases hexact with
  | null => exact ⟨_, _, rfl, rfl, by decide⟩
  | boolean value => cases value <;> exact ⟨_, _, rfl, rfl, by decide⟩
  | @integer value inRange =>
    cases value with
    | negSucc n => exact ⟨_, _, rfl, rfl, by decide⟩
    | ofNat n =>
      obtain ⟨c, digits, hdigits, hc⟩ := toDigits_head n
      exact ⟨c, digits, hdigits, isBlank_of_isDigit hc, ne_of_isDigit hc rfl⟩
  | string value => exact ⟨_, _, rfl, rfl, by decide⟩
  | @array elements all => cases elements <;> exact ⟨_, _, rfl, rfl, by decide⟩
  | @object members all =>
    rcases members with _ | ⟨⟨name, value⟩, members⟩ <;> exact ⟨_, _, rfl, rfl, by decide⟩

theorem readFrom_firstElement_cons (attentive : Attentive r) (quiet : Quiet r frames) {c : Char}
    (hblank : isBlank c = false) (hend : c ≠ ']') :
    r.readFrom ⟨frames, .firstElement⟩ (c :: rest) = r.readFrom ⟨frames, .value⟩ (c :: rest) := by
  have hstep : step false ⟨frames, .firstElement⟩ c = step false ⟨frames, .value⟩ c := by
    simp only [step, hblank, if_neg hend, Bool.false_eq_true, if_false]
  have settled : Settled ⟨frames, .firstElement⟩ := trivial
  have settledValue : Settled ⟨frames, .value⟩ := trivial
  rw [readFrom_cons attentive (quiet _) settled, hstep,
    ← readFrom_cons attentive (quiet _) settledValue]

theorem readFrom_firstElement (attentive : Attentive r) (quiet : Quiet r frames) {v : Json}
    (hexact : Exact v) :
    r.readFrom ⟨frames, .firstElement⟩ (write layout depth v ++ rest) =
      r.readFrom ⟨frames, .value⟩ (write layout depth v ++ rest) := by
  obtain ⟨c, text, htext, hblank, hend⟩ := write_eq_cons layout depth hexact
  rw [htext, List.cons_append, readFrom_firstElement_cons attentive quiet hblank hend]

theorem readFrom_close_array (attentive : Attentive r) {done : List Json}
    (quiet : Quiet r (.array done :: frames)) :
    r.readFrom ⟨.array done :: frames, .next⟩ (lineBreak layout depth ++ [']'] ++ rest) =
      r.readFrom (deliver (.array done.reverse) frames) rest := by
  have patient : Patient .next := trivial
  rw [List.append_assoc, readFrom_lineBreak attentive quiet patient]
  exact readFrom_of_step attentive (quiet _) rfl trivial (settled_deliver _ _)

/-- The elements of an array that follow others. -/
theorem readFrom_elements (attentive : Attentive r) {elements done : List Json}
    (quiet : ∀ done, Quiet r (.array done :: frames)) (room : frames.length < depthLimit)
    (reads : ∀ element ∈ elements, ∀ done, Reads r layout depth (.array done :: frames) element)
    (delimits : Delimits rest) :
    r.readFrom ⟨.array done :: frames, .next⟩ (writeElements layout depth elements ++ rest) =
      within (frames.length + 1 + nestingOfElements elements)
        (r.readFrom ⟨.array (elements.reverse ++ done) :: frames, .next⟩ rest) := by
  induction elements generalizing done with
  | nil => exact (within_of_le room _).symm
  | cons element elements ih =>
    rw [List.forall_mem_cons] at reads
    have hcomma : step false ⟨.array done :: frames, .next⟩ ',' =
        .ok ⟨.array done :: frames, .value⟩ := rfl
    have patient : Patient .value := trivial
    have hread := reads.1 done _ (delimits_writeElements layout depth elements delimits)
    rw [writeElements, List.cons_append,
      readFrom_of_step attentive (quiet done _) hcomma trivial trivial, List.append_assoc,
      List.append_assoc,
      readFrom_lineBreak attentive (quiet done) patient, hread, deliver, ih reads.2,
      List.length_cons, within_max, nestingOfElements, List.reverse_cons, List.append_assoc,
      List.singleton_append]

/-- Too deep inside, the first character of an array or object is refused already. -/
theorem reads_of_fault (attentive : Attentive r) (quiet : r.objection ⟨frames, .value⟩ = none)
    {v : Json} {first : Char} (htext : ∃ text, write layout depth v = first :: text)
    (hfault : step false ⟨frames, .value⟩ first = .error .malformed)
    (deep : depthLimit < frames.length + nesting v) : Reads r layout depth frames v := by
  intro rest _
  obtain ⟨text, htext⟩ := htext
  rw [htext, List.cons_append, readFrom_of_fault attentive quiet hfault trivial,
    within_of_lt deep]

theorem reads_array (attentive : Attentive r) (silent : Silent r frames) {elements : List Json}
    (hexact : ∀ element ∈ elements, Exact element)
    (reads : frames.length < depthLimit → ∀ element ∈ elements, ∀ done,
      Reads r layout (depth + 1) (.array done :: frames) element) :
    Reads r layout depth frames (.array elements) := by
  intro rest delimits
  have quiet : ∀ done, Quiet r (.array done :: frames) := fun done => (silent.cons _).quiet
  by_cases room : frames.length < depthLimit
  · have hopen : step false ⟨frames, .value⟩ '[' = .ok ⟨.array [] :: frames, .firstElement⟩ := by
      simp [step, beginValue, isBlank, room]
    cases elements with
    | nil =>
      have hclose : step false ⟨.array [] :: frames, .firstElement⟩ ']' =
          .ok (deliver (.array []) frames) := rfl
      rw [write, List.cons_append, List.singleton_append,
        readFrom_of_step attentive (silent.quiet _) hopen trivial trivial,
        readFrom_of_step attentive (quiet [] _) hclose trivial (settled_deliver _ _)]
      exact (within_of_le room _).symm
    | cons element elements =>
      rw [List.forall_mem_cons] at hexact
      have hreads := List.forall_mem_cons.mp (reads room)
      have patient : Patient .firstElement := trivial
      have hrest : Delimits (lineBreak layout depth ++ [']'] ++ rest) := by
        rw [List.append_assoc]
        exact delimits_lineBreak layout depth (.inl rfl)
      have hread := hreads.1 [] _ (delimits_writeElements layout (depth + 1) elements hrest)
      -- The bracket and the first element, then the other elements, then the closing bracket.
      rw [write, List.cons_append,
        readFrom_of_step attentive (silent.quiet _) hopen trivial trivial,
        List.append_assoc, List.append_assoc, List.append_assoc,
        readFrom_lineBreak attentive (quiet []) patient,
        readFrom_firstElement attentive (quiet []) hexact.1, hread, deliver,
        readFrom_elements attentive quiet room hreads.2 hrest,
        readFrom_close_array attentive (quiet _), List.length_cons, within_max, nesting,
        nestingOfElements, List.reverse_append, List.reverse_reverse, List.reverse_singleton,
        List.singleton_append]
      congr 1
      omega
  · have hfault : step false ⟨frames, .value⟩ '[' = .error .malformed := by
      simp [step, beginValue, isBlank, room]
    have htext : ∃ text, write layout depth (.array elements) = '[' :: text := by
      cases elements <;> exact ⟨_, rfl⟩
    have deep : depthLimit < frames.length + nesting (.array elements) := by
      rw [nesting]
      omega
    exact reads_of_fault attentive (silent.quiet _) htext hfault deep rest delimits

/-- The members of an object are read back one after the other, behind those that are done. -/
def ReadsMembers (r : Reader ε) (layout : Layout) (depth : Nat) (outer : List Frame) :
    List (String × Json) → List (String × Json) → Prop
  | done, [] => Quiet r (.object done "" :: outer)
  | done, (name, value) :: rest =>
    Quiet r (.object done "" :: outer) ∧ Quiet r (.object done name :: outer) ∧
      Reads r layout depth (.object done name :: outer) value ∧
      ReadsMembers r layout depth outer ((name, value) :: done) rest

theorem ReadsMembers.quiet {done members : List (String × Json)}
    (h : ReadsMembers r layout depth outer done members) : Quiet r (.object done "" :: outer) := by
  cases members with
  | nil => exact h
  | cons member members => exact h.1

theorem readFrom_member (attentive : Attentive r) {done : List (String × Json)} {name : String}
    {value : Json} (quiet : Quiet r (.object done "" :: outer))
    (quietValue : Quiet r (.object done name :: outer))
    (reads : Reads r layout depth (.object done name :: outer) value) {mode : Mode}
    (hmode : NameMode mode) (delimits : Delimits rest) :
    r.readFrom ⟨.object done "" :: outer, mode⟩
        (lineBreak layout depth ++ (stringText name ++
          (colon layout ++ (write layout depth value ++ rest)))) =
      within (outer.length + 1 + nesting value)
        (r.readFrom ⟨.object ((name, value) :: done) "" :: outer, .next⟩ rest) := by
  have patient : Patient mode := by rcases hmode with rfl | rfl <;> exact trivial
  rw [readFrom_lineBreak attentive quiet patient, readFrom_name attentive quiet hmode,
    readFrom_colon attentive quietValue, reads rest delimits]
  rfl

/-- The members of an object that follow others. -/
theorem readFrom_members (attentive : Attentive r) {members done : List (String × Json)}
    (room : outer.length < depthLimit) (reads : ReadsMembers r layout depth outer done members)
    (delimits : Delimits rest) :
    r.readFrom ⟨.object done "" :: outer, .next⟩ (writeMembers layout depth members ++ rest) =
      within (outer.length + 1 + nestingOfMembers members)
        (r.readFrom ⟨.object (members.reverse ++ done) "" :: outer, .next⟩ rest) := by
  induction members generalizing done with
  | nil => exact (within_of_le room _).symm
  | cons member members ih =>
    obtain ⟨name, value⟩ := member
    obtain ⟨quiet, quietValue, hvalue, hmembers⟩ := reads
    have hcomma : step false ⟨.object done "" :: outer, .next⟩ ',' =
        .ok ⟨.object done "" :: outer, .name⟩ := rfl
    rw [writeMembers, List.cons_append,
      readFrom_of_step attentive (quiet _) hcomma trivial trivial, List.append_assoc,
      List.append_assoc, List.append_assoc, List.append_assoc,
      readFrom_member attentive quiet quietValue hvalue (.inr rfl)
        (delimits_writeMembers layout depth members delimits), ih hmembers, within_max,
      nestingOfMembers, List.reverse_cons, List.append_assoc, List.singleton_append]

theorem readFrom_close_object (attentive : Attentive r) {done : List (String × Json)}
    (quiet : Quiet r (.object done "" :: frames)) :
    r.readFrom ⟨.object done "" :: frames, .next⟩ (lineBreak layout depth ++ ['\x7d'] ++ rest) =
      r.readFrom (deliver (.object done.reverse) frames) rest := by
  have patient : Patient .next := trivial
  rw [List.append_assoc, readFrom_lineBreak attentive quiet patient]
  exact readFrom_of_step attentive (quiet _) rfl trivial (settled_deliver _ _)

theorem ReadsMembers.quiet_end {done members : List (String × Json)}
    (h : ReadsMembers r layout depth outer done members) :
    Quiet r (.object (members.reverse ++ done) "" :: outer) := by
  induction members generalizing done with
  | nil => exact h
  | cons member members ih =>
    rw [List.reverse_cons, List.append_assoc, List.singleton_append]
    exact ih h.2.2.2

/-- An object is read back if its members are. -/
theorem reads_object (attentive : Attentive r) (quiet : r.objection ⟨frames, .value⟩ = none)
    {members : List (String × Json)}
    (reads : frames.length < depthLimit → ReadsMembers r layout (depth + 1) frames [] members) :
    Reads r layout depth frames (.object members) := by
  intro rest delimits
  by_cases room : frames.length < depthLimit
  · have hopen : step false ⟨frames, .value⟩ '\x7b' =
        .ok ⟨.object [] "" :: frames, .firstName⟩ := by
      simp [step, beginValue, isBlank, room]
    have quietStart := (reads room).quiet
    cases members with
    | nil =>
      have hclose : step false ⟨.object [] "" :: frames, .firstName⟩ '\x7d' =
          .ok (deliver (.object []) frames) := rfl
      rw [write, List.cons_append, List.singleton_append,
        readFrom_of_step attentive quiet hopen trivial trivial,
        readFrom_of_step attentive (quietStart _) hclose trivial (settled_deliver _ _)]
      exact (within_of_le room _).symm
    | cons member members =>
      obtain ⟨name, value⟩ := member
      have hend := (reads room).quiet_end
      obtain ⟨-, quietValue, hvalue, hmembers⟩ := reads room
      have hrest : Delimits (lineBreak layout depth ++ ['\x7d'] ++ rest) := by
        rw [List.append_assoc]
        exact delimits_lineBreak layout depth (.inr rfl)
      rw [List.reverse_cons, List.append_assoc, List.singleton_append] at hend
      -- The brace and the first member, then the other members, then the closing brace.
      rw [write, List.cons_append, readFrom_of_step attentive quiet hopen trivial trivial,
        List.append_assoc, List.append_assoc, List.append_assoc, List.append_assoc,
        List.append_assoc,
        readFrom_member attentive quietStart quietValue hvalue (.inl rfl)
          (delimits_writeMembers layout (depth + 1) members hrest),
        readFrom_members attentive room hmembers hrest, readFrom_close_object attentive hend,
        within_max, nesting, nestingOfMembers, List.reverse_append, List.reverse_reverse,
        List.reverse_singleton, List.singleton_append]
      congr 1
      omega
  · have hfault : step false ⟨frames, .value⟩ '\x7b' = .error .malformed := by
      simp [step, beginValue, isBlank, room]
    have htext : ∃ text, write layout depth (.object members) = '\x7b' :: text := by
      rcases members with _ | ⟨⟨name, value⟩, members⟩ <;> exact ⟨_, rfl⟩
    have deep : depthLimit < frames.length + nesting (.object members) := by
      rw [nesting]
      omega
    exact reads_of_fault attentive quiet htext hfault deep rest delimits

theorem readsMembers_of_silent (silent : Silent r outer) {members : List (String × Json)}
    (reads : ∀ member ∈ members, ∀ done name,
      Reads r layout depth (.object done name :: outer) member.2) (done : List (String × Json)) :
    ReadsMembers r layout depth outer done members := by
  induction members generalizing done with
  | nil => exact (silent.cons _).quiet
  | cons member members ih =>
    rw [List.forall_mem_cons] at reads
    exact ⟨(silent.cons _).quiet, (silent.cons _).quiet, reads.1 _ _, ih reads.2 _⟩

theorem reads_word (attentive : Attentive r) (quiet : Quiet r frames)
    (room : frames.length ≤ depthLimit) {v : Json} {first : Char} {word : List Char}
    (htext : write layout depth v = first :: word) (hne : word ≠ [])
    (hstep : step false ⟨frames, .value⟩ first = .ok ⟨frames, .word word v⟩)
    (flat : nesting v = 0) :
    Reads r layout depth frames v := by
  intro rest _
  rw [htext, List.cons_append, readFrom_of_step attentive (quiet _) hstep trivial trivial,
    readFrom_word attentive quiet v word hne, flat, Nat.add_zero, within_of_le room]

theorem reads_string (attentive : Attentive r) (quiet : Quiet r frames)
    (room : frames.length ≤ depthLimit) (text : String) :
    Reads r layout depth frames (.string text) := by
  intro rest _
  exact (readFrom_string attentive quiet text).trans (within_of_le room _).symm

theorem reads_integer (attentive : Attentive r) (quiet : Quiet r frames)
    (room : frames.length ≤ depthLimit) {n : Int} (inRange : InRange n) :
    Reads r layout depth frames (.integer n) := by
  intro rest delimits
  exact (readFrom_integer attentive quiet delimits inRange).trans (within_of_le room _).symm

/-- Where a reader stays silent, a document without doubles is read back from its text. -/
theorem reads_of_exact (attentive : Attentive r) (silent : Silent r frames)
    (room : frames.length ≤ depthLimit) {v : Json} (hexact : Exact v) :
    Reads r layout depth frames v := by
  induction hexact generalizing frames depth with
  | null => exact reads_word attentive silent.quiet room rfl (List.cons_ne_nil _ _) rfl rfl
  | boolean value =>
    cases value with
    | false => exact reads_word attentive silent.quiet room rfl (List.cons_ne_nil _ _) rfl rfl
    | true => exact reads_word attentive silent.quiet room rfl (List.cons_ne_nil _ _) rfl rfl
  | integer inRange => exact reads_integer attentive silent.quiet room inRange
  | string text => exact reads_string attentive silent.quiet room text
  | array all ih =>
    refine reads_array attentive silent all fun room element helement done => ?_
    exact ih element helement (silent.cons _) room
  | object all ih =>
    refine reads_object attentive (silent.quiet _) fun room => ?_
    refine readsMembers_of_silent silent (fun member hmember done name => ?_) []
    exact ih member hmember (silent.cons _) room

/-- What a reader makes of the whole text of a document that is read back. -/
theorem read_text {v : Json} (reads : Reads r layout 0 [] v) :
    r.read (text layout v) = within (nesting v) ((r.check ⟨[], .done v⟩).map fun _ => v) := by
  have delimits : Delimits [] := nofun
  have settled : Settled ⟨[], .done v⟩ := trivial
  have hread := reads [] delimits
  rw [List.append_nil, List.length_nil, Nat.zero_add] at hread
  rw [Reader.read, start, text, hread, deliver, Reader.readFrom, Reader.finish,
    settled_of_settled settled]
  congr 1
  rw [Reader.check]
  split <;> rfl

end HashedTree.DocumentReading
