import HashedTree.Proofs.ReadingMoves
import HashedTree.Proofs.TreeDocuments

/-!
# A document that is cut short is found to be truncated

A reader that reads a document goes through states in which it would find the end of the text too
early, until nothing but blanks is left. Only a numeral has no mark at its end, so that it may end
where it is cut. If the numeral of the whole document stands for an integer, the cut one has a value
too, and a reader that treats all numbers alike goes on to miss the rest of the document.
-/
namespace HashedTree.CutDocuments
open Json JsonNumeral JsonReading ReadingSteps ReadingMoves DocumentReading AsciiCharacters Outcomes

variable {ε : Type} {r : Reader ε} {s t : State} {frames : List Frame} {rest : List Char}
  {c : Char} {v : Json}

/-! ### What has been read belongs to the document -/

def ExactFrame : Frame → Prop
  | .array done => ∀ element ∈ done, Exact element
  | .object done _ => ∀ member ∈ done, Exact member.2

def ExactMode : Mode → Prop
  | .done document => Exact document
  | _ => True

/-- There is no double in what has been read. -/
def ExactState (s : State) : Prop := (∀ frame ∈ s.frames, ExactFrame frame) ∧ ExactMode s.mode

theorem exactState_deliver :
    ExactState (deliver v frames) ↔ Exact v ∧ ∀ frame ∈ frames, ExactFrame frame := by
  rcases frames with _ | ⟨done | ⟨done, name⟩, outer⟩
  · exact and_comm
  all_goals
    simp only [deliver, ExactState, ExactMode, ExactFrame, List.forall_mem_cons, and_true, and_assoc]

/-- If there is no double after a move, there was none before it. -/
theorem ExactState.of_moves (exact : ExactState t) (moves : Moves s c t) : ExactState s := by
  cases moves with
  | blank => exact exact
  | openArray hmode | openObject hmode =>
    refine ⟨(List.forall_mem_cons.mp exact.1).2, ?_⟩
    obtain rfl | rfl := hmode <;> trivial
  | openString hmode | openWord hmode | openNumeral hmode | openName hmode =>
    refine ⟨exact.1, ?_⟩
    obtain rfl | rfl := hmode <;> trivial
  | closeArray hmode =>
    obtain ⟨array, outer⟩ := exactState_deliver.mp exact
    cases array with
    | array all =>
      have elements := fun element h => all element (List.mem_reverse.mpr h)
      refine ⟨List.forall_mem_cons.mpr ⟨elements, outer⟩, ?_⟩
      obtain rfl | rfl := hmode <;> trivial
  | closeObject hmode =>
    obtain ⟨object, outer⟩ := exactState_deliver.mp exact
    cases object with
    | object all =>
      have members := fun member h => all member (List.mem_reverse.mpr h)
      refine ⟨List.forall_mem_cons.mpr ⟨members, outer⟩, ?_⟩
      obtain rfl | rfl := hmode <;> trivial
  | endWord | endText => exact ⟨(exactState_deliver.mp exact).2, trivial⟩
  | nextElement | nextMember | colon | inWord | inNumeral | inString => exact ⟨exact.1, trivial⟩
  | endName =>
    obtain ⟨object, outer⟩ := List.forall_mem_cons.mp exact.1
    exact ⟨List.forall_mem_cons.mpr ⟨object, outer⟩, trivial⟩

theorem ExactState.of_settles (exact : ExactState t) (settles : Settles s t) : ExactState s := by
  cases settles with
  | same => exact exact
  | ended hended => exact ⟨(exactState_deliver.mp exact).2, trivial⟩

theorem exactState_of_accepts (h : Accepts s rest v) (exact : Exact v) : ExactState s := by
  induction h with
  | @finish s v settles =>
    have whole : ExactState ⟨[], .done v⟩ := ⟨List.forall_mem_nil _, exact⟩
    exact whole.of_settles settles
  | step settles moves accepts ih => exact ((ih exact).of_moves moves).of_settles settles

/-- Behind a document stand blanks only. -/
theorem blank_of_accepts_done {document : Json} (h : Accepts ⟨frames, .done document⟩ rest v) :
    v = document ∧ ∀ c ∈ rest, isBlank c := by
  induction rest with
  | nil =>
    cases h with
    | finish settles =>
      cases settles
      exact ⟨rfl, List.forall_mem_nil _⟩
  | cons c rest ih =>
    cases h with
    | step settles moves accepts =>
      cases settles
      cases moves with
      | blank patient blank =>
        obtain ⟨same, blanks⟩ := ih accepts
        exact ⟨same, List.forall_mem_cons.mpr ⟨blank, blanks⟩⟩
      | openString hmode | openArray hmode | openObject hmode | openWord hmode
      | openNumeral hmode | openName hmode | closeArray hmode | closeObject hmode =>
        obtain hmode | hmode := hmode <;> cases hmode

/-! ### Numerals -/

def IsNumber : Json → Prop
  | .integer _ | .real _ => True
  | _ => False

/-- The numeral so far has whole digits only, and a word can hold them. -/
def Whole : NumeralPlace → Prop
  | .sign | .zero => True
  | .whole digits => (gather 0 digits.reverse).2 = 0
  | .point _ | .fraction _ _ | .exponentMark _ _ | .exponentSign _ _ _ | .exponent _ _ _ _ => False

theorem isNumber_of_value? {n : JsonNumeral} (h : n.value? = some v) : IsNumber v := by
  simp only [value?] at h
  split at h
  · split at h
    · cases h; trivial
    split at h <;> cases h <;> trivial
  · obtain ⟨x, -, rfl⟩ := Option.map_eq_some_iff.mp h
    trivial

/-- Only whole digits that a word can hold stand for an integer. -/
theorem whole_of_ended {negative : Bool} {place : NumeralPlace} {n : JsonNumeral} {k : Int}
    (hended : ended? negative place = some n) (h : n.value? = some (.integer k)) : Whole place := by
  have short : n.fraction = none ∧ n.exponent = none ∧ (gather 0 n.whole).2 = 0 := by
    simp only [value?] at h
    split at h
    · exact ⟨‹_›, ‹_›, ‹_›⟩
    · obtain ⟨x, -, hx⟩ := Option.map_eq_some_iff.mp h
      cases hx
  cases place with
  | zero => trivial
  | whole digits =>
    cases hended
    exact short.2.2
  | fraction =>
    cases hended
    cases short.1
  | exponent =>
    cases hended
    cases short.2.1
  | sign | point | exponentMark | exponentSign => cases hended

theorem gather_append {digits more : List Char} {word : Nat}
    (h : (gather word (digits ++ more)).2 = 0) : (gather word digits).2 = 0 := by
  induction digits generalizing word with
  | nil => rfl
  | cons d digits ih =>
    rw [List.cons_append, gather] at h
    rw [gather]
    split at h
    · next fits => rw [if_pos fits]; exact ih h
    · cases h

/-- A numeral that goes on to whole digits had whole digits only. -/
theorem Whole.of_extended {place next : NumeralPlace} (whole : Whole next)
    (extended : extended? place c = some next) : Whole place := by
  cases place with
  | sign | zero => trivial
  | whole digits =>
    simp only [extended?] at extended
    split at extended
    · cases extended
      rw [Whole, List.reverse_cons] at whole
      exact gather_append whole
    split at extended
    · cases extended; exact whole.elim
    split at extended
    · cases extended; exact whole.elim
    · cases extended
  | point | fraction | exponentMark | exponentSign | exponent =>
    simp only [extended?] at extended
    repeat' split at extended
    all_goals cases extended <;> exact whole.elim

/-- An integer stands where a numeral with whole digits ends. -/
theorem value?_of_whole {negative : Bool} {place : NumeralPlace} {n : JsonNumeral}
    (whole : Whole place) (hended : ended? negative place = some n) : ∃ w, n.value? = some w := by
  have short : n.fraction = none ∧ n.exponent = none ∧ (gather 0 n.whole).2 = 0 := by
    cases place with
    | zero =>
      cases hended
      exact ⟨rfl, rfl, rfl⟩
    | whole digits =>
      cases hended
      exact ⟨rfl, rfl, whole⟩
    | sign => cases hended
    | point | fraction | exponentMark | exponentSign | exponent => exact whole.elim
  obtain ⟨noFraction, noExponent, noExcess⟩ := short
  simp only [value?, noFraction, noExponent, noExcess]
  split
  · exact ⟨_, rfl⟩
  split <;> exact ⟨_, rfl⟩

/-- Before the next character, a numeral goes on or its number is delivered. -/
theorem settle_numeral_eq_ok {negative : Bool} {place : NumeralPlace} {next : Option Char}
    (h : settle false ⟨frames, .numeral negative place⟩ next = .ok t) :
    t = ⟨frames, .numeral negative place⟩ ∧ next ≠ none ∨
      ∃ n w, ended? negative place = some n ∧ n.value? = some w ∧ t = deliver w frames := by
  simp only [settle] at h
  split at h
  · next _ hextended =>
    cases h
    refine .inl ⟨rfl, ?_⟩
    rintro rfl
    cases hextended
  · next n hextended hended =>
    split at h
    · cases h
    rw [deliverNumeral] at h
    split at h
    · next w hw =>
      cases h
      exact .inr ⟨n, w, hended, hw, rfl⟩
    · cases h
  · split at h <;> cases h

theorem step_numeral_eq_ok {negative : Bool} {place : NumeralPlace}
    (h : step false ⟨frames, .numeral negative place⟩ c = .ok t) :
    ∃ longer, extended? place c = some longer ∧ t = ⟨frames, .numeral negative longer⟩ := by
  simp only [step] at h
  split at h
  · next longer extended =>
    cases h
    exact ⟨longer, extended, rfl⟩
  · cases h

/-- What is known of a numeral in a document without doubles: it has whole digits so far, and the
reader goes on with its number or takes it for the whole document. -/
structure Delivered (r : Reader ε) (frames : List Frame) (place : NumeralPlace) (v : Json) :
    Prop where
  whole : Whole place
  number : ∃ w, IsNumber w ∧ r.objection (deliver w frames) = none ∧ (frames = [] → v = w)

theorem delivered_of_value {negative : Bool} {place : NumeralPlace} {n : JsonNumeral} {w : Json}
    (hended : ended? negative place = some n) (hw : n.value? = some w)
    (quiet : r.objection (deliver w frames) = none) (accepts : Accepts (deliver w frames) rest v)
    (exact : Exact v) : Delivered r frames place v := by
  have isNumber := isNumber_of_value? hw
  have exactNumber := (exactState_deliver.mp (exactState_of_accepts accepts exact)).1
  refine ⟨?_, w, isNumber, quiet, ?_⟩
  · cases exactNumber with
    | integer => exact whole_of_ended hended hw
    | _ => exact isNumber.elim
  · rintro rfl
    exact (blank_of_accepts_done accepts).1

theorem delivered_of_readFrom (attentive : Attentive r) {negative : Bool} {place : NumeralPlace}
    (h : r.readFrom ⟨frames, .numeral negative place⟩ rest = .ok v)
    (coherent : Coherent ⟨frames, .numeral negative place⟩) (exact : Exact v) :
    Delivered r frames place v := by
  induction rest generalizing place with
  | nil =>
    obtain ⟨outer, hsettle, quiet⟩ := (readFrom_nil_eq_ok attentive).mp h
    obtain ⟨-, hnext⟩ | ⟨n, w, hended, hw, hdeliver⟩ := settle_numeral_eq_ok hsettle
    · exact absurd rfl hnext
    · have empty : outer = [] := by
        rcases frames with _ | ⟨_ | _, _⟩ <;> cases hdeliver
        rfl
      subst empty
      have accepts : Accepts ⟨[], .done v⟩ [] v := .finish (.same _)
      rw [hdeliver] at quiet accepts
      exact delivered_of_value hended hw quiet accepts exact
  | cons c rest ih =>
    obtain ⟨settled, next, hsettle, quiet, hstep, -, hread⟩ := (readFrom_cons_eq_ok attentive).mp h
    have settles := settles_of_settle hsettle
    have moves := moves_of_step (settles.coherent coherent) hstep
    have coherentNext := moves.coherent (settles.coherent coherent)
    obtain ⟨rfl, -⟩ | ⟨n, w, hended, hw, rfl⟩ := settle_numeral_eq_ok hsettle
    · obtain ⟨longer, extended, rfl⟩ := step_numeral_eq_ok hstep
      have delivered := ih hread coherentNext
      exact ⟨delivered.whole.of_extended extended, delivered.number⟩
    · have accepts := accepts_of_readFrom attentive coherentNext hread
      exact delivered_of_value hended hw quiet (.step (.same _) moves accepts) exact

/-! ### The cut -/

/-- Inside an array or object, all numbers are the same to the reader. -/
def NumberBlind (r : Reader ε) : Prop :=
  ∀ frame outer v w, IsNumber v → IsNumber w → r.objection (deliver v (frame :: outer)) = none →
    r.objection (deliver w (frame :: outer)) = none

theorem quiet_of_readFrom (settled : Settled s) (h : r.readFrom s rest = .ok v) :
    r.objection s = none := by
  cases hobjection : r.objection s with
  | none => rfl
  | some e =>
    have hsettled : r.settled s rest.head? = .error e := by
      rw [settled_of_settled settled, Reader.check, hobjection]
    rw [readFrom_of_settled_error hsettled] at h
    cases h

theorem finish_of_settled (settled : Settled s) (quiet : r.objection s = none)
    (notDone : ∀ document, s.mode ≠ .done document) : r.finish s = .error (.fault .truncated) := by
  obtain ⟨frames, mode⟩ := s
  rw [Reader.finish, settled_of_settled settled, check_of_quiet quiet, ok_bind]
  cases mode with
  | done document => exact absurd rfl (notDone document)
  | _ => rfl

/-- A numeral that is cut may end there, but the arrays and objects around it are open. -/
theorem finish_numeral (attentive : Attentive r) (blind : NumberBlind r) {negative : Bool}
    {place : NumeralPlace} (delivered : Delivered r frames place v) (notNumber : ¬ IsNumber v) :
    r.finish ⟨frames, .numeral negative place⟩ = .error (.fault .truncated) := by
  obtain ⟨w, isNumber, quiet, same⟩ := delivered.number
  rcases frames with _ | ⟨frame, outer⟩
  · rw [same rfl] at notNumber
    exact absurd isNumber notNumber
  rw [Reader.finish, Reader.settled, attentive]
  cases hended : ended? negative place with
  | none => simp only [settle, Option.bind_none, hended]; rfl
  | some n =>
    obtain ⟨number, hnumber⟩ := value?_of_whole delivered.whole hended
    have hsettle : settle false ⟨frame :: outer, .numeral negative place⟩ none =
        .ok (deliver number (frame :: outer)) := by
      simp only [settle, Option.bind_none, hended, deliverNumeral, hnumber]
      rfl
    have quietNumber := blind frame outer w number isNumber (isNumber_of_value? hnumber) quiet
    rw [hsettle, lifted_ok, ok_bind, check_of_quiet quietNumber, ok_bind]
    cases frame <;> rfl

/-- A document that is no number is truncated wherever it is cut, as long as more than blanks is
missing. -/
theorem readFrom_cut (attentive : Attentive r) (blind : NumberBlind r) (coherent : Coherent s)
    {text : List Char} (h : r.readFrom s (text ++ rest) = .ok v) (exact : Exact v)
    (notNumber : ¬ IsNumber v) (missing : ∃ c ∈ rest, isBlank c = false) :
    r.readFrom s text = .error (.fault .truncated) := by
  induction text generalizing s with
  | nil =>
    rw [List.nil_append] at h
    rw [Reader.readFrom]
    obtain ⟨frames, mode⟩ := s
    cases mode with
    | numeral negative place =>
      exact finish_numeral attentive blind (delivered_of_readFrom attentive h coherent exact)
        notNumber
    | done document =>
      obtain ⟨c, hc, notBlank⟩ := missing
      have blanks := (blank_of_accepts_done (accepts_of_readFrom attentive coherent h)).2
      exact absurd (blanks c hc) (Bool.eq_false_iff.mp notBlank)
    | _ =>
      refine finish_of_settled trivial (quiet_of_readFrom trivial h) ?_
      rintro document ⟨⟩
  | cons c text ih =>
    rw [List.cons_append, Reader.readFrom] at h
    obtain ⟨next, hadvance, hread⟩ := bind_eq_ok.mp h
    rw [Reader.readFrom, hadvance, ok_bind]
    exact ih (coherent_of_advance attentive coherent hadvance) hread

/-! ### Trees -/

theorem numberBlind_reader : NumberBlind NodeDocument.reader := by
  intro frame outer v w isNumber _ quiet
  -- Only a tag is looked at, and no number is one.
  have notTag : ∀ {number : Json}, IsNumber number →
      NodeDocument.objectionOf (NodeDocument.kindOfTag true number) ≠ none := by
    intro number isNumber
    cases number with
    | integer | real => nofun
    | _ => exact isNumber.elim
  rcases frame with done | ⟨done, name⟩
  · rcases outer with _ | ⟨frame', outer⟩
    · cases done with
      | nil => exact absurd quiet (notTag isNumber)
      | cons => rfl
    · simp only [NodeDocument.reader, deliver]
  · rcases outer with _ | ⟨frame', outer⟩
    · by_cases htag : name = "type"
      · exact absurd ((if_pos htag).symm.trans quiet) (notTag isNumber)
      · exact if_neg htag
    · simp only [NodeDocument.reader, deliver]

theorem brace_suffix_text (layout : Layout) (node : Node) :
    ['\x7d'] <:+ (NodeDocument.text layout node).toList := by
  rw [NodeDocument.text, String.toList_ofList, ClaimedNodes.toJson_eq, Json.text, write]
  refine List.IsSuffix.trans ?_ (List.suffix_cons _ _)
  refine List.IsSuffix.trans ?_ (List.suffix_append _ _)
  exact (List.suffix_append _ _).trans (List.suffix_append _ _)

/-- The brace at its end is missing wherever a document is cut. -/
theorem exists_not_blank {node : Node} {layout : Layout} {cut : List Char}
    (whole : cut ++ rest = (NodeDocument.text layout node).toList) (missing : rest ≠ []) :
    ∃ c ∈ rest, isBlank c = false := by
  have brace : ['\x7d'] <:+ rest :=
    List.suffix_of_suffix_length_le (brace_suffix_text layout node) ⟨cut, whole⟩
      (List.length_pos_iff.mpr missing)
  exact ⟨'\x7d', brace.mem (List.mem_singleton_self _), rfl⟩

/-- A document that is cut short is found to be truncated wherever the cut is, whatever digests its
nodes claim, if no node has more than 63 ancestors. -/
theorem parse_of_cut {node : Node}
    (shallow : ∀ ancestors inner, TreeDocuments.Beneath node ancestors inner → ancestors ≤ 63)
    (layout : Layout) {cut : String} (begins : cut.toList <+: (NodeDocument.text layout node).toList)
    (proper : cut ≠ NodeDocument.text layout node) :
    NodeDocument.parse cut = .error (.fault .truncated) := by
  have room : nesting (NodeDocument.toJson node) ≤ depthLimit :=
    (TreeDocuments.nesting_le_iff node 63).mpr shallow
  have exact : Exact (NodeDocument.toJson node) :=
    TreeDocuments.exact_toJson_of_own (TreeDocuments.exact_ownMembers node)
  have notNumber : ¬ IsNumber (NodeDocument.toJson node) := by
    rw [ClaimedNodes.toJson_eq]
    exact id
  obtain ⟨rest, hrest⟩ := begins
  have hread : NodeDocument.reader.readFrom start (cut.toList ++ rest) =
      .ok (NodeDocument.toJson node) := by
    rw [hrest, NodeDocument.text, String.toList_ofList, ← Reader.read, TreeDocuments.read_toJson,
      within_of_le room]
  have missing : rest ≠ [] := by
    rintro rfl
    rw [List.append_nil] at hrest
    exact proper (String.toList_inj.mp hrest)
  have coherent : Coherent start := trivial
  rw [NodeDocument.parse, Reader.read,
    readFrom_cut TreeDocuments.attentive_reader numberBlind_reader coherent hread exact notNumber
      (exists_not_blank hrest missing), error_bind]

/-- A cut in an escape of an entry, and one in the size of a file. -/
theorem entry_and_size_cut :
    NodeDocument.parse ("\x7b\"type\":\"directory\",\"name\":\"d\"," ++
        "\"entries\":[\x7b\"type\":\"file\",\"name\":\"\\u00") = .error (.fault .truncated) ∧
      NodeDocument.parse "\x7b\n  \"type\": \"file\",\n  \"name\": \"é\",\n  \"size\": 1844" =
        .error (.fault .truncated) :=
  have shallow : ∀ ancestors inner,
      TreeDocuments.Beneath (.directory "d" .zero [.file "\x01" .zero 7]) ancestors inner →
        ancestors ≤ 63 :=
    (TreeDocuments.nesting_le_iff _ 63).mp (by decide)
  have shallowFile : ∀ ancestors inner,
      TreeDocuments.Beneath (.file "é" .zero (-1)) ancestors inner → ancestors ≤ 63 :=
    (TreeDocuments.nesting_le_iff _ 63).mp (by decide)
  ⟨parse_of_cut shallow .compact (by decide +kernel) (by decide +kernel),
    parse_of_cut shallowFile .indented (by decide +kernel) (by decide +kernel)⟩

end HashedTree.CutDocuments
