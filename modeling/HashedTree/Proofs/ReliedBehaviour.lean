import HashedTree.Proofs.AcceptedDocuments
import HashedTree.Proofs.CommandArguments
import HashedTree.Proofs.CutDocuments
import HashedTree.Proofs.DecisiveDirectives
import HashedTree.Proofs.LaidTables
import HashedTree.Proofs.LogDirectives
import HashedTree.Proofs.SettingKeys

/-!
# What the program relies on

Documents, keys, layers of settings, filters and command lines are read by parts that are no work of
the program. What it takes for granted about each of them is stated here of any such part, and met by
the one that is defined here. All of it is about what comes out, not about how it is found.
-/
namespace HashedTree.ReliedBehaviour
open ByteBlocks

/-! ### Documents -/

section Documents
open JsonReading DocumentGrammar ReadingSteps ReadingMoves ReadingSoundness ReadingCompleteness
open NodeDocument DocumentReading TreeDocuments CutDocuments AcceptedDocuments

/-- A reader of documents reads what is written by the grammar and has a value, up to a depth. What
it cannot evaluate is malformed, and what is cut off is truncated. -/
structure ReadsDocuments {ε : Type} (read : List Char → Except (Failure ε) Json) : Prop where
  written : ∀ {text v}, read text = .ok v → ∃ w, Writes w text
  value : ∀ {w text}, Writes w text →
    ∀ v, read text = .ok v ↔ w.depth ≤ depthLimit ∧ w.value? = some v
  malformed : ∀ {w text e}, Writes w text → read text = .error e → e = .fault .malformed
  truncated : ∀ {text rest v}, read (text ++ rest) = .ok v → Exact v → ¬IsNumber v →
    (∃ c ∈ rest, isBlank c = false) → read text = .error (.fault .truncated)

variable {ε : Type} {read : List Char → Except (Failure ε) Json}

theorem readsDocuments : ReadsDocuments (impartial : Reader ε).read where
  written := writes_of_read attentive_impartial
  value writes _ := read_eq_ok_iff attentive_impartial quiet_impartial writes
  malformed := read_error_of_writes attentive_impartial quiet_impartial
  truncated h exact notNumber missing :=
    have coherent : Coherent start := trivial
    readFrom_cut attentive_impartial (fun _ _ _ _ _ _ _ => rfl) coherent h exact notNumber missing

theorem ReadsDocuments.eq_ok_iff {ε' : Type} {read' : List Char → Except (Failure ε') Json}
    (h : ReadsDocuments read) (h' : ReadsDocuments read') {text : List Char} {v : Json} :
    read text = .ok v ↔ read' text = .ok v := by
  constructor
  · intro hread
    obtain ⟨w, writes⟩ := h.written hread
    exact (h'.value writes v).mpr ((h.value writes v).mp hread)
  · intro hread
    obtain ⟨w, writes⟩ := h'.written hread
    exact (h.value writes v).mpr ((h'.value writes v).mp hread)

/-- Whatever reads documents, trees are read from them as if the document came first and the node in
it was looked for afterwards. -/
theorem ReadsDocuments.parse_eq_ok_iff (h : ReadsDocuments read) {text : String} {tree : Node} :
    parse text = .ok tree ↔
      ∃ v node, read text.toList = .ok v ∧ claimed true v = .ok node ∧ node.rebuild = tree := by
  have same : ∀ v, read text.toList = .ok v ↔ (impartial : Reader Mismatch).read text.toList = .ok v :=
    fun v => h.eq_ok_iff readsDocuments
  constructor
  · intro hparse
    obtain ⟨v, node, hread, hclaimed, htree⟩ := parse_eq_ok.mp hparse
    exact ⟨v, node, (same v).mpr (impartial_of_readFrom attentive_reader hread), hclaimed, htree⟩
  · rintro ⟨v, node, hread, hclaimed, rfl⟩
    obtain ⟨node', hclaimed', hparse⟩ | ⟨hrefused, -⟩ :=
      parse_of_impartial_read ((same v).mp hread)
    · rw [hclaimed] at hclaimed'
      cases hclaimed'
      exact hparse
    · exact absurd hclaimed (hrefused node)

end Documents

/-! ### Keys and layers -/

section Layers
open SettingTree LaidTables

/-- A key is the path of names that its dots separate. Without dots and brackets it is a name, of
whatever characters. -/
structure SpellsPaths (ofKey : String → List KeyStep) : Prop where
  dotted : ∀ {words : List String}, words ≠ [] → (∀ word ∈ words, SettingKey.IsWord word) →
    ofKey (String.intercalate "." words) = words.map .member
  name : ∀ {key : String}, '.' ∉ key.toList → '[' ∉ key.toList → ofKey key = [.member key]

/-- A text without marks is a name or no path at all. -/
theorem stepsFrom_unmarked {text : List Char} (done : List Char) (noDot : '.' ∉ text)
    (noBracket : '[' ∉ text) :
    KeyPath.stepsFrom (.name done) text = none ∨
      KeyPath.stepsFrom (.name done) text =
        some [.member (String.ofList (done.reverse ++ text))] := by
  induction text generalizing done with
  | nil =>
    cases done with
    | nil => exact .inl rfl
    | cons c done => exact .inr (by simp [KeyPath.stepsFrom])
  | cons c text ih =>
    obtain ⟨notDot, noDot⟩ := not_or.mp (mt List.mem_cons.mpr noDot)
    obtain ⟨notBracket, noBracket⟩ := not_or.mp (mt List.mem_cons.mpr noBracket)
    rw [KeyPath.stepsFrom]
    split
    case isTrue spelled =>
      rw [List.append_cons, ← List.reverse_cons]
      exact ih _ noDot noBracket
    case isFalse other =>
      refine .inl ?_
      simp [Ne.symm notDot, Ne.symm notBracket]

theorem spellsPaths : SpellsPaths KeyPath.ofKey where
  dotted := by
    intro words nonempty areWords
    have dot : ".".toList = ['.'] := rfl
    rw [KeyPath.ofKey, String.toList_intercalate, dot,
      SettingKey.stepsFrom_intercalate nonempty areWords, Option.getD_some]
  name := by
    intro key noDot noBracket
    rw [KeyPath.ofKey]
    obtain h | h := stepsFrom_unmarked [] noDot noBracket
    · rw [h, Option.getD_none]
    · rw [h, Option.getD_some, List.reverse_nil, List.nil_append, String.ofList_toList]

/-- Layers are laid leaf by leaf: a value that a layer states at the end of a way is found there,
the last one of several, and what it says nothing about stays. -/
structure LaysLeaves
    (layLayer : SettingTree → List (String × SettingTree) → SettingTree) : Prop where
  leaf : ∀ {target layer members name way}, List.Forall₂ Spells layer members →
    (∀ member ∈ members, LetterCase.lowercase member.1 = member.1 ∧
      (member.1 = name → Leads way member.2)) →
    at? (name :: way) (layLayer target layer) =
      (stated? (name :: way) (.table none members)).or (at? (name :: way) target)

theorem laysLeaves : LaysLeaves layLayer where
  leaf spelled leads := by
    rw [layLayer_eq spelled, at?_layMembers _ _ leads]

end Layers

/-! ### Filters -/

section Filters
open LogDirective

/-- A directive for a target is refused only for its level. -/
structure ReadsDirectives (parse : List Char → Except DirectiveFault LogDirective) : Prop where
  target : ∀ {target level : List Char}, target ≠ [] → (∀ c ∈ target, mayStart c) → ',' ∉ level →
    parse (target ++ '=' :: level) =
      withLevel { all with target := some (String.ofList target) } level

theorem readsDirectives : ReadsDirectives LogDirective.parse where
  target nonempty plain noComma := parse_plain plain nonempty noComma

/-- The longest target decides whether an event passes, and the last directive for it. -/
structure FollowsDirectives
    (passes : List LogDirective → LogLevel → String → List String → Bool) : Prop where
  decides : ∀ {directives level target fields}, (∀ d ∈ directives, d.AboutTarget) →
    (passes directives level target fields ↔
      ∃ d : LogDirective, d.Decides target directives ∧ d.threshold.admits level)

theorem followsDirectives : FollowsDirectives fun directives =>
    (LogFilter.ofDirectives directives).passes where
  decides about := LogFilter.passes_iff_decides about _ _ _

end Filters

/-! ### Command lines -/

section Arguments
open CommandLine CommandArguments

/-- Options may stand between the other arguments of a level, which keep their places, and behind
two hyphens every argument is taken as it is. Each one has the text that is written with it. -/
structure ReadsArguments (read : Level → List Bytes → Except CommandLineError Values) : Prop where
  mixed : ∀ {level givens}, Legible level → Fits level false 0 givens →
    (∀ given ∈ givens, Readable given) → (givens.map fun given => given.1.name).Nodup →
    read level (givens.map spelled) = outcome givens
  separated : ∀ {level options texts}, Legible level → Fits level false 0 options →
    (∀ given ∈ options, given.1.named = true) → Fits level true 0 texts →
    (∀ given ∈ options ++ texts, Readable given) →
    ((options ++ texts).map fun given => given.1.name).Nodup →
    read level (options.map spelled ++ Utf8Text.utf8 "--" :: texts.map spelled) =
      outcome (options ++ texts)

theorem readsArguments : ReadsArguments levelOutcome where
  mixed := levelOutcome_spelled
  separated := levelOutcome_separated

end Arguments
end HashedTree.ReliedBehaviour
