import HashedTree.CommandLine
import HashedTree.Proofs.Outcomes

/-!
# Reading written arguments

Each argument of a level is written in one piece: an option by its name, with its text behind an
equals sign if it takes one, and any other argument as its text. Read one after the other, they are
kept in this order, each with its own text. The text of one without a name is examined later than
that of an option, but what comes of all arguments together does not depend on it.
-/
namespace HashedTree.CommandArguments
open ByteBlocks Utf8Text CommandLine Outcomes

/-- An argument with the text that it gives; a flag gives none. -/
abbrev Given := Argument × Bytes

/-- The argument as it is written. -/
def spelled : Given → Bytes
  | (⟨_, _, false⟩, text) => text
  | (⟨name, .flag, true⟩, _) => utf8 "--" ++ utf8 name
  | (⟨name, _, true⟩, text) => utf8 "--" ++ utf8 name ++ utf8 "=" ++ text

/-- What reading one more argument does. -/
def take (p : Progress) (given : Given) : Except CommandLineError Progress :=
  if given.1.named then p.settle.bind (·.accept given.1 given.2)
  else p.settle.map ({ · with pending := some ⟨given.1, some given.2⟩, placed := p.placed + 1 })

def takeAll (p : Progress) : List Given → Except CommandLineError Progress
  | [] => .ok p
  | given :: rest => (take p given).bind fun p => takeAll p rest

/-- A level whose options can be told by their names, and apart from commands. -/
structure Legible (level : Level) : Prop where
  found : ∀ a ∈ level.options, level.find? (utf8 a.name) = some a
  named : ∀ a ∈ level.options, a.named = true
  names : ∀ a ∈ level.options, utf8 a.name ≠ [] ∧ 61 ∉ utf8 a.name ∧ utf8 a.name ≠ utf8 "help"
  places : ∀ a ∈ level.positionals, a.named = false
  commands : ∀ c ∈ level.commands, (utf8 c).head? ≠ some 45
  apart : level.positionals = [] ∨ level.commands = []

theorem legible_programLevel : Legible programLevel := by
  constructor <;> decide

theorem legible_commandLevel {name : String} (command : name ∈ ["build", "hash", "lookup"]) :
    Legible (commandLevel name) := by
  simp only [List.mem_cons, List.not_mem_nil, or_false] at command
  rcases command with rfl | rfl | rfl <;> constructor <;> decide

/-- What can be read at a level from some place on: its options, unless every argument is taken as
it is, and the arguments without a name at their places. -/
inductive Fits (level : Level) (literal : Bool) : Nat → List Given → Prop where
  | nil (placed : Nat) : Fits level literal placed []
  | option {placed : Nat} {a : Argument} {text : Bytes} {rest : List Given}
      (hoptions : literal = false) (listed : a ∈ level.options)
      (bare : a.content = .flag → text = []) (h : Fits level literal placed rest) :
      Fits level literal placed ((a, text) :: rest)
  | positional {placed : Nat} {a : Argument} {text : Bytes} {rest : List Given}
      (next : level.positionals[placed]? = some a)
      (plain : literal = true ∨ text.head? ≠ some 45)
      (h : Fits level literal (placed + 1) rest) : Fits level literal placed ((a, text) :: rest)

/-- Options may stand between arguments without a name that keep their order. -/
theorem fits_of_arranged {level : Level} {literal : Bool} {placed : Nat} {givens : List Given}
    (listed : ∀ given ∈ givens, given.1.named = true → literal = false ∧
      given.1 ∈ level.options ∧ (given.1.content = .flag → given.2 = []))
    (plain : ∀ given ∈ givens, given.1.named = false → literal = true ∨ given.2.head? ≠ some 45)
    (inOrder : (givens.filter (!·.1.named)).map Prod.fst <+: level.positionals.drop placed) :
    Fits level literal placed givens := by
  induction givens generalizing placed with
  | nil => exact .nil placed
  | cons given givens ih =>
    obtain ⟨a, text⟩ := given
    rw [List.forall_mem_cons] at listed plain
    cases named : a.named with
    | true =>
      obtain ⟨hoptions, hlisted, bare⟩ := listed.1 named
      apply Fits.option hoptions hlisted bare
      apply ih listed.2 plain.2
      simpa [named] using inOrder
    | false =>
      obtain ⟨later, hlater⟩ := inOrder
      rw [List.filter_cons_of_pos (by simp [named]), List.map_cons, List.cons_append] at hlater
      have next : level.positionals[placed]? = some a := by
        rw [← Nat.add_zero placed, ← List.getElem?_drop, ← hlater]
        rfl
      apply Fits.positional next (plain.1 named)
      apply ih listed.2 plain.2
      refine ⟨later, ?_⟩
      rw [← List.drop_drop, ← hlater]
      rfl

@[simp] theorem hyphens : utf8 "--" = [45, 45] := by decide
@[simp] theorem equals : utf8 "=" = [61] := by decide

theorem splitAtEquals_of_notMem {name : Bytes} (h : 61 ∉ name) :
    splitAtEquals name = (name, none) := by
  induction name with
  | nil => rfl
  | cons b rest ih =>
    rw [List.mem_cons, not_or] at h
    rw [splitAtEquals, if_neg (Ne.symm h.1), ih h.2]

theorem splitAtEquals_append {name : Bytes} (h : 61 ∉ name) (text : Bytes) :
    splitAtEquals (name ++ 61 :: text) = (name, some text) := by
  induction name with
  | nil => rfl
  | cons b rest ih =>
    rw [List.mem_cons, not_or] at h
    rw [List.cons_append, splitAtEquals, if_neg (Ne.symm h.1), ih h.2]

section Steps
variable {level : Level} {p : Progress} {a : Argument} {text : Bytes}

theorem readOption_attached (legible : Legible level) (listed : a ∈ level.options)
    (valued : a.content ≠ .flag) :
    readOption level p (utf8 a.name ++ 61 :: text) = p.settle.bind (·.accept a text) := by
  obtain ⟨-, hequals, hhelp⟩ := legible.names a listed
  rw [readOption, splitAtEquals_append hequals]
  simp only [if_neg hhelp, legible.found a listed]

theorem readOption_flag (legible : Legible level) (listed : a ∈ level.options)
    (flag : a.content = .flag) :
    readOption level p (utf8 a.name) = p.settle.bind (·.accept a []) := by
  obtain ⟨-, hequals, hhelp⟩ := legible.names a listed
  rw [readOption, splitAtEquals_of_notMem hequals]
  simp only [if_neg hhelp, legible.found a listed, flag]

theorem no_command (legible : Legible level) (arg : Bytes) (h : arg.head? = some 45) :
    level.commands.find? (fun c => utf8 c = arg) = none := by
  rw [List.find?_eq_none]
  intro c hc
  rw [decide_eq_true_eq]
  intro hcommand
  exact legible.commands c hc (hcommand ▸ h)

/-- An argument that starts with two hyphens and goes on is read as an option. -/
theorem readLevel_option (legible : Legible level) (ready : p.awaiting = false)
    (hoptions : p.literal = false) {name : Bytes} (nonempty : name ≠ []) (rest : List Bytes) :
    readLevel level p ((45 :: 45 :: name) :: rest) =
      (readOption level p name).bind fun p => readLevel level p rest := by
  have noCommand := no_command legible (45 :: 45 :: name) rfl
  obtain ⟨first, name, rfl⟩ := List.exists_cons_of_ne_nil nonempty
  rw [readLevel.eq_def]
  simp [hoptions, ready, noCommand]

/-- An option takes its own text, or none if it is a flag. -/
theorem readLevel_spelled_option (legible : Legible level) (ready : p.awaiting = false)
    (hoptions : p.literal = false) (listed : a ∈ level.options)
    (bare : a.content = .flag → text = []) (rest : List Bytes) :
    readLevel level p (spelled (a, text) :: rest) =
      (take p (a, text)).bind fun p => readLevel level p rest := by
  have named : a.named = true := legible.named a listed
  have nonempty : utf8 a.name ≠ [] := (legible.names a listed).1
  rw [take, if_pos named]
  by_cases flag : a.content = .flag
  · have hspelled : spelled (a, text) = 45 :: 45 :: utf8 a.name := by
      obtain ⟨name, content, named⟩ := a
      subst flag named
      simp [spelled]
    rw [hspelled, readLevel_option legible ready hoptions nonempty,
      readOption_flag legible listed flag, bare flag]
  · have hspelled : spelled (a, text) = 45 :: 45 :: (utf8 a.name ++ 61 :: text) := by
      obtain ⟨name, content, named⟩ := a
      subst named
      cases content with
      | flag => exact absurd rfl flag
      | path => simp [spelled]
      | text => simp [spelled]
    rw [hspelled, readLevel_option legible ready hoptions (by simp [nonempty]),
      readOption_attached legible listed flag]

/-- What is not read as an option is an argument without a name. -/
theorem readLevel_plain (ready : p.awaiting = false) (noCommands : level.commands = [])
    (plain : p.literal = true ∨ text.head? ≠ some 45) (rest : List Bytes) :
    readLevel level p (text :: rest) =
      (readPositional level p text).bind fun p => readLevel level p rest := by
  rw [readLevel.eq_def]
  cases literal : p.literal with
  | true => rfl
  | false =>
    have noHyphen : text.head? ≠ some 45 := by simpa [literal] using plain
    have noName (other : Bytes) : text ≠ 45 :: other := by
      intro h
      exact noHyphen (h ▸ rfl)
    simp only [Bool.false_eq_true, if_false, noCommands, List.find?_nil, ite_self]
    split
    · exact absurd rfl (noName _)
    · exact absurd rfl (noName _)
    · exact absurd rfl (noName _)
    · cases pending : p.pending with
      | none => rfl
      | some waiting =>
        obtain ⟨a, value⟩ := waiting
        cases value with
        | none => simp [Progress.awaiting, pending] at ready
        | some value => rfl

/-- An argument without a name takes the next place. -/
theorem readLevel_spelled_positional (legible : Legible level) (ready : p.awaiting = false)
    (next : level.positionals[p.placed]? = some a)
    (plain : p.literal = true ∨ text.head? ≠ some 45) (rest : List Bytes) :
    readLevel level p (spelled (a, text) :: rest) =
      (take p (a, text)).bind fun p => readLevel level p rest := by
  have unnamed : a.named = false := legible.places a (List.mem_of_getElem? next)
  have hspelled : spelled (a, text) = text := by
    obtain ⟨name, content, named⟩ := a
    subst unnamed
    rfl
  have noCommands : level.commands = [] := by
    rcases legible.apart with none | none
    · simp [none] at next
    · exact none
  have notNamed : ¬((a, text) : Given).1.named = true := by simp [unnamed]
  rw [hspelled, readLevel_plain ready noCommands plain, readPositional, next, take, if_neg notNamed]

end Steps

section Accepted
variable {level : Level} {p q : Progress} {a : Argument} {text : Bytes}

/-- A value that is kept is put behind the others, and nothing waits any longer. -/
theorem accept_eq_ok (h : p.accept a text = .ok q) :
    q = { p with values := p.values ++ [(a.name, text)], pending := none } := by
  unfold Progress.accept at h
  split at h
  · cases h
  · cases content : a.content <;> simp only [content] at h
    · exact (Except.ok.inj h).symm
    · split at h
      · cases h
      · exact (Except.ok.inj h).symm
    · split at h
      · cases h
      · exact (Except.ok.inj h).symm

theorem settle_eq_ok (h : p.settle = .ok q) :
    q.pending = none ∧ q.placed = p.placed ∧ q.literal = p.literal := by
  unfold Progress.settle at h
  split at h
  · obtain rfl := Except.ok.inj h
    exact ⟨‹_›, rfl, rfl⟩
  · cases h
  · obtain rfl := accept_eq_ok h
    exact ⟨rfl, rfl, rfl⟩

/-- After an argument, the next one can be read at once. -/
theorem take_eq_ok {given : Given} (h : take p given = .ok q) :
    q.awaiting = false ∧ q.literal = p.literal ∧
      q.placed = p.placed + if given.1.named then 0 else 1 := by
  unfold take at h
  split at h
  case isTrue named =>
    obtain ⟨settled, hsettled, haccept⟩ := bind_eq_ok.mp h
    obtain ⟨-, hplaced, hliteral⟩ := settle_eq_ok hsettled
    obtain rfl := accept_eq_ok haccept
    exact ⟨rfl, hliteral, by simp [hplaced, named]⟩
  case isFalse unnamed =>
    obtain ⟨settled, hsettled, rfl⟩ := map_eq_ok.mp h
    obtain ⟨-, hplaced, hliteral⟩ := settle_eq_ok hsettled
    exact ⟨rfl, hliteral, by simp [unnamed]⟩

end Accepted

section Runs
variable {level : Level} {literal : Bool} {placed : Nat} {givens : List Given}

/-- Arguments that fit are read one after the other. -/
theorem readLevel_takeAll (legible : Legible level) (fits : Fits level literal placed givens)
    (rest : List Bytes) :
    ∀ {p : Progress}, p.awaiting = false → p.literal = literal → p.placed = placed →
      readLevel level p (givens.map spelled ++ rest) =
        (takeAll p givens).bind fun p => readLevel level p rest := by
  -- Each argument leaves a state from which the next one is read alike: nothing awaits a text, and
  -- the place and the mode are those at which the rest fits.
  induction fits with
  | nil placed =>
    intro p _ _ _
    rfl
  | @option placed a text later hoptions listed bare h ih =>
    intro p ready hliteral hplaced
    rw [List.map_cons, List.cons_append,
      readLevel_spelled_option legible ready (hliteral.trans hoptions) listed bare, takeAll]
    cases taken : take p (a, text) with
    | error e => rfl
    | ok q =>
      obtain ⟨ready', hliteral', hplaced'⟩ := take_eq_ok taken
      refine ih ready' (hliteral'.trans hliteral) ?_
      simpa [legible.named a listed, hplaced] using hplaced'
  | @positional placed a text later next plain h ih =>
    intro p ready hliteral hplaced
    subst hliteral hplaced
    have unnamed : a.named = false := legible.places a (List.mem_of_getElem? next)
    rw [List.map_cons, List.cons_append,
      readLevel_spelled_positional legible ready next plain, takeAll]
    cases taken : take p (a, text) with
    | error e => rfl
    | ok q =>
      obtain ⟨ready', hliteral', hplaced'⟩ := take_eq_ok taken
      refine ih ready' hliteral' ?_
      simpa [unnamed] using hplaced'

end Runs

/-- A path that is empty is refused. -/
def refused (given : Given) : Bool := given.1.content = .path && given.2.isEmpty

/-- Text is asked for, and this is none. -/
def Readable (given : Given) : Prop := given.1.content = .text → (ofUtf8? given.2).isSome

def stored (given : Given) : String × Bytes := (given.1.name, given.2)

/-- What comes of arguments with different names, if texts are texts. -/
def outcome (givens : List Given) : Except CommandLineError Values :=
  if givens.any refused then .error .invalidValue else .ok (givens.map stored)

/-- The values so far, with the one that waits. -/
def collected (p : Progress) : Except CommandLineError Values := p.settle.map (·.values)

section Collecting
variable {p : Progress} {a : Argument} {text : Bytes} {given : Given} {done givens : List Given}

theorem outcome_eq_ok {values : Values} :
    outcome givens = .ok values ↔ givens.any refused = false ∧ givens.map stored = values := by
  rw [outcome]
  cases givens.any refused <;> simp

theorem outcome_eq_error {e : CommandLineError} :
    outcome givens = .error e ↔ givens.any refused = true ∧ .invalidValue = e := by
  rw [outcome]
  cases givens.any refused <;> simp

theorem outcome_append (done givens : List Given) :
    outcome (done ++ givens) =
      (outcome done).bind fun values => (outcome givens).map (values ++ ·) := by
  rw [outcome, outcome, outcome, List.any_append]
  cases done.any refused <;> cases givens.any refused <;> simp

theorem accept_eq (new : ∀ kept ∈ p.values, kept.1 ≠ a.name) (readable : Readable (a, text)) :
    p.accept a text =
      if refused (a, text) then .error .invalidValue
      else .ok { p with values := p.values ++ [(a.name, text)], pending := none } := by
  have notYet : ¬p.values.any (fun kept => kept.1 = a.name) = true := by
    simp only [List.any_eq_true, decide_eq_true_eq, not_exists, not_and]
    exact new
  rw [Progress.accept, if_neg notYet]
  cases content : a.content with
  | flag => simp [refused, content]
  | path => simp [refused, content]
  | text => simp [refused, content, Option.isSome_iff_ne_none.mp (readable content)]

theorem accept_outcome (hp : outcome done = .ok p.values)
    (distinct : ((done ++ [given]).map fun given => given.1.name).Nodup)
    (readable : Readable given) :
    (p.accept given.1 given.2).map (·.values) = outcome (done ++ [given]) := by
  obtain ⟨hdone, hvalues⟩ := outcome_eq_ok.mp hp
  have new : ∀ kept ∈ p.values, kept.1 ≠ given.1.name := by
    intro kept hkept
    rw [← hvalues] at hkept
    obtain ⟨earlier, hearlier, rfl⟩ := List.mem_map.mp hkept
    rw [List.map_append, List.nodup_append] at distinct
    exact distinct.2.2 _ (List.mem_map_of_mem hearlier) _ (by simp)
  rw [accept_eq new readable, outcome, List.any_append, hdone]
  cases hrefused : refused given <;> simp [hrefused, ← hvalues, stored]

theorem bind_collected_accept :
    (p.accept a text).bind collected = (p.accept a text).map (·.values) := by
  cases h : p.accept a text with
  | error e => rfl
  | ok q =>
    obtain rfl := accept_eq_ok h
    rfl

/-- One more argument is kept behind those before it, whether it is examined at once or later. -/
theorem collected_take (hdone : collected p = outcome done)
    (distinct : ((done ++ [given]).map fun given => given.1.name).Nodup)
    (readable : Readable given) :
    (take p given).bind collected = outcome (done ++ [given]) := by
  rw [collected] at hdone
  cases hp : p.settle with
  | error e =>
    rw [hp, error_map] at hdone
    rw [outcome_append, ← hdone, error_bind, take]
    split <;> simp [hp]
  | ok settled =>
    rw [hp, ok_map] at hdone
    rw [take]
    split
    case isTrue named =>
      rw [hp, ok_bind, bind_collected_accept]
      exact accept_outcome hdone.symm distinct readable
    case isFalse unnamed =>
      rw [hp, ok_map, ok_bind]
      exact accept_outcome hdone.symm distinct readable

theorem collected_takeAll (readable : ∀ given ∈ givens, Readable given)
    (hdone : collected p = outcome done)
    (distinct : ((done ++ givens).map fun given => given.1.name).Nodup) :
    (takeAll p givens).bind collected = outcome (done ++ givens) := by
  -- What is collected so far comes of the arguments so far, so a failure is one of them all.
  induction givens generalizing p done with
  | nil =>
    rw [takeAll, List.append_nil, ← hdone]
    rfl
  | cons given givens ih =>
    rw [List.forall_mem_cons] at readable
    rw [List.append_cons] at distinct ⊢
    have before : ((done ++ [given]).map fun given => given.1.name).Nodup := by
      rw [List.map_append] at distinct
      exact (List.nodup_append.mp distinct).1
    have hgiven := collected_take hdone before readable.1
    rw [takeAll]
    cases taken : take p given with
    | error e =>
      rw [taken, error_bind] at hgiven
      rw [outcome_append, ← hgiven]
      rfl
    | ok q =>
      rw [taken, ok_bind] at hgiven
      exact ih readable.2 hgiven distinct

/-- Arguments with different names, from the first one on. -/
theorem collected_all (readable : ∀ given ∈ givens, Readable given)
    (distinct : (givens.map fun given => given.1.name).Nodup) :
    (takeAll {} givens).bind collected = outcome givens := by
  have nothing : collected {} = outcome [] := rfl
  have h := collected_takeAll readable nothing distinct
  rwa [List.nil_append] at h

end Collecting

theorem takeAll_eq_ok {p q : Progress} {givens : List Given} (ready : p.awaiting = false)
    (h : takeAll p givens = .ok q) :
    q.awaiting = false ∧ q.literal = p.literal ∧
      q.placed = p.placed + (givens.filter (!·.1.named)).length := by
  induction givens generalizing p with
  | nil =>
    obtain rfl := Except.ok.inj h
    exact ⟨ready, rfl, rfl⟩
  | cons given givens ih =>
    obtain ⟨next, htake, hrest⟩ := bind_eq_ok.mp h
    obtain ⟨ready', hliteral, hplaced⟩ := take_eq_ok htake
    obtain ⟨ready'', hliteral', hplaced'⟩ := ih ready' hrest
    refine ⟨ready'', hliteral'.trans hliteral, ?_⟩
    rw [hplaced', hplaced]
    cases named : given.1.named <;> simp [named]
    omega

theorem collected_literal (p : Progress) : collected { p with literal := true } = collected p := by
  unfold collected Progress.settle
  cases p.pending with
  | none => rfl
  | some waiting =>
    obtain ⟨a, value⟩ := waiting
    cases value with
    | none => rfl
    | some value =>
      simp only [Progress.accept]
      split
      · rfl
      · cases a.content <;> dsimp only <;> try split
        all_goals rfl

/-- What comes of the arguments of a level. -/
def levelOutcome (level : Level) (args : List Bytes) : Except CommandLineError Values :=
  (readLevel level {} args).bind fun read => collected read.1

section Levels
variable {level : Level} {givens options texts : List Given}

theorem levelOutcome_spelled (legible : Legible level) (fits : Fits level false 0 givens)
    (readable : ∀ given ∈ givens, Readable given)
    (distinct : (givens.map fun given => given.1.name).Nodup) :
    levelOutcome level (givens.map spelled) = outcome givens := by
  have hread := readLevel_takeAll legible fits [] (p := {}) rfl rfl rfl
  rw [List.append_nil] at hread
  rw [levelOutcome, hread, ← collected_all readable distinct]
  cases takeAll {} givens <;> rfl

/-- Behind two hyphens that stand alone, every argument is taken as it is. -/
theorem readLevel_hyphens (legible : Legible level) {p : Progress} (ready : p.awaiting = false)
    (hoptions : p.literal = false) (rest : List Bytes) :
    readLevel level p (utf8 "--" :: rest) = readLevel level { p with literal := true } rest := by
  have noCommand := no_command legible [45, 45] rfl
  rw [hyphens, readLevel.eq_def]
  simp [hoptions, ready, noCommand]

theorem levelOutcome_separated (legible : Legible level) (fits : Fits level false 0 options)
    (named : ∀ given ∈ options, given.1.named = true) (fitsTexts : Fits level true 0 texts)
    (readable : ∀ given ∈ options ++ texts, Readable given)
    (distinct : ((options ++ texts).map fun given => given.1.name).Nodup) :
    levelOutcome level (options.map spelled ++ utf8 "--" :: texts.map spelled) =
      outcome (options ++ texts) := by
  rw [List.forall_mem_append] at readable
  have distinctOptions : (options.map fun given => given.1.name).Nodup := by
    rw [List.map_append] at distinct
    exact (List.nodup_append.mp distinct).1
  have hoptions := collected_all readable.1 distinctOptions
  rw [levelOutcome,
    readLevel_takeAll legible fits (utf8 "--" :: texts.map spelled) (p := {}) rfl rfl rfl]
  cases taken : takeAll {} options with
  | error e =>
    rw [taken, error_bind] at hoptions
    rw [outcome_append, ← hoptions]
    rfl
  | ok p =>
    rw [taken, ok_bind] at hoptions
    obtain ⟨ready, hliteral, hplaced⟩ := takeAll_eq_ok rfl taken
    have noneUnnamed : options.filter (!·.1.named) = [] := by
      simpa [List.filter_eq_nil_iff] using named
    have noPlace : p.placed = 0 := by simpa [noneUnnamed] using hplaced
    have hrest := readLevel_takeAll legible fitsTexts [] (p := { p with literal := true }) ready rfl
      noPlace
    have hcollected := collected_takeAll readable.2 ((collected_literal p).trans hoptions) distinct
    rw [List.append_nil] at hrest
    rw [ok_bind, readLevel_hyphens legible ready hliteral, hrest, ← hcollected]
    cases takeAll { p with literal := true } texts <;> rfl

/-- A command has the values of its arguments, if none without a name is missing. -/
theorem readCommand_of_outcome {name : String} {args : List Bytes}
    (h : levelOutcome (commandLevel name) args = outcome givens)
    (complete : ∀ a ∈ (commandLevel name).positionals, ∃ given ∈ givens, given.1 = a) :
    readCommand name args = outcome givens := by
  rw [readCommand, ← h, levelOutcome]
  cases hread : readLevel (commandLevel name) {} args with
  | error e => rfl
  | ok read =>
    obtain ⟨p, command⟩ := read
    rw [levelOutcome, hread, ok_bind, collected] at h
    simp only [ok_bind, collected]
    cases hsettle : p.settle with
    | error e => rfl
    | ok settled =>
      rw [hsettle, ok_map] at h
      obtain ⟨-, hvalues⟩ := outcome_eq_ok.mp h.symm
      have present : (commandLevel name).positionals.all
          (fun a => settled.values.any (·.1 = a.name)) = true := by
        simp only [List.all_eq_true, List.any_eq_true, decide_eq_true_eq]
        intro a ha
        obtain ⟨given, hgiven, rfl⟩ := complete a ha
        exact ⟨stored given, hvalues ▸ List.mem_map_of_mem hgiven, rfl⟩
      rw [ok_bind, if_pos present, ok_map]

/-- The name of a command ends what belongs to the program. -/
theorem readLevel_command {name : String} (command : name ∈ programLevel.commands) {p : Progress}
    (ready : p.awaiting = false) (hoptions : p.literal = false) (rest : List Bytes) :
    readLevel programLevel p (utf8 name :: rest) = .ok (p, some (name, rest)) := by
  have found : ∀ name ∈ programLevel.commands,
      programLevel.commands.find? (fun c => utf8 c = utf8 name) = some name := by decide
  rw [readLevel.eq_def]
  simp [hoptions, ready, found name command]

/-- What is written before the name of a command counts like what is written behind it. -/
theorem parse_of_outcome {name : String} {before behind : List Given} {rest : List Bytes}
    (command : name ∈ programLevel.commands) (noHelp : name ≠ "help")
    (fits : Fits programLevel false 0 before)
    (readable : ∀ given ∈ before, Readable given)
    (distinct : (before.map fun given => given.1.name).Nodup)
    (h : readCommand name rest = outcome behind) :
    parse (before.map spelled ++ utf8 name :: rest) =
      (outcome (behind ++ before)).map (ofValues name) := by
  have hbefore := collected_all readable distinct
  rw [parse, readLevel_takeAll legible_programLevel fits (utf8 name :: rest) (p := {}) rfl rfl rfl]
  cases taken : takeAll {} before with
  | error e =>
    rw [taken, error_bind] at hbefore
    obtain ⟨hrefused, rfl⟩ := outcome_eq_error.mp hbefore.symm
    have hall : outcome (behind ++ before) = .error .invalidValue := by
      simp [outcome_eq_error, hrefused]
    rw [hall]
    rfl
  | ok p =>
    rw [taken, ok_bind, collected] at hbefore
    obtain ⟨ready, hliteral, -⟩ := takeAll_eq_ok rfl taken
    rw [ok_bind, readLevel_command command ready hliteral, ok_bind]
    simp only [if_neg noHelp, h, outcome_append, ← hbefore]
    cases outcome behind with
    | error e => rfl
    | ok inner => cases p.settle <;> rfl

end Levels

end HashedTree.CommandArguments
