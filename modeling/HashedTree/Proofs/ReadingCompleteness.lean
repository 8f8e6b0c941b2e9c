import HashedTree.Proofs.DocumentReading
import HashedTree.Proofs.TokenReading

/-!
# What is written as a document is read

A reader that never objects makes of every text that is written as a document the value of what is
written, if there is one and if arrays and objects are not nested too deep. Otherwise it finds the
text malformed.
-/
namespace HashedTree.ReadingCompleteness
open JsonReading ReadingSteps StringReading NumeralReading DocumentReading DocumentGrammar TokenReading
open Outcomes

variable {ε : Type} {r : Reader ε} {frames : List Frame} {t t₁ t₂ rest : List Char}

section Fitting

mutual
/-- The value of what is written if there is room for its arrays and objects. -/
def fitting? (room : Nat) : Written → Option Json
  | .null => some .null
  | .boolean value => some (.boolean value)
  | .numeral n => n.value?
  | .string pieces => (text? pieces).map .string
  | .array ws => if room = 0 then none else (fittingElements? (room - 1) ws).map .array
  | .object ms => if room = 0 then none else (fittingMembers? (room - 1) ms).map .object

def fittingElements? (room : Nat) : List Written → Option (List Json)
  | [] => some []
  | w :: ws => (fitting? room w).bind fun v => (fittingElements? room ws).map (v :: ·)

def fittingMembers? (room : Nat) : List WrittenMember → Option (List (String × Json))
  | [] => some []
  | (pieces, w) :: ms =>
    (text? pieces).bind fun name => (fitting? room w).bind fun v =>
      (fittingMembers? room ms).map ((name, v) :: ·)
end

mutual
theorem fitting?_eq (room : Nat) (w : Written) :
    fitting? room w = if w.depth ≤ room then w.value? else none := by
  cases w with
  | null => rfl
  | boolean value => rfl
  | numeral n => rfl
  | string pieces => rfl
  | array ws =>
    rw [fitting?, fittingElements?_eq, Written.depth, Written.value?]
    by_cases hroom : room = 0
    · rw [if_pos hroom, if_neg (by omega)]
    · by_cases hdepth : depthOfElements ws ≤ room - 1
      · rw [if_neg hroom, if_pos hdepth, if_pos (by omega)]
      · rw [if_neg hroom, if_neg hdepth, if_neg (by omega)]
        rfl
  | object ms =>
    rw [fitting?, fittingMembers?_eq, Written.depth, Written.value?]
    by_cases hroom : room = 0
    · rw [if_pos hroom, if_neg (by omega)]
    · by_cases hdepth : depthOfMembers ms ≤ room - 1
      · rw [if_neg hroom, if_pos hdepth, if_pos (by omega)]
      · rw [if_neg hroom, if_neg hdepth, if_neg (by omega)]
        rfl

theorem fittingElements?_eq (room : Nat) (ws : List Written) :
    fittingElements? room ws = if depthOfElements ws ≤ room then values? ws else none := by
  cases ws with
  | nil => rfl
  | cons w ws =>
    rw [fittingElements?, fitting?_eq room w, fittingElements?_eq room ws, depthOfElements, values?]
    by_cases hw : w.depth ≤ room
    · by_cases hws : depthOfElements ws ≤ room
      · rw [if_pos hw, if_pos hws, if_pos (Nat.max_le.mpr ⟨hw, hws⟩)]
      · rw [if_pos hw, if_neg hws, if_neg (fun h => hws (Nat.max_le.mp h).2)]
        cases w.value? <;> rfl
    · rw [if_neg hw, if_neg (fun h => hw (Nat.max_le.mp h).1)]
      rfl

theorem fittingMembers?_eq (room : Nat) (ms : List WrittenMember) :
    fittingMembers? room ms = if depthOfMembers ms ≤ room then memberValues? ms else none := by
  cases ms with
  | nil => rfl
  | cons m ms =>
    obtain ⟨pieces, w⟩ := m
    rw [fittingMembers?, fitting?_eq room w, fittingMembers?_eq room ms, depthOfMembers,
      memberValues?]
    by_cases hw : w.depth ≤ room
    · by_cases hms : depthOfMembers ms ≤ room
      · rw [if_pos hw, if_pos hms, if_pos (Nat.max_le.mpr ⟨hw, hms⟩)]
      · rw [if_pos hw, if_neg hms, if_neg (fun h => hms (Nat.max_le.mp h).2)]
        cases text? pieces <;> cases w.value? <;> rfl
    · rw [if_neg hw, if_neg (fun h => hw (Nat.max_le.mp h).1)]
      cases text? pieces <;> rfl
end

theorem fittingMembers?_cons (room : Nat) (m : WrittenMember) (ms : List WrittenMember) :
    fittingMembers? room (m :: ms) =
      (fittingMembers? room [m]).bind fun vs => (fittingMembers? room ms).map (vs ++ ·) := by
  obtain ⟨pieces, w⟩ := m
  rw [fittingMembers?, fittingMembers?]
  cases text? pieces <;> cases fitting? room w <;> rfl

end Fitting

def room (frames : List Frame) : Nat := depthLimit - frames.length

theorem room_cons (frame : Frame) : room (frame :: frames) = room frames - 1 := by
  rw [room, room, List.length_cons, Nat.sub_add_eq]

/-- How a reader goes through a part of a document in front of what follows it. -/
def ReadsPart (r : Reader ε) (t rest : List Char) : Part → Prop
  | .value w => ∀ frames, r.readFrom ⟨frames, .value⟩ t =
      onward (fitting? (room frames) w) fun v => r.readFrom (deliver v frames) rest
  | .element w => ∀ frames mode, ValueMode mode → r.readFrom ⟨frames, mode⟩ t =
      onward (fitting? (room frames) w) fun v => r.readFrom (deliver v frames) rest
  | .elements ws => ∀ done outer mode, ValueMode mode →
      r.readFrom ⟨.array done :: outer, mode⟩ t =
        onward (fittingElements? (room outer - 1) ws) fun vs =>
          r.readFrom ⟨.array (vs.reverse ++ done) :: outer, .next⟩ rest
  | .member m => ∀ done previous outer mode, NameMode mode →
      r.readFrom ⟨.object done previous :: outer, mode⟩ t =
        onward (fittingMembers? (room outer - 1) [m]) fun vs =>
          r.readFrom ⟨.object (vs.reverse ++ done) "" :: outer, .next⟩ rest
  | .members ms => ∀ done previous outer mode, NameMode mode →
      r.readFrom ⟨.object done previous :: outer, mode⟩ t =
        onward (fittingMembers? (room outer - 1) ms) fun vs =>
          r.readFrom ⟨.object (vs.reverse ++ done) "" :: outer, .next⟩ rest

/-- Neither a blank nor the end of an array stands at the start of a value. -/
theorem cons_of_spells_value {w : Written} (h : Spells (.value w) t rest) :
    ∃ c t', t = c :: t' ∧ isBlank c = false ∧ c ≠ ']' := by
  cases h with
  | numeral h =>
    cases h with
    | mk hsign hwhole hfraction hexponent =>
      cases hsign with
      | minus => exact ⟨_, _, rfl, rfl, by decide⟩
      | none =>
        cases hwhole with
        | zero => exact ⟨_, _, rfl, rfl, by decide⟩
        | digits notZero first digit =>
          exact ⟨_, _, rfl, isBlank_of_isDigit first, ne_of_isDigit first rfl⟩
  | _ => exact ⟨_, _, rfl, rfl, by decide⟩

theorem delimits_of_mark {c : Char} (h : c = ',' ∨ c = ']' ∨ c = '\x7d') : Delimits (c :: t) := by
  intro d hd
  obtain rfl : c = d := Option.some.inj hd
  rcases h with h | h | h
  · exact .inl h
  · exact .inr (.inl h)
  · exact .inr (.inr (.inl h))

theorem delimits_of_blanks (h : Blanks t rest) (delimits : Delimits rest) : Delimits t := by
  cases h with
  | nil => exact delimits
  | cons blank h =>
    intro c hc
    obtain rfl := Option.some.inj hc
    exact .inr (.inr (.inr blank))

theorem readsPart_lastElement {w : Written} (ih : ReadsPart r t rest (.element w)) :
    ReadsPart r t rest (.elements [w]) := by
  intro done outer mode hmode
  rw [ih (.array done :: outer) mode hmode, room_cons, fittingElements?, onward_bind]
  rfl

section Parts
variable (attentive : Attentive r) (quiet : ∀ frames, Quiet r frames)
include attentive quiet

theorem readFrom_of_blanks {mode : Mode} (patient : Patient mode) (h : Blanks t rest) :
    r.readFrom ⟨frames, mode⟩ t = r.readFrom ⟨frames, mode⟩ rest := by
  induction h with
  | nil => rfl
  | @cons c t rest blank h ih =>
    have hblank : ∀ d ∈ [c], isBlank d := by simpa using blank
    exact (readFrom_blanks attentive (quiet _) patient hblank).trans ih

theorem readsPart_word {w : Written} {v : Json} (first second : Char) (word : List Char)
    (hvalue : ∀ room, fitting? room w = some v)
    (hstep : ∀ frames, step false ⟨frames, .value⟩ first = .ok ⟨frames, .word (second :: word) v⟩) :
    ReadsPart r (first :: second :: (word ++ rest)) rest (.value w) := by
  intro frames
  have hword : r.readFrom ⟨frames, .word (second :: word) v⟩ (second :: word ++ rest) =
      r.readFrom (deliver v frames) rest :=
    readFrom_word attentive (quiet frames) v (second :: word) (List.cons_ne_nil _ _)
  rw [readFrom_of_step attentive (quiet _ _) (hstep frames) trivial trivial, hvalue, onward_some]
  exact hword

theorem readFrom_deliver_blanks (h : Blanks t rest) (v : Json) (frames : List Frame) :
    r.readFrom (deliver v frames) t = r.readFrom (deliver v frames) rest := by
  cases frames with
  | nil => exact readFrom_of_blanks attentive quiet trivial h
  | cons frame outer => cases frame <;> exact readFrom_of_blanks attentive quiet trivial h

theorem readFrom_openArray :
    r.readFrom ⟨frames, .value⟩ ('[' :: t) =
      if room frames = 0 then .error (.fault .malformed)
      else r.readFrom ⟨.array [] :: frames, .firstElement⟩ t := by
  by_cases hroom : frames.length < depthLimit
  · have hopen : step false ⟨frames, .value⟩ '[' = .ok ⟨.array [] :: frames, .firstElement⟩ := by
      simp [step, beginValue, isBlank, hroom]
    rw [if_neg (by rw [room]; omega),
      readFrom_of_step attentive (quiet _ _) hopen trivial trivial]
  · have hfault : step false ⟨frames, .value⟩ '[' = .error .malformed := by
      simp [step, beginValue, isBlank, hroom]
    rw [if_pos (by rw [room]; omega), readFrom_of_fault attentive (quiet _ _) hfault trivial]

theorem readFrom_openObject :
    r.readFrom ⟨frames, .value⟩ ('\x7b' :: t) =
      if room frames = 0 then .error (.fault .malformed)
      else r.readFrom ⟨.object [] "" :: frames, .firstName⟩ t := by
  by_cases hroom : frames.length < depthLimit
  · have hopen : step false ⟨frames, .value⟩ '\x7b' =
        .ok ⟨.object [] "" :: frames, .firstName⟩ := by
      simp [step, beginValue, isBlank, hroom]
    rw [if_neg (by rw [room]; omega),
      readFrom_of_step attentive (quiet _ _) hopen trivial trivial]
  · have hfault : step false ⟨frames, .value⟩ '\x7b' = .error .malformed := by
      simp [step, beginValue, isBlank, hroom]
    rw [if_pos (by rw [room]; omega), readFrom_of_fault attentive (quiet _ _) hfault trivial]

theorem readFrom_closeArray {done : List Json} {mode : Mode} (hmode : mode = .firstElement ∨ mode = .next) :
    r.readFrom ⟨.array done :: frames, mode⟩ (']' :: t) =
      r.readFrom (deliver (.array done.reverse) frames) t := by
  rcases hmode with rfl | rfl <;>
    exact readFrom_of_step attentive (quiet _ _) rfl trivial (settled_deliver _ _)

theorem readFrom_closeObject {done : List (String × Json)} {name : String} {mode : Mode}
    (hmode : mode = .firstName ∨ mode = .next) :
    r.readFrom ⟨.object done name :: frames, mode⟩ ('\x7d' :: t) =
      r.readFrom (deliver (.object done.reverse) frames) t := by
  rcases hmode with rfl | rfl <;>
    exact readFrom_of_step attentive (quiet _ _) rfl trivial (settled_deliver _ _)

theorem readsPart_string {pieces : List Piece} (h : Inside pieces t rest) :
    ReadsPart r ('"' :: t) rest (.value (.string pieces)) := by
  intro frames
  have hstart : step false ⟨frames, .value⟩ '"' = .ok ⟨frames, .string .value .plain []⟩ := rfl
  have hend : ∀ read, deliverString .value read frames =
      .ok (deliver (.string (String.ofList read.reverse)) frames) := fun _ => rfl
  have hinside := (readFrom_inside attentive (quiet frames) hend
    (fun _ => settled_deliver _ _) h).1 []
  rw [readFrom_of_step attentive (quiet _ _) hstart trivial trivial, hinside, fitting?, text?,
    onward_map, onward_map]
  simp

theorem readsPart_emptyArray (h : Blanks t (']' :: rest)) :
    ReadsPart r ('[' :: t) rest (.value (.array [])) := by
  intro frames
  have patient : Patient .firstElement := trivial
  rw [readFrom_openArray attentive quiet, fitting?, readFrom_of_blanks attentive quiet patient h,
    readFrom_closeArray attentive quiet (.inl rfl)]
  split <;> rfl

theorem readsPart_array {ws : List Written} (ih : ReadsPart r t (']' :: rest) (.elements ws)) :
    ReadsPart r ('[' :: t) rest (.value (.array ws)) := by
  intro frames
  rw [readFrom_openArray attentive quiet, fitting?, ih [] frames _ (.inr rfl)]
  split
  · rfl
  · rw [onward_map]
    simp [readFrom_closeArray attentive quiet (.inr rfl)]

theorem readsPart_emptyObject (h : Blanks t ('\x7d' :: rest)) :
    ReadsPart r ('\x7b' :: t) rest (.value (.object [])) := by
  intro frames
  have patient : Patient .firstName := trivial
  rw [readFrom_openObject attentive quiet, fitting?, readFrom_of_blanks attentive quiet patient h,
    readFrom_closeObject attentive quiet (.inl rfl)]
  split <;> rfl

theorem readsPart_object {ms : List WrittenMember}
    (ih : ReadsPart r t ('\x7d' :: rest) (.members ms)) :
    ReadsPart r ('\x7b' :: t) rest (.value (.object ms)) := by
  intro frames
  rw [readFrom_openObject attentive quiet, fitting?, ih [] "" frames _ (.inl rfl)]
  split
  · rfl
  · rw [onward_map]
    simp [readFrom_closeObject attentive quiet (.inr rfl)]

theorem readsPart_element {w : Written} (before : Blanks t t₁) (h : Spells (.value w) t₁ t₂)
    (after : Blanks t₂ rest) (ih : ReadsPart r t₁ t₂ (.value w)) :
    ReadsPart r t rest (.element w) := by
  intro frames mode hmode
  have patient : Patient mode := by rcases hmode with rfl | rfl <;> trivial
  have hvalue : r.readFrom ⟨frames, mode⟩ t₁ = r.readFrom ⟨frames, .value⟩ t₁ := by
    obtain ⟨c, t', rfl, hblank, hend⟩ := cons_of_spells_value h
    rcases hmode with rfl | rfl
    · rfl
    · exact readFrom_firstElement_cons attentive (quiet _) hblank hend
  rw [readFrom_of_blanks attentive quiet patient before, hvalue, ih frames]
  simp only [readFrom_deliver_blanks attentive quiet after]

theorem readsPart_moreElements {w : Written} {ws : List Written}
    (ih : ReadsPart r t (',' :: t₁) (.element w)) (ihs : ReadsPart r t₁ rest (.elements ws)) :
    ReadsPart r t rest (.elements (w :: ws)) := by
  intro done outer mode hmode
  have hcomma : ∀ done, step false ⟨.array done :: outer, .next⟩ ',' =
      .ok ⟨.array done :: outer, .value⟩ := fun _ => rfl
  rw [ih (.array done :: outer) mode hmode, room_cons, fittingElements?, onward_bind]
  congr
  funext v
  rw [deliver, readFrom_of_step attentive (quiet _ _) (hcomma _) trivial trivial,
    ihs (v :: done) outer _ (.inl rfl), onward_map]
  simp

theorem readsPart_member {pieces : List Piece} {w : Written} {t₃ : List Char}
    (before : Blanks t ('"' :: t₁)) (name : Inside pieces t₁ t₂) (between : Blanks t₂ (':' :: t₃))
    (ih : ReadsPart r t₃ rest (.element w)) : ReadsPart r t rest (.member (pieces, w)) := by
  intro done previous outer mode hmode
  have patient : Patient mode := by rcases hmode with rfl | rfl <;> trivial
  have patientColon : Patient .colon := trivial
  have settled : Settled ⟨.object done previous :: outer, mode⟩ := by
    rcases hmode with rfl | rfl <;> trivial
  have hstart : step false ⟨.object done previous :: outer, mode⟩ '"' =
      .ok ⟨.object done previous :: outer, .string .name .plain []⟩ := by
    rcases hmode with rfl | rfl <;> rfl
  have hend : ∀ read, deliverString .name read (.object done previous :: outer) =
      .ok ⟨.object done (String.ofList read.reverse) :: outer, .colon⟩ := fun _ => rfl
  have hcolon : ∀ name, step false ⟨.object done name :: outer, .colon⟩ ':' =
      .ok ⟨.object done name :: outer, .value⟩ := fun _ => rfl
  have hinside := (readFrom_inside attentive (quiet _) hend (fun _ => trivial) name).1 []
  rw [readFrom_of_blanks attentive quiet patient before,
    readFrom_of_step attentive (quiet _ _) hstart settled trivial, hinside, fittingMembers?, text?,
    onward_bind, onward_map]
  congr
  funext text
  rw [readFrom_of_blanks attentive quiet patientColon between,
    readFrom_of_step attentive (quiet _ _) (hcolon _) trivial trivial,
    ih (.object done _ :: outer) _ (.inl rfl), room_cons, onward_bind]
  simp [fittingMembers?, deliver]

theorem readsPart_moreMembers {m : WrittenMember} {ms : List WrittenMember}
    (ih : ReadsPart r t (',' :: t₁) (.member m)) (ihs : ReadsPart r t₁ rest (.members ms)) :
    ReadsPart r t rest (.members (m :: ms)) := by
  intro done previous outer mode hmode
  have hcomma : ∀ done, step false ⟨.object done "" :: outer, .next⟩ ',' =
      .ok ⟨.object done "" :: outer, .name⟩ := fun _ => rfl
  rw [ih done previous outer mode hmode, fittingMembers?_cons _ m ms, onward_bind]
  congr
  funext vs
  rw [readFrom_of_step attentive (quiet _ _) (hcomma _) trivial trivial,
    ihs _ "" outer _ (.inr rfl), onward_map]
  simp

/-- In front of something that may follow a value, every part of a document is read. -/
theorem readsPart_of_spells {part : Part} (h : Spells part t rest) (delimits : Delimits rest) :
    ReadsPart r t rest part := by
  induction h with
  | null => exact readsPart_word attentive quiet 'n' 'u' ['l', 'l'] (fun _ => rfl) fun _ => rfl
  | true => exact readsPart_word attentive quiet 't' 'r' ['u', 'e'] (fun _ => rfl) fun _ => rfl
  | false =>
    exact readsPart_word attentive quiet 'f' 'a' ['l', 's', 'e'] (fun _ => rfl) fun _ => rfl
  | numeral h => exact fun frames => readFrom_numeral attentive (quiet _) h delimits
  | string h => exact readsPart_string attentive quiet h
  | emptyArray h => exact readsPart_emptyArray attentive quiet h
  | array h ih => exact readsPart_array attentive quiet (ih (delimits_of_mark (.inr (.inl rfl))))
  | emptyObject h => exact readsPart_emptyObject attentive quiet h
  | object h ih => exact readsPart_object attentive quiet (ih (delimits_of_mark (.inr (.inr rfl))))
  | element before h after ih =>
    exact readsPart_element attentive quiet before h after (ih (delimits_of_blanks after delimits))
  | lastElement h ih => exact readsPart_lastElement (ih delimits)
  | moreElements h more ih ihs =>
    exact readsPart_moreElements attentive quiet (ih (delimits_of_mark (.inl rfl))) (ihs delimits)
  | member before name between h ih =>
    exact readsPart_member attentive quiet before name between (ih delimits)
  | lastMember h ih => exact ih delimits
  | moreMembers h more ih ihs =>
    exact readsPart_moreMembers attentive quiet (ih (delimits_of_mark (.inl rfl))) (ihs delimits)

/-- A text that is written as a document has the value of what is written, if there is one and if
arrays and objects are not nested too deep. Otherwise it is malformed. -/
theorem read_of_writes {w : Written} {text : List Char} (h : Writes w text) :
    r.read text =
      onward (if w.depth ≤ depthLimit then w.value? else none) fun v => .ok v := by
  have delimits : Delimits [] := nofun
  have hread := readsPart_of_spells attentive quiet h delimits [] .value (.inl rfl)
  rw [fitting?_eq] at hread
  rw [Reader.read, start, hread]
  congr
  funext v
  have settled : Settled ⟨[], .done v⟩ := trivial
  rw [deliver, Reader.readFrom, Reader.finish, settled_of_settled settled,
    check_of_quiet (quiet _ _), ok_bind]

theorem read_eq_ok_iff {w : Written} {text : List Char} {v : Json} (h : Writes w text) :
    r.read text = .ok v ↔ w.depth ≤ depthLimit ∧ w.value? = some v := by
  rw [read_of_writes attentive quiet h]
  split
  case isTrue bounded => cases w.value? <;> simp [onward, bounded]
  case isFalse deep => simp [onward, deep]

theorem read_error_of_writes {w : Written} {text : List Char} {e : Failure ε} (h : Writes w text)
    (failed : r.read text = .error e) : e = .fault .malformed := by
  rw [read_of_writes attentive quiet h] at failed
  cases hvalue : if w.depth ≤ depthLimit then w.value? else none with
  | none =>
    rw [hvalue] at failed
    cases failed
    rfl
  | some v =>
    rw [hvalue] at failed
    cases failed

end Parts

end HashedTree.ReadingCompleteness
