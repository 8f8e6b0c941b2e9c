import HashedTree.AsciiCharacters
import HashedTree.JsonNumeral

/-! # Reading a document one character at a time

The state holds the open arrays and objects, the innermost first, and what is expected next. A
text that stops too early is told apart from one with a misplaced character. A numeral has no mark
at its end, so the character after it first settles the numeral and is then read itself.

A reader of a particular kind of document may look at every state and stop early; where it skips a
value, strings and numerals in that value need only be well delimited.
-/
namespace HashedTree.JsonReading
open AsciiCharacters

/-- Why a text is no document: a misplaced character, or a missing rest. -/
inductive Fault where
  | malformed
  | truncated
  deriving DecidableEq, Repr

/-- An open array or object. What has been read of it stands in reverse order; an object also has
the name of the member being read. -/
inductive Frame where
  | array (done : List Json)
  | object (done : List (String × Json)) (name : String)

/-- Whether a string is the name of a member or a value. -/
inductive StringRole where
  | name
  | value
  deriving DecidableEq, Repr

/-- The part of an escape by code unit that has been read. `high` is a leading surrogate whose
partner is awaited; `pending` holds the characters after the `u`, and there are fewer than four
bytes of them. -/
inductive StringPlace where
  | plain
  | escape
  | unit (high : Option Nat) (pending : List Char)
  | partnerBackslash (high : Nat)
  | partnerLetter (high : Nat)

/-- How far a numeral has been read. Digits stand in reverse order. -/
inductive NumeralPlace where
  | sign
  | zero
  | whole (digits : List Char)
  | point (whole : List Char)
  | fraction (whole digits : List Char)
  | exponentMark (whole : List Char) (fraction : Option (List Char))
  | exponentSign (whole : List Char) (fraction : Option (List Char)) (negative : Bool)
  | exponent (whole : List Char) (fraction : Option (List Char)) (negative : Bool)
      (digits : List Char)

/-- What is being read. -/
inductive Mode where
  | value
  | firstElement
  | firstName
  | name
  | colon
  | next
  | done (document : Json)
  | word (rest : List Char) (document : Json)
  | string (role : StringRole) (place : StringPlace) (read : List Char)
  | numeral (negative : Bool) (place : NumeralPlace)

structure State where
  frames : List Frame
  mode : Mode

def start : State := ⟨[], .value⟩

def depthLimit : Nat := 127

def deliver (v : Json) : List Frame → State
  | [] => ⟨[], .done v⟩
  | .array done :: outer => ⟨.array (v :: done) :: outer, .next⟩
  | .object done name :: outer => ⟨.object ((name, v) :: done) "" :: outer, .next⟩

def close : List Frame → Except Fault State
  | .array done :: outer => .ok (deliver (.array done.reverse) outer)
  | .object done _ :: outer => .ok (deliver (.object done.reverse) outer)
  | [] => .error .malformed

def isBlank (c : Char) : Bool := c = ' ' || c = '\n' || c = '\t' || c = '\r'

def unitValue? : List Char → Option Nat
  | [a, b, c, d] => do
    let a ← hexValue? a
    let b ← hexValue? b
    let c ← hexValue? c
    let d ← hexValue? d
    some (((a * 16 + b) * 16 + c) * 16 + d)
  | _ => none

private def decimal (reversed : List Char) : Nat :=
  reversed.foldr (fun c n => n * 10 + JsonNumeral.digitValue c) 0

def ended? (negative : Bool) : NumeralPlace → Option JsonNumeral
  | .zero => some ⟨negative, ['0'], none, none⟩
  | .whole digits => some ⟨negative, digits.reverse, none, none⟩
  | .fraction whole digits => some ⟨negative, whole.reverse, some digits.reverse, none⟩
  | .exponent whole fraction negativeExponent digits =>
    let e : Int := decimal digits
    some ⟨negative, whole.reverse, fraction.map List.reverse, some (if negativeExponent then -e else e)⟩
  | .sign | .point _ | .exponentMark _ _ | .exponentSign _ _ _ => none

def extended? (place : NumeralPlace) (c : Char) : Option NumeralPlace :=
  match place with
  | .sign => if c = '0' then some .zero else if isDigit c then some (.whole [c]) else none
  | .zero =>
    if c = '.' then some (.point ['0'])
    else if c = 'e' ∨ c = 'E' then some (.exponentMark ['0'] none)
    else none
  | .whole digits =>
    if isDigit c then some (.whole (c :: digits))
    else if c = '.' then some (.point digits)
    else if c = 'e' ∨ c = 'E' then some (.exponentMark digits none)
    else none
  | .point whole => if isDigit c then some (.fraction whole [c]) else none
  | .fraction whole digits =>
    if isDigit c then some (.fraction whole (c :: digits))
    else if c = 'e' ∨ c = 'E' then some (.exponentMark whole (some digits))
    else none
  | .exponentMark whole fraction =>
    if c = '+' then some (.exponentSign whole fraction false)
    else if c = '-' then some (.exponentSign whole fraction true)
    else if isDigit c then some (.exponent whole fraction false [c])
    else none
  | .exponentSign whole fraction negative =>
    if isDigit c then some (.exponent whole fraction negative [c]) else none
  | .exponent whole fraction negative digits =>
    if isDigit c then some (.exponent whole fraction negative (c :: digits)) else none

/-- Delivers the numeral that ends here; inside a skipped value it may be out of range. -/
def deliverNumeral (skipping : Bool) (frames : List Frame) (n : JsonNumeral) : Except Fault State :=
  match n.value? with
  | some v => .ok (deliver v frames)
  | none => if skipping then .ok (deliver .null frames) else .error .malformed

/-- Delivers a numeral that the next character does not continue; all else stays as it is. -/
def settle (skipping : Bool) (s : State) (next : Option Char) : Except Fault State :=
  match s.mode with
  | .numeral negative place =>
    match next.bind (extended? place), ended? negative place with
    | some _, _ => .ok s
    | none, some n =>
      if next.any isDigit then .error .malformed else deliverNumeral skipping s.frames n
    | none, none => if next.isSome then .error .malformed else .error .truncated
  | _ => .ok s

def deliverString (role : StringRole) (read : List Char) (frames : List Frame) :
    Except Fault State :=
  let text := String.ofList read.reverse
  match role, frames with
  | .value, _ => .ok (deliver (.string text) frames)
  | .name, .object done _ :: outer => .ok ⟨.object done text :: outer, .colon⟩
  | .name, _ => .error .malformed

def afterUnit (skipping : Bool) (role : StringRole) (high : Option Nat) (n : Nat)
    (read : List Char) : Except Fault Mode :=
  if skipping then .ok (.string role .plain read)
  else match high with
    | some h =>
      if 0xDC00 ≤ n ∧ n ≤ 0xDFFF then
        .ok (.string role .plain (Char.ofNat ((h - 0xD800) * 1024 + (n - 0xDC00) + 0x10000) :: read))
      else .error .malformed
    | none =>
      if 0xDC00 ≤ n ∧ n ≤ 0xDFFF then .error .malformed
      else if 0xD800 ≤ n ∧ n ≤ 0xDBFF then .ok (.string role (.partnerBackslash n) read)
      else .ok (.string role .plain (Char.ofNat n :: read))

def shortEscape? (c : Char) : Option Char :=
  if c = '"' ∨ c = '\\' ∨ c = '/' then some c
  else if c = 'b' then some (Char.ofNat 8)
  else if c = 'f' then some (Char.ofNat 12)
  else if c = 'n' then some '\n'
  else if c = 'r' then some '\r'
  else if c = 't' then some '\t'
  else none

def stepString (skipping : Bool) (frames : List Frame) (role : StringRole) (place : StringPlace)
    (read : List Char) (c : Char) : Except Fault State :=
  match place with
  | .plain =>
    if c = '"' then deliverString role read frames
    else if c = '\\' then .ok ⟨frames, .string role .escape read⟩
    else if c.toNat < 0x20 then .error .malformed
    else .ok ⟨frames, .string role .plain (c :: read)⟩
  | .escape =>
    if c = 'u' then .ok ⟨frames, .string role (.unit none []) read⟩
    else match shortEscape? c with
      | some e => .ok ⟨frames, .string role .plain (e :: read)⟩
      | none => .error .malformed
  | .unit high pending =>
    let seen := pending ++ [c]
    if seen.foldl (fun size c => size + c.utf8Size) 0 < 4 then .ok ⟨frames, .string role (.unit high seen) read⟩
    else match unitValue? seen with
      | some n => (afterUnit skipping role high n read).map (⟨frames, ·⟩)
      | none => .error .malformed
  | .partnerBackslash high =>
    if c = '\\' then .ok ⟨frames, .string role (.partnerLetter high) read⟩ else .error .malformed
  | .partnerLetter high =>
    if c = 'u' then .ok ⟨frames, .string role (.unit (some high) []) read⟩ else .error .malformed

def beginValue (skipping : Bool) (frames : List Frame) (c : Char) : Except Fault State :=
  let room := skipping || decide (frames.length < depthLimit)
  if c = '"' then .ok ⟨frames, .string .value .plain []⟩
  else if c = '[' then
    if room then .ok ⟨.array [] :: frames, .firstElement⟩ else .error .malformed
  else if c = '\x7b' then
    if room then .ok ⟨.object [] "" :: frames, .firstName⟩ else .error .malformed
  else if c = 'n' then .ok ⟨frames, .word ['u', 'l', 'l'] .null⟩
  else if c = 't' then .ok ⟨frames, .word ['r', 'u', 'e'] (.boolean true)⟩
  else if c = 'f' then .ok ⟨frames, .word ['a', 'l', 's', 'e'] (.boolean false)⟩
  else if c = '-' then .ok ⟨frames, .numeral true .sign⟩
  else if c = '0' then .ok ⟨frames, .numeral false .zero⟩
  else if isDigit c then .ok ⟨frames, .numeral false (.whole [c])⟩
  else .error .malformed

def step (skipping : Bool) (s : State) (c : Char) : Except Fault State :=
  match s.mode with
  | .string role place read => stepString skipping s.frames role place read c
  | .numeral negative place =>
    match extended? place c with
    | some place => .ok ⟨s.frames, .numeral negative place⟩
    | none => .error .malformed
  | .word [] document => .ok (deliver document s.frames)
  | .word [last] document => if c = last then .ok (deliver document s.frames) else .error .malformed
  | .word (first :: rest) document =>
    if c = first then .ok ⟨s.frames, .word rest document⟩ else .error .malformed
  | .value => if isBlank c then .ok s else beginValue skipping s.frames c
  | .firstElement =>
    if isBlank c then .ok s else if c = ']' then close s.frames else beginValue skipping s.frames c
  | .firstName =>
    if isBlank c then .ok s
    else if c = '\x7d' then close s.frames
    else if c = '"' then .ok ⟨s.frames, .string .name .plain []⟩
    else .error .malformed
  | .name =>
    if isBlank c then .ok s
    else if c = '"' then .ok ⟨s.frames, .string .name .plain []⟩
    else .error .malformed
  | .colon =>
    if isBlank c then .ok s else if c = ':' then .ok ⟨s.frames, .value⟩ else .error .malformed
  | .next =>
    if isBlank c then .ok s
    else match s.frames with
      | .array _ :: _ =>
        if c = ',' then .ok ⟨s.frames, .value⟩
        else if c = ']' then close s.frames
        else .error .malformed
      | .object _ _ :: _ =>
        if c = ',' then .ok ⟨s.frames, .name⟩
        else if c = '\x7d' then close s.frames
        else .error .malformed
      | [] => .error .malformed
  | .done _ => if isBlank c then .ok s else .error .malformed

/-- Why no document was read. -/
inductive Failure (ε : Type) where
  | fault (f : Fault)
  | objection (e : ε)
  deriving DecidableEq

/-- How a kind of document is read: which values are skipped, and which states already show that
the document is not of this kind. A state is shown before each character and after it. -/
structure Reader (ε : Type) where
  skipping : State → Bool
  objection : State → Option (Failure ε)

variable {ε : Type}

def Reader.check (r : Reader ε) (s : State) : Except (Failure ε) State :=
  match r.objection s with
  | some e => .error e
  | none => .ok s

def lifted {α : Type} : Except Fault α → Except (Failure ε) α
  | .ok a => .ok a
  | .error f => .error (.fault f)

def Reader.settled (r : Reader ε) (s : State) (next : Option Char) :
    Except (Failure ε) State :=
  (lifted (settle (r.skipping s) s next)).bind r.check

def Reader.advance (r : Reader ε) (s : State) (c : Char) : Except (Failure ε) State :=
  (r.settled s (some c)).bind fun t => (lifted (step (r.skipping t) t c)).bind r.check

def Reader.finish (r : Reader ε) (s : State) : Except (Failure ε) Json :=
  (r.settled s none).bind fun t =>
    match t.mode with
    | .done document => .ok document
    | _ => .error (.fault .truncated)

def Reader.readFrom (r : Reader ε) (s : State) : List Char → Except (Failure ε) Json
  | [] => r.finish s
  | c :: rest => (r.advance s c).bind (r.readFrom · rest)

def Reader.read (r : Reader ε) (text : List Char) : Except (Failure ε) Json :=
  r.readFrom start text

end HashedTree.JsonReading
