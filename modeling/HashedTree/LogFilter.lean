import HashedTree.CharacterClasses
import HashedTree.DecimalReading

/-! # Which events are logged

A filter is a list of directives such as `info` or `cache=debug`. Of the directives whose
target an event's target begins with, the longest decides. A directive in brackets concerns the span
of that name: while it is open, it lets events of every target through.
-/
namespace HashedTree

/-- How important an event is. -/
inductive LogLevel where
  | error
  | warn
  | info
  | debug
  | trace
  deriving DecidableEq, Repr

def LogLevel.rank : LogLevel → Nat
  | .error => 1
  | .warn => 2
  | .info => 3
  | .debug => 4
  | .trace => 5

def LogLevel.word : LogLevel → String
  | .error => "ERROR"
  | .warn => "WARN"
  | .info => "INFO"
  | .debug => "DEBUG"
  | .trace => "TRACE"

/-- The least important level that passes; without one, nothing does. -/
abbrev LogThreshold := Option LogLevel

namespace LogThreshold

def rank (threshold : LogThreshold) : Nat := (threshold.map LogLevel.rank).getD 0

def admits (threshold : LogThreshold) (level : LogLevel) : Bool := level.rank ≤ threshold.rank

def names : List (String × LogThreshold) :=
  [("off", none), ("error", some .error), ("warn", some .warn), ("info", some .info),
    ("debug", some .debug), ("trace", some .trace)]

def ofNumber? (n : Nat) : Option LogThreshold := (names[n]?).map Prod.snd

private def number? (text : List Char) : Option Nat :=
  let digits := if text.head? = some '+' then text.drop 1 else text
  if digits.isEmpty ∨ !digits.all AsciiCharacters.isDigit then none
  else some (DecimalReading.natOf digits)

def ofText? (text : List Char) : Option LogThreshold :=
  if text.isEmpty then some (some .error)
  else
    match number? text with
    | some n => ofNumber? n
    | none =>
      (names.find? fun (name, _) => name = String.ofList (text.map AsciiCharacters.lower)).map Prod.snd

end LogThreshold

/-- A field that a span or an event must have, and perhaps its value. -/
structure FieldDemand where
  name : String
  value : Option String
  deriving DecidableEq, Repr

structure LogDirective where
  target : Option String
  span : Option String
  fields : List FieldDemand
  threshold : LogThreshold
  deriving DecidableEq, Repr

/-- Why a text is no directive. -/
inductive DirectiveFault where
  | malformed
  | unknownLevel
  deriving DecidableEq, Repr

def DirectiveFault.text : DirectiveFault → String
  | .malformed => "invalid filter directive"
  | .unknownLevel =>
    "error parsing level filter: expected one of \"off\", \"error\", \"warn\", \"info\", " ++
      "\"debug\", \"trace\", or a number 0-5"

namespace LogDirective

/-! ### Reading a directive -/

/-- The part of a directive that is being read, with its characters so far, backwards. -/
inductive Mode where
  | start
  | levelOrTarget (done : List Char)
  | span (done : List Char)
  | field (done : List Char)
  | behindFields
  | behindSpan
  | level (done : List Char)
  | complete

def all : LogDirective := ⟨none, none, [], some .trace⟩

def textOf (done : List Char) : String := String.ofList done.reverse

private def demandOf (text : List Char) : FieldDemand :=
  let name := text.takeWhile (· ≠ '=')
  let behind := text.dropWhile (· ≠ '=')
  ⟨String.ofList name,
    if behind.isEmpty then none else some (String.ofList ((behind.drop 1).takeWhile (· ≠ '=')))⟩

private def withField (d : LogDirective) (done : List Char) : Except DirectiveFault LogDirective :=
  if done.isEmpty then .error .malformed
  else .ok { d with fields := d.fields ++ [demandOf done.reverse] }

private def withLevelOrTarget (d : LogDirective) (text : List Char) : LogDirective :=
  match text, LogThreshold.ofText? text with
  | [], _ => { d with threshold := some .trace }
  | _, some threshold => { d with threshold }
  | _, none => { d with target := some (String.ofList text), threshold := some .trace }

/-- A level behind an equals sign; without a text it is the lowest one. -/
def withLevel (d : LogDirective) (text : List Char) : Except DirectiveFault LogDirective :=
  match text, LogThreshold.ofText? text with
  | [], _ => .ok { d with threshold := some .trace }
  | _, some threshold => .ok { d with threshold }
  | _, none => .error .unknownLevel

def mayStart (c : Char) : Bool :=
  c = '-' || c = ':' || c = '_' || CharacterClasses.isLetterOrDigit c

/-- Reads on. `seen` decides about the parts of the directive, and `kept` is what they are made of;
they differ where blanks stand in front. -/
def step (mode : Mode) (d : LogDirective) (seen kept : Char) :
    Except DirectiveFault (Mode × LogDirective) :=
  match mode with
  | .start =>
    if seen = '[' then .ok (.span [], d)
    else if mayStart seen then .ok (.levelOrTarget [kept], d)
    else .error .malformed
  | .levelOrTarget done =>
    if seen = '=' then .ok (.level [], { d with target := some (textOf done) })
    else if seen = '[' then .ok (.span [], { d with target := some (textOf done) })
    else if seen = ',' then .ok (.complete, d.withLevelOrTarget done.reverse)
    else .ok (.levelOrTarget (kept :: done), d)
  | .span done =>
    if seen = ']' then .ok (.behindSpan, { d with span := some (textOf done) })
    else if seen = '\x7b' then
      .ok (.field [], { d with span := if done.isEmpty then none else some (textOf done) })
    else .ok (.span (kept :: done), d)
  | .field done =>
    if seen = '\x7d' then (d.withField done).map (.behindFields, ·)
    else if seen = ',' then (d.withField done).map (.field [], ·)
    else .ok (.field (kept :: done), d)
  | .behindFields => if seen = ']' then .ok (.behindSpan, d) else .error .malformed
  | .behindSpan => if seen = '=' then .ok (.level [], d) else .error .malformed
  | .level done =>
    if seen = ',' then (d.withLevel done.reverse).map (.complete, ·)
    else .ok (.level (kept :: done), d)
  | .complete => .error .malformed

def run (mode : Mode) (d : LogDirective) :
    List (Char × Char) → Except DirectiveFault (Mode × LogDirective)
  | [] => .ok (mode, d)
  | (seen, kept) :: rest =>
    match step mode d seen kept with
    | .ok (mode, d) => run mode d rest
    | .error fault => .error fault

/-- The directive that a text spells. Blanks around it are passed over where its parts are told
apart, but the parts keep their places in the text as it is written. -/
def parse (text : List Char) : Except DirectiveFault LogDirective :=
  let trimmed := CharacterClasses.trim text
  let remaining := text.drop trimmed.length
  (run .start all (trimmed.zip text)).bind fun (mode, d) =>
    match mode with
    | .levelOrTarget done => .ok (d.withLevelOrTarget (done.reverse ++ remaining))
    | .level done => d.withLevel (done.reverse ++ remaining)
    | .behindSpan | .complete => .ok d
    | .start | .span _ | .field _ | .behindFields => .error .malformed

/-! ### What a directive is about -/

def aboutSpans (d : LogDirective) : Bool := d.span.isSome || !d.fields.isEmpty

def aboutEvents (d : LogDirective) : Bool := d.span.isNone && d.fields.all fun f => f.value.isNone

/-- The length of the target; no target is the shortest. -/
def targetLength (d : LogDirective) : Nat := (d.target.map fun t => t.utf8ByteSize + 1).getD 0

def sameSubject (d e : LogDirective) : Bool := d.target = e.target && d.fields = e.fields

/-- Whether a directive stands before another one: it is more specific, or as specific and later in
the order of texts. -/
def outranks (d e : LogDirective) : Bool :=
  if d.targetLength ≠ e.targetLength then e.targetLength < d.targetLength
  else if d.fields.length ≠ e.fields.length then e.fields.length < d.fields.length
  else if d.target ≠ e.target then decide (e.target.getD "" < d.target.getD "")
  else decide (e.fields.map FieldDemand.name < d.fields.map FieldDemand.name)

/-- Puts a directive among others, the most specific first. One with the same subject is
replaced. -/
def insertInto (d : LogDirective) : List LogDirective → List LogDirective
  | [] => [d]
  | e :: rest =>
    if d.sameSubject e then d :: rest
    else if d.outranks e then d :: e :: rest
    else e :: d.insertInto rest

def matchesTarget (d : LogDirective) (target : String) : Bool :=
  match d.target with
  | some start => start.toList.isPrefixOf target.toList
  | none => true

end LogDirective

/-- A span: it has a name, a target, a level and fields with their values. -/
structure LogSpan where
  name : String
  target : String
  level : LogLevel
  fields : List (String × String)
  deriving DecidableEq, Repr

/-- Directives about events, the most specific first, and directives about spans. -/
structure LogFilter where
  ofEvents : List LogDirective
  ofSpans : List LogDirective
  deriving DecidableEq, Repr

namespace LogFilter

def ofDirectives (directives : List LogDirective) : LogFilter :=
  let spans := directives.filter (·.aboutSpans)
  let events := directives.filter fun d => !d.aboutSpans
  ⟨(events ++ spans.filter (·.aboutEvents)).foldl (fun ds d => d.insertInto ds) [], spans⟩

def add (filter : LogFilter) (d : LogDirective) : LogFilter :=
  if d.aboutEvents then { filter with ofEvents := d.insertInto filter.ofEvents }
  else { filter with ofSpans := filter.ofSpans ++ [d] }

def parts (text : String) : List (List Char) :=
  (text.toList.splitOn ',').filter fun part => !part.isEmpty

def parse (text : String) : Except DirectiveFault LogFilter :=
  ((parts text).mapM LogDirective.parse).map ofDirectives

/-- The filter that a text spells, without the parts that are no directives, and these parts with
their faults. Where nothing is left, errors pass. -/
def parseLeniently (text : String) : LogFilter × List (String × DirectiveFault) :=
  let read := (parts text).map fun part => (part, LogDirective.parse part)
  let directives := read.filterMap fun (_, result) => result.toOption
  let refused := read.filterMap fun (part, result) =>
    match result with
    | .ok _ => none
    | .error fault => some (String.ofList part, fault)
  (ofDirectives (if directives.isEmpty then [{ LogDirective.all with threshold := some .error }]
    else directives), refused)

def closed : LogFilter := ofDirectives [{ LogDirective.all with threshold := none }]

def passes (filter : LogFilter) (level : LogLevel) (target : String) (fields : List String) : Bool :=
  match filter.ofEvents.find? fun d =>
      d.matchesTarget target && d.fields.all fun f => fields.contains f.name with
  | some d => d.threshold.admits level
  | none => false

def aboutSpan (filter : LogFilter) (span : LogSpan) : List LogDirective :=
  filter.ofSpans.filter fun d =>
    d.matchesTarget span.target && (d.span.all fun name => name = span.name) &&
      d.fields.all fun f => span.fields.any (·.1 = f.name)

def highestRank (filter : LogFilter) : Nat :=
  ((filter.ofEvents ++ filter.ofSpans).map fun d => d.threshold.rank).foldl max 0

def opens (filter : LogFilter) (span : LogSpan) : Bool :=
  (!(filter.aboutSpan span).isEmpty && decide (span.level.rank ≤ filter.highestRank)) ||
    match filter.ofEvents.find? (·.matchesTarget span.target) with
    | some d => d.threshold.admits span.level
    | none => false

def rankInside (filter : LogFilter) (span : LogSpan) : Nat :=
  let fulfilled := (filter.aboutSpan span).filter fun d =>
    d.fields.all fun f => f.value.all fun v => span.fields.any (· = (f.name, v))
  (fulfilled.map fun d => d.threshold.rank).foldl max 0

def logs (filter : LogFilter) (span : Option LogSpan) (level : LogLevel) (target : String)
    (fields : List String) : Bool :=
  (span.any fun s => filter.opens s && decide (level.rank ≤ filter.rankInside s)) ||
    filter.passes level target fields

end LogFilter
end HashedTree
