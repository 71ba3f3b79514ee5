import NotificationQueue.Text.Blank
import NotificationQueue.Text.Decimal

/-!
Log filters: which messages are kept, by the module they come from. A filter is a list of
directives between commas, each a level, a target, or both; spans and fields may be named in
brackets. Of the directives whose target begins a module's name the longest decides.
-/
namespace NotificationQueue

/-- How many of the five levels are kept: errors first, traces last. -/
abbrev LogLevel := Nat

namespace LogLevel

def errors : LogLevel := 1

def everything : LogLevel := 5

def names : List String := ["off", "error", "warn", "info", "debug", "trace"]

def parse? (cs : List Char) : Option LogLevel :=
  let s := String.ofList cs
  match Text.unsigned? everything s with
  | some n => some n
  | none => names.findIdx? (· = Text.asciiLower s)

end LogLevel

/-- One directive: the level of a target, which may be limited to spans and to messages with certain
fields. -/
structure LogDirective where
  level : LogLevel := LogLevel.everything
  target : Option (List Char) := none
  span : Option (List Char) := none
  fields : List (List Char) := []
  deriving DecidableEq

namespace LogDirective

/-- Where in a directive the reader is; numbers are the places where a part began. -/
inductive Place where
  | start
  | levelOrTarget (from_ : Nat)
  | span (from_ : Nat)
  | field (from_ : Nat)
  | fields
  | target
  | level (from_ : Nat)
  deriving DecidableEq

def mayStart (c : Char) : Bool :=
  c.isAlphanum || c = '-' || c = ':' || c = '_' || 0x80 ≤ c.toNat

/-- One character more: `i` is its place, and `part` gives what stands between a place and it. -/
def step (part : Nat → List Char) (i : Nat) (c : Char) :
    LogDirective × Place → Option (LogDirective × Place)
  | (d, .start) =>
    if c = '[' then some (d, .span (i + 1))
    else if mayStart c then some (d, .levelOrTarget i)
    else none
  | (d, .levelOrTarget j) =>
    if c = '=' then some ({ d with target := some (part j) }, .level (i + 1))
    else if c = '[' then some ({ d with target := some (part j) }, .span (i + 1))
    else some (d, .levelOrTarget j)
  | (d, .span j) =>
    if c = ']' then some ({ d with span := some (part j) }, .target)
    else if c = '\x7b' then
      some ({ d with span := if part j = [] then none else some (part j) }, .field (i + 1))
    else some (d, .span j)
  | (d, .field j) =>
    if c = '\x7d' then
      if part j = [] then none else some ({ d with fields := d.fields ++ [part j] }, .fields)
    else some (d, .field j)
  | (d, .fields) => if c = ']' then some (d, .target) else none
  | (d, .target) => if c = '=' then some (d, .level (i + 1)) else none
  | (d, .level j) => some (d, .level j)

/-- What the end of the text makes of the last part. A word alone is a level if it names one, and a
target with every level otherwise. -/
def finish (rest : Nat → List Char) : LogDirective × Place → Option LogDirective
  | (d, .levelOrTarget j) =>
    match LogLevel.parse? (rest j) with
    | some level => some { d with level }
    | none => some { d with target := some (rest j) }
  | (d, .level j) =>
    if rest j = [] then some { d with level := LogLevel.everything }
    else (LogLevel.parse? (rest j)).map fun level => { d with level }
  | (d, .target) => some d
  | _ => none

/-- Reads a directive. Blanks at its ends are passed over, but places count from the start. -/
def parse? (cs : List Char) : Option LogDirective :=
  let part (i j : Nat) : List Char := (cs.take i).drop j
  let stepped := (Text.trimmed cs).zipIdx.foldlM
    (fun state (c, i) => step (part i) i c state) ((({} : LogDirective), Place.start))
  stepped.bind (finish (cs.drop ·))

/-- The directive decides without looking at spans or fields. -/
def isPlain (d : LogDirective) : Bool :=
  d.span = none && d.fields = []

def appliesTo (d : LogDirective) (module : List Char) : Bool :=
  match d.target with
  | none => true
  | some t => t.isPrefixOf module

def reach (d : LogDirective) : Nat :=
  match d.target with
  | none => 0
  | some t => (String.ofList t).utf8ByteSize + 1

end LogDirective

/-- A filter: its directives in the order in which they were given. -/
structure LogFilter where
  directives : List LogDirective
  deriving DecidableEq

namespace LogFilter

/-- Reads a filter; one without directives keeps errors. -/
def parse? (s : String) : Option LogFilter := do
  let ds ← ((Text.splitAll ',' s.toList).filter (· ≠ [])).mapM LogDirective.parse?
  return ⟨if ds = [] then [{ level := LogLevel.errors }] else ds⟩

/-- The level kept of plain messages from a module: that of the narrowest directive, and of equally
narrow ones the last. -/
def levelOf (f : LogFilter) (module : String) : LogLevel :=
  let candidates := f.directives.filter fun d => d.isPlain && d.appliesTo module.toList
  let narrowest := candidates.foldl
    (fun best d => match best with
      | some b => if b.reach ≤ d.reach then some d else some b
      | none => some d) (none : Option LogDirective)
  (narrowest.map LogDirective.level).getD 0

end LogFilter

end NotificationQueue
