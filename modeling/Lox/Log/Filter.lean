import Lox.Log.Basic
import Lox.Pattern.Parse

/-!
# Log filters

A filter sets a level for the targets that begin with a given text, and one for all others. Of the
rules that fit a target, the one with the longest text decides.

Filters are written as a list of rules with commas between them: `debug` sets the level of all other
targets, `target=debug` that of the targets that begin with `target`, and `target` alone lets
everything of these through. After a slash may stand a pattern that must occur in every message.
`LogFilter.parse` reads such a text; what cannot be read is left out with a warning.
-/

set_option autoImplicit false

namespace Lox

/-- The level of the targets that begin with `target`, or of all others. -/
structure LogRule where
  target : Option (List Char)
  level : LogLevel
  deriving DecidableEq, Repr

namespace LogRule

/-- Whether a rule speaks of a target. -/
def fits (rule : LogRule) (target : List Char) : Bool :=
  match rule.target with
  | none => true
  | some start => start.isPrefixOf target

/-- How closely a rule fits the targets that it fits: the bytes that it names. -/
def weight (rule : LogRule) : Nat :=
  match rule.target with
  | none => 0
  | some start => utf8Length start

end LogRule

/-- Rules, the latest first, and a pattern that must occur in messages. -/
structure LogFilter where
  rules : List LogRule
  required : Option Pattern
  deriving DecidableEq, Repr

namespace LogFilter

/-- The filter that has one level for all targets. -/
def ofLevel (level : LogLevel) : LogFilter := ⟨[⟨none, level⟩], none⟩

/-- A rule takes the place of an older one for the same targets, else it is the latest. -/
def insert (filter : LogFilter) (rule : LogRule) : LogFilter :=
  if filter.rules.any fun r => r.target == rule.target then
    { filter with rules := filter.rules.map fun r => if r.target == rule.target then rule else r }
  else
    { filter with rules := rule :: filter.rules }

/-- Of two rules, the one with more weight; of equal ones the first. -/
def heavier (best : Option LogRule) (rule : LogRule) : Option LogRule :=
  match best with
  | none => some rule
  | some r => if r.weight < rule.weight then some rule else some r

/-- The rule that decides on a target. -/
def ruleFor? (filter : LogFilter) (target : String) : Option LogRule :=
  (filter.rules.filter fun rule => rule.fits target.toList).foldl heavier none

/-- Whether a record is let through. -/
def admits (filter : LogFilter) (record : LogRecord) : Bool :=
  match filter.ruleFor? record.target with
  | some rule =>
    record.level.isWithin rule.level
      && filter.required.all fun p => p.occursIn record.message.toList
  | none => false

/-- A filter with one level for all targets goes by the level of a record alone. -/
theorem admits_ofLevel (level : LogLevel) (record : LogRecord) :
    (ofLevel level).admits record = record.level.isWithin level := by
  simp [admits, ruleFor?, ofLevel, LogRule.fits, heavier]

/-! ## The written form -/

/-- A text without the white space at its ends. -/
def trim (text : List Char) : List Char :=
  ((text.dropWhile isBlank).reverse.dropWhile isBlank).reverse

/-- How a text that is no rule is reported. -/
def invalidSpec (text : List Char) : String :=
  "invalid logging spec '" ++ String.ofList text ++ "'"

/-- Reads a rule; the error says what cannot be read. -/
def parseRule (text : List Char) : Except String LogRule :=
  match text.splitOn '=' with
  | [name] =>
    match LogLevel.ofName? name with
    | some level => .ok ⟨none, level⟩
    | none => .ok ⟨some name, .trace⟩
  | [target, name] =>
    let name := trim name
    if name.isEmpty then .ok ⟨some target, .trace⟩
    else
      match LogLevel.ofName? name with
      | some level => .ok ⟨some target, level⟩
      | none => .error (invalidSpec name)
  | _ => .error (invalidSpec text)

/-- Adds the rules that can be read, and collects what is said of the others, the latest first. -/
def insertParsed (state : LogFilter × List String) (text : List Char) : LogFilter × List String :=
  match parseRule text with
  | .ok rule => (state.1.insert rule, state.2)
  | .error fault => (state.1, fault :: state.2)

/-- How a text that is no pattern is reported. -/
def invalidPattern (fault : String) : String :=
  "invalid regex filter - " ++ fault

/-- Adds what is written in a text to a filter; the second part is a warning for each rule that
could not be read, and for a pattern that could not. -/
def parse (filter : LogFilter) (text : String) : LogFilter × List String :=
  let addRules (rules : List Char) : LogFilter × List String :=
    let texts := ((rules.splitOn ',').map trim).filter fun t => !t.isEmpty
    let (filter, faults) := texts.foldl insertParsed (filter, [])
    (filter, faults.reverse)
  match text.toList.splitOn '/' with
  | [rules] => addRules rules
  | [rules, required] =>
    let (filter, faults) := addRules rules
    match Pattern.parse required with
    | .ok p => ({ filter with required := some p }, faults)
    | .error fault => (filter, faults ++ [invalidPattern fault])
  | _ => (filter, [invalidSpec text.toList ++ " (too many '/'s)"])

/-- The line of a warning. -/
def warningLine (fault : String) : String :=
  "warning: " ++ fault ++ ", ignoring it\n"

end LogFilter

end Lox
