import FieldRules.Catalog
import FieldRules.Explanation
import FieldRules.Output.Format
import FieldRules.Report

/-!
# The console

What is written for the messages and results of a command, given the format, whether there are colours, and
whether only the important is wanted. Messages and tables are for people alone and are left out of every other
format.
-/

namespace FieldRules

open Data (Value)

structure Console where
  format : OutputFormat
  color : Bool
  quiet : Bool
  verbosity : Nat

namespace Console

def line (s : String) : String := s ++ "\n"

def forPeople (c : Console) : Bool := c.format = .human

def info (c : Console) (message : String) : String :=
  if c.quiet || !c.forPeople then ""
  else line ((if c.color then Style.paint true .info "ℹ" ++ " " else "INFO: ") ++ message)

def success (c : Console) (message : String) : String :=
  if c.quiet || !c.forPeople then "" else line (Style.paint c.color .success message)

/-- A warning, which is written also where only the important is wanted. -/
def warning (c : Console) (message : String) : String :=
  if !c.forPeople then ""
  else line (if c.color then Style.paint true .warning message else "WARNING: " ++ message)

/-- Data in the format, on lines of its own for people. -/
def data (c : Console) (v : Value) : String :=
  if c.forPeople then line (c.format.render v) else c.format.render v

def table (c : Console) (t : Table) : String :=
  if c.quiet || !c.forPeople then "" else String.join ((t.lines c.color).map line)

/-- The report of a validation; a good one is left out for people who want only the important. -/
def report (c : Console) (r : Report) : String :=
  if !c.forPeople then line (c.format.render r.toValue)
  else if c.quiet && r.valid then ""
  else line (if c.color then r.coloredText else r.text)

def explanations (c : Console) (es : List Explanation) : String :=
  line (if c.forPeople then Explanation.listText es else c.format.render (.list (es.map Explanation.toValue)))

def rules (c : Console) (ds : List RuleDefinition) : String :=
  if c.forPeople then c.table (.ofDefinitions ds) else c.data (.list (ds.map RuleDefinition.toValue))

end Console

end FieldRules
