import FieldRules.FieldError
import FieldRules.Output.Style
import FieldRules.Text.Blank
import FieldRules.Text.Lines

/-!
# Validation reports

What is told of the validation of one record, as data and as text for people.
-/

namespace FieldRules

open Data (Value)

structure Report where
  record : String
  valid : Bool
  /-- The number of specifications that the record was checked against. -/
  checked : Nat
  /-- Whether a submission may proceed, when one was asked for. -/
  submitted : Option Bool
  errors : List FieldError
  deriving DecidableEq

namespace Report

def toValue (r : Report) : Value :=
  .map ([("record", .string r.record), ("valid", .bool r.valid), ("checked", .number (.natural r.checked))] ++
    (r.submitted.toList.map fun b => ("submitted", .bool b)) ++
    [("errors", .list (r.errors.map FieldError.toValue))])

def errorText (index : Nat) (e : FieldError) : String :=
  Nat.repr (index + 1) ++ ". " ++ e.display ++ "\n   Rule: " ++ e.expression ++ "\n"

def headline (r : Report) : String :=
  if r.valid then "✅ " ++ r.record ++ " is valid (" ++ Nat.repr r.checked ++ " field(s) checked)\n"
  else "❌ Validation Failed - " ++ Nat.repr r.errors.length ++ " Error(s)\n\n"

def verdict : Option Bool → String
  | some true => "\n📨 Submission may proceed\n"
  | some false => "\n🚫 Submission blocked\n"
  | none => ""

/-- The report for people: a headline, the errors when there are any, and whether a submission may proceed. -/
def text (r : Report) : String :=
  let errors := if r.valid then [] else r.errors.zipIdx.map fun (e, i) => errorText i e
  String.ofList (Text.trimEnd Text.isBlank (r.headline ++ String.join errors ++ verdict r.submitted).toList)

/-- The report for people with its first line in colour. -/
def coloredText (r : Report) : String :=
  match Text.lines r.text with
  | [] => ""
  | first :: rest => "\n".intercalate (Style.paint true (if r.valid then .passed else .failure) first :: rest)

end Report

end FieldRules
