import FieldRules.Json.Printer
import FieldRules.Yaml.Printer

/-!
# Output formats

The formats that results are written in. Data that has no form of its own for people is written as indented JSON
for them.
-/

namespace FieldRules

open Data (Value)

inductive OutputFormat where
  | human
  | json
  | yaml
  | jsonPretty
  deriving DecidableEq

namespace OutputFormat

/-- The format of a name. -/
def ofName? : String → Option OutputFormat
  | "human" => some human
  | "json" => some json
  | "yaml" => some yaml
  | "json-pretty" => some jsonPretty
  | _ => none

/-- The format that a configuration names; ASCII letter case does not count. -/
def ofConfig? (name : String) : Option OutputFormat := ofName? (String.ofList (name.toList.map Char.toLower))

def render (format : OutputFormat) (v : Value) : String :=
  match format with
  | json => Json.render v
  | yaml => Yaml.render v
  | human | jsonPretty => Json.renderPretty v

end OutputFormat

end FieldRules
