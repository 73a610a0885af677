import FieldRules.Text.CaseTable

/-!
# Lower case

Lower-casing by the Unicode rules: ASCII letters directly, other characters by table, and a capital sigma by its
place in the word.
-/

namespace FieldRules.Text

/-- The lower-case form of a character outside ASCII. -/
def lowerByTable (c : Char) : List Char :=
  let n := c.toNat
  if n = 0x130 then ['i', '\u0307']
  else
    match lowerRuns.find? fun run => run.first ≤ n && n ≤ run.last && (n - run.first) % run.step == 0 with
    | some run => [Char.ofNat (run.lower + (n - run.first))]
    | none => [c]

def lowerChar (c : Char) : List Char :=
  if c.toNat < 128 then [c.toLower] else lowerByTable c

/-- Whether a cased character comes next, past any characters without weight in case rules. -/
def nextIsCased (cs : List Char) : Bool :=
  match cs.dropWhile (inRanges caseIgnorableRanges) with
  | c :: _ => inRanges casedRanges c
  | [] => false

/-- A sigma closes a word when a cased character stands before it and none follows. -/
def lowerAfter (before : List Char) : List Char → List Char
  | [] => []
  | c :: rest =>
    let lowered :=
      if c = 'Σ' then [if nextIsCased before && !nextIsCased rest then 'ς' else 'σ'] else lowerChar c
    lowered ++ lowerAfter (c :: before) rest

def lower (s : String) : String := String.ofList (lowerAfter [] s.toList)

end FieldRules.Text
