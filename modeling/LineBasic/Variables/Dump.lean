import LineBasic.Variables.Basic

/-!
# Dump of the variables

All variables and arrays that are set, one in a line: numbers, texts, arrays of numbers, arrays of
texts, each in the order of their names.
-/

namespace LineBasic

namespace Variables

/-- The display of several values. -/
def shownAll : List Value → Except HostError (List String)
  | [] => .ok []
  | v :: rest =>
      match v.shown with
      | .error e => .error e
      | .ok s => (shownAll rest).map (s :: ·)

/-- A variable in a dump. -/
def dumpScalar (name : String) (v : Value) : Except HostError String :=
  v.shown.map fun s => name ++ ": " ++ s

/-- An array in a dump. -/
def dumpArray (name : String) (elements : List Value) : Except HostError String :=
  (shownAll elements).map fun ss =>
    let shown := ", ".intercalate (ss.map Text.quoted)
    let size := elements.length - 1
    s!"{name}({size}): [{shown}]"

/-- The lines of a dump. -/
def dumpLines (vars : Variables) : List (Except HostError String) :=
  (vars.numbers.sorted.map fun (n, x) => dumpScalar n (.number x)) ++
    (vars.texts.sorted.map fun (n, s) => dumpScalar n (.text s)) ++
    (vars.numberArrays.sorted.map fun (n, a) => dumpArray n (a.toList.map .number)) ++
    (vars.textArrays.sorted.map fun (n, a) => dumpArray n (a.elements.toList.map .text))

/-- The variables as a dump shows them. -/
def dump (vars : Variables) : Except HostError String :=
  (vars.dumpLines.mapM id).map ("\n".intercalate ·)

end Variables

end LineBasic
