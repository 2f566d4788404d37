import LineBasic.Fault
import LineBasic.Program.Lines

/-!
# The tape of constants

The constants of all `DATA` statements form one tape, in the order of the lines. A reading position
moves along it. The tape remembers which line each stretch of it came from, so that the position
can be set back to the first constant at or behind a line.
-/

namespace LineBasic

/-- Constants in a row with a reading position. -/
structure DataTape (α : Type) where
  /-- The stretches of the tape and the lines they came from. -/
  segments : List (Int × List α)
  position : Nat
deriving Inhabited

/-- Search the numbers from `low` to `high`, in ascending order, for the first one that is not less
than `key`, by halving the range. -/
def lowerBound (xs : List Int) (key : Int) (low high : Nat) : Nat :=
  if low < high then
    let middle := (low + high) / 2
    if xs.getD middle 0 < key then lowerBound xs key (middle + 1) high
    else lowerBound xs key low middle
  else low
termination_by high - low

namespace DataTape

variable {α : Type}

/-- The tape without constants. -/
def empty : DataTape α := ⟨[], 0⟩

/-- All constants. -/
def items (t : DataTape α) : List α :=
  t.segments.flatMap Prod.snd

/-- The count of constants. -/
def size (t : DataTape α) : Nat :=
  t.items.length

/-- Add constants behind the last segment, or to it if they come from the same line. -/
def extend (line : Int) (xs : List α) : List (Int × List α) → List (Int × List α)
  | [] => [(line, xs)]
  | [(l, ys)] => if l = line then [(l, ys ++ xs)] else [(l, ys), (line, xs)]
  | s :: rest => s :: extend line xs rest

/-- Add the constants of a statement in the given line. -/
def append (t : DataTape α) (line : Int) (xs : List α) : DataTape α :=
  { t with segments := extend line xs t.segments }

/-- The constant at the reading position, and the tape moved on by one. -/
def next? (t : DataTape α) : Option (α × DataTape α) :=
  t.items[t.position]?.map fun x => (x, { t with position := t.position + 1 })

/-- The tape moved back to its start. -/
def rewound (t : DataTape α) : DataTape α :=
  { t with position := 0 }

/-- The tape moved to its start, or to the first constant at or behind a line. -/
def restore (t : DataTape α) (line : Option Int) : Except Fault (DataTape α) :=
  match line with
  | none => .ok t.rewound
  | some n =>
      let index := lowerBound (t.segments.map Prod.fst) n 0 t.segments.length
      if index < t.segments.length then
        .ok { t with position := ((t.segments.take index).flatMap Prod.snd).length }
      else .error (.ofDetail .outOfData (.noDataFrom n))

/-- The tape as a dump shows it, given how its constants are shown. -/
def dump (show1 : α → String) (t : DataTape α) : String :=
  let shown := ", ".intercalate (t.items.map show1)
  s!"<DataPool {t.position}/{t.size} [{shown}]>"

end DataTape

/-- The constants of a statement that is one of `DATA`. -/
def Statement.constants : Statement → Option (List Value)
  | .data items => some items
  | _ => none

/-- The tape of a program. -/
def Program.tape (p : Program) : DataTape Value :=
  p.lines.foldl
    (fun t l => (l.statements.filterMap Statement.constants).foldl
      (fun t xs => t.append l.number xs) t)
    .empty

end LineBasic
