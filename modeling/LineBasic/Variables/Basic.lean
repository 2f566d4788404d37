import LineBasic.Table
import LineBasic.Value.Arithmetic
import LineBasic.Value.Host

/-!
# Variables

The store of a program: numeric and text variables, and arrays of both kinds. The name says which
of the two kinds is meant, so `A`, `A$`, `A()` and `A$()` are four unrelated things. A variable
that was never set reads as zero or as the empty text; an array has to be dimensioned first, and
then its elements from zero to its size read so. An element of a text array keeps no more
characters than the array was dimensioned for.

The size of an array, the greatest length of its elements and the elements themselves are one entry
of one table. If each of the three had a table of its own, an operation would have to keep the
tables in step; here an array that has one of the three has all of them, and its size is one less
than the number of its elements. So what says no more than that the three belong together holds by
type, and only what the operations put into an entry is to be proved.
-/

namespace LineBasic

/-- An array of texts and the greatest length of its elements. -/
structure TextArray where
  width : Nat
  elements : Array String
deriving Inhabited

/-- The variables of a program. -/
structure Variables where
  numbers : Table Name Float
  texts : Table Name String
  numberArrays : Table Name (Array Float)
  textArrays : Table Name TextArray
deriving Inhabited

namespace Variables

/-- The greatest index that an array can have. -/
def maxSize : Nat := 65535

/-- The greatest length of the elements of a text array. -/
def maxWidth : Nat := 80

/-- The length of the elements of a text array that is dimensioned without one. -/
def defaultWidth : Nat := 16

/-- The store in which nothing is set. -/
def empty : Variables := ⟨.empty, .empty, .empty, .empty⟩

/-- The value of a variable. -/
def get (vars : Variables) (name : Name) : Value :=
  match Kind.ofName name with
  | .numeric => .number ((vars.numbers.get? name).getD 0)
  | .textual => .text ((vars.texts.get? name).getD "")

/-- Set a variable to a value, which must be of its kind. -/
def set (vars : Variables) (name : Name) (v : Value) : Except Fault Variables :=
  match Kind.ofName name, v with
  | .numeric, .number x => .ok { vars with numbers := vars.numbers.set name x }
  | .textual, .text s => .ok { vars with texts := vars.texts.set name s }
  | _, _ => .error Value.mismatch

/-- The greatest index of an array, if it is dimensioned. -/
def size? (vars : Variables) (name : Name) : Option Nat :=
  match Kind.ofName name with
  | .numeric => (vars.numberArrays.get? name).map fun a => a.size - 1
  | .textual => (vars.textArrays.get? name).map fun a => a.elements.size - 1

/-- Dimension an array for indices from zero to `size`. The length is for texts only; it is not
looked at for numbers. -/
def dim (vars : Variables) (name : Name) (size : Int) (length : Option Int) :
    Except Fault Variables :=
  if (vars.size? name).isSome then .error (.of .duplicateDefinition)
  else
    match checkRange .illegalCall 0 maxSize [some size] with
    | .error e => .error e
    | .ok () =>
        let count := size.toNat + 1
        match Kind.ofName name with
        | .numeric =>
            .ok { vars with
              numberArrays := vars.numberArrays.set name (Array.replicate count 0) }
        | .textual =>
            let width := length.getD defaultWidth
            match checkRange .illegalCall 1 maxWidth [some width] with
            | .error e => .error e
            | .ok () =>
                .ok { vars with
                  textArrays :=
                    vars.textArrays.set name ⟨width.toNat, Array.replicate count ""⟩ }

/-- Check that an array is dimensioned and has an element of the given index; that index. -/
def checkIndex (vars : Variables) (name : Name) (index : Int) : Except Fault Nat :=
  match vars.size? name with
  | none => .error (.ofDetail .undeclaredArray (.missingArray name))
  | some size =>
      match checkRange .subscriptRange 0 size [some index] with
      | .error e => .error e
      | .ok () => .ok index.toNat

/-- The value of an array element. -/
def element (vars : Variables) (name : Name) (index : Int) : Except Fault Value :=
  match vars.checkIndex name index with
  | .error e => .error e
  | .ok i =>
      match Kind.ofName name with
      | .numeric => .ok (.number (((vars.numberArrays.get? name).bind (·[i]?)).getD 0))
      | .textual =>
          .ok (.text (((vars.textArrays.get? name).bind (·.elements[i]?)).getD ""))

/-- The first characters of a text that an element of the given width keeps. -/
def cut (width : Nat) (s : String) : String :=
  Value.truncate width s

/-- Set an array element to a value, which must be of the kind of the array. -/
def setElement (vars : Variables) (name : Name) (index : Int) (v : Value) :
    Except Fault Variables :=
  match vars.checkIndex name index with
  | .error e => .error e
  | .ok i =>
      match Kind.ofName name, v with
      | .numeric, .number x =>
          match vars.numberArrays.get? name with
          | none => .ok vars
          | some a =>
              .ok { vars with numberArrays := vars.numberArrays.set name (a.setIfInBounds i x) }
      | .textual, .text s =>
          match vars.textArrays.get? name with
          | none => .ok vars
          | some a =>
              let elements := a.elements.setIfInBounds i (cut a.width s)
              .ok { vars with textArrays := vars.textArrays.set name ⟨a.width, elements⟩ }
      | _, _ => .error Value.mismatch

/-- Set an array element to a datum of a host, which must be a value of the kind of the array. -/
def setElementTo (vars : Variables) (name : Name) (index : Int) (d : HostDatum) :
    Except Failure Variables :=
  match vars.checkIndex name index with
  | .error e => .error (.fault e)
  | .ok _ =>
      match d.asValue with
      | .error e => .error e
      | .ok v => (vars.setElement name index v).mapError .fault

/-- The values of all elements of an array. -/
def toList (vars : Variables) (name : Name) : Except Fault (List Value) :=
  match Kind.ofName name with
  | .numeric =>
      match vars.numberArrays.get? name with
      | some a => .ok (a.toList.map .number)
      | none => .error (.of .undeclaredArray)
  | .textual =>
      match vars.textArrays.get? name with
      | some a => .ok (a.elements.toList.map .text)
      | none => .error (.of .undeclaredArray)

/-- Set the elements of an array from the given index on, one after the other. An item that cannot
be stored stops this; the elements in front of it stay set. -/
def fillFrom (vars : Variables) (name : Name) (index : Nat) :
    List HostDatum → Except Failure Unit × Variables
  | [] => (.ok (), vars)
  | item :: rest =>
      match item.toValue with
      | .error e => (.error e, vars)
      | .ok v =>
          match vars.setElement name index v with
          | .error e => (.error (.fault e), vars)
          | .ok vars => fillFrom vars name (index + 1) rest

/-- Set the first elements of an array from a row of data. An array that is not dimensioned is
dimensioned for the row first. -/
def fill (vars : Variables) (name : Name) (row : HostDatum) : Except Failure Unit × Variables :=
  match row.elements with
  | .error e => (.error e, vars)
  | .ok items =>
      if (vars.size? name).isSome then fillFrom vars name 0 items
      else
        match vars.dim name (items.length - 1 : Nat) none with
        | .error e => (.error (.fault e), vars)
        | .ok vars => fillFrom vars name 0 items

end Variables

end LineBasic
