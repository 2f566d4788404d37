import LineBasic.Engine.Exec

/-!
# What statements do

The meaning of each statement as an action of the engine. A statement that changes the order of
execution does so by setting the position at which execution goes on.
-/

namespace LineBasic

open Exec

variable {σ : Type}

/-- A counter that has passed the limit of its loop. -/
def Loop.isOver (l : Loop) (counter : Float) : Bool :=
  if 0 ≤ Value.sign l.step then decide (l.limit < counter) else decide (counter < l.limit)

namespace Statement

/-- The display of expressions, one behind the other. -/
def render : List Expr → Exec σ String
  | [] => pure ""
  | e :: rest => do
      let v ← eval e
      let s ← ofHost v.shown
      let more ← render rest
      pure (s ++ more)

/-- Write expressions on a line of the display. -/
def doPrint (devices : Devices σ) (items : List Expr) : Exec σ Unit := do
  let s ← render items
  device (devices.write (s ++ "\n"))

/-- Show the prompt, read a line, and assign it: as it is to a text, and as the number that it
spells to a number. -/
def doInput (devices : Devices σ) (prompt : Option Expr) (target : Target) : Exec σ Unit := do
  match prompt with
  | none => pure ()
  | some e =>
      let v ← eval e
      let s ← ofHost v.shown
      device (devices.write s)
  let line ← showing .awaitingInput (device (devices.readLine .awaitingInput))
  match target.kind with
  | .textual => Exec.assign target (.text line)
  | .numeric => do
      let v ← ofFault (Value.ofTyped line)
      Exec.assign target v

/-- The seconds of a wait, which must not be negative. -/
def duration (e : Option Expr) : Exec σ (Option Float) :=
  match e with
  | none => pure none
  | some e => do
      let ticks ← evalNumber e
      ofFault (failIf .illegalCall (decide (ticks < 0)))
      let e ← getEngine
      pure (some (ticks * e.tick))

/-- Wait for a time. -/
def doWait (devices : Devices σ) (e : Option Expr) : Exec σ Unit := do
  let seconds ← duration e
  showing .awaitingTimer (device (devices.wait seconds))

/-- Go on at a line. -/
def jumpTo (line : Nat) : Exec σ Unit :=
  change fun e => { e with next := some ⟨line, 0⟩ }

/-- Check that a line exists. -/
def checkLine (line : Nat) : Exec σ Unit := do
  let e ← getEngine
  ofFault (e.program.checkLine line)

/-- Go to a line. -/
def doGoto (line : Nat) : Exec σ Unit := do
  checkLine line
  jumpTo line

/-- Go to a line and remember where to come back to. -/
def doGosub (line : Nat) : Exec σ Unit := do
  checkLine line
  change fun e => { e with returns := e.next :: e.returns }
  jumpTo line

/-- Come back from the innermost subroutine. -/
def doReturn : Exec σ Unit := do
  let e ← getEngine
  match e.returns with
  | [] => ofFault (.error (.of .returnWithoutGosub))
  | back :: rest => change fun e => { e with next := back, returns := rest }

/-- The loops outside of the loop with the given variable; all of them if there is none. -/
def loopsOutside (name : Name) (loops : List Loop) : List Loop :=
  match loops.dropWhile fun l => l.name != name with
  | [] => loops
  | _ :: outer => outer

/-- Open a loop. A loop with the same variable is closed first, with all loops inside of it. -/
def doFor (name : Name) (start limit : Expr) (step : Option Expr) : Exec σ Unit := do
  let first ← evalNumber start
  let last ← evalNumber limit
  let stride ← match step with
    | none => pure 1
    | some e => evalNumber e
  change fun e => { e with loops := loopsOutside name e.loops }
  setVariable name (.number first)
  change fun e => { e with loops := ⟨name, last, stride, e.next⟩ :: e.loops }

/-- The loop that a `NEXT` closes, and the loops outside of it. -/
def loopFor (name : Option Name) (loops : List Loop) : Option (Loop × List Loop) :=
  match loops.dropWhile fun l => name.any fun n => l.name != n with
  | [] => none
  | l :: outer => some (l, outer)

/-- Close the loops inside of the named one, count it on, and repeat its body or close it. -/
def doNext (name : Option Name) : Exec σ Unit := do
  let e ← getEngine
  match loopFor name e.loops with
  | none => ofFault (.error (.of .nextWithoutFor))
  | some (l, outer) =>
      change fun e => { e with loops := l :: outer }
      let counter ← ofFault ((e.store.get l.name).add (.number l.step))
      setVariable l.name counter
      let x ← ofFault counter.asNumber
      if l.isOver x then change fun e => { e with loops := outer }
      else change fun e => { e with next := l.resume }

/-- Read the next constant into a target. The constant is used up even if it does not fit. -/
def readOne (target : Target) : Exec σ Unit := do
  let e ← getEngine
  match e.tape.next? with
  | none => ofFault (.error (.of .outOfData))
  | some (v, tape) =>
      change fun e => { e with tape := tape }
      let v ← ofFault (checked v)
      let v ← ofFault (v.ofKind target.kind)
      Exec.assign target v
where
  /-- A constant that is not too large. -/
  checked : Value → Except Fault Value
    | .number x => Value.finite x
    | .text s => .ok (.text s)

/-- Read constants into targets, one after the other. -/
def doRead : List Target → Exec σ Unit
  | [] => pure ()
  | t :: rest => do
      readOne t
      doRead rest

/-- Move the reading position of the constants. -/
def doRestore (line : Option Nat) : Exec σ Unit := do
  match line with
  | none => pure ()
  | some n => checkLine n
  let e ← getEngine
  let tape ← ofFault (e.tape.restore (line.map Int.ofNat))
  change fun e => { e with tape := tape }

/-- Dimension an array. -/
def doDim (name : Name) (size : Nat) (length : Option Nat) : Exec σ Unit := do
  let e ← getEngine
  let vars ← ofFault (e.store.dim name size (length.map Int.ofNat))
  change fun e => { e with store := vars }

/-- The greatest address. -/
def maxAddress : Int := 0xFFFF

/-- The value of an expression as an address. -/
def address (e : Expr) : Exec σ Nat := do
  let i ← evalInteger e
  ofFault (checkRange .illegalCall 0 maxAddress [some i])
  pure i.toNat

/-- The values of expressions as integers. -/
def evalIntegers : List Expr → Exec σ (List Int)
  | [] => pure []
  | e :: rest => do
      let i ← evalInteger e
      let more ← evalIntegers rest
      pure (i :: more)

/-- Put bytes at an address. -/
def doPoke (devices : Devices σ) (target : Expr) (bytes : List Expr) : Exec σ Unit := do
  let a ← address target
  let data ← evalIntegers bytes
  ofFault (checkRange .illegalCall 0 0xFF (data.map some))
  device (devices.poke a (data.map Int.toNat))

/-- Run the machine code at an address. -/
def doCall (devices : Devices σ) (target : Expr) : Exec σ Unit := do
  let a ← address target
  device (devices.call a)

/-- What a statement does. -/
def exec (devices : Devices σ) : Statement → Exec σ Unit
  | assign target value => do
      let v ← eval value
      Exec.assign target v
  | print items => doPrint devices items
  | pause items => do
      doPrint devices items
      device devices.hold
  | input prompt target => doInput devices prompt target
  | wait seconds => doWait devices seconds
  | ifThen condition yes => do
      let v ← eval condition
      let p ← ofFault v.holds
      if p then exec devices yes else pure ()
  | ifElse condition yes no => do
      let v ← eval condition
      let p ← ofFault v.holds
      if p then exec devices yes else exec devices no
  | forLoop name start limit step => doFor name start limit step
  | nextLoop name => doNext name
  | goto line => doGoto line
  | gosub line => doGosub line
  | returnSub => doReturn
  | endProgram => halt devices .explicitEnd
  | remark _ => pure ()
  | data _ => pure ()
  | readInto targets => doRead targets
  | restore line => doRestore line
  | poke target bytes => doPoke devices target bytes
  | call target => doCall devices target
  | dim name size length => doDim name size length

end Statement

end LineBasic
