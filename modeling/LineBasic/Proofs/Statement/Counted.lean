import LineBasic.Proofs.Expr.Counted
import LineBasic.Statement.Reader

/-!
# Lines read by a reader that counts

The readers of statements read their expressions one after the other with the same counters. Since
these are set back in front of every expression, they make no difference: whatever a reader has read
or misread before, it reads the statements of a line as `Statement.readLine` does. So the outcome
for a line is that of its lexemes alone, except for the place of an error.
-/

namespace LineBasic

open Reading

namespace Counting

variable {α : Type}

/-- Items set apart by a mark, at least one. The first count bounds their number. -/
def separated (item : List Lexeme → Counting (α × List Lexeme)) (separator : Mark)
    (wanted : Wanted) : Nat → List Lexeme → Counting (List α × List Lexeme)
  | 0, ts => ofExcept (misread (.wanted wanted) ts)
  | count + 1, ts => do
      let (a, rest) ← item ts
      match after? (.mark separator) rest with
      | none => return ([a], rest)
      | some rest => do
          let (as, rest) ← separated item separator wanted count rest
          return (a :: as, rest)

/-- The items of `PRINT` and `PAUSE`: none, or some set apart by semicolons. -/
def readItems (ts : List Lexeme) : Counting (List Expr × List Lexeme) :=
  if atStatementEnd ts then return ([], ts)
  else separated expression .semicolon .expression ts.length ts

/-- The target and the value of an assignment. -/
def readAssign (ts : List Lexeme) : Counting (Statement × List Lexeme) := do
  let (target, rest) ← target ts
  let rest ← ofExcept (require (.operator .equal) rest)
  let (value, rest) ← expression rest
  return (.assign target value, rest)

/-- What is behind `INPUT`: a prompt and a target, or a target alone. -/
def readInput (ts : List Lexeme) : Counting (Statement × List Lexeme) := do
  let (first, rest) ← expression ts
  match after? (.mark .semicolon) rest with
  | some rest => do
      let (target, rest) ← target rest
      return (.input (some first) target, rest)
  | none =>
      match first.target? with
      | some target => return (.input none target, rest)
      | none => ofExcept (misread (.wanted .variableName) rest)

/-- What is behind `WAIT`. -/
def readWait (ts : List Lexeme) : Counting (Statement × List Lexeme) :=
  if atStatementEnd ts then return (.wait none, ts)
  else do
    let (duration, rest) ← expression ts
    return (.wait (some duration), rest)

/-- The step behind the limit of a loop, if there is one. -/
def readStep (ts : List Lexeme) : Counting (Option Expr × List Lexeme) :=
  match after? (.keyword .STEP) ts with
  | none => return (none, ts)
  | some rest => do
      let (step, rest) ← expression rest
      return (some step, rest)

/-- What is behind `FOR`. A text variable is at fault at its own column. -/
def readFor (ts : List Lexeme) : Counting (Statement × List Lexeme) := do
  let (name, rest) ← ofExcept (requireName .variableName ts)
  if Kind.ofName name = .textual then ofExcept (misread .textLoopVariable ts)
  else do
    let rest ← ofExcept (require (.operator .equal) rest)
    let (start, rest) ← expression rest
    let rest ← ofExcept (require (.keyword .TO) rest)
    let (limit, rest) ← expression rest
    let (step, rest) ← readStep rest
    return (.forLoop name start limit step, rest)

/-- What is behind `POKE`. -/
def readPoke (ts : List Lexeme) : Counting (Statement × List Lexeme) := do
  let (address, rest) ← expression ts
  let rest ← ofExcept (require (.mark .comma) rest)
  let (bytes, rest) ← separated expression .comma .expression (rest.length + 1) rest
  return (.poke address bytes, rest)

/-- A statement that is not a condition, off the lexemes behind its keyword. The counters are for
statements with expressions or targets; the others do not know of them. -/
def readPlain (word : Keyword) (ts : List Lexeme) (start : List Lexeme) :
    Counting (Statement × List Lexeme) :=
  match word with
  | .LET => readAssign ts
  | .PRINT => do
      let (items, rest) ← readItems ts
      return (.print items, rest)
  | .PAUSE => do
      let (items, rest) ← readItems ts
      return (.pause items, rest)
  | .INPUT => readInput ts
  | .WAIT => readWait ts
  | .FOR => readFor ts
  | .READ => do
      let (targets, rest) ← separated target .comma .variableName (ts.length + 1) ts
      return (.readInto targets, rest)
  | .POKE => readPoke ts
  | .CALL => do
      let (address, rest) ← expression ts
      return (.call address, rest)
  | _ => ofExcept (Statement.readPlain word ts start)

/-- A reader of statements, provided that the statement ends there. -/
def ended (x : Counting (Statement × List Lexeme)) : Counting (Statement × List Lexeme) := do
  let (s, rest) ← x
  ofExcept (requireEnd rest)
  return (s, rest)

/-- The branches behind the condition of an `IF`, each read by `branch`. -/
def readBranches (branch : List Lexeme → Counting (Statement × List Lexeme)) (condition : Expr)
    (ts : List Lexeme) : Counting (Statement × List Lexeme) := do
  let rest ← ofExcept (require (.keyword .THEN) ts)
  let (yes, rest) ← branch rest
  match after? (.keyword .ELSE) rest with
  | none => return (.ifThen condition yes, rest)
  | some rest => do
      let (no, rest) ← branch rest
      return (.ifElse condition yes no, rest)

/-- A branch of a condition: a line number to go to, or a statement that is read by `statement`. -/
def readBranch (statement : List Lexeme → Counting (Statement × List Lexeme)) (ts : List Lexeme) :
    Counting (Statement × List Lexeme) :=
  match ts with
  | .number x :: rest => return (.goto (Number.floorMagnitude x), rest)
  | .keyword .DATA :: _ => ofExcept (misread .dataInBranch ts)
  | _ => statement ts

/-- A statement in which conditions are nested no deeper than `depth`. -/
def readWithin : Nat → List Lexeme → Counting (Statement × List Lexeme)
  | 0, ts => ofExcept (misread (.wanted .statement) ts)
  | depth + 1, ts =>
      match ts with
      | .keyword .IF :: rest => do
          let (condition, rest) ← expression rest
          ended (readBranches (readBranch (readWithin depth)) condition rest)
      | .keyword word :: rest => ended (readPlain word rest ts)
      | .name _ :: _ => ended (readAssign ts)
      | _ => ofExcept (misread (.wanted .statement) ts)

/-- Statements set apart by colons up to the end of the line, at least one. The first count bounds
their number. -/
def readSequence : Nat → List Lexeme → Counting (List Statement)
  | 0, ts => ofExcept (misread (.wanted .statement) ts)
  | count + 1, ts => do
      let (s, rest) ← readWithin (ts.length + 1) ts
      match rest with
      | [] => return [s]
      | l :: rest =>
          if l = .mark .colon then do
            let ss ← readSequence count rest
            return s :: ss
          else ofExcept (misread (.wanted .colonOrEnd) (l :: rest))

/-- The statements of a line. -/
def readLine (ts : List Lexeme) : Counting (List Statement) :=
  readSequence (ts.length + 1) ts

/-! ## The counters make no difference -/

theorem agrees_separated {item : List Lexeme → Counting (α × List Lexeme)}
    {item' : List Lexeme → Reading α} (hitem : ∀ ts, Agrees (item ts) (item' ts)) (separator : Mark)
    (wanted : Wanted) (count : Nat) (ts : List Lexeme) :
    Agrees (separated item separator wanted count ts)
      (Reading.separated item' separator wanted count ts) := by
  induction count generalizing ts with
  | zero => exact agrees_ofExcept _
  | succ count ih =>
      rw [separated, Reading.separated]
      refine (hitem ts).andThen (fun m h => by rw [h]) fun a rest h => ?_
      simp only [h]
      cases after? (.mark separator) rest with
      | none => exact agrees_pure _
      | some rest =>
          refine (ih rest).andThen (fun m h => by simp only [h]) fun as rest h => ?_
          simp only [h]
          exact agrees_pure _

theorem agrees_readItems (ts : List Lexeme) : Agrees (readItems ts) (Statement.readItems ts) := by
  unfold readItems Statement.readItems
  split
  · exact agrees_pure _
  · exact agrees_separated agrees_expression _ _ _ _

theorem agrees_readAssign (ts : List Lexeme) :
    Agrees (readAssign ts) (Statement.readAssign ts) := by
  unfold readAssign Statement.readAssign
  refine (agrees_target ts).andThen (fun m h => by rw [h]) fun target rest h => ?_
  simp only [h]
  refine (agrees_ofExcept _).bind (fun m h => by rw [h]) fun rest h => ?_
  simp only [h]
  refine (agrees_expression rest).andThen (fun m h => by rw [h]) fun value rest h => ?_
  simp only [h]
  exact agrees_pure _

theorem agrees_readInput (ts : List Lexeme) : Agrees (readInput ts) (Statement.readInput ts) := by
  unfold readInput Statement.readInput
  refine (agrees_expression ts).andThen (fun m h => by rw [h]) fun first rest h => ?_
  simp only [h]
  cases after? (.mark .semicolon) rest with
  | some rest =>
      refine (agrees_target rest).andThen (fun m h => by simp only [h]) fun target rest h => ?_
      simp only [h]
      exact agrees_pure _
  | none =>
      cases first.target? with
      | some target => exact agrees_pure _
      | none => exact agrees_ofExcept _

theorem agrees_readWait (ts : List Lexeme) : Agrees (readWait ts) (Statement.readWait ts) := by
  unfold readWait Statement.readWait
  split
  · exact agrees_pure _
  · refine (agrees_expression ts).andThen (fun m h => by rw [h]) fun duration rest h => ?_
    rw [h]
    exact agrees_pure _

theorem agrees_readStep (ts : List Lexeme) : Agrees (readStep ts) (Statement.readStep ts) := by
  unfold readStep Statement.readStep
  cases after? (.keyword .STEP) ts with
  | none => exact agrees_pure _
  | some rest =>
      refine (agrees_expression rest).andThen (fun m h => by simp only [h]) fun step rest h => ?_
      simp only [h]
      exact agrees_pure _

theorem agrees_readFor (ts : List Lexeme) : Agrees (readFor ts) (Statement.readFor ts) := by
  unfold readFor Statement.readFor
  refine (agrees_ofExcept _).andThen (fun m h => by rw [h]) fun name rest h => ?_
  simp only [h]
  split
  · exact agrees_ofExcept _
  · refine (agrees_ofExcept _).bind (fun m h => by rw [h]) fun rest h => ?_
    simp only [h]
    refine (agrees_expression rest).andThen (fun m h => by rw [h]) fun start rest h => ?_
    simp only [h]
    refine (agrees_ofExcept _).bind (fun m h => by rw [h]) fun rest h => ?_
    simp only [h]
    refine (agrees_expression rest).andThen (fun m h => by rw [h]) fun limit rest h => ?_
    simp only [h]
    refine (agrees_readStep rest).andThen (fun m h => by rw [h]) fun step rest h => ?_
    simp only [h]
    exact agrees_pure _

theorem agrees_readPoke (ts : List Lexeme) : Agrees (readPoke ts) (Statement.readPoke ts) := by
  unfold readPoke Statement.readPoke
  refine (agrees_expression ts).andThen (fun m h => by rw [h]) fun address rest h => ?_
  simp only [h]
  refine (agrees_ofExcept _).bind (fun m h => by rw [h]) fun rest h => ?_
  simp only [h]
  refine (agrees_separated agrees_expression _ _ _ rest).andThen
    (fun m h => by rw [Statement.readList, h]) fun bytes rest h => ?_
  rw [Statement.readList, h]
  exact agrees_pure _

theorem agrees_readPlain (word : Keyword) (ts start : List Lexeme) :
    Agrees (readPlain word ts start) (Statement.readPlain word ts start) := by
  cases word with
  | LET => exact agrees_readAssign ts
  | PRINT =>
      refine (agrees_readItems ts).andThen (fun m h => ?_) fun items rest h => ?_
      · rw [Statement.readPlain, h]
      · rw [Statement.readPlain, h]
        exact agrees_pure _
  | PAUSE =>
      refine (agrees_readItems ts).andThen (fun m h => ?_) fun items rest h => ?_
      · rw [Statement.readPlain, h]
      · rw [Statement.readPlain, h]
        exact agrees_pure _
  | INPUT => exact agrees_readInput ts
  | WAIT => exact agrees_readWait ts
  | FOR => exact agrees_readFor ts
  | READ =>
      refine (agrees_separated agrees_target _ _ _ ts).andThen (fun m h => ?_)
        fun targets rest h => ?_
      · rw [Statement.readPlain, Statement.readTargets, h]
      · rw [Statement.readPlain, Statement.readTargets, h]
        exact agrees_pure _
  | POKE => exact agrees_readPoke ts
  | CALL =>
      refine (agrees_expression ts).andThen (fun m h => ?_) fun address rest h => ?_
      · rw [Statement.readPlain, h]
      · rw [Statement.readPlain, h]
        exact agrees_pure _
  | _ => exact agrees_ofExcept _

theorem Agrees.ended {x : Counting (Statement × List Lexeme)} {r : Reading Statement}
    (h : Agrees x r) : Agrees (ended x) (Statement.ended r) := by
  unfold Counting.ended Statement.ended
  refine h.andThen (fun m h => by rw [h]) fun s rest h => ?_
  simp only [h]
  refine (agrees_ofExcept _).bind (fun m h => by rw [h]) fun _ h => ?_
  rw [h]
  exact agrees_pure _

section

variable {branch : List Lexeme → Counting (Statement × List Lexeme)}
  {branch' : List Lexeme → Reading Statement}

theorem agrees_readBranches (hbranch : ∀ ts, Agrees (branch ts) (branch' ts)) (condition : Expr)
    (ts : List Lexeme) :
    Agrees (readBranches branch condition ts) (Statement.readBranches branch' condition ts) := by
  unfold readBranches Statement.readBranches
  refine (agrees_ofExcept _).bind (fun m h => by rw [h]) fun rest h => ?_
  simp only [h]
  refine (hbranch rest).andThen (fun m h => by rw [h]) fun yes rest h => ?_
  simp only [h]
  cases after? (.keyword .ELSE) rest with
  | none => exact agrees_pure _
  | some rest =>
      refine (hbranch rest).andThen (fun m h => by simp only [h]) fun no rest h => ?_
      simp only [h]
      exact agrees_pure _

theorem agrees_readBranch (hstatement : ∀ ts, Agrees (branch ts) (branch' ts)) (ts : List Lexeme) :
    Agrees (readBranch branch ts) (Statement.readBranch branch' ts) := by
  unfold readBranch
  split
  · exact agrees_pure _
  · exact agrees_ofExcept _
  · rename_i hnumber hdata
    rw [Statement.readBranch]
    · exact hstatement ts
    · exact hnumber
    · exact hdata

end

theorem agrees_readWithin (depth : Nat) (ts : List Lexeme) :
    Agrees (readWithin depth ts) (Statement.readWithin depth ts) := by
  induction depth generalizing ts with
  | zero => exact agrees_ofExcept _
  | succ depth ih =>
      unfold readWithin
      split
      · rename_i rest
        rw [Statement.readWithin]
        refine (agrees_expression rest).andThen (fun m h => by rw [h]) fun condition rest h => ?_
        rw [h]
        exact (agrees_readBranches (agrees_readBranch ih) condition rest).ended
      · rename_i word rest hword
        rw [Statement.readWithin]
        · exact (agrees_readPlain word rest _).ended
        · exact hword
      · rename_i name rest
        exact (agrees_readAssign (.name name :: rest)).ended
      · rename_i hif hkeyword hname
        rw [Statement.readWithin]
        · exact agrees_ofExcept _
        · exact hif
        · exact hkeyword
        · exact hname

theorem agrees_readSequence (count : Nat) (ts : List Lexeme) :
    Agrees (readSequence count ts) (Statement.readSequence count ts) := by
  induction count generalizing ts with
  | zero => exact agrees_ofExcept _
  | succ count ih =>
      rw [readSequence, Statement.readSequence, Statement.read]
      refine (agrees_readWithin _ ts).andThen (fun m h => by rw [h]) fun s rest h => ?_
      rw [h]
      cases rest with
      | nil => exact agrees_pure _
      | cons l rest =>
          dsimp only
          split
          · refine (ih rest).bind (fun m h => by rw [h]) fun ss h => ?_
            rw [h]
            exact agrees_pure _
          · exact agrees_ofExcept _

/-- The statements of a line are read as if nothing had been read before. -/
theorem agrees_readLine (ts : List Lexeme) : Agrees (readLine ts) (Statement.readLine ts) :=
  agrees_readSequence _ ts

end Counting

end LineBasic
