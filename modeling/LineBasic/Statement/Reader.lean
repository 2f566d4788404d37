import LineBasic.Expr.Reader
import LineBasic.Statement.Basic

/-!
# Reading statements

Each statement is read off the lexemes behind its keyword; a statement that starts with a name is
an assignment. A statement must be followed by the end of the line, a colon or an `ELSE`. This
holds of the branches of a condition too, and it makes every `ELSE` belong to the innermost `IF`
that can take it.

Conditions nest, so the readers of a statement and of a branch carry a bound on the depth. Each
condition takes at least one lexeme, hence a line never needs more depth than it has lexemes.
-/

namespace LineBasic

open Reading

namespace Statement

/-- Expressions set apart by the given mark, at least one. The first count bounds their number. -/
def readList (separator : Mark) : Nat → List Lexeme → Reading (List Expr) :=
  separated Expr.read separator .expression

/-- The items of `PRINT` and `PAUSE`: none, or some set apart by semicolons. -/
def readItems (ts : List Lexeme) : Reading (List Expr) :=
  if atStatementEnd ts then .ok ([], ts) else readList .semicolon ts.length ts

/-- Targets set apart by commas, at least one. The first count bounds their number. -/
def readTargets : Nat → List Lexeme → Reading (List Target) :=
  separated Target.read .comma .variableName

/-- A constant of `DATA`: a number with an optional minus sign, or a text. -/
def readConstant (ts : List Lexeme) : Reading Value :=
  match ts with
  | .operator .minus :: .number x :: rest => .ok (.number (-x), rest)
  | .operator .minus :: rest => misread (.wanted .dataItem) rest
  | .number x :: rest => .ok (.number x, rest)
  | .quote s :: rest => .ok (.text s, rest)
  | _ => misread (.wanted .dataItem) ts

/-- Constants set apart by commas, at least one. The first count bounds their number. -/
def readConstants : Nat → List Lexeme → Reading (List Value) :=
  separated readConstant .comma .dataItem

/-- The target and the value of an assignment. -/
def readAssign (ts : List Lexeme) : Reading Statement :=
  match Target.read ts with
  | .error m => .error m
  | .ok (target, rest) =>
      match require (.operator .equal) rest with
      | .error m => .error m
      | .ok rest =>
          match Expr.read rest with
          | .error m => .error m
          | .ok (value, rest) => .ok (.assign target value, rest)

/-- What is behind `INPUT`: a prompt and a target, or a target alone. -/
def readInput (ts : List Lexeme) : Reading Statement :=
  match Expr.read ts with
  | .error m => .error m
  | .ok (first, rest) =>
      match after? (.mark .semicolon) rest with
      | some rest =>
          match Target.read rest with
          | .error m => .error m
          | .ok (target, rest) => .ok (.input (some first) target, rest)
      | none =>
          match first.target? with
          | some target => .ok (.input none target, rest)
          | none => misread (.wanted .variableName) rest

/-- What is behind `WAIT`. -/
def readWait (ts : List Lexeme) : Reading Statement :=
  if atStatementEnd ts then .ok (.wait none, ts)
  else
    match Expr.read ts with
    | .error m => .error m
    | .ok (duration, rest) => .ok (.wait (some duration), rest)

/-- The step behind the limit of a loop, if there is one. -/
def readStep (ts : List Lexeme) : Reading (Option Expr) :=
  match after? (.keyword .STEP) ts with
  | none => .ok (none, ts)
  | some rest =>
      match Expr.read rest with
      | .error m => .error m
      | .ok (step, rest) => .ok (some step, rest)

/-- What is behind `FOR`. A text variable is at fault at its own column. -/
def readFor (ts : List Lexeme) : Reading Statement :=
  match requireName .variableName ts with
  | .error m => .error m
  | .ok (name, rest) =>
      if Kind.ofName name = .textual then misread .textLoopVariable ts
      else
        match require (.operator .equal) rest with
        | .error m => .error m
        | .ok rest =>
            match Expr.read rest with
            | .error m => .error m
            | .ok (start, rest) =>
                match require (.keyword .TO) rest with
                | .error m => .error m
                | .ok rest =>
                    match Expr.read rest with
                    | .error m => .error m
                    | .ok (limit, rest) =>
                        match readStep rest with
                        | .error m => .error m
                        | .ok (step, rest) => .ok (.forLoop name start limit step, rest)

/-- What is behind `NEXT`. -/
def readNext (ts : List Lexeme) : Reading Statement :=
  if atStatementEnd ts then .ok (.nextLoop none, ts)
  else
    match requireName .variableName ts with
    | .error m => .error m
    | .ok (name, rest) => .ok (.nextLoop (some name), rest)

/-- A line number, and the statement that it makes. -/
def readJump (statement : Nat → Statement) (ts : List Lexeme) : Reading Statement :=
  match requireNatural .lineNumber ts with
  | .error m => .error m
  | .ok (line, rest) => .ok (statement line, rest)

/-- What is behind `RESTORE`. -/
def readRestore (ts : List Lexeme) : Reading Statement :=
  if atStatementEnd ts then .ok (.restore none, ts) else readJump (fun n => .restore (some n)) ts

/-- What is behind `POKE`. -/
def readPoke (ts : List Lexeme) : Reading Statement :=
  match Expr.read ts with
  | .error m => .error m
  | .ok (address, rest) =>
      match require (.mark .comma) rest with
      | .error m => .error m
      | .ok rest =>
          match readList .comma (rest.length + 1) rest with
          | .error m => .error m
          | .ok (bytes, rest) => .ok (.poke address bytes, rest)

/-- The length behind the size of an array, which only an array of texts can have. -/
def readLength (name : Name) (ts : List Lexeme) : Reading (Option Nat) :=
  match after? (.operator .times) ts with
  | none => .ok (none, ts)
  | some rest =>
      if Kind.ofName name = .textual then
        match requireNatural .stringLength rest with
        | .error m => .error m
        | .ok (length, rest) => .ok (some length, rest)
      else misread .lengthOfNumbers ts

/-- What is behind `DIM`. -/
def readDim (ts : List Lexeme) : Reading Statement :=
  match requireName .arrayName ts with
  | .error m => .error m
  | .ok (name, rest) =>
      match require (.mark .leftParen) rest with
      | .error m => .error m
      | .ok rest =>
          match requireNatural .arraySize rest with
          | .error m => .error m
          | .ok (size, rest) =>
              match require (.mark .rightParen) rest with
              | .error m => .error m
              | .ok rest =>
                  match readLength name rest with
                  | .error m => .error m
                  | .ok (length, rest) => .ok (.dim name size length, rest)

/-- The text of a remark. -/
def readRemark (ts : List Lexeme) : Reading Statement :=
  match ts with
  | .remark text :: rest => .ok (.remark text, rest)
  | _ => .ok (.remark "", ts)

/-- A statement that is not a condition, off the lexemes behind its keyword. -/
def readPlain (word : Keyword) (ts : List Lexeme) (start : List Lexeme) : Reading Statement :=
  match word with
  | .REM => readRemark ts
  | .LET => readAssign ts
  | .PRINT =>
      match readItems ts with
      | .error m => .error m
      | .ok (items, rest) => .ok (.print items, rest)
  | .PAUSE =>
      match readItems ts with
      | .error m => .error m
      | .ok (items, rest) => .ok (.pause items, rest)
  | .INPUT => readInput ts
  | .WAIT => readWait ts
  | .FOR => readFor ts
  | .NEXT => readNext ts
  | .GOTO => readJump .goto ts
  | .GOSUB => readJump .gosub ts
  | .RETURN => .ok (.returnSub, ts)
  | .END => .ok (.endProgram, ts)
  | .DATA =>
      match readConstants (ts.length + 1) ts with
      | .error m => .error m
      | .ok (items, rest) => .ok (.data items, rest)
  | .READ =>
      match readTargets (ts.length + 1) ts with
      | .error m => .error m
      | .ok (targets, rest) => .ok (.readInto targets, rest)
  | .RESTORE => readRestore ts
  | .POKE => readPoke ts
  | .CALL =>
      match Expr.read ts with
      | .error m => .error m
      | .ok (address, rest) => .ok (.call address, rest)
  | .DIM => readDim ts
  | _ => misread (.wanted .statement) start

/-- The outcome of a reader of statements, provided that the statement ends there. -/
def ended (r : Reading Statement) : Reading Statement :=
  match r with
  | .error m => .error m
  | .ok (s, rest) =>
      match requireEnd rest with
      | .error m => .error m
      | .ok () => .ok (s, rest)

/-- The branches behind the condition of an `IF`, each read by `branch`. -/
def readBranches (branch : List Lexeme → Reading Statement) (condition : Expr)
    (ts : List Lexeme) : Reading Statement :=
  match require (.keyword .THEN) ts with
  | .error m => .error m
  | .ok rest =>
      match branch rest with
      | .error m => .error m
      | .ok (yes, rest) =>
          match after? (.keyword .ELSE) rest with
          | none => .ok (.ifThen condition yes, rest)
          | some rest =>
              match branch rest with
              | .error m => .error m
              | .ok (no, rest) => .ok (.ifElse condition yes no, rest)

/-- A branch of a condition: a line number to go to, or a statement, which is read by `statement`.
Constants cannot depend on a condition. -/
def readBranch (statement : List Lexeme → Reading Statement) (ts : List Lexeme) :
    Reading Statement :=
  match ts with
  | .number x :: rest => .ok (.goto (Number.floorMagnitude x), rest)
  | .keyword .DATA :: _ => misread .dataInBranch ts
  | _ => statement ts

/-- A statement in which conditions are nested no deeper than `depth`. -/
def readWithin : Nat → List Lexeme → Reading Statement
  | 0, ts => misread (.wanted .statement) ts
  | depth + 1, ts =>
      match ts with
      | .keyword .IF :: rest =>
          match Expr.read rest with
          | .error m => .error m
          | .ok (condition, rest) =>
              ended (readBranches (readBranch (readWithin depth)) condition rest)
      | .keyword word :: rest => ended (readPlain word rest ts)
      | .name _ :: _ => ended (readAssign ts)
      | _ => misread (.wanted .statement) ts

/-- A statement. -/
def read (ts : List Lexeme) : Reading Statement :=
  readWithin (ts.length + 1) ts

/-- Statements set apart by colons up to the end of the line, at least one. The first count bounds
their number. -/
def readSequence : Nat → List Lexeme → Except Misread (List Statement)
  | 0, ts => misread (.wanted .statement) ts
  | count + 1, ts =>
      match read ts with
      | .error m => .error m
      | .ok (s, []) => .ok [s]
      | .ok (s, l :: rest) =>
          if l = .mark .colon then
            match readSequence count rest with
            | .error m => .error m
            | .ok ss => .ok (s :: ss)
          else misread (.wanted .colonOrEnd) (l :: rest)

/-- The statements of a line. -/
def readLine (ts : List Lexeme) : Except Misread (List Statement) :=
  readSequence (ts.length + 1) ts

/-- The statements that the tokens of a line form. -/
def ofTokens (line : Option Int) (endColumn : Nat) (tokens : List Token) :
    Except SyntaxError (List Statement) :=
  match readLine (tokens.map Token.lexeme) with
  | .error m => .error (m.locate line tokens endColumn)
  | .ok statements => .ok statements

end Statement

end LineBasic
