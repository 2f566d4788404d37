import LineBasic.Bundle
import LineBasic.Diagnostic
import LineBasic.Shell.Run

/-!
# The command

What the command does: introduce itself, explain itself, or take a program as far as the settings
say. The result is the status with which the command exits: zero if all went well, one if the
program is at fault, two if there is no program.
-/

namespace LineBasic

namespace Shell

/-- Write to the standard output. -/
def print (text : String) : Talk Unit :=
  Talk.ask (.print text)

/-- The introduction, with the platform if debugging is asked for. -/
def introduce (settings : Settings) : Talk Unit := do
  print Bundle.introduction
  if settings.flag .debug then
    let platform ← Talk.ask .platform
    print (platform ++ "\n")

/-- The text of a program file, or of the standard input if the name is a dash. -/
def readProgram (name : String) : Talk (Except HostError String) := do
  if name = "-" then
    let text ← Talk.ask .readAll
    pure (.ok text)
  else
    let bytes ← Talk.ask (.fileContent name)
    pure (bytes.map fun bs => String.ofList (Text.unifyBreaks (Text.ofAscii bs)))

/-- The note on a program file that cannot be read. -/
def unreadableProgram (name message : String) : LogEntry :=
  ⟨.error, s!"Could not read program file `{name}`: {message}"⟩

/-- A lexeme in the listing of the lexemes. -/
def lexemeText : Lexeme → String
  | .number x => Number.wholeText x
  | .quote s => "\x22" ++ s ++ "\x22"
  | .remark s => "\x22" ++ s ++ "\x22"
  | l => l.plain

/-- A token in the listing of the lexemes. -/
def tokenLine (line : Nat) (t : Token) : String :=
  let shown := lexemeText t.lexeme
  s!"{line}:{t.column} {t.lexeme.className} {shown}\n"

/-- The listing of the lexemes of a line. -/
def lexemeListing (index : Nat) (text : List Char) : Except Failure String := do
  let (line, rest, offset) ← Lexer.numbered (some index) text
  let tokens ← Lexer.tokens (some line) (offset + 1) rest
  pure (String.join (tokens.map (tokenLine line)))

/-- List the lexemes of lines, the first of which stands at the given position in the program. -/
def listLexemes (index : Nat) : List (List Char) → Talk Nat
  | [] => pure 0
  | text :: rest => do
      if Text.isEmptyLine text then listLexemes (index + 1) rest
      else
        match lexemeListing index text with
        | .ok listing =>
            print listing
            listLexemes (index + 1) rest
        | .error (.syntaxError e) =>
            print (e.message ++ "\n")
            pure 1
        | .error (.fault f) =>
            print (f.message ++ "\n")
            pure 1
        | .error (.host e) => throw e

/-- The console for the settings: lines come from the file for input if one is named, and else from
the standard input. -/
def openConsole (settings : Settings) : Talk Console := do
  let name := settings.text .input
  if name = "" then pure .live
  else
    let bytes ← Talk.attempt (.fileContent name)
    pure (.ofTyped (Text.unifyBreaks (Text.ofAscii bytes)))

/-- Connect a console for the settings. The file for output is made even if nothing is written. -/
def openWiring (settings : Settings) (sink : LogSink) : Talk Wiring := do
  let output := settings.text .output
  if output ≠ "" then
    Talk.attempt (.startFile output)
  pure ⟨sink, output, settings.pace⟩

/-- List the findings on a program. -/
def listFindings (p : Program) : Talk Nat := do
  p.diagnostics.forM fun d => print s!"{d.line}: {d.message}\n"
  pure (if p.diagnostics.isEmpty then 0 else 1)

/-- List a program. -/
def listProgram (p : Program) : Talk Nat := do
  if p.listing ≠ "" then
    print (p.listing ++ "\n")
  pure 0

/-- Run the loaded program. -/
def runProgram (w : Wiring) (m : Machine Console) : Talk Nat := do
  let (result, _) ← run w m
  match result with
  | .ok (.faulted _) => pure 1
  | .ok _ => pure 0
  | .error (.host e) => throw e
  | .error _ => pure 1

/-- Take a program beyond its lexemes, as far as the settings say. -/
def takeProgram (settings : Settings) (sink : LogSink) (text : String) : Talk Nat := do
  let typed ← openConsole settings
  let w ← openWiring settings sink
  let devices := console w.pace
  let m := Machine.start devices (settings.number .waitUnit) typed
  let (result, m) := m.load devices (.text text)
  let m ← flush w m
  match result with
  | .error (.syntaxError e) =>
      print (e.message ++ "\n")
      pure 1
  | .error (.fault f) =>
      print (f.message ++ "\n")
      pure 1
  | .error (.host e) => throw e
  | .ok () =>
      match settings.runPass with
      | .parse => listProgram m.engine.program
      | .check => listFindings m.engine.program
      | _ => runProgram w m

/-- Explain the command line because there is no program. -/
def refuse (sink : LogSink) : Talk Nat := do
  sink.write ⟨.error, "No program file specified"⟩
  print Bundle.usage
  pure 2

/-- Read the named program and take it as far as the settings say. -/
def takeFile (settings : Settings) (sink : LogSink) : Talk Nat := do
  match ← readProgram settings.program with
  | .error e =>
      match e.fileMessage? settings.program with
      | none => throw e
      | some message => do
          sink.write (unreadableProgram settings.program message)
          pure 2
  | .ok text =>
      match settings.runPass with
      | .lex => listLexemes 1 (Text.lines text.toList)
      | _ => takeProgram settings sink text

/-- The command with the given arguments, for a user whose configuration file is the given one. -/
def command (userFile : String) (texts : List String) : Talk Nat := do
  let (settings, sink) ← prepare userFile texts
  if settings.flag .version then
    introduce settings
    pure 0
  else if settings.flag .help then
    print Bundle.usage
    pure 0
  else if settings.program = "" then refuse sink
  else takeFile settings sink

end Shell

end LineBasic
