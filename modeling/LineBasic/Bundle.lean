import LineBasic.Fault

/-!
# What comes with the interpreter

The name under which the interpreter introduces itself, the text that explains its command line, and
programs to try it with.
-/

namespace LineBasic

namespace Bundle

/-- The name of the interpreter. -/
def name : String := "PocketBASIC"

/-- Its version. -/
def version : String := "0.3.0"

/-- Who it is by. -/
def author : String := "PocketBASIC contributors"

/-- The terms on which it comes. -/
def terms : String :=
  "(c) 2024 PocketBASIC contributors. Licensed under the GPL version 3 or later."

/-- A text of whole lines. -/
def ofLines (lines : List String) : String :=
  String.join (lines.map fun line => line ++ "\n")

/-- The introduction of the interpreter. -/
def introduction : String :=
  ofLines [name ++ " " ++ version, terms]

/-- The explanation of the command line. -/
def usage : String :=
  ofLines [
    "Usage: pocketbasic [program] [options]",
    "",
    "Runs a line-numbered BASIC program in the Sharp PC-1500 dialect.",
    "",
    "Positional arguments:",
    "  program             BASIC program text file to load.",
    "",
    "Options:",
    "  --pass=PASS         Stop after the given pass: lex, parse, check or run.",
    "                      Default: run.",
    "  --input=FILE        Read INPUT lines from FILE instead of standard input.",
    "  --output=FILE       Write program output to FILE instead of standard output.",
    "  --wait-unit=SEC     Seconds per WAIT tick. Default: 0.015625.",
    "  --pause-time=SEC    Seconds a PAUSE holds the display. Default: 0.85.",
    "  --no-delay          Do not sleep on WAIT and PAUSE.",
    "  --config=FILE       Read options from the [pocketbasic] section of FILE.",
    "  --logfile=FILE      Write log messages to FILE instead of standard error.",
    "  -d, --debug         Log debugging messages.",
    "  -v, --version       Show version and exit.",
    "  -h, --help          Show this message and exit."]

/-- A program that asks for a number and shows that Fibonacci number. -/
def fibonacci : String :=
  ofLines [
    "10 REM FIBONACCI NUMBERS",
    "20 INPUT \"N? \";N",
    "30 IF N<0 THEN GOTO 200",
    "40 A=0: B=1",
    "50 IF N=0 THEN GOTO 100",
    "60 FOR I=1 TO N",
    "70 C=A+B: A=B: B=C",
    "80 NEXT I",
    "100 PRINT \"F(\";N;\") = \";A",
    "110 END",
    "200 PRINT \"N MUST BE >= 0\": END"]

/-- The programs and their names. -/
def programs : List (String × String) :=
  [("FIB.BAS", fibonacci)]

/-- The names of the programs, in order. -/
def programNames : List String :=
  programs.map Prod.fst

/-- Why a program cannot be had. -/
inductive LoadError where
  /-- No program of that name comes with the interpreter. -/
  | missing (name : String)
  | host (e : HostError)
deriving DecidableEq, Repr

/-- The message on a program that cannot be had. -/
def LoadError.message? : LoadError → Option String
  | .missing name => some ("Failed to load " ++ name)
  | .host _ => none

/-- The text of the program with the given name. -/
def load (name : String) : Except LoadError String :=
  if '\x00' ∈ name.toList then .error (.host .nulInFileName)
  else
    match programs.lookup name with
    | some text => .ok text
    | none => .error (.missing name)

end Bundle

end LineBasic
