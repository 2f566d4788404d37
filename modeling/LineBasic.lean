import LineBasic.Bundle
import LineBasic.DataTape
import LineBasic.Devices.Console
import LineBasic.Devices.Event
import LineBasic.Devices.Recorder
import LineBasic.Devices.Watched
import LineBasic.Diagnostic
import LineBasic.Engine.Exec
import LineBasic.Engine.Meaning
import LineBasic.Engine.Run
import LineBasic.Engine.State
import LineBasic.Expr.Basic
import LineBasic.Expr.Eval
import LineBasic.Expr.Reader
import LineBasic.Fault
import LineBasic.Listing
import LineBasic.Log
import LineBasic.Main
import LineBasic.Number.Binary
import LineBasic.Number.Decimal
import LineBasic.Number.Layout
import LineBasic.Number.Literal
import LineBasic.Outline
import LineBasic.Program.Lines
import LineBasic.Program.Loading
import LineBasic.Proofs.Checker.Certain
import LineBasic.Proofs.Checker.Dimensions
import LineBasic.Proofs.Checker.Expr
import LineBasic.Proofs.Checker.Parts
import LineBasic.Proofs.Checker.Run
import LineBasic.Proofs.Engine.Atomic
import LineBasic.Proofs.Engine.Constants
import LineBasic.Proofs.Engine.Control
import LineBasic.Proofs.Engine.Counting
import LineBasic.Proofs.Engine.Finiteness
import LineBasic.Proofs.Engine.Keeps
import LineBasic.Proofs.Engine.Loops
import LineBasic.Proofs.Engine.Nesting
import LineBasic.Proofs.Engine.OnTape
import LineBasic.Proofs.Engine.Placement
import LineBasic.Proofs.Engine.Remarks
import LineBasic.Proofs.Engine.Rounds
import LineBasic.Proofs.Engine.Rules
import LineBasic.Proofs.Engine.Selection
import LineBasic.Proofs.Engine.Sequence
import LineBasic.Proofs.Engine.Settled
import LineBasic.Proofs.Engine.Step
import LineBasic.Proofs.Engine.Stores
import LineBasic.Proofs.Engine.Subroutines
import LineBasic.Proofs.Engine.Undisturbed
import LineBasic.Proofs.Expr.Brackets
import LineBasic.Proofs.Expr.Counted
import LineBasic.Proofs.Expr.Depth
import LineBasic.Proofs.Expr.Grammar
import LineBasic.Proofs.Expr.Parsing
import LineBasic.Proofs.Expr.ReadBack
import LineBasic.Proofs.Expr.RoundTrip
import LineBasic.Proofs.Expr.Shape
import LineBasic.Proofs.Expr.Spelling
import LineBasic.Proofs.Expr.Written
import LineBasic.Proofs.Number.Literal
import LineBasic.Proofs.Number.Order
import LineBasic.Proofs.Number.Packing
import LineBasic.Proofs.Number.Respelling
import LineBasic.Proofs.Number.Whole
import LineBasic.Proofs.Outcome
import LineBasic.Proofs.Program.LastWins
import LineBasic.Proofs.Program.Line
import LineBasic.Proofs.Program.Rejection
import LineBasic.Proofs.Program.Reload
import LineBasic.Proofs.Program.Spacing
import LineBasic.Proofs.Program.Stability
import LineBasic.Proofs.Program.Tape
import LineBasic.Proofs.Program.WellFormed
import LineBasic.Proofs.Session.Afresh
import LineBasic.Proofs.Session.Assignment
import LineBasic.Proofs.Session.Loading
import LineBasic.Proofs.Session.Requests
import LineBasic.Proofs.Settings.Arguments
import LineBasic.Proofs.Settings.Precedence
import LineBasic.Proofs.Settings.Sections
import LineBasic.Proofs.Shell.Lexemes
import LineBasic.Proofs.Shell.Preparation
import LineBasic.Proofs.Statement.Content
import LineBasic.Proofs.Statement.Counted
import LineBasic.Proofs.Statement.RoundTrip
import LineBasic.Proofs.Statement.Shape
import LineBasic.Proofs.Statement.Spelling
import LineBasic.Proofs.Table
import LineBasic.Proofs.Token.Columns
import LineBasic.Proofs.Token.Foreign
import LineBasic.Proofs.Token.Layout
import LineBasic.Proofs.Token.Lexing
import LineBasic.Proofs.Token.Reading
import LineBasic.Proofs.Token.Spelling
import LineBasic.Proofs.Token.Words
import LineBasic.Proofs.Value.Comparison
import LineBasic.Proofs.Value.Finiteness
import LineBasic.Proofs.Value.Unplaced
import LineBasic.Proofs.Variables.Cells
import LineBasic.Proofs.Variables.Declared
import LineBasic.Proofs.Variables.Elements
import LineBasic.Proofs.Variables.Filling
import LineBasic.Session
import LineBasic.Settings.Arguments
import LineBasic.Settings.Choice
import LineBasic.Settings.Ini
import LineBasic.Settings.Parameter
import LineBasic.Shell.Command
import LineBasic.Shell.Dialogue
import LineBasic.Shell.Preparation
import LineBasic.Shell.Run
import LineBasic.Statement.Basic
import LineBasic.Statement.Reader
import LineBasic.Table
import LineBasic.Text.Blank
import LineBasic.Text.Digit
import LineBasic.Text.Encoding
import LineBasic.Text.LetterCase
import LineBasic.Text.Lines
import LineBasic.Text.Printable
import LineBasic.Text.Quoted
import LineBasic.Token.Basic
import LineBasic.Token.Cursor
import LineBasic.Token.Lexer
import LineBasic.Token.Reading
import LineBasic.Value.Arithmetic
import LineBasic.Value.Basic
import LineBasic.Value.Host
import LineBasic.Variables.Basic
import LineBasic.Variables.Dump
