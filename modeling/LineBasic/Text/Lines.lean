/-!
# Lines of a text

How a text falls into lines. `lines` knows every line break of Unicode and drops the breaks; it is
how a program text is read. `unifyBreaks` turns the breaks of the three common file conventions into
line feeds, which is how files are read, and `feedLines` splits at the line feeds. `takeLine` cuts
one line off a stream whose lines end at a line feed; it is how typed input is read.
-/

namespace LineBasic

namespace Text

/-- The characters that end a line: line feed, carriage return, vertical tab, form feed, three
information separators, next line, and the Unicode line and paragraph separators. -/
def isLineBreak (c : Char) : Bool :=
  let n := c.toNat
  (10 ≤ n && n ≤ 13) || (28 ≤ n && n ≤ 30) || n == 0x85 || n == 0x2028 || n == 0x2029

/-- Put a character in front of the first line. -/
def consFirst (c : Char) : List (List Char) → List (List Char)
  | [] => [[c]]
  | line :: rest => (c :: line) :: rest

/-- The lines of a text without their breaks. A carriage return and the line feed after it are one
break, and a break at the end of the text opens no further line. -/
def lines : List Char → List (List Char)
  | [] => []
  | c :: rest =>
      if isLineBreak c then
        match c, rest with
        | '\r', '\n' :: rest => [] :: lines rest
        | _, rest => [] :: lines rest
      else consFirst c (lines rest)

/-- The lines of a text whose lines end at line feeds alone. -/
def feedLines : List Char → List (List Char)
  | [] => []
  | '\n' :: rest => [] :: feedLines rest
  | c :: rest => consFirst c (feedLines rest)

/-- The text with every carriage return, alone or before a line feed, read as one line feed. -/
def unifyBreaks : List Char → List Char
  | [] => []
  | '\r' :: '\n' :: rest => '\n' :: unifyBreaks rest
  | '\r' :: rest => '\n' :: unifyBreaks rest
  | c :: rest => c :: unifyBreaks rest

/-- The first line of a stream, its line feed and any carriage returns before it cut off, and what
is left; `none` at the end of the stream. -/
def takeLine (cs : List Char) : Option (List Char × List Char) :=
  match cs with
  | [] => none
  | _ :: _ =>
      let line := cs.takeWhile (· ≠ '\n')
      let rest := (cs.dropWhile (· ≠ '\n')).drop 1
      some (dropTrailingReturns line, rest)
where
  /-- Cut carriage returns and line feeds off the end. -/
  dropTrailingReturns (line : List Char) : List Char :=
    (line.reverse.dropWhile fun c => c == '\r' || c == '\n').reverse

end Text

end LineBasic
