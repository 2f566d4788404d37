import LineBasic.Fault
import LineBasic.Text.Blank
import LineBasic.Text.Digit

/-!
# From characters to tokens

`lexeme` cuts one lexeme off a text that does not start with a blank; it always takes the longest
one. `tokens` repeats this to the end of the line, skipping blanks, with the column of the next
character carried along. The remark behind `REM` is a token of its own, which takes the rest of the
line without the white space at its ends.

`numbered` cuts the line number off a program line.
-/

namespace LineBasic

namespace Lexer

/-- The letters that names and keywords start with. -/
def isLetter (c : Char) : Bool :=
  c.isUpper

/-- The characters that names and keywords go on with. -/
def isWordChar (c : Char) : Bool :=
  c.isUpper || c.isDigit

/-- The longest run of digits that is read as a number. -/
def maxDigits : Nat := 4300

/-- The number that a run of digits spells. -/
def natural (digits : List Char) : Except HostError Nat :=
  if maxDigits < digits.length then .error .tooManyDigits else .ok (Text.ofDigits digits)

/-- The machine number nearest to what a run of digits spells. -/
def literal (digits : List Char) : Except HostError Float := do
  let n ← natural digits
  match Number.ofNat? n with
  | some x => .ok x
  | none => .error .integerTooLarge

/-- The mark that a character stands for. -/
def mark? : Char → Option Mark
  | '(' => some .leftParen
  | ')' => some .rightParen
  | ',' => some .comma
  | ';' => some .semicolon
  | ':' => some .colon
  | _ => none

/-- The operator at the front of a text, and the rest; of two that fit, the longer one. -/
def operator? : List Char → Option (Operator × List Char)
  | '<' :: '>' :: cs => some (.unequal, cs)
  | '<' :: '=' :: cs => some (.atMost, cs)
  | '>' :: '=' :: cs => some (.atLeast, cs)
  | '=' :: cs => some (.equal, cs)
  | '<' :: cs => some (.less, cs)
  | '>' :: cs => some (.greater, cs)
  | '+' :: cs => some (.plus, cs)
  | '-' :: cs => some (.minus, cs)
  | '*' :: cs => some (.times, cs)
  | '/' :: cs => some (.divide, cs)
  | _ => none

/-- The lexeme that a word is, given what follows it: with a `$` behind it a text variable, which
must not be a keyword, and else a keyword or a numeric variable. -/
def wordLexeme (fail : Detail → Failure) (word : String) (rest : List Char) :
    Except Failure (Lexeme × List Char) :=
  match rest, Keyword.ofWord? word with
  | '$' :: _, some k => .error (fail (.keywordAsName k))
  | '$' :: rest, none => .ok (.name (word ++ "$"), rest)
  | rest, some k => .ok (.keyword k, rest)
  | rest, none => .ok (.name word, rest)

/-- The lexeme that starts with the character `c`, which is not a blank, and the rest of the text.
A quoted text that is not closed runs to the end of the line. The function `fail` places a
detail. -/
def lexeme (fail : Detail → Failure) (c : Char) (cs : List Char) :
    Except Failure (Lexeme × List Char) :=
  if c.isDigit then
    match literal (c :: cs.takeWhile Char.isDigit) with
    | .ok x => .ok (.number x, cs.dropWhile Char.isDigit)
    | .error e => .error (.host e)
  else if c = Text.doubleQuote then
    .ok (.quote (String.ofList (cs.takeWhile (· ≠ Text.doubleQuote))),
      (cs.dropWhile (· ≠ Text.doubleQuote)).drop 1)
  else if isLetter c then
    wordLexeme fail (String.ofList (c :: cs.takeWhile isWordChar)) (cs.dropWhile isWordChar)
  else
    match mark? c with
    | some m => .ok (.mark m, cs)
    | none =>
        match operator? (c :: cs) with
        | some (o, rest) => .ok (.operator o, rest)
        | none => .error (fail (.unexpectedCharacter c))

theorem length_dropWhile_le (p : Char → Bool) (cs : List Char) :
    (cs.dropWhile p).length ≤ cs.length :=
  (List.dropWhile_suffix p).length_le

/-- An operator sign has at least one character. -/
theorem length_of_operator? {cs rest : List Char} {o : Operator}
    (h : operator? cs = some (o, rest)) : rest.length < cs.length := by
  unfold operator? at h
  split at h
  all_goals cases h
  all_goals
    rw [List.length_cons]
    first | omega | (rw [List.length_cons]; omega)

/-- A word takes no more than the sign behind it. -/
theorem length_of_wordLexeme {fail : Detail → Failure} {word : String} {cs rest : List Char}
    {l : Lexeme} (h : wordLexeme fail word cs = .ok (l, rest)) : rest.length ≤ cs.length := by
  unfold wordLexeme at h
  split at h
  all_goals cases h
  · rw [List.length_cons]
    exact Nat.le_succ _
  · exact Nat.le_refl _
  · exact Nat.le_refl _

/-- A lexeme takes at least the character that it starts with. -/
theorem length_of_lexeme {fail : Detail → Failure} {c : Char} {cs rest : List Char} {l : Lexeme}
    (h : lexeme fail c cs = .ok (l, rest)) : rest.length ≤ cs.length := by
  unfold lexeme at h
  split at h
  · split at h
    · cases h
      exact length_dropWhile_le _ _
    · cases h
  · split at h
    · cases h
      rw [List.length_drop]
      exact Nat.le_trans (Nat.sub_le _ _) (length_dropWhile_le _ _)
    · split at h
      · exact Nat.le_trans (length_of_wordLexeme h) (length_dropWhile_le _ _)
      · split at h
        · cases h
          exact Nat.le_refl _
        · split at h
          · rename_i o r ho
            cases h
            exact Nat.le_of_lt_succ (length_of_operator? ho)
          · cases h

/-- The tokens of a text whose first character stands in the given column. The line is only named
in errors. -/
def tokens (line : Option Int) (column : Nat) : List Char → Except Failure (List Token)
  | [] => .ok []
  | c :: cs =>
      if Text.isBlank c then tokens line (column + 1) cs
      else
        match _h : lexeme (fun d => .syntaxError ⟨line, some column, some d⟩) c cs with
        | .error e => .error e
        | .ok (l, rest) =>
            let next := column + (cs.length + 1 - rest.length)
            if l = .keyword .REM then
              .ok [⟨l, column⟩, ⟨.remark (String.ofList (Text.strip rest)), next⟩]
            else (tokens line next rest).map (⟨l, column⟩ :: ·)
termination_by cs => cs.length
decreasing_by
  · simp
  · have := length_of_lexeme _h
    simp only [List.length_cons]
    omega

/-- A program line without its number: the number, the text behind it and the count of characters
in front of that text. A line without a number is named by its position in the source. -/
def numbered (index : Option Int) (cs : List Char) :
    Except Failure (Nat × List Char × Nat) :=
  let body := cs.dropWhile Text.isBlank
  let digits := body.takeWhile Char.isDigit
  if digits.isEmpty then
    .error (.syntaxError
      ⟨index, some (cs.length - body.length + 1), some (.wanted .lineNumber)⟩)
  else
    match natural digits with
    | .error e => .error (.host e)
    | .ok n =>
        let rest := body.dropWhile Char.isDigit
        .ok (n, rest, cs.length - rest.length)

end Lexer

end LineBasic
