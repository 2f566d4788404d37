/-!
# White space

Two notions of empty room in a text. A *blank* separates words inside a program line: it is a
space or a tab and nothing else. *White space* is the Unicode class together with the four
information separators; it is what is cut off both ends of remarks, of typed numbers and of lines
that are tested for being empty.

Texts are cut as lists of characters, so that every operation here is a `dropWhile` on one of the
two ends.
-/

namespace LineBasic

namespace Text

/-- A blank inside a program line: a space or a tab. -/
def isBlank (c : Char) : Bool :=
  c == ' ' || c == '\t'

/-- The white-space characters: the Unicode class and the information separators U+001C to
U+001F. -/
def isSpace (c : Char) : Bool :=
  let n := c.toNat
  (9 ≤ n && n ≤ 13) || (28 ≤ n && n ≤ 32) || n == 0x85 || n == 0xA0 || n == 0x1680 ||
    (0x2000 ≤ n && n ≤ 0x200A) || n == 0x2028 || n == 0x2029 || n == 0x202F || n == 0x205F ||
    n == 0x3000

/-- Cut the longest run of characters in the class `p` off the end. -/
def dropEnd (p : Char → Bool) (cs : List Char) : List Char :=
  (cs.reverse.dropWhile p).reverse

/-- Cut the runs of characters in the class `p` off both ends. -/
def stripBy (p : Char → Bool) (cs : List Char) : List Char :=
  dropEnd p (cs.dropWhile p)

/-- Cut white space off both ends. -/
def strip (cs : List Char) : List Char :=
  stripBy isSpace cs

/-- A text of white space only, the empty one included. -/
def isEmptyLine (cs : List Char) : Bool :=
  cs.all isSpace

@[simp] theorem dropEnd_nil (p : Char → Bool) : dropEnd p [] = [] := rfl

/-- A blank is white space. -/
theorem isSpace_of_isBlank (c : Char) (h : isBlank c = true) : isSpace c = true := by
  simp only [isBlank, Bool.or_eq_true, beq_iff_eq] at h
  rcases h with rfl | rfl <;> rfl

end Text

end LineBasic
