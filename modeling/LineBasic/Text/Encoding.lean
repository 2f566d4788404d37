/-!
# Bytes and characters

Texts come from files as bytes. Nothing that a file holds keeps it from being read: what does not
spell a character in the encoding at hand is read as the replacement character, and a character
that has no place in ASCII is written as a question mark.
-/

namespace LineBasic

namespace Text

/-- The character that stands for bytes that spell none. -/
def replacement : Char := '\ufffd'

/-- Bytes read as ASCII. -/
def ofAscii (bs : List UInt8) : List Char :=
  bs.map fun b => if b.toNat < 128 then Char.ofNat b.toNat else replacement

/-- The text with every character outside ASCII replaced by a question mark. -/
def toAscii (cs : List Char) : List Char :=
  cs.map fun c => if c.toNat < 128 then c else '?'

/-- A character of which some bytes have been read: the bits so far, how many bytes are missing,
and the bounds of the next byte. -/
structure Unfinished where
  bits : Nat
  missing : Nat
  low : Nat
  high : Nat

/-- The first byte of a character, which may be the only one. -/
def leadByte (n : Nat) : List Char × Option Unfinished :=
  if n < 0x80 then ([Char.ofNat n], none)
  else if n < 0xC2 then ([replacement], none)
  else if n < 0xE0 then ([], some ⟨n - 0xC0, 1, 0x80, 0xBF⟩)
  else if n = 0xE0 then ([], some ⟨0, 2, 0xA0, 0xBF⟩)
  else if n = 0xED then ([], some ⟨13, 2, 0x80, 0x9F⟩)
  else if n < 0xF0 then ([], some ⟨n - 0xE0, 2, 0x80, 0xBF⟩)
  else if n = 0xF0 then ([], some ⟨0, 3, 0x90, 0xBF⟩)
  else if n < 0xF4 then ([], some ⟨n - 0xF0, 3, 0x80, 0xBF⟩)
  else if n = 0xF4 then ([], some ⟨4, 3, 0x80, 0x8F⟩)
  else ([replacement], none)

/-- One more byte. A byte that does not go on with the unfinished character starts another one. -/
def nextByte (pending : Option Unfinished) (n : Nat) : List Char × Option Unfinished :=
  match pending with
  | none => leadByte n
  | some u =>
      if n < u.low ∨ u.high < n then
        let (cs, rest) := leadByte n
        (replacement :: cs, rest)
      else
        let bits := 64 * u.bits + (n - 0x80)
        if u.missing = 1 then ([Char.ofNat bits], none)
        else ([], some ⟨bits, u.missing - 1, 0x80, 0xBF⟩)

/-- Bytes read as UTF-8 behind an unfinished character. -/
def ofUtf8Behind (pending : Option Unfinished) : List UInt8 → List Char
  | [] => if pending.isSome then [replacement] else []
  | b :: rest =>
      let (cs, pending) := nextByte pending b.toNat
      cs ++ ofUtf8Behind pending rest

/-- Bytes read as UTF-8. -/
def ofUtf8 (bs : List UInt8) : List Char :=
  ofUtf8Behind none bs

/-- The bytes of the mark that may stand in front of a text in UTF-8. -/
def byteOrderMark : List UInt8 := [0xEF, 0xBB, 0xBF]

/-- Bytes read as UTF-8 without the byte order mark in front of them. A file that holds nothing but
the beginning of a mark is read as empty. -/
def ofMarkedUtf8 (bs : List UInt8) : List Char :=
  if bs.isPrefixOf byteOrderMark then []
  else if byteOrderMark.isPrefixOf bs then ofUtf8 (bs.drop 3)
  else ofUtf8 bs

/-- Bytes of ASCII spell the same text in both encodings. -/
theorem ofUtf8_eq_ofAscii (bs : List UInt8) (h : ∀ b ∈ bs, b.toNat < 0x80) :
    ofUtf8 bs = ofAscii bs := by
  induction bs with
  | nil => rfl
  | cons b rest ih =>
      have hb : b.toNat < 128 := h b List.mem_cons_self
      have hrest : ofUtf8Behind none rest = ofAscii rest :=
        ih fun c hc => h c (List.mem_cons_of_mem b hc)
      have hlead : leadByte b.toNat = ([Char.ofNat b.toNat], none) := if_pos hb
      rw [ofUtf8, ofUtf8Behind, nextByte, hlead, ofAscii, List.map_cons, if_pos hb]
      exact congrArg (Char.ofNat b.toNat :: ·) hrest

end Text

end LineBasic
