import LineBasic.Number.Literal
import LineBasic.Proofs.Token.Lexing

/-!
# Numbers respelled

Before a number is read, its digits are respelled as those of ASCII, its white space as spaces, and
its underscores are dropped. Nothing else is respelled, so what is read tells the text that it comes
from: `plain` does this to a character and `bare?` to a text.
-/

namespace LineBasic

namespace Number

/-- White space that may stand around a number: all but the information separators. -/
def isPadding (c : Char) : Bool :=
  Text.isSpace c && !(28 ≤ c.toNat && c.toNat ≤ 31)

/-! ## Characters -/

theorem isDigit_iff {c : Char} : c.isDigit = true ↔ 48 ≤ c.toNat ∧ c.toNat ≤ 57 :=
  Char.isDigit_iff_toNat

theorem scriptDigit?_of_isDigit {c : Char} (h : c.isDigit = true) :
    Text.scriptDigit? c = some (Text.digitValue c) := by
  obtain ⟨hlow, hhigh⟩ := isDigit_iff.mp h
  have hzeros : Text.scriptZeros = 48 :: Text.scriptZeros.tail := rfl
  rw [Text.scriptDigit?, hzeros, List.find?_cons_of_pos (by simp; omega)]
  rfl

theorem exists_of_scriptDigit? {c : Char} {d : Nat} (h : Text.scriptDigit? c = some d) :
    ∃ z ∈ Text.scriptZeros, d < 10 ∧ c.toNat = z + d := by
  obtain ⟨z, hz, rfl⟩ := Option.map_eq_some_iff.mp h
  have hin := List.find?_some hz
  simp only [Bool.and_eq_true, decide_eq_true_eq] at hin
  exact ⟨z, List.mem_of_find?_eq_some hz, by omega, by omega⟩

/-- No digit is white space. -/
theorem not_isSpace_of_scriptDigit? {c : Char} {d : Nat} (h : Text.scriptDigit? c = some d) :
    Text.isSpace c = false := by
  obtain ⟨z, hz, hd, hc⟩ := exists_of_scriptDigit? h
  -- There are few enough digits to look at each of them.
  have hapart : ∀ z ∈ Text.scriptZeros, ∀ d < 10,
      Text.isSpace (Char.ofNat (z + d)) = false := by decide +kernel
  rw [← Char.ofNat_toNat c, hc]
  exact hapart z hz d hd

theorem isDigit_of_scriptDigit? {c : Char} {d : Nat} (h : Text.scriptDigit? c = some d)
    (hc : c.toNat < 127) : c.isDigit = true := by
  obtain ⟨z, hz, hd, hzc⟩ := exists_of_scriptDigit? h
  have hzeros : ∀ z ∈ Text.scriptZeros, z = 48 ∨ 127 ≤ z := by decide
  rw [isDigit_iff]
  rcases hzeros z hz with rfl | hbig <;> omega

/-- A character as it is respelled. -/
def plain (c : Char) : Char :=
  (plainChar? c).getD c

theorem plain_of_lt {c : Char} (h : c.toNat < 127) : plain c = c := by
  rw [plain, plainChar?, if_pos h]
  rfl

theorem plain_of_le {c : Char} (h : 127 ≤ c.toNat) :
    plain c =
      if Text.isSpace c then ' '
      else ((Text.scriptDigit? c).map fun d => Char.ofNat (48 + d)).getD c := by
  rw [plain, plainChar?, if_neg (Nat.not_lt.mpr h)]
  split <;> rfl

theorem toNat_digit {d : Nat} (h : d < 10) : (Char.ofNat (48 + d)).toNat = 48 + d := by
  revert d
  decide

theorem isDigit_digit {d : Nat} (h : d < 10) : (Char.ofNat (48 + d)).isDigit = true := by
  rw [isDigit_iff, toNat_digit h]
  omega

/-- What is respelled as a digit is a digit, and of the same value. -/
theorem scriptDigit?_eq (c : Char) :
    Text.scriptDigit? c =
      if (plain c).isDigit then some (Text.digitValue (plain c)) else none := by
  cases hd : Text.scriptDigit? c with
  | none =>
      split
      case isFalse => rfl
      case isTrue h =>
        by_cases hc : c.toNat < 127
        · rw [plain_of_lt hc] at h
          cases hd.symm.trans (scriptDigit?_of_isDigit h)
        · rw [plain_of_le (Nat.not_lt.mp hc), hd] at h
          split at h
          · cases h
          · exact absurd (isDigit_iff.mp h) (by dsimp; omega)
  | some d =>
      obtain ⟨-, -, hlt, -⟩ := exists_of_scriptDigit? hd
      by_cases hc : c.toNat < 127
      · have hdigit := isDigit_of_scriptDigit? hd hc
        rw [plain_of_lt hc, if_pos hdigit, ← hd, scriptDigit?_of_isDigit hdigit]
      · have hplain : plain c = Char.ofNat (48 + d) := by
          rw [plain_of_le (Nat.not_lt.mp hc), hd, not_isSpace_of_scriptDigit? hd]
          rfl
        rw [hplain, if_pos (isDigit_digit hlt), Text.digitValue, toNat_digit hlt,
          Nat.add_sub_cancel_left]

theorem scriptDigit?_eq_some_iff {c : Char} {d : Nat} :
    Text.scriptDigit? c = some d ↔ (plain c).isDigit = true ∧ Text.digitValue (plain c) = d := by
  rw [scriptDigit?_eq]
  split
  case isTrue h => simp [h]
  case isFalse h => simp [h]

/-- What is respelled as a space is what may stand around a number. -/
theorem isPlainSpace_plain (c : Char) : isPlainSpace (plain c) = isPadding c := by
  have hspace (c : Char) : isPlainSpace c = true ↔ 9 ≤ c.toNat ∧ c.toNat ≤ 13 ∨ c.toNat = 32 := by
    simp only [isPlainSpace, Bool.or_eq_true, Bool.and_eq_true, decide_eq_true_eq, beq_iff_eq,
      ← Char.toNat_inj]
    rfl
  rw [Bool.eq_iff_iff, hspace, isPadding, Bool.and_eq_true]
  by_cases hc : c.toNat < 127
  · rw [plain_of_lt hc]
    simp [Text.isSpace]
    omega
  · have hc := Nat.not_lt.mp hc
    rw [plain_of_le hc]
    cases hs : Text.isSpace c with
    | true => simp; omega
    | false =>
        cases hd : Text.scriptDigit? c with
        | none => simp; omega
        | some d =>
            obtain ⟨-, -, hlt, -⟩ := exists_of_scriptDigit? hd
            simp [toNat_digit hlt]
            omega

/-- Only digits and white space are respelled. -/
theorem plain_eq_self {c : Char} (hdigit : (plain c).isDigit = false) (hspace : plain c ≠ ' ') :
    plain c = c := by
  by_cases hc : c.toNat < 127
  · exact plain_of_lt hc
  · rw [plain_of_le (Nat.not_lt.mp hc)] at hdigit hspace ⊢
    split
    case isTrue hs => exact absurd (if_pos hs) hspace
    case isFalse hs =>
      cases hd : Text.scriptDigit? c with
      | none => rfl
      | some d =>
          obtain ⟨-, -, hlt, -⟩ := exists_of_scriptDigit? hd
          rw [if_neg hs, hd, Option.map_some, Option.getD_some, isDigit_digit hlt] at hdigit
          cases hdigit

theorem plain_eq_underscore {c : Char} : plain c = '_' ↔ c = '_' := by
  constructor
  · intro h
    rw [← h, plain_eq_self (by rw [h]; rfl) (by rw [h]; decide)]
  · rintro rfl
    exact plain_of_lt (by decide)

theorem ne_underscore_of_isDigit {c : Char} (h : (plain c).isDigit = true) : c ≠ '_' := by
  rintro rfl
  cases h

/-! ## Respelling -/

theorem plainText?_eq_some_iff {cs ps : List Char} :
    plainText? cs = some ps ↔ (∀ c ∈ cs, (plainChar? c).isSome = true) ∧ ps = cs.map plain := by
  unfold plainText?
  induction cs generalizing ps with
  | nil =>
      refine ⟨fun h => ⟨List.forall_mem_nil _, (Option.some.inj h).symm⟩, ?_⟩
      rintro ⟨-, rfl⟩
      rfl
  | cons c cs ih =>
      rw [List.mapM_cons, List.forall_mem_cons, List.map_cons]
      cases hc : plainChar? c with
      | none => exact ⟨fun h => (nomatch h), fun h => (nomatch h.1.1)⟩
      | some p =>
          have hplain : plain c = p := by rw [plain, hc, Option.getD_some]
          simp only [Option.bind_eq_bind, Option.bind_some, Option.bind_eq_some_iff, ih, hplain]
          constructor
          · rintro ⟨_, ⟨hcs, rfl⟩, hps⟩
            cases hps
            exact ⟨⟨rfl, hcs⟩, rfl⟩
          · rintro ⟨⟨-, hcs⟩, rfl⟩
            exact ⟨_, ⟨hcs, rfl⟩, rfl⟩

theorem stripBy_map_plain (cs : List Char) :
    Text.stripBy isPlainSpace (cs.map plain) = (Text.stripBy isPadding cs).map plain := by
  have hspace : isPlainSpace ∘ plain = isPadding := funext isPlainSpace_plain
  simp only [Text.stripBy, Text.dropEnd, List.dropWhile_map, ← List.map_reverse, hspace]

/-- A text as it is respelled, without its underscores; `after` says whether a digit stands in front
of it. -/
def bare? (after : Bool) (cs : List Char) : Option (List Char) :=
  dropUnderscores? after (cs.map plain)

variable {after : Bool} {c : Char} {cs bs : List Char}

theorem bare?_cons (hc : c ≠ '_') (after : Bool) (cs : List Char) :
    bare? after (c :: cs) = (bare? (plain c).isDigit cs).map (plain c :: ·) := by
  rw [bare?, List.map_cons, dropUnderscores?]
  · rfl
  · exact fun h => hc (plain_eq_underscore.mp h)

theorem bare?_digit (hc : (plain c).isDigit = true) (after : Bool) (cs : List Char) :
    bare? after (c :: cs) = (bare? true cs).map (plain c :: ·) := by
  rw [bare?_cons (ne_underscore_of_isDigit hc), hc]

theorem bare?_underscore (hc : (plain c).isDigit = true) (cs : List Char) :
    bare? true ('_' :: c :: cs) = (bare? true cs).map (plain c :: ·) := by
  rw [bare?, List.map_cons, List.map_cons, plain_of_lt (by decide), dropUnderscores?,
    if_pos (by simpa using hc)]
  rfl

/-- An underscore stands between two digits. -/
theorem digit_of_underscore (h : bare? after ('_' :: cs) = some bs) :
    after = true ∧ ∃ c rest ds, cs = c :: rest ∧ (plain c).isDigit = true ∧ bs = plain c :: ds ∧
      bare? true rest = some ds := by
  rw [bare?, List.map_cons, plain_of_lt (by decide)] at h
  cases cs with
  | nil => cases h
  | cons c rest =>
      rw [List.map_cons, dropUnderscores?] at h
      split at h
      case isFalse => cases h
      case isTrue hc =>
        obtain ⟨hafter, hdigit⟩ := Bool.and_eq_true_iff.mp hc
        obtain ⟨ds, hds, rfl⟩ := Option.map_eq_some_iff.mp h
        exact ⟨hafter, c, rest, ds, rfl, hdigit, rfl, hds⟩

/-! ## What is not respelled -/

/-- What is neither a digit nor a space comes from the same character. -/
theorem eq_cons_of_bare {b : Char} {bs : List Char} (h : bare? after cs = some (b :: bs))
    (hdigit : b.isDigit = false) (hspace : b ≠ ' ') :
    ∃ rest, cs = b :: rest ∧ bare? false rest = some bs := by
  cases cs with
  | nil => cases h
  | cons c rest =>
      by_cases hc : c = '_'
      · subst hc
        obtain ⟨-, d, -, ds, -, hd, hds, -⟩ := digit_of_underscore h
        cases hds
        rw [hd] at hdigit
        cases hdigit
      · rw [bare?_cons hc] at h
        obtain ⟨ds, hds, heq⟩ := Option.map_eq_some_iff.mp h
        cases heq
        rw [hdigit] at hds
        exact ⟨rest, congrArg (· :: rest) (plain_eq_self hdigit hspace).symm, hds⟩

theorem eq_nil_of_bare (h : bare? after cs = some []) : cs = [] := by
  cases cs with
  | nil => rfl
  | cons c rest =>
      by_cases hc : c = '_'
      · subst hc
        obtain ⟨-, d, -, ds, -, -, hds, -⟩ := digit_of_underscore h
        cases hds
      · rw [bare?_cons hc] at h
        obtain ⟨ds, -, heq⟩ := Option.map_eq_some_iff.mp h
        cases heq

/-- A plain character that is no digit and no underscore is kept, and there is no digit in front of
the rest then. -/
theorem bare?_cons_kept (hlt : c.toNat < 127) (hdigit : c.isDigit = false) (hc : c ≠ '_')
    (h : bare? false cs = some bs) (after : Bool) : bare? after (c :: cs) = some (c :: bs) := by
  rw [bare?_cons hc, plain_of_lt hlt, hdigit, h]
  rfl

theorem toNat_of_isAlpha (h : c.isAlpha = true) :
    65 ≤ c.toNat ∧ c.toNat ≤ 90 ∨ 97 ≤ c.toNat ∧ c.toNat ≤ 122 := by
  simpa [Char.isAlpha, Char.isUpper, Char.isLower, UInt32.le_iff_toNat_le] using h

theorem of_isAlpha (h : c.isAlpha = true) : c.toNat < 127 ∧ c.isDigit = false ∧ c ≠ '_' := by
  have hrange := toNat_of_isAlpha h
  refine ⟨by omega, ?_, ?_⟩
  · rw [Bool.eq_false_iff, Ne, isDigit_iff]
    omega
  · rintro rfl
    cases h

/-- Letters are kept. -/
theorem bare?_of_letters (h : ∀ c ∈ cs, c.isAlpha = true) (after : Bool) :
    bare? after cs = some cs := by
  induction cs generalizing after with
  | nil => rfl
  | cons c cs ih =>
      obtain ⟨hc, hcs⟩ := List.forall_mem_cons.mp h
      obtain ⟨hlt, hdigit, hne⟩ := of_isAlpha hc
      exact bare?_cons_kept hlt hdigit hne (ih hcs false) after

/-- Letters come from the same letters. -/
theorem eq_of_bare_of_isAlpha (h : bare? after cs = some bs) (hbs : ∀ b ∈ bs, b.isAlpha = true) :
    cs = bs := by
  induction bs generalizing cs after with
  | nil => exact eq_nil_of_bare h
  | cons b bs ih =>
      obtain ⟨hb, hbs⟩ := List.forall_mem_cons.mp hbs
      have hspace : b ≠ ' ' := by
        rintro rfl
        cases hb
      obtain ⟨rest, rfl, hrest⟩ := eq_cons_of_bare h (of_isAlpha hb).2.1 hspace
      rw [ih hrest hbs]

end Number

end LineBasic
