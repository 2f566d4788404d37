import LineBasic.Proofs.Number.Respelling
import Mathlib.Data.Nat.Digits.Defs

/-!
# The texts that spell a number

`Spells cs x` says what a person writes for a number: digits with an optional point and an optional
exponent, or a name of infinity or of the absent number, a sign in front and white space around. It
is a grammar and says nothing of how a text is read. The reader accepts the texts of this grammar,
with the same value, and no others.
-/

namespace LineBasic

namespace Number

/-- Digits of any script, with at most a single underscore between two of them, and the values of
the digits. -/
inductive Digits : List Char → List Nat → Prop where
  | last {c : Char} {d : Nat} (hc : Text.scriptDigit? c = some d) : Digits [c] [d]
  | cons {c : Char} {d : Nat} {cs : List Char} {ds : List Nat} (hc : Text.scriptDigit? c = some d)
      (h : Digits cs ds) : Digits (c :: cs) (d :: ds)
  | spaced {c : Char} {d : Nat} {cs : List Char} {ds : List Nat}
      (hc : Text.scriptDigit? c = some d) (h : Digits cs ds) : Digits (c :: '_' :: cs) (d :: ds)

/-- Digits, or nothing. -/
inductive Run : List Char → List Nat → Prop where
  | none : Run [] []
  | digits {cs : List Char} {ds : List Nat} (h : Digits cs ds) : Run cs ds

/-- The number whose decimal digits have the given values, the most significant one first. -/
def ofValues (ds : List Nat) : Nat :=
  Nat.ofDigits 10 ds.reverse

/-- A sign or none, and whether it makes the number negative. -/
inductive IsSign : List Char → Bool → Prop where
  | none : IsSign [] false
  | plus : IsSign ['+'] false
  | minus : IsSign ['-'] true

/-- The exponent behind the digits of a number. -/
inductive Exponent : List Char → Int → Prop where
  | none : Exponent [] 0
  | marked {mark : Char} {sign cs : List Char} {negative : Bool} {ds : List Nat}
      (hmark : mark = 'e' ∨ mark = 'E') (hsign : IsSign sign negative) (h : Digits cs ds) :
      Exponent (mark :: (sign ++ cs)) (if negative then -(ofValues ds : Int) else ofValues ds)

/-- A number without its sign: a name of infinity or of the absent number, or digits with an
optional point and an optional exponent. -/
inductive Magnitude : List Char → Float → Prop where
  | infinite {cs : List Char}
      (h : cs.map Char.toLower ∈ ["inf".toList, "infinity".toList]) : Magnitude cs (1.0 / 0.0)
  | absent {cs : List Char} (h : cs.map Char.toLower = "nan".toList) : Magnitude cs (0.0 / 0.0)
  | whole {ws es : List Char} {whole : List Nat} {e : Int} (hw : Digits ws whole)
      (he : Exponent es e) : Magnitude (ws ++ es) (nearest (ofValues whole) e)
  | pointed {ws ps es : List Char} {whole places : List Nat} {e : Int} (hw : Run ws whole)
      (hp : Run ps places) (hne : whole ++ places ≠ []) (he : Exponent es e) :
      Magnitude (ws ++ '.' :: (ps ++ es))
        (nearest (ofValues (whole ++ places)) (e - places.length))

/-- The text spells the number: there is white space around it, perhaps a sign in front, and its
magnitude. -/
inductive Spells : List Char → Float → Prop where
  | intro {front sign cs back : List Char} {negative : Bool} {x : Float}
      (hfront : ∀ c ∈ front, isPadding c = true) (hsign : IsSign sign negative)
      (h : Magnitude cs x) (hback : ∀ c ∈ back, isPadding c = true) :
      Spells (front ++ (sign ++ cs ++ back)) (if negative then -x else x)

variable {after : Bool} {c : Char} {cs bs : List Char}

/-! ## Digits -/

theorem ofDigits_eq (bs : List Char) : Text.ofDigits bs = ofValues (bs.map Text.digitValue) := by
  induction bs using List.reverseRecOn with
  | nil => rfl
  | append_singleton bs b ih =>
      rw [Text.ofDigits, List.foldl_append, ← Text.ofDigits, ih, ofValues, ofValues,
        List.map_append, List.reverse_append, List.map_singleton, List.reverse_singleton,
        List.singleton_append, Nat.ofDigits_cons, Nat.add_comm]
      rfl

theorem Digits.exists_cons {ds : List Nat} (h : Digits cs ds) :
    ∃ c rest, cs = c :: rest ∧ (plain c).isDigit = true := by
  cases h with
  | last hc | cons hc _ | spaced hc _ =>
      exact ⟨_, _, rfl, (scriptDigit?_eq_some_iff.mp hc).1⟩

/-- Digits are respelled in front of whatever follows. -/
theorem Digits.bare {ds : List Nat} (h : Digits cs ds) :
    ∃ bs, bs ≠ [] ∧ (∀ b ∈ bs, b.isDigit = true) ∧ bs.map Text.digitValue = ds ∧
      ∀ after rest, bare? after (cs ++ rest) = (bare? true rest).map (bs ++ ·) := by
  induction h with
  | @last c d hc =>
      obtain ⟨hdigit, rfl⟩ := scriptDigit?_eq_some_iff.mp hc
      refine ⟨[plain c], List.cons_ne_nil _ _, by simpa using hdigit, rfl, fun after rest => ?_⟩
      rw [List.singleton_append, bare?_digit hdigit]
      rfl
  | @cons c d cs ds hc _ ih =>
      obtain ⟨hdigit, rfl⟩ := scriptDigit?_eq_some_iff.mp hc
      obtain ⟨bs, -, hbs, rfl, hbare⟩ := ih
      refine ⟨plain c :: bs, List.cons_ne_nil _ _, List.forall_mem_cons.mpr ⟨hdigit, hbs⟩, rfl,
        fun after rest => ?_⟩
      rw [List.cons_append, bare?_digit hdigit, hbare, Option.map_map]
      rfl
  | @spaced c d cs ds hc h ih =>
      obtain ⟨hdigit, rfl⟩ := scriptDigit?_eq_some_iff.mp hc
      obtain ⟨c', rest', rfl, hdigit'⟩ := h.exists_cons
      obtain ⟨bs, -, hbs, rfl, hbare⟩ := ih
      refine ⟨plain c :: bs, List.cons_ne_nil _ _, List.forall_mem_cons.mpr ⟨hdigit, hbs⟩, rfl,
        fun after rest => ?_⟩
      have hskip :
          bare? true ('_' :: c' :: (rest' ++ rest)) = bare? true (c' :: rest' ++ rest) := by
        rw [bare?_underscore hdigit', List.cons_append, bare?_digit hdigit']
      rw [List.cons_append, List.cons_append, List.cons_append, bare?_digit hdigit, hskip, hbare,
        Option.map_map]
      rfl

/-- The digits at the front of what a text is respelled as come from digits at its front, or from
digits behind an underscore if there is a digit in front of the text. -/
theorem exists_digits (h : bare? after cs = some bs) :
    ∃ ws rest, cs = ws ++ rest ∧ (∀ after', bare? after' rest = some (bs.dropWhile Char.isDigit)) ∧
      (Run ws ((bs.takeWhile Char.isDigit).map Text.digitValue) ∨
        after = true ∧ ∃ ws', ws = '_' :: ws' ∧
          Digits ws' ((bs.takeWhile Char.isDigit).map Text.digitValue)) := by
  -- An underscore comes up in front only behind a digit, which takes it into its own digits.
  induction cs generalizing after bs with
  | nil =>
      cases h
      exact ⟨[], [], rfl, fun _ => rfl, .inl .none⟩
  | cons c cs ih =>
      by_cases hc : c = '_'
      · subst hc
        obtain ⟨rfl, d, rest', ds, rfl, hd, rfl, hds⟩ := digit_of_underscore h
        have hbehind : bare? true (d :: rest') = some (plain d :: ds) := by
          rw [bare?_digit hd, hds]
          rfl
        obtain ⟨ws, rest, hcs, hrest, hws⟩ := ih hbehind
        refine ⟨'_' :: ws, rest, congrArg _ hcs, hrest, .inr ⟨rfl, ws, rfl, ?_⟩⟩
        rw [List.takeWhile_cons_of_pos hd, List.map_cons] at hws ⊢
        rcases hws with hws | ⟨-, ws', rfl, -⟩
        · cases hws with
          | digits h => exact h
        · rw [List.cons_append] at hcs
          cases hcs
          exact absurd rfl (ne_underscore_of_isDigit hd)
      · rw [bare?_cons hc] at h
        obtain ⟨bs, hbs, rfl⟩ := Option.map_eq_some_iff.mp h
        cases hdigit : (plain c).isDigit with
        | false =>
            refine ⟨[], c :: cs, rfl, fun after' => ?_, .inl ?_⟩
            · rw [List.dropWhile_cons_of_neg (by simp [hdigit]), bare?_cons hc, hbs]
              rfl
            · rw [List.takeWhile_cons_of_neg (by simp [hdigit])]
              exact .none
        | true =>
            have hvalue := scriptDigit?_eq_some_iff.mpr ⟨hdigit, rfl⟩
            obtain ⟨ws, rest, rfl, hrest, hws⟩ := ih hbs
            refine ⟨c :: ws, rest, rfl, ?_, .inl (.digits ?_)⟩
            · rwa [List.dropWhile_cons_of_pos hdigit]
            · rw [List.takeWhile_cons_of_pos hdigit, List.map_cons]
              generalize (bs.takeWhile Char.isDigit).map Text.digitValue = ds at hws ⊢
              rcases hws with (_ | hds) | ⟨-, ws', rfl, hds⟩
              · exact .last hvalue
              · exact .cons hvalue hds
              · exact .spaced hvalue hds

theorem exists_run (h : bare? false cs = some bs) :
    ∃ ws rest, cs = ws ++ rest ∧ (∀ after, bare? after rest = some (bs.dropWhile Char.isDigit)) ∧
      Run ws ((bs.takeWhile Char.isDigit).map Text.digitValue) := by
  obtain ⟨ws, rest, hcs, hrest, hws | ⟨hafter, -⟩⟩ := exists_digits h
  · exact ⟨ws, rest, hcs, hrest, hws⟩
  · cases hafter

theorem Run.digits_of_ne_nil {ds : List Nat} (h : Run cs ds) (hne : ds ≠ []) : Digits cs ds := by
  cases h with
  | none => exact absurd rfl hne
  | digits h => exact h

theorem Run.bare {ds : List Nat} (h : Run cs ds) :
    ∃ bs, (∀ b ∈ bs, b.isDigit = true) ∧ bs.map Text.digitValue = ds ∧
      ∀ rest bs', (∀ after, bare? after rest = some bs') →
        ∀ after, bare? after (cs ++ rest) = some (bs ++ bs') := by
  cases h with
  | none => exact ⟨[], List.forall_mem_nil _, rfl, fun rest bs' h => h⟩
  | digits h =>
      obtain ⟨bs, -, hbs, hvalues, hbare⟩ := h.bare
      refine ⟨bs, hbs, hvalues, fun rest bs' h after => ?_⟩
      rw [hbare, h]
      rfl

/-- How a text is read: what stands around it is dropped, it is respelled, and a magnitude is left
behind its sign. -/
theorem ofText?_eq_some {x : Float} :
    ofText? cs = some x ↔
      (∀ c ∈ cs, (plainChar? c).isSome = true) ∧ ∃ bs y,
        bare? false (Text.stripBy isPadding cs) = some bs ∧
          magnitude? (takeSign bs).2 = some y ∧ (if (takeSign bs).1 then -y else y) = x := by
  simp only [ofText?, Option.bind_eq_bind, Option.bind_eq_some_iff, plainText?_eq_some_iff]
  constructor
  · rintro ⟨_, ⟨hcs, rfl⟩, bs, hbs, y, hy, hx⟩
    rw [stripBy_map_plain] at hbs
    exact ⟨hcs, bs, y, hbs, hy, Option.some.inj hx⟩
  · rintro ⟨hcs, bs, y, hbs, hy, hx⟩
    exact ⟨_, ⟨hcs, rfl⟩, bs, (stripBy_map_plain cs).symm ▸ hbs, y, hy, congrArg some hx⟩

/-! ## What is read is spelled -/

/-- A sign comes from the same sign. -/
theorem exists_sign (h : bare? false cs = some bs) :
    ∃ sign rest, cs = sign ++ rest ∧ IsSign sign (takeSign bs).1 ∧
      bare? false rest = some (takeSign bs).2 := by
  fun_cases takeSign bs with
  | case1 bs =>
      obtain ⟨rest, rfl, hrest⟩ := eq_cons_of_bare h rfl (by decide)
      exact ⟨['-'], rest, rfl, .minus, hrest⟩
  | case2 bs =>
      obtain ⟨rest, rfl, hrest⟩ := eq_cons_of_bare h rfl (by decide)
      exact ⟨['+'], rest, rfl, .plus, hrest⟩
  | case3 => exact ⟨[], cs, rfl, .none, h⟩

/-- Digits alone come from digits. -/
theorem digits_of_bare (h : bare? false cs = some bs) (hne : bs ≠ [])
    (hbs : ∀ b ∈ bs, b.isDigit = true) : Digits cs (bs.map Text.digitValue) := by
  obtain ⟨ws, rest, rfl, hrest, hws⟩ := exists_run h
  rw [List.dropWhile_eq_nil_iff.mpr hbs] at hrest
  rw [List.takeWhile_eq_self_iff.mpr hbs] at hws
  rw [eq_nil_of_bare (hrest false), List.append_nil]
  exact hws.digits_of_ne_nil (mt List.map_eq_nil_iff.mp hne)

theorem Exponent.of_bare {e : Int} (h : bare? after cs = some bs) (he : exponent? bs = some e) :
    Exponent cs e := by
  cases bs with
  | nil =>
      cases he
      exact eq_nil_of_bare h ▸ .none
  | cons mark bs =>
      rw [exponent?] at he
      split at he
      case isFalse => cases he
      case isTrue hmark =>
        have hmark : mark = 'e' ∨ mark = 'E' := by simpa using hmark
        obtain ⟨rest, rfl, hrest⟩ := eq_cons_of_bare h
          (by rcases hmark with rfl | rfl <;> rfl) (by rcases hmark with rfl | rfl <;> decide)
        obtain ⟨sign, digits, rfl, hsign, hdigits⟩ := exists_sign hrest
        dsimp only at he
        split at he
        case isTrue => cases he
        case isFalse hall =>
          obtain ⟨hne, hall⟩ : (takeSign bs).2 ≠ [] ∧ ∀ b ∈ (takeSign bs).2, b.isDigit = true := by
            simpa using hall
          rw [← Option.some.inj he, ofDigits_eq]
          exact .marked hmark hsign (digits_of_bare hdigits hne hall)

theorem takeFraction_of_point (h : cs.dropWhile Char.isDigit = '.' :: bs) :
    takeFraction cs =
      (cs.takeWhile Char.isDigit, bs.takeWhile Char.isDigit, bs.dropWhile Char.isDigit) := by
  rw [takeFraction, h]
  rfl

theorem takeFraction_of_no_point (h : ∀ rest, cs.dropWhile Char.isDigit ≠ '.' :: rest) :
    takeFraction cs = (cs.takeWhile Char.isDigit, [], cs.dropWhile Char.isDigit) := by
  rw [takeFraction]
  split
  · exact absurd ‹_› (h _)
  · rfl

/-- A name of infinity or of the absent number is made of letters. -/
theorem isAlpha_of_word
    (h : cs.map Char.toLower ∈ ["inf".toList, "infinity".toList, "nan".toList]) :
    ∀ c ∈ cs, c.isAlpha = true := by
  have hlower : ∀ word ∈ ["inf".toList, "infinity".toList, "nan".toList],
      ∀ c ∈ word, c.isLower = true := by simp
  intro c hc
  rw [← Char.isLower_toLower_eq_isAlpha]
  exact hlower _ h _ (List.mem_map_of_mem hc)

/-- What a magnitude is read as: a name, or digits with an exponent. -/
theorem of_magnitude? {x : Float} (h : magnitude? cs = some x) :
    cs.map Char.toLower ∈ ["inf".toList, "infinity".toList] ∧ x = 1.0 / 0.0 ∨
      cs.map Char.toLower = "nan".toList ∧ x = 0.0 / 0.0 ∨
      ∃ whole places rest e, takeFraction cs = (whole, places, rest) ∧ whole ++ places ≠ [] ∧
        exponent? rest = some e ∧
        x = nearest (ofValues ((whole ++ places).map Text.digitValue)) (e - places.length) := by
  rw [magnitude?] at h
  dsimp only at h
  by_cases hinfinite : cs.map Char.toLower = "inf".toList ∨ cs.map Char.toLower = "infinity".toList
  · rw [if_pos hinfinite] at h
    exact .inl ⟨by simpa using hinfinite, (Option.some.inj h).symm⟩
  rw [if_neg hinfinite] at h
  by_cases habsent : cs.map Char.toLower = "nan".toList
  · rw [if_pos habsent] at h
    exact .inr (.inl ⟨habsent, (Option.some.inj h).symm⟩)
  rw [if_neg habsent] at h
  rcases hfraction : takeFraction cs with ⟨whole, places, rest⟩
  rw [hfraction] at h
  dsimp only at h
  split at h
  case isTrue => cases h
  case isFalse hne =>
    obtain ⟨e, he, rfl⟩ := Option.map_eq_some_iff.mp h
    exact .inr (.inr ⟨whole, places, rest, e, rfl, by simpa using hne, he, by rw [ofDigits_eq]⟩)

theorem Magnitude.of_bare {x : Float} (h : bare? false cs = some bs) (hx : magnitude? bs = some x) :
    Magnitude cs x := by
  obtain ⟨hword, rfl⟩ | ⟨hword, rfl⟩ | ⟨whole, places, rest, e, hfraction, hne, he, rfl⟩ :=
    of_magnitude? hx
  · have hletters := isAlpha_of_word (List.mem_append_left ["nan".toList] hword)
    rw [eq_of_bare_of_isAlpha h hletters]
    exact .infinite hword
  · rw [eq_of_bare_of_isAlpha h (isAlpha_of_word (by simp [hword]))]
    exact .absent hword
  · obtain ⟨ws, cs, rfl, hcs, hws⟩ := exists_run h
    have hne : whole.map Text.digitValue ++ places.map Text.digitValue ≠ [] := by
      simpa using hne
    by_cases hpoint : ∃ bs', bs.dropWhile Char.isDigit = '.' :: bs'
    · obtain ⟨bs', hbs'⟩ := hpoint
      rw [takeFraction_of_point hbs'] at hfraction
      cases hfraction
      rw [hbs'] at hcs
      obtain ⟨cs, rfl, hbehind⟩ := eq_cons_of_bare (hcs false) rfl (by decide)
      obtain ⟨ps, es, rfl, hes, hps⟩ := exists_run hbehind
      have hpointed := Magnitude.pointed hws hps hne (.of_bare (hes false) he)
      rwa [List.length_map, ← List.map_append] at hpointed
    · rw [takeFraction_of_no_point (not_exists.mp hpoint)] at hfraction
      cases hfraction
      rw [List.map_nil, List.append_nil] at hne
      rw [List.append_nil, List.length_nil, Int.natCast_zero, Int.sub_zero]
      exact .whole (hws.digits_of_ne_nil hne) (.of_bare (hcs false) he)

/-- What is cut off both ends is in the class. -/
theorem exists_strip (p : Char → Bool) (cs : List Char) :
    ∃ front back, cs = front ++ (Text.stripBy p cs ++ back) ∧ (∀ c ∈ front, p c = true) ∧
      ∀ c ∈ back, p c = true := by
  obtain ⟨back, hcut, hback⟩ := Text.exists_eq_dropEnd_append p (cs.dropWhile p)
  refine ⟨cs.takeWhile p, back, ?_, fun c hc => List.mem_takeWhile_imp hc, hback⟩
  rw [Text.stripBy, ← hcut, List.takeWhile_append_dropWhile]

/-- Only spelled numbers are read. -/
theorem spells_of_ofText? {x : Float} (h : ofText? cs = some x) : Spells cs x := by
  obtain ⟨-, bs, y, hbs, hy, rfl⟩ := ofText?_eq_some.mp h
  obtain ⟨front, back, hcs, hfront, hback⟩ := exists_strip isPadding cs
  obtain ⟨sign, rest, hmid, hsign, hrest⟩ := exists_sign hbs
  rw [hcs, hmid]
  exact .intro hfront hsign (.of_bare hrest hy) hback

/-! ## What is spelled is read -/

/-- A sign is respelled in front of whatever follows. -/
theorem IsSign.bare {sign : List Char} {negative : Bool} (h : IsSign sign negative)
    (hcs : bare? false cs = some bs) : bare? false (sign ++ cs) = some (sign ++ bs) := by
  cases h with
  | none => exact hcs
  | plus => exact bare?_cons_kept (by decide) rfl (by decide) hcs false
  | minus => exact bare?_cons_kept (by decide) rfl (by decide) hcs false

theorem takeSign_of_head (h : ∀ c ∈ cs.head?, c ≠ '-' ∧ c ≠ '+') : takeSign cs = (false, cs) := by
  fun_cases takeSign cs with
  | case1 => exact absurd rfl (h _ rfl).1
  | case2 => exact absurd rfl (h _ rfl).2
  | case3 => rfl

theorem IsSign.takeSign {sign : List Char} {negative : Bool} (h : IsSign sign negative)
    (hcs : ∀ c ∈ cs.head?, c ≠ '-' ∧ c ≠ '+') : takeSign (sign ++ cs) = (negative, cs) := by
  cases h with
  | none => exact takeSign_of_head hcs
  | plus => rfl
  | minus => rfl

/-- What consists of characters of a class that has no sign does not start with one. -/
theorem ne_sign_of_forall {p : Char → Bool} (hminus : p '-' = false) (hplus : p '+' = false)
    (h : ∀ c ∈ cs, p c = true) : ∀ c ∈ cs.head?, c ≠ '-' ∧ c ≠ '+' := by
  intro c hc
  have hp := h c (List.mem_of_mem_head? hc)
  constructor
  · rintro rfl
    cases hminus.symm.trans hp
  · rintro rfl
    cases hplus.symm.trans hp

/-- An exponent is respelled as one, and neither a digit nor a point is in front. -/
theorem Exponent.bare {e : Int} (h : Exponent cs e) :
    ∃ bs, (∀ after, bare? after cs = some bs) ∧ exponent? bs = some e ∧
      ∀ b ∈ bs.head?, b.isDigit = false ∧ b ≠ '.' := by
  cases h with
  | none => exact ⟨[], fun _ => rfl, rfl, fun b hb => nomatch hb⟩
  | @marked mark sign cs negative ds hmark hsign h =>
      obtain ⟨bs, hne, hbs, rfl, hbare⟩ := h.bare
      have hcs : bare? false cs = some bs := by
        rw [← List.append_nil cs, hbare]
        exact congrArg some (List.append_nil bs)
      refine ⟨mark :: (sign ++ bs), bare?_cons_kept ?_ ?_ ?_ (hsign.bare hcs), ?_, ?_⟩
      · rcases hmark with rfl | rfl <;> decide
      · rcases hmark with rfl | rfl <;> rfl
      · rcases hmark with rfl | rfl <;> decide
      · have hdigits := hsign.takeSign (ne_sign_of_forall rfl rfl hbs)
        rw [exponent?, if_pos (by simpa using hmark), hdigits]
        dsimp only
        rw [if_neg (by simpa [hne] using hbs), ofDigits_eq]
      · intro b hb
        cases hb
        rcases hmark with rfl | rfl <;> decide

theorem magnitude?_of_fraction {whole places rest : List Char} {e : Int}
    (h : takeFraction cs = (whole, places, rest)) (hne : whole ++ places ≠ [])
    (he : exponent? rest = some e) (hletters : ¬ ∀ c ∈ cs, c.isAlpha = true) :
    magnitude? cs = some
      (nearest (ofValues ((whole ++ places).map Text.digitValue)) (e - places.length)) := by
  have hword (word : List Char) (hmem : word ∈ ["inf".toList, "infinity".toList, "nan".toList]) :
      cs.map Char.toLower ≠ word :=
    fun heq => hletters (isAlpha_of_word (heq ▸ hmem))
  rw [magnitude?]
  dsimp only
  rw [if_neg (not_or.mpr ⟨hword _ (by simp), hword _ (by simp)⟩), if_neg (hword _ (by simp)), h]
  dsimp only
  rw [if_neg (by simpa using hne), he, ofDigits_eq]
  rfl

/-- The digits in front of something else. -/
theorem takeWhile_digits {ds rest : List Char} (h : ∀ c ∈ ds, c.isDigit = true)
    (hrest : ∀ c ∈ rest.head?, c.isDigit = false) :
    (ds ++ rest).takeWhile Char.isDigit = ds ∧ (ds ++ rest).dropWhile Char.isDigit = rest := by
  rw [List.takeWhile_append_of_pos h, List.dropWhile_append_of_pos h,
    Text.takeWhile_of_head hrest, Text.dropWhile_of_head hrest, List.append_nil]
  exact ⟨rfl, rfl⟩

/-- A magnitude is respelled as one, and no sign is in front. -/
theorem Magnitude.bare {x : Float} (h : Magnitude cs x) :
    ∃ bs, (∀ after, bare? after cs = some bs) ∧ magnitude? bs = some x ∧
      ∀ c ∈ bs.head?, c ≠ '-' ∧ c ≠ '+' := by
  cases h with
  | infinite h =>
      have hletters := isAlpha_of_word (List.mem_append_left ["nan".toList] h)
      refine ⟨cs, bare?_of_letters hletters, ?_, ne_sign_of_forall rfl rfl hletters⟩
      rw [magnitude?]
      dsimp only
      rw [if_pos (by simpa using h)]
  | absent h =>
      have hletters : ∀ c ∈ cs, c.isAlpha = true := isAlpha_of_word (by simp [h])
      refine ⟨cs, bare?_of_letters hletters, ?_, ne_sign_of_forall rfl rfl hletters⟩
      rw [magnitude?]
      dsimp only
      rw [if_neg (by simp [h]), if_pos h]
  | whole hw he =>
      obtain ⟨ws, hne, hdigits, rfl, hws⟩ := hw.bare
      obtain ⟨es, hes, hexponent, hhead⟩ := he.bare
      obtain ⟨htake, hdrop⟩ := takeWhile_digits hdigits fun c hc => (hhead c hc).1
      have hfraction : takeFraction (ws ++ es) = (ws, [], es) := by
        rw [takeFraction_of_no_point, htake, hdrop]
        rw [hdrop]
        rintro rest rfl
        exact (hhead _ rfl).2 rfl
      refine ⟨ws ++ es, fun after => ?_, ?_, ?_⟩
      · rw [hws, hes]
        rfl
      · rw [magnitude?_of_fraction hfraction (by simpa using hne) hexponent, List.append_nil,
          List.length_nil, Int.natCast_zero, Int.sub_zero]
        obtain ⟨c, hc⟩ := List.exists_mem_of_ne_nil ws hne
        intro hletters
        cases (hdigits c hc).symm.trans (of_isAlpha (hletters c (List.mem_append_left _ hc))).2.1
      · rw [List.head?_append_of_ne_nil _ hne]
        exact ne_sign_of_forall rfl rfl hdigits
  | pointed hw hp hne he =>
      obtain ⟨ws, hdigits, rfl, hws⟩ := hw.bare
      obtain ⟨ps, hplaces, rfl, hps⟩ := hp.bare
      obtain ⟨es, hes, hexponent, hhead⟩ := he.bare
      have hpoint (after : Bool) : bare? after ('.' :: _) = some ('.' :: (ps ++ es)) :=
        bare?_cons_kept (by decide) rfl (by decide) (hps _ _ hes false) after
      have hmark : ∀ c ∈ ('.' :: (ps ++ es)).head?, c.isDigit = false := by
        intro c hc
        cases hc
        rfl
      obtain ⟨hfront, hdrop⟩ := takeWhile_digits hdigits hmark
      obtain ⟨htake, hrest⟩ := takeWhile_digits hplaces fun c hc => (hhead c hc).1
      have hfraction : takeFraction (ws ++ '.' :: (ps ++ es)) = (ws, ps, es) := by
        rw [takeFraction_of_point hdrop, hfront, htake, hrest]
      refine ⟨_, hws _ _ hpoint, ?_, ?_⟩
      · rw [magnitude?_of_fraction hfraction (by simpa using hne) hexponent, List.map_append,
          List.length_map]
        intro hletters
        cases hletters '.' (List.mem_append_right _ List.mem_cons_self)
      · cases ws with
        | nil =>
            intro c hc
            cases hc
            decide
        | cons d ds =>
            exact fun c hc => ne_sign_of_forall rfl rfl hdigits c hc

/-- A character that a number can have and that is not dropped around it. -/
def IsBody (c : Char) : Prop :=
  (plainChar? c).isSome = true ∧ isPadding c = false

theorem isBody_of_scriptDigit? {d : Nat} (h : Text.scriptDigit? c = some d) : IsBody c := by
  have hspace := not_isSpace_of_scriptDigit? h
  refine ⟨?_, by rw [isPadding, hspace, Bool.false_and]⟩
  rw [plainChar?, hspace, h]
  split <;> rfl

theorem isBody_of_lt (hlt : c.toNat < 127) (hspace : Text.isSpace c = false) : IsBody c :=
  ⟨by rw [plainChar?, if_pos hlt]; rfl, by rw [isPadding, hspace, Bool.false_and]⟩

theorem isBody_of_isAlpha (h : c.isAlpha = true) : IsBody c := by
  have hrange := toNat_of_isAlpha h
  refine isBody_of_lt (by omega) ?_
  simp [Text.isSpace]
  omega

theorem Digits.forall_isBody {ds : List Nat} (h : Digits cs ds) : ∀ c ∈ cs, IsBody c := by
  induction h with
  | last hc => exact List.forall_mem_singleton.mpr (isBody_of_scriptDigit? hc)
  | cons hc _ ih => exact List.forall_mem_cons.mpr ⟨isBody_of_scriptDigit? hc, ih⟩
  | spaced hc _ ih =>
      exact List.forall_mem_cons.mpr ⟨isBody_of_scriptDigit? hc,
        List.forall_mem_cons.mpr ⟨isBody_of_lt (by decide) rfl, ih⟩⟩

theorem Run.forall_isBody {ds : List Nat} (h : Run cs ds) : ∀ c ∈ cs, IsBody c := by
  cases h with
  | none => exact List.forall_mem_nil _
  | digits h => exact h.forall_isBody

theorem IsSign.forall_isBody {negative : Bool} (h : IsSign cs negative) : ∀ c ∈ cs, IsBody c := by
  cases h with
  | none => exact List.forall_mem_nil _
  | plus => exact List.forall_mem_singleton.mpr (isBody_of_lt (by decide) rfl)
  | minus => exact List.forall_mem_singleton.mpr (isBody_of_lt (by decide) rfl)

theorem Exponent.forall_isBody {e : Int} (h : Exponent cs e) : ∀ c ∈ cs, IsBody c := by
  cases h with
  | none => exact List.forall_mem_nil _
  | marked hmark hsign h =>
      refine List.forall_mem_cons.mpr ⟨?_, List.forall_mem_append.mpr
        ⟨hsign.forall_isBody, h.forall_isBody⟩⟩
      rcases hmark with rfl | rfl <;> exact isBody_of_lt (by decide) rfl

theorem Magnitude.forall_isBody {x : Float} (h : Magnitude cs x) : ∀ c ∈ cs, IsBody c := by
  cases h with
  | infinite h =>
      exact fun c hc =>
        isBody_of_isAlpha (isAlpha_of_word (List.mem_append_left ["nan".toList] h) c hc)
  | absent h => exact fun c hc => isBody_of_isAlpha (isAlpha_of_word (by simp [h]) c hc)
  | whole hw he => exact List.forall_mem_append.mpr ⟨hw.forall_isBody, he.forall_isBody⟩
  | pointed hw hp _ he =>
      exact List.forall_mem_append.mpr ⟨hw.forall_isBody, List.forall_mem_cons.mpr
        ⟨isBody_of_lt (by decide) rfl, List.forall_mem_append.mpr
          ⟨hp.forall_isBody, he.forall_isBody⟩⟩⟩

/-- White space around a text that has none at its ends is dropped. -/
theorem stripBy_append {p : Char → Bool} {front back : List Char} (hfront : ∀ c ∈ front, p c = true)
    (hne : cs ≠ []) (hcs : ∀ c ∈ cs, p c = false) (hback : ∀ c ∈ back, p c = true) :
    Text.stripBy p (front ++ (cs ++ back)) = cs := by
  have hhead : ∀ c ∈ (cs ++ back).head?, p c = false := by
    rw [List.head?_append_of_ne_nil _ hne]
    exact fun c hc => hcs c (List.mem_of_mem_head? hc)
  have hlast : cs.getLast hne ∈ cs.getLast? := List.getLast?_eq_getLast_of_ne_nil hne
  rw [Text.stripBy, List.dropWhile_append_of_pos hfront, Text.dropWhile_of_head hhead,
    Text.dropEnd_append ⟨_, hlast, hcs _ (List.getLast_mem hne)⟩, Text.dropEnd,
    List.dropWhile_eq_nil_iff.mpr fun c hc => hback c (List.mem_reverse.mp hc), List.reverse_nil,
    List.append_nil]

theorem Magnitude.ne_nil {x : Float} (h : Magnitude cs x) : cs ≠ [] := by
  rintro rfl
  obtain ⟨bs, hbs, hx, -⟩ := h.bare
  cases hbs false
  cases hx

theorem isSome_plainChar?_of_isPadding (h : isPadding c = true) :
    (plainChar? c).isSome = true := by
  rw [plainChar?, (Bool.and_eq_true_iff.mp h).1]
  split <;> rfl

/-- What is spelled is read. -/
theorem ofText?_of_spells {x : Float} (h : Spells cs x) : ofText? cs = some x := by
  obtain @⟨front, sign, cs, back, negative, x, hfront, hsign, h, hback⟩ := h
  have hbody : ∀ c ∈ sign ++ cs, IsBody c :=
    List.forall_mem_append.mpr ⟨hsign.forall_isBody, h.forall_isBody⟩
  have hne : sign ++ cs ≠ [] := List.append_ne_nil_of_right_ne_nil _ h.ne_nil
  obtain ⟨bs, hbs, hx, hhead⟩ := h.bare
  refine ofText?_eq_some.mpr ⟨?_, sign ++ bs, x, ?_, ?_, ?_⟩
  · simp only [List.forall_mem_append]
    exact ⟨fun c hc => isSome_plainChar?_of_isPadding (hfront c hc),
      List.forall_mem_append.mp fun c hc => (hbody c hc).1,
      fun c hc => isSome_plainChar?_of_isPadding (hback c hc)⟩
  · rw [stripBy_append hfront hne (fun c hc => (hbody c hc).2) hback]
    exact hsign.bare (hbs false)
  · rw [hsign.takeSign hhead]
    exact hx
  · rw [hsign.takeSign hhead]

/-- A text is read as the number that it spells, and only such a text is read. -/
theorem ofText?_eq_some_iff {x : Float} : ofText? cs = some x ↔ Spells cs x :=
  ⟨spells_of_ofText?, ofText?_of_spells⟩

end Number

end LineBasic
