import LineBasic.Proofs.Expr.RoundTrip
import LineBasic.Proofs.Statement.Shape
import LineBasic.Value.Arithmetic

/-!
# Statements are read back from their lexemes

`Statement.lexemes s` are the lexemes of the listing of `s`. In front of the end of a statement they
are read back as `s`, except that a constant `-0` of `DATA`, which is listed without its sign, comes
back as zero. A condition that could take an `ELSE` must not be followed by one.

The readers of statements and branches carry a bound on the nesting of conditions; the count of
lexemes is one, so the induction on the statement uses it.
-/

namespace LineBasic

open Reading

/-- The lexeme of a natural number. -/
def Lexeme.natural (n : Nat) : Lexeme :=
  .number (Number.nearest n 0)

/-- The lexemes of the listing of an expression. -/
def Expr.lexemes (e : Expr) : List Lexeme :=
  e.lexemesAt .disjunction

/-- The lexemes of the listing of a target. -/
def Target.lexemes (t : Target) : List Lexeme :=
  t.toExpr.lexemes

/-- Whether a constant is listed with a minus sign. -/
def Number.listsMinus (x : Float) : Bool :=
  Number.isNegative x && Number.floorMagnitude x != 0

namespace Value

/-- The lexemes of the listing of a constant. -/
def lexemes : Value → List Lexeme
  | number x =>
      let digits := Lexeme.natural (Number.floorMagnitude x)
      if Number.listsMinus x then [.operator .minus, digits] else [digits]
  | text s => [.quote s]

/-- The constant that the listing of a constant stands for. -/
def relisted : Value → Value
  | number x =>
      let y := Number.nearest (Number.floorMagnitude x) 0
      number (if Number.listsMinus x then -y else y)
  | text s => text s

end Value

namespace Statement

/-- Items joined by a mark. -/
def joined {α : Type} (separator : Mark) (item : α → List Lexeme) (as : List α) : List Lexeme :=
  [.mark separator].intercalate (as.map item)

theorem joined_singleton {α : Type} (separator : Mark) (item : α → List Lexeme) (a : α) :
    joined separator item [a] = item a := by
  rw [joined, List.map_singleton, List.intercalate_singleton]

theorem joined_cons_cons {α : Type} (separator : Mark) (item : α → List Lexeme) (a b : α)
    (as : List α) :
    joined separator item (a :: b :: as) =
      item a ++ .mark separator :: joined separator item (b :: as) := by
  rw [joined, joined, List.map_cons, List.map_cons, List.intercalate_cons_cons, List.append_assoc,
    List.singleton_append]

/-- The lexemes of the listing of a statement. -/
def lexemes : Statement → List Lexeme
  | assign target value => target.lexemes ++ .operator .equal :: value.lexemes
  | print items => .keyword .PRINT :: joined .semicolon Expr.lexemes items
  | pause items => .keyword .PAUSE :: joined .semicolon Expr.lexemes items
  | input none target => .keyword .INPUT :: target.lexemes
  | input (some prompt) target =>
      .keyword .INPUT :: (prompt.lexemes ++ .mark .semicolon :: target.lexemes)
  | wait none => [.keyword .WAIT]
  | wait (some duration) => .keyword .WAIT :: duration.lexemes
  | ifThen condition yes =>
      .keyword .IF :: (condition.lexemes ++ .keyword .THEN :: yes.lexemes)
  | ifElse condition yes no =>
      .keyword .IF ::
        (condition.lexemes ++ .keyword .THEN :: (yes.lexemes ++ .keyword .ELSE :: no.lexemes))
  | forLoop name start limit step =>
      .keyword .FOR :: .name name :: .operator .equal ::
        (start.lexemes ++ .keyword .TO :: (limit.lexemes ++
          (step.elim [] fun e => .keyword .STEP :: e.lexemes)))
  | nextLoop name => .keyword .NEXT :: name.toList.map .name
  | goto line => [.keyword .GOTO, .natural line]
  | gosub line => [.keyword .GOSUB, .natural line]
  | returnSub => [.keyword .RETURN]
  | endProgram => [.keyword .END]
  | remark text => [.keyword .REM, .remark text]
  | data items => .keyword .DATA :: joined .comma Value.lexemes items
  | readInto targets => .keyword .READ :: joined .comma Target.lexemes targets
  | restore line => .keyword .RESTORE :: line.toList.map .natural
  | poke address bytes =>
      .keyword .POKE :: (address.lexemes ++ .mark .comma :: joined .comma Expr.lexemes bytes)
  | call address => .keyword .CALL :: address.lexemes
  | dim name size length =>
      .keyword .DIM :: .name name :: .mark .leftParen :: .natural size :: .mark .rightParen ::
        (length.elim [] fun n => [.operator .times, .natural n])

/-- The statement starts with a keyword of its own and is not a condition. -/
def isPlain : Statement → Bool
  | assign _ _ => false
  | ifThen _ _ => false
  | ifElse _ _ _ => false
  | _ => true

/-- The statement that the listing of a statement stands for. -/
def relisted : Statement → Statement
  | data items => data (items.map Value.relisted)
  | s => s

theorem relisted_of_isData {s : Statement} (h : s.isData = false) : s.relisted = s := by
  cases s <;> first | rfl | cases h

end Statement

/-! ## Numbers, expressions, targets and constants -/

/-- A literal is the number that its integer is read as. -/
theorem Number.IsLiteral.nearest {x : Float} (h : Number.IsLiteral x) :
    Number.nearest (Number.floorMagnitude x) 0 = x :=
  Number.nearest_floorMagnitude x h.1 h.2

theorem ReadableNatural.isLiteral {n : Nat} (h : ReadableNatural Lexeme.Valid n) :
    Number.IsLiteral (Number.nearest n 0) ∧ Number.floorMagnitude (Number.nearest n 0) = n := by
  obtain ⟨x, hx, rfl⟩ := h
  have hliteral : Number.IsLiteral x := hx
  rw [hliteral.nearest]
  exact ⟨hliteral, rfl⟩

/-- The end of a statement ends every expression in it. -/
theorem Expr.stops_of_atStatementEnd {rest : List Lexeme} (h : atStatementEnd rest = true)
    (place : Level) : Expr.Stops place rest := by
  cases rest with
  | nil => exact Expr.stops_nil place
  | cons l rest =>
      simp only [atStatementEnd, Bool.or_eq_true, decide_eq_true_eq] at h
      rcases h with rfl | rfl
      · exact Expr.stops_cons place rest (by decide) rfl
      · exact Expr.stops_cons place rest (by decide) rfl

theorem after?_of_atStatementEnd {l : Lexeme} {rest : List Lexeme}
    (h : atStatementEnd rest = true) (hcolon : l ≠ .mark .colon) (helse : l ≠ .keyword .ELSE) :
    after? l rest = none := by
  refine after?_eq_none fun l' hl' heq => ?_
  cases rest with
  | nil => cases hl'
  | cons _ rest =>
      cases hl'
      simp only [atStatementEnd, Bool.or_eq_true, decide_eq_true_eq] at h
      rcases h with h | h
      · exact hcolon (heq ▸ h)
      · exact helse (heq ▸ h)

section

variable {P : Lexeme → Prop} {rest : List Lexeme}

theorem Expr.read_lexemes {e : Expr} (he : e.Readable P) (hrest : Expr.Stops .disjunction rest) :
    Expr.read (e.lexemes ++ rest) = .ok (e, rest) :=
  Expr.readAt_lexemesAt .disjunction e he.2 hrest

theorem Target.read_lexemes {t : Target} (ht : t.Readable P)
    (hrest : after? (.mark .leftParen) rest = none) :
    Target.read (t.lexemes ++ rest) = .ok (t, rest) := by
  cases t with
  | scalar n =>
      change Expr.readReference n Expr.room rest = _
      rw [Expr.readReference, hrest]
  | element n index =>
      have hroom : index.roomAt .disjunction ≤ 59 := Nat.le_of_succ_le_succ ht.2
      have hback := (Expr.inRoom_lexemesAt .disjunction index hroom).reads.1
      change Expr.readReference n 60
        (.mark .leftParen :: (index.lexemesAt .disjunction ++ [.mark .rightParen] ++ rest)) = _
      rw [Expr.readReference, after?_cons, List.append_assoc, List.singleton_append]
      simp only [hback.readBracket]

theorem readConstant_lexemes (v : Value) (rest : List Lexeme) :
    Statement.readConstant (v.lexemes ++ rest) = .ok (v.relisted, rest) := by
  cases v with
  | number x =>
      simp only [Value.lexemes, Value.relisted]
      cases Number.listsMinus x <;> rfl
  | text s => rfl

/-- The lexemes of an expression do not start where a statement ends. -/
theorem Expr.atStatementEnd_lexemesAt (place : Level) (e : Expr) (rest : List Lexeme) :
    atStatementEnd (e.lexemesAt place ++ rest) = false := by
  induction e generalizing place rest with
  | unary op operand =>
      rw [lexemesAt, enclosed]
      split
      · rfl
      · cases op <;> rfl
  | binary op left right ih =>
      rw [lexemesAt, enclosed]
      split
      · rfl
      · rw [List.append_assoc]
        exact ih _ _
  | _ => rfl

theorem Expr.lexemes_ne_nil (e : Expr) : e.lexemes ≠ [] := by
  have hderives := (Expr.inRoom_lexemesAt .disjunction e (Nat.le_refl _)).derives
  obtain ⟨l, ls, h, -⟩ := hderives.head
  rw [Expr.lexemes, h]
  exact List.cons_ne_nil _ _

theorem Target.lexemes_ne_nil (t : Target) : t.lexemes ≠ [] :=
  Expr.lexemes_ne_nil _

theorem Value.lexemes_ne_nil (v : Value) : v.lexemes ≠ [] := by
  cases v with
  | number x =>
      simp only [Value.lexemes]
      split <;> exact List.cons_ne_nil _ _
  | text s => exact List.cons_ne_nil _ _

end

namespace Statement

/-- A list has at least as many lexemes as items. -/
theorem length_le_joined {α : Type} (separator : Mark) {item : α → List Lexeme}
    (hitem : ∀ a, item a ≠ []) (as : List α) :
    as.length ≤ (joined separator item as).length := by
  induction as with
  | nil => exact Nat.zero_le _
  | cons a as ih =>
      have hpos : 0 < (item a).length := List.length_pos_iff.mpr (hitem a)
      cases as with
      | nil =>
          rw [joined_singleton]
          exact hpos
      | cons b bs =>
          rw [joined_cons_cons, List.length_append]
          simp only [List.length_cons] at ih ⊢
          omega

theorem exists_joined_cons {α : Type} (separator : Mark) (item : α → List Lexeme) (a : α)
    (as : List α) : ∃ more, joined separator item (a :: as) = item a ++ more := by
  cases as with
  | nil =>
      exact ⟨[], by rw [joined_singleton, List.append_nil]⟩
  | cons b bs => exact ⟨_, joined_cons_cons separator item a b bs⟩

/-! ## Statements other than conditions -/

section

variable {P : Lexeme → Prop} {rest : List Lexeme}

theorem readList_lexemes {separator : Mark} (hparen : separator ≠ .leftParen)
    (hcolon : separator ≠ .colon) {es : List Expr} (hne : es ≠ [])
    (hes : ∀ e ∈ es, e.Readable P) (hend : atStatementEnd rest = true) {count : Nat}
    (hcount : es.length ≤ count) :
    readList separator count (joined separator Expr.lexemes es ++ rest) = .ok (es, rest) := by
  have hsep : after? (.mark separator) rest = none :=
    after?_of_atStatementEnd hend (fun h => hcolon (Lexeme.mark.inj h)) (by simp)
  have hitem : ∀ e ∈ es, Expr.read (e.lexemes ++ rest) = .ok (e, rest) ∧
      ∀ more, Expr.read (e.lexemes ++ .mark separator :: more) =
        .ok (e, .mark separator :: more) := by
    intro e he
    refine ⟨Expr.read_lexemes (hes e he) (Expr.stops_of_atStatementEnd hend _), fun more => ?_⟩
    exact Expr.read_lexemes (hes e he)
      (Expr.stops_cons _ more (fun h => hparen (Lexeme.mark.inj h)) rfl)
  rw [readList]
  exact (separated_intercalate hsep hne hitem hcount).trans (by rw [List.map_id'])

theorem readItems_lexemes {es : List Expr} (hes : ∀ e ∈ es, e.Readable P)
    (hend : atStatementEnd rest = true) :
    readItems (joined .semicolon Expr.lexemes es ++ rest) = .ok (es, rest) := by
  cases es with
  | nil => exact if_pos hend
  | cons e es =>
      have hstart : atStatementEnd (joined .semicolon Expr.lexemes (e :: es) ++ rest) = false := by
        obtain ⟨more, hmore⟩ := exists_joined_cons .semicolon Expr.lexemes e es
        rw [hmore, List.append_assoc]
        exact Expr.atStatementEnd_lexemesAt _ e _
      have hlength := length_le_joined .semicolon Expr.lexemes_ne_nil (e :: es)
      rw [readItems, hstart]
      refine readList_lexemes (by decide) (by decide) (List.cons_ne_nil _ _) hes hend ?_
      rw [List.length_append]
      exact Nat.le_add_right_of_le hlength

theorem readTargets_lexemes {targets : List Target} (hne : targets ≠ [])
    (htargets : ∀ t ∈ targets, t.Readable P) (hend : atStatementEnd rest = true) {count : Nat}
    (hcount : targets.length ≤ count) :
    readTargets count (joined .comma Target.lexemes targets ++ rest) = .ok (targets, rest) := by
  have hsep : after? (.mark .comma) rest = none :=
    after?_of_atStatementEnd hend (by decide) (by decide)
  have hparen : after? (.mark .leftParen) rest = none :=
    after?_of_atStatementEnd hend (by decide) (by decide)
  have hitem : ∀ t ∈ targets, Target.read (t.lexemes ++ rest) = .ok (t, rest) ∧
      ∀ more, Target.read (t.lexemes ++ .mark .comma :: more) = .ok (t, .mark .comma :: more) :=
    fun t ht => ⟨Target.read_lexemes (htargets t ht) hparen,
      fun more => Target.read_lexemes (htargets t ht) rfl⟩
  rw [readTargets]
  exact (separated_intercalate hsep hne hitem hcount).trans (by rw [List.map_id'])

theorem readConstants_lexemes {vs : List Value} (hne : vs ≠ [])
    (hend : atStatementEnd rest = true) {count : Nat} (hcount : vs.length ≤ count) :
    readConstants count (joined .comma Value.lexemes vs ++ rest) =
      .ok (vs.map Value.relisted, rest) := by
  have hsep : after? (.mark .comma) rest = none :=
    after?_of_atStatementEnd hend (by decide) (by decide)
  rw [readConstants]
  exact separated_intercalate hsep hne
    (fun v _ => ⟨readConstant_lexemes v rest, fun more => readConstant_lexemes v _⟩) hcount

theorem readAssign_lexemes {target : Target} {value : Expr}
    (h : (assign target value).Readable P) (hend : atStatementEnd rest = true) :
    readAssign ((assign target value).lexemes ++ rest) = .ok (assign target value, rest) := by
  rw [lexemes, List.append_assoc, List.cons_append, readAssign, Target.read_lexemes h.1 rfl]
  simp only [require_cons, Expr.read_lexemes h.2 (Expr.stops_of_atStatementEnd hend _)]

theorem readInput_lexemes {prompt : Option Expr} {target : Target}
    (h : (input prompt target).Readable P) (hend : atStatementEnd rest = true)
    (start : List Lexeme) :
    readPlain .INPUT ((input prompt target).lexemes.tail ++ rest) start =
      .ok (input prompt target, rest) := by
  obtain ⟨hprompt, htarget⟩ := h
  cases prompt with
  | none =>
      have hsemicolon : after? (.mark .semicolon) rest = none :=
        after?_of_atStatementEnd hend (by decide) (by decide)
      have hread : Expr.read (target.lexemes ++ rest) = .ok (target.toExpr, rest) :=
        Expr.read_lexemes htarget (Expr.stops_of_atStatementEnd hend _)
      change readInput (target.lexemes ++ rest) = _
      rw [readInput, hread]
      simp only [hsemicolon, Target.target?_toExpr]
  | some prompt =>
      have hparen : after? (.mark .leftParen) rest = none :=
        after?_of_atStatementEnd hend (by decide) (by decide)
      have hread : Expr.read (prompt.lexemes ++ .mark .semicolon :: (target.lexemes ++ rest)) =
          .ok (prompt, .mark .semicolon :: (target.lexemes ++ rest)) :=
        Expr.read_lexemes (hprompt prompt rfl) (Expr.stops_cons _ _ (by decide) rfl)
      change readInput ((prompt.lexemes ++ .mark .semicolon :: target.lexemes) ++ rest) = _
      rw [List.append_assoc, List.cons_append, readInput, hread]
      simp only [after?_cons, Target.read_lexemes htarget hparen]

theorem readFor_lexemes {name : Name} {start limit : Expr} {step : Option Expr}
    (h : (forLoop name start limit step).Readable P) (hend : atStatementEnd rest = true) :
    readFor ((forLoop name start limit step).lexemes.tail ++ rest) =
      .ok (forLoop name start limit step, rest) := by
  obtain ⟨⟨-, hkind⟩, hstart, hlimit, hstep⟩ := h
  have hread : ∀ more, Expr.read (start.lexemes ++ .keyword .TO :: more) =
      .ok (start, .keyword .TO :: more) :=
    fun more => Expr.read_lexemes hstart (Expr.stops_cons _ _ (by decide) rfl)
  have hname : ∀ more, requireName .variableName (.name name :: more) = .ok (name, more) :=
    fun _ => rfl
  have hnumeric : ¬ Kind.ofName name = .textual := by rw [hkind]; decide
  rw [lexemes, List.tail_cons, List.cons_append, List.cons_append, List.append_assoc,
    List.cons_append, readFor, hname]
  simp only [if_neg hnumeric, require_cons, hread, List.append_assoc]
  cases step with
  | none =>
      have hnone : after? (.keyword .STEP) rest = none :=
        after?_of_atStatementEnd hend (by decide) (by decide)
      rw [Option.elim_none, List.nil_append,
        Expr.read_lexemes hlimit (Expr.stops_of_atStatementEnd hend _)]
      simp only [readStep, hnone]
  | some step =>
      rw [Option.elim_some, List.cons_append,
        Expr.read_lexemes hlimit (Expr.stops_cons _ _ (by decide) rfl)]
      simp only [readStep, after?_cons,
        Expr.read_lexemes (hstep step rfl) (Expr.stops_of_atStatementEnd hend _)]

theorem readJump_lexemes (f : Nat → Statement) {n : Nat} (h : ReadableNatural Lexeme.Valid n) :
    readJump f (.natural n :: rest) = .ok (f n, rest) := by
  change (.ok (f (Number.floorMagnitude (Number.nearest n 0)), rest) : Reading Statement) = _
  rw [h.isLiteral.2]

theorem readDim_lexemes {name : Name} {size : Nat} {length : Option Nat}
    (h : (dim name size length).Readable Lexeme.Valid) (hend : atStatementEnd rest = true) :
    readDim ((dim name size length).lexemes.tail ++ rest) = .ok (dim name size length, rest) := by
  obtain ⟨-, hsize, hlength⟩ := h
  have hnatural (wanted : Wanted) {n : Nat} (hn : ReadableNatural Lexeme.Valid n)
      (more : List Lexeme) : requireNatural wanted (.natural n :: more) = .ok (n, more) := by
    change (.ok (Number.floorMagnitude (Number.nearest n 0), more) : Reading Nat) = _
    rw [hn.isLiteral.2]
  have hname : ∀ more, requireName .arrayName (.name name :: more) = .ok (name, more) :=
    fun _ => rfl
  rw [lexemes, List.tail_cons, List.cons_append, List.cons_append, List.cons_append,
    List.cons_append, readDim, hname]
  simp only [require_cons, hnatural _ hsize]
  cases length with
  | none =>
      have hnone : after? (.operator .times) rest = none :=
        after?_of_atStatementEnd hend (by decide) (by decide)
      simp only [Option.elim_none, List.nil_append, readLength, hnone]
  | some n =>
      obtain ⟨hn, htextual⟩ := hlength n rfl
      simp only [Option.elim_some, List.cons_append, List.nil_append, readLength, after?_cons,
        if_pos htextual, hnatural _ hn]

end

/-! ## Conditions and lines -/

section

variable {rest : List Lexeme}

theorem ended_ok (s : Statement) (hend : atStatementEnd rest = true) :
    ended (.ok (s, rest)) = .ok (s, rest) := by
  have hrequire : requireEnd rest = .ok () := by
    cases rest with
    | nil => rfl
    | cons l rest => exact if_pos hend
  simp only [ended, hrequire]

/-- A branch that is neither a number nor `DATA` is read as a statement. -/
theorem readBranch_lexemes (statement : List Lexeme → Reading Statement) {s : Statement}
    (h : s.isData = false) (rest : List Lexeme) :
    readBranch statement (s.lexemes ++ rest) = statement (s.lexemes ++ rest) := by
  cases s with
  | assign target value => cases target <;> rfl
  | input prompt target => cases prompt <;> rfl
  | wait duration => cases duration <;> rfl
  | data items => cases h
  | _ => rfl

theorem readWithin_assign {target : Target} {value : Expr}
    (h : (assign target value).Readable Lexeme.Valid) (hend : atStatementEnd rest = true)
    (depth : Nat) :
    readWithin (depth + 1) ((assign target value).lexemes ++ rest) =
      .ok (assign target value, rest) := by
  have hread := readAssign_lexemes h hend
  have hname : ∃ n ts, (assign target value).lexemes ++ rest = .name n :: ts := by
    cases target <;> exact ⟨_, _, rfl⟩
  obtain ⟨n, ts, hts⟩ := hname
  rw [hts] at hread ⊢
  change ended (readAssign (.name n :: ts)) = _
  rw [hread, ended_ok _ hend]

theorem readWithin_condition {condition : Expr} (hcondition : condition.Readable Lexeme.Valid)
    {depth : Nat} {s : Statement} {ts : List Lexeme}
    (h : readBranches (readBranch (readWithin depth)) condition (.keyword .THEN :: ts) =
      .ok (s, rest)) (hend : atStatementEnd rest = true) :
    readWithin (depth + 1) (.keyword .IF :: (condition.lexemes ++ .keyword .THEN :: ts)) =
      .ok (s, rest) := by
  have hread : Expr.read (condition.lexemes ++ .keyword .THEN :: ts) =
      .ok (condition, .keyword .THEN :: ts) :=
    Expr.read_lexemes hcondition (Expr.stops_cons _ _ (by decide) rfl)
  unfold readWithin
  simp only [hread, h, ended_ok s hend]

theorem lexemes_pos (s : Statement) : 0 < s.lexemes.length := by
  cases s with
  | assign target value => cases target <;> exact Nat.zero_lt_succ _
  | input prompt target => cases prompt <;> exact Nat.zero_lt_succ _
  | wait duration => cases duration <;> exact Nat.zero_lt_succ _
  | _ => exact Nat.zero_lt_succ _

/-- A statement that starts with its own keyword is read back from the lexemes behind it. -/
theorem readPlain_lexemes {s : Statement} (h : s.Readable Lexeme.Valid)
    (hend : atStatementEnd rest = true) (hplain : s.isPlain = true) :
    ∃ word ts, s.lexemes = .keyword word :: ts ∧ word ≠ .IF ∧
      ∀ start, readPlain word (ts ++ rest) start = .ok (s.relisted, rest) := by
  have hstops := Expr.stops_of_atStatementEnd hend .disjunction
  cases s with
  | assign target value => cases hplain
  | ifThen condition yes => cases hplain
  | ifElse condition yes no => cases hplain
  | print items =>
      refine ⟨.PRINT, _, rfl, by decide, fun start => ?_⟩
      rw [readPlain, readItems_lexemes h hend]
      rfl
  | pause items =>
      refine ⟨.PAUSE, _, rfl, by decide, fun start => ?_⟩
      rw [readPlain, readItems_lexemes h hend]
      rfl
  | input prompt target =>
      have hread := fun start => readInput_lexemes h hend start
      cases prompt <;> exact ⟨.INPUT, _, rfl, by decide, hread⟩
  | wait duration =>
      cases duration with
      | none => exact ⟨.WAIT, [], rfl, by decide, fun start => if_pos hend⟩
      | some e =>
          refine ⟨.WAIT, _, rfl, by decide, fun start => ?_⟩
          have hstart : atStatementEnd (e.lexemes ++ rest) = false :=
            Expr.atStatementEnd_lexemesAt _ e rest
          rw [readPlain, readWait, hstart, Expr.read_lexemes (h e rfl) hstops]
          rfl
  | forLoop name start limit step =>
      exact ⟨.FOR, _, rfl, by decide, fun start => readFor_lexemes h hend⟩
  | nextLoop name =>
      cases name with
      | none => exact ⟨.NEXT, [], rfl, by decide, fun start => if_pos hend⟩
      | some n => exact ⟨.NEXT, _, rfl, by decide, fun start => rfl⟩
  | goto line => exact ⟨.GOTO, _, rfl, by decide, fun start => readJump_lexemes goto h⟩
  | gosub line => exact ⟨.GOSUB, _, rfl, by decide, fun start => readJump_lexemes gosub h⟩
  | returnSub => exact ⟨.RETURN, [], rfl, by decide, fun start => rfl⟩
  | endProgram => exact ⟨.END, [], rfl, by decide, fun start => rfl⟩
  | remark text => exact ⟨.REM, _, rfl, by decide, fun start => rfl⟩
  | data items =>
      have hcount : items.length ≤ (joined .comma Value.lexemes items ++ rest).length + 1 := by
        have := length_le_joined .comma Value.lexemes_ne_nil items
        rw [List.length_append]
        omega
      refine ⟨.DATA, _, rfl, by decide, fun start => ?_⟩
      rw [readPlain, readConstants_lexemes h.1 hend hcount]
      rfl
  | readInto targets =>
      have hcount : targets.length ≤
          (joined .comma Target.lexemes targets ++ rest).length + 1 := by
        have := length_le_joined .comma Target.lexemes_ne_nil targets
        rw [List.length_append]
        omega
      refine ⟨.READ, _, rfl, by decide, fun start => ?_⟩
      rw [readPlain, readTargets_lexemes h.1 h.2 hend hcount]
      rfl
  | restore line =>
      cases line with
      | none => exact ⟨.RESTORE, [], rfl, by decide, fun start => if_pos hend⟩
      | some n =>
          exact ⟨.RESTORE, _, rfl, by decide, fun start =>
            readJump_lexemes (fun n => restore (some n)) (h n rfl)⟩
  | poke address bytes =>
      obtain ⟨haddress, hne, hbytes⟩ := h
      have hread : ∀ more, Expr.read (address.lexemes ++ .mark .comma :: more) =
          .ok (address, .mark .comma :: more) :=
        fun _ => Expr.read_lexemes haddress (Expr.stops_cons _ _ (by decide) rfl)
      have hcount : bytes.length ≤ (joined .comma Expr.lexemes bytes ++ rest).length + 1 := by
        have := length_le_joined .comma Expr.lexemes_ne_nil bytes
        rw [List.length_append]
        omega
      refine ⟨.POKE, _, rfl, by decide, fun start => ?_⟩
      rw [readPlain, readPoke, List.append_assoc, List.cons_append, hread]
      have hlist := readList_lexemes (show Mark.comma ≠ .leftParen by decide)
        (show Mark.comma ≠ .colon by decide) hne hbytes hend hcount
      simp only [require_cons, hlist]
      rfl
  | call address =>
      refine ⟨.CALL, _, rfl, by decide, fun start => ?_⟩
      rw [readPlain, Expr.read_lexemes h hstops]
      rfl
  | dim name size length => exact ⟨.DIM, _, rfl, by decide, fun start => readDim_lexemes h hend⟩

theorem readWithin_plain {s : Statement} (h : s.Readable Lexeme.Valid)
    (hend : atStatementEnd rest = true) (hplain : s.isPlain = true) (depth : Nat) :
    readWithin (depth + 1) (s.lexemes ++ rest) = .ok (s.relisted, rest) := by
  obtain ⟨word, ts, hlexemes, hword, hread⟩ := readPlain_lexemes h hend hplain
  rw [hlexemes, List.cons_append]
  unfold readWithin
  split
  · rename_i heq
    cases heq
    exact absurd rfl hword
  · rename_i heq
    cases heq
    rw [hread, ended_ok _ hend]
  · rename_i heq
    cases heq
  · rename_i hne _
    exact absurd rfl (hne word _)

/-- A statement is read back from its lexemes. -/
theorem readWithin_lexemes {s : Statement} (h : s.Readable Lexeme.Valid) {depth : Nat}
    (hdepth : s.lexemes.length ≤ depth + 1) (hend : atStatementEnd rest = true)
    (helse : s.endsOpen = true → ∀ l ∈ rest.head?, l ≠ .keyword .ELSE) :
    readWithin (depth + 1) (s.lexemes ++ rest) = .ok (s.relisted, rest) := by
  induction s generalizing depth rest with
  | assign target value => exact readWithin_assign h hend depth
  | ifThen condition yes ih =>
      obtain ⟨hcondition, hyes, hdata⟩ := h
      have hpos := lexemes_pos yes
      simp only [lexemes, List.length_cons, List.length_append] at hdepth
      obtain ⟨depth, rfl⟩ : ∃ d, depth = d + 1 := ⟨depth - 1, by omega⟩
      have hbranch : readWithin (depth + 1) (yes.lexemes ++ rest) = .ok (yes.relisted, rest) :=
        ih hyes (by omega) hend fun _ => helse rfl
      rw [relisted_of_isData hdata] at hbranch
      have hnone := after?_eq_none (helse rfl)
      simp only [lexemes, List.cons_append, List.append_assoc]
      refine readWithin_condition hcondition ?_ hend
      simp only [readBranches, require_cons, readBranch_lexemes _ hdata, hbranch, hnone]
      rfl
  | ifElse condition yes no ihy ihn =>
      obtain ⟨hcondition, ⟨hyes, hdata⟩, ⟨hno, hdata'⟩, hopen, -⟩ := h
      have hpos := lexemes_pos yes
      simp only [lexemes, List.length_cons, List.length_append] at hdepth
      obtain ⟨depth, rfl⟩ : ∃ d, depth = d + 1 := ⟨depth - 1, by omega⟩
      have hbranch : readWithin (depth + 1)
          (yes.lexemes ++ .keyword .ELSE :: (no.lexemes ++ rest)) =
            .ok (yes.relisted, .keyword .ELSE :: (no.lexemes ++ rest)) :=
        ihy hyes (by omega) rfl fun ho => absurd ho (by rw [hopen]; decide)
      have hbranch' : readWithin (depth + 1) (no.lexemes ++ rest) = .ok (no.relisted, rest) :=
        ihn hno (by omega) hend helse
      rw [relisted_of_isData hdata] at hbranch
      rw [relisted_of_isData hdata'] at hbranch'
      simp only [lexemes, List.cons_append, List.append_assoc]
      refine readWithin_condition hcondition ?_ hend
      simp only [readBranches, require_cons, readBranch_lexemes _ hdata, hbranch, after?_cons,
        readBranch_lexemes _ hdata', hbranch']
      rfl
  | _ => exact readWithin_plain h hend rfl depth

/-- The lexemes of the statements of a line. -/
def lineLexemes (ss : List Statement) : List Lexeme :=
  joined .colon lexemes ss

/-- A statement at the front of a line is read back. -/
theorem read_lexemes {s : Statement} (h : s.Readable Lexeme.Valid)
    (hend : atStatementEnd rest = true)
    (helse : s.endsOpen = true → ∀ l ∈ rest.head?, l ≠ .keyword .ELSE) :
    read (s.lexemes ++ rest) = .ok (s.relisted, rest) := by
  refine readWithin_lexemes h ?_ hend helse
  rw [List.length_append, Nat.add_assoc]
  exact Nat.le_add_right _ _

theorem readSequence_lexemes {ss : List Statement} (h : ReadableLine Lexeme.Valid ss)
    {count : Nat} (hcount : ss.length ≤ count) :
    readSequence count (lineLexemes ss) = .ok (ss.map relisted) := by
  induction ss generalizing count with
  | nil => exact absurd h id
  | cons s ss ih =>
      cases count with
      | zero => exact absurd hcount (Nat.not_succ_le_zero _)
      | succ count =>
          cases ss with
          | nil =>
              have hread : read (s.lexemes ++ []) = .ok (s.relisted, []) :=
                read_lexemes h rfl fun _ l hl => nomatch hl
              rw [List.append_nil] at hread
              rw [lineLexemes, joined_singleton, readSequence, hread]
              rfl
          | cons s' ss =>
              obtain ⟨hs, -, hss⟩ := h
              have htail := ih hss (Nat.le_of_succ_le_succ hcount)
              have hread : read (s.lexemes ++ .mark .colon :: lineLexemes (s' :: ss)) =
                  .ok (s.relisted, .mark .colon :: lineLexemes (s' :: ss)) := by
                refine read_lexemes hs rfl fun _ l hl => ?_
                cases hl
                decide
              rw [lineLexemes, joined_cons_cons, ← lineLexemes, readSequence, hread]
              simp only [if_pos, htail]
              rfl

/-- The statements of a line are read back from their lexemes. -/
theorem readLine_lexemes {ss : List Statement} (h : ReadableLine Lexeme.Valid ss) :
    readLine (lineLexemes ss) = .ok (ss.map relisted) :=
  readSequence_lexemes h (Nat.le_succ_of_le (length_le_joined .colon
    (fun s => List.length_pos_iff.mp (lexemes_pos s)) ss))

end

end Statement

/-! ## Relisted constants -/

namespace Value

theorem relisted_of_isLiteral {x : Float} (h : Number.IsLiteral x) :
    (number x).relisted = number x := by
  have hminus : Number.listsMinus x = false := by rw [Number.listsMinus, h.2, Bool.false_and]
  simp only [relisted, hminus, h.nearest]
  rfl

theorem relisted_neg {x : Float} (h : Number.IsLiteral x) (hx : Number.floorMagnitude x ≠ 0) :
    (number (-x)).relisted = number (-x) := by
  have hfinite := ((Number.isWhole_iff x).mp h.1).1
  have hminus : Number.listsMinus (-x) = true := by
    rw [Number.listsMinus, Number.isNegative_neg x hfinite, h.2,
      Number.floorMagnitude_neg x hfinite]
    simpa using hx
  simp only [relisted, hminus, Number.floorMagnitude_neg x hfinite, h.nearest, if_true]

/-- Minus zero is listed as zero. -/
theorem relisted_neg_zero {x : Float} (h : Number.IsLiteral x)
    (hx : Number.floorMagnitude x = 0) : (number (-x)).relisted = number x := by
  have hfinite := ((Number.isWhole_iff x).mp h.1).1
  have hfloor := Number.floorMagnitude_neg x hfinite
  have hminus : Number.listsMinus (-x) = false := by
    rw [Number.listsMinus, hfloor, hx]
    exact Bool.and_false _
  simp only [relisted, hminus, hfloor, h.nearest]
  rfl

theorem same_self {x : Float} (hx : x.isFinite = true) : (number x).same (number x) = true :=
  Number.beq_self x hx

/-- A constant and what its listing stands for are equal, though minus zero becomes zero. -/
theorem same_relisted {v : Value} (h : v.Readable Lexeme.Valid) : v.same v.relisted = true := by
  cases v with
  | text s => exact beq_self_eq_true s
  | number x =>
      obtain ⟨y, hy, hx⟩ := h
      have hliteral : Number.IsLiteral y := hy
      have hfinite := ((Number.isWhole_iff y).mp hliteral.1).1
      rcases hx with rfl | rfl
      · rw [relisted_of_isLiteral hliteral]
        exact same_self hfinite
      · by_cases hzero : Number.floorMagnitude y = 0
        · rw [relisted_neg_zero hliteral hzero,
            Number.eq_zero_of_floorMagnitude y hliteral.1 hliteral.2 hzero]
          decide
        · rw [relisted_neg hliteral hzero]
          exact same_self (Number.isFinite_neg y hfinite)

/-- Unless it is minus zero, a constant is what its listing stands for. -/
theorem relisted_eq {v : Value} (h : v.Readable Lexeme.Valid) (hv : v ≠ number (-0)) :
    v.relisted = v := by
  cases v with
  | text s => rfl
  | number x =>
      obtain ⟨y, hy, hx⟩ := h
      have hliteral : Number.IsLiteral y := hy
      rcases hx with rfl | rfl
      · exact relisted_of_isLiteral hliteral
      · refine relisted_neg hliteral fun hzero => hv ?_
        rw [Number.eq_zero_of_floorMagnitude y hliteral.1 hliteral.2 hzero]

end Value

end LineBasic
