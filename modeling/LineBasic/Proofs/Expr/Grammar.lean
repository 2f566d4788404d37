import LineBasic.Expr.Reader
import LineBasic.Proofs.Token.Reading

/-!
# The grammar of expressions

`Derives level ts e` says that the lexemes `ts` form the expression `e` on a level of the ladder, in
terms of a grammar: the operands of a binary operator are an expression of its own level on the left
and one of the next tighter level on the right, a unary operator takes an operand of its own level,
and brackets make a term of anything. `InRoom` adds the room in which a derivation fits, counted as
the reader counts it: nesting and the binary operators to the left of where one is.

The reader accepts exactly the derivations that fit into the room it is given. It is sound by
induction along the readers, which call each other, and complete by induction on the derivation. For
the second part one has to know where the reader of a level arrives: it reads an operand of the next
level and then gathers the operators of its own level onto it, so an expression of the level is
reached in the middle of this gathering, with the room that its operators have left.
-/

namespace LineBasic

open Reading

namespace Level

theorem rank_injective {l l' : Level} (h : l.rank = l'.rank) : l = l' := by
  cases l <;> cases l' <;> first | rfl | cases h

theorem exists_tighter {l : Level} (h : l ≠ term) : ∃ next, l.tighter? = some next := by
  cases l <;> first | exact ⟨_, rfl⟩ | exact absurd rfl h

theorem unary?_eq_none {level : Level} {l : Lexeme} (ts : List Lexeme)
    (h : ∀ op, UnaryOp.ofLexeme? l = some op → op.level ≠ level) :
    level.unary? (l :: ts) = none := by
  cases hop : UnaryOp.ofLexeme? l with
  | none => simp only [unary?, hop]
  | some op => simp only [unary?, hop, if_neg (h op hop)]

theorem unary?_lexeme (op : UnaryOp) (ts : List Lexeme) :
    op.level.unary? (op.lexeme :: ts) = some (op, ts) := by
  cases op <;> rfl

theorem binary?_lexeme (op : BinaryOp) (ts : List Lexeme) :
    op.level.binary? (op.lexeme :: ts) = some (op, ts) := by
  simp only [binary?, BinaryOp.ofLexeme?_lexeme, if_true]

theorem unary?_eq_some {level : Level} {ts rest : List Lexeme} {op : UnaryOp}
    (h : level.unary? ts = some (op, rest)) : op.level = level ∧ ts = op.lexeme :: rest := by
  unfold unary? at h
  split at h
  · cases h
  · rename_i l rest
    split at h
    · rename_i op hop
      have hlexeme : l = op.lexeme := by
        unfold UnaryOp.ofLexeme? at hop
        split at hop <;> cases hop <;> rfl
      split at h
      · rename_i hlevel
        cases h
        exact ⟨hlevel, by rw [hlexeme]⟩
      · cases h
    · cases h

theorem binary?_eq_some {level : Level} {ts rest : List Lexeme} {op : BinaryOp}
    (h : level.binary? ts = some (op, rest)) : op.level = level ∧ ts = op.lexeme :: rest := by
  unfold binary? at h
  split at h
  · cases h
  · rename_i l rest
    split at h
    · rename_i op hop
      have hlexeme : l = op.lexeme := by
        unfold BinaryOp.ofLexeme? at hop
        split at hop <;> cases hop <;> rfl
      split at h
      · rename_i hlevel
        cases h
        exact ⟨hlevel, by rw [hlexeme]⟩
      · cases h
    · cases h

/-- No level has unary and binary operators. -/
theorem level_ne (op : UnaryOp) (op' : BinaryOp) : op'.level ≠ op.level := by
  cases op <;> cases op' <;> decide

theorem unary_level_ne_term (op : UnaryOp) : op.level ≠ term := by
  cases op <;> decide

theorem binary_level_ne_term (op : BinaryOp) : op.level ≠ term := by
  cases op <;> decide

end Level

namespace Expr

/-! ## The grammar -/

/-- The lexemes form the expression on the level. -/
inductive Derives : Level → List Lexeme → Expr → Prop where
  | number (x : Float) : Derives .term [.number x] (.number x)
  | text (s : String) : Derives .term [.quote s] (.text s)
  | scalar (n : Name) : Derives .term [.name n] (.scalar n)
  | element (n : Name) {ts : List Lexeme} {index : Expr} (h : Derives .disjunction ts index) :
      Derives .term (.name n :: .mark .leftParen :: (ts ++ [.mark .rightParen])) (.element n index)
  | bracket {ts : List Lexeme} {e : Expr} (h : Derives .disjunction ts e) :
      Derives .term (.mark .leftParen :: (ts ++ [.mark .rightParen])) e
  | tighter {level next : Level} {ts : List Lexeme} {e : Expr} (hnext : level.tighter? = some next)
      (h : Derives next ts e) : Derives level ts e
  | unary (op : UnaryOp) {ts : List Lexeme} {operand : Expr} (h : Derives op.level ts operand) :
      Derives op.level (op.lexeme :: ts) (.unary op operand)
  | binary (op : BinaryOp) {next : Level} {ts ts' : List Lexeme} {left right : Expr}
      (hnext : op.level.tighter? = some next) (hleft : Derives op.level ts left)
      (hright : Derives next ts' right) :
      Derives op.level (ts ++ op.lexeme :: ts') (.binary op left right)

/-- The lexemes form the expression on the level, and there is room for it. -/
inductive InRoom : Level → Nat → List Lexeme → Expr → Prop where
  | number {room : Nat} (x : Float) : InRoom .term room [.number x] (.number x)
  | text {room : Nat} (s : String) : InRoom .term room [.quote s] (.text s)
  | scalar {room : Nat} (n : Name) : InRoom .term room [.name n] (.scalar n)
  | element (n : Name) {room : Nat} {ts : List Lexeme} {index : Expr}
      (h : InRoom .disjunction room ts index) :
      InRoom .term (room + 1) (.name n :: .mark .leftParen :: (ts ++ [.mark .rightParen]))
        (.element n index)
  | bracket {room : Nat} {ts : List Lexeme} {e : Expr} (h : InRoom .disjunction room ts e) :
      InRoom .term (room + 1) (.mark .leftParen :: (ts ++ [.mark .rightParen])) e
  | tighter {level next : Level} {room : Nat} {ts : List Lexeme} {e : Expr}
      (hnext : level.tighter? = some next) (h : InRoom next room ts e) : InRoom level room ts e
  | unary (op : UnaryOp) {room : Nat} {ts : List Lexeme} {operand : Expr}
      (h : InRoom op.level room ts operand) :
      InRoom op.level (room + 1) (op.lexeme :: ts) (.unary op operand)
  | binary (op : BinaryOp) {next : Level} {room : Nat} {ts ts' : List Lexeme} {left right : Expr}
      (hnext : op.level.tighter? = some next) (hleft : InRoom op.level room ts left)
      (hright : InRoom next (room - left.binaries) ts' right)
      (hcount : right.binaries < room - left.binaries) :
      InRoom op.level room (ts ++ op.lexeme :: ts') (.binary op left right)

theorem InRoom.derives {level : Level} {room : Nat} {ts : List Lexeme} {e : Expr}
    (h : InRoom level room ts e) : Derives level ts e := by
  induction h with
  | number x => exact .number x
  | text s => exact .text s
  | scalar n => exact .scalar n
  | element n _ ih => exact .element n ih
  | bracket _ ih => exact .bracket ih
  | tighter hnext _ ih => exact .tighter hnext ih
  | unary op _ ih => exact .unary op ih
  | binary op hnext _ _ _ ihl ihr => exact .binary op hnext ihl ihr

/-- An expression of a tighter level is one of every looser level. -/
theorem InRoom.lift {tight level : Level} {room : Nat} {ts : List Lexeme} {e : Expr}
    (h : InRoom tight room ts e) (hle : tight.rank ≤ level.rank) : InRoom level room ts e := by
  generalize hn : level.rank - tight.rank = n
  induction n generalizing level with
  | zero =>
      have heq : tight = level := Level.rank_injective (by omega)
      exact heq ▸ h
  | succ n ih =>
      have hterm : level ≠ .term := by
        rintro rfl
        rw [Level.rank] at hn
        omega
      obtain ⟨next, hnext⟩ := Level.exists_tighter hterm
      have hrank := Level.rank_of_tighter? hnext
      exact .tighter hnext (ih (by omega) (by omega))

/-! ## The readers, case by case -/

theorem readAt_term (room : Nat) (ts : List Lexeme) :
    readAt .term room ts = readTerm room ts := by
  rw [readAt]
  split
  · rfl
  · rename_i h
    cases h

theorem readAt_zero {level next : Level} (h : level.tighter? = some next) {ts rest : List Lexeme}
    {op : UnaryOp} (hu : level.unary? ts = some (op, rest)) :
    readAt level 0 ts = misread .tooComplex rest := by
  rw [readAt]
  split
  · rename_i h'
    cases h.symm.trans h'
  · rw [hu]

theorem readAt_unary {level next : Level} (h : level.tighter? = some next) (room : Nat)
    {ts rest : List Lexeme} {op : UnaryOp} (hu : level.unary? ts = some (op, rest)) :
    readAt level (room + 1) ts =
      match readAt level room rest with
      | .error m => .error m
      | .ok (operand, rest) => .ok (.unary op operand, rest) := by
  rw [readAt]
  split
  · rename_i h'
    cases h.symm.trans h'
  · split
    · rename_i hu'
      cases hu.symm.trans hu'
      rfl
    · rename_i hu'
      cases hu.symm.trans hu'

theorem readAt_left {level next : Level} (h : level.tighter? = some next) (room : Nat)
    {ts : List Lexeme} (hu : level.unary? ts = none) :
    readAt level room ts =
      match readAt next room ts with
      | .error m => .error m
      | .ok (left, rest) => chain level next h (room - left.binaries) left rest := by
  rw [readAt]
  split
  · rename_i h'
    cases h.symm.trans h'
  · rename_i h'
    cases h.symm.trans h'
    split
    · rename_i hu'
      cases hu.symm.trans hu'
    · rfl

theorem chain_stop {level next : Level} (h : level.tighter? = some next) (room : Nat)
    (left : Expr) {ts : List Lexeme} (hb : level.binary? ts = none) :
    chain level next h room left ts = .ok (left, ts) := by
  rw [chain, hb]

theorem chain_step {level next : Level} (h : level.tighter? = some next) (room : Nat)
    (left : Expr) {ts rest : List Lexeme} {op : BinaryOp}
    (hb : level.binary? ts = some (op, rest)) :
    chain level next h room left ts =
      match readAt next room rest with
      | .error m => .error m
      | .ok (right, rest) =>
          if right.binaries < room then
            chain level next h (room - (right.binaries + 1)) (.binary op left right) rest
          else misread .tooComplex rest := by
  rw [chain]
  split
  · rename_i hb'
    cases hb.symm.trans hb'
  · rename_i hb'
    cases hb.symm.trans hb'
    rfl

/-! ## Soundness -/

/-- What is read is derived from the lexemes that are taken off the front. -/
def Reads (level : Level) (room : Nat) (ts : List Lexeme) (e : Expr) (rest : List Lexeme) : Prop :=
  ∃ front, ts = front ++ rest ∧ InRoom level room front e

section

variable {level next : Level} {room whole : Nat} {ts rest rest' : List Lexeme}
  {e left right operand : Expr}

theorem Reads.unary {op : UnaryOp} (hu : level.unary? ts = some (op, rest))
    (h : Reads level room rest operand rest') :
    Reads level (room + 1) ts (.unary op operand) rest' := by
  obtain ⟨rfl, rfl⟩ := Level.unary?_eq_some hu
  obtain ⟨front, rfl, hin⟩ := h
  exact ⟨op.lexeme :: front, rfl, .unary op hin⟩

/-- What is read behind a left operand is gathered onto it. -/
theorem Reads.binary {op : BinaryOp} (hnext : level.tighter? = some next)
    (hb : level.binary? rest = some (op, rest')) (hleft : Reads level whole ts left rest)
    {rest'' : List Lexeme} (hright : Reads next (whole - left.binaries) rest' right rest'')
    (hcount : right.binaries < whole - left.binaries) :
    Reads level whole ts (.binary op left right) rest'' := by
  obtain ⟨rfl, rfl⟩ := Level.binary?_eq_some hb
  obtain ⟨front, rfl, hl⟩ := hleft
  obtain ⟨front', rfl, hr⟩ := hright
  exact ⟨front ++ op.lexeme :: front', by rw [List.append_assoc, List.cons_append],
    .binary op hnext hl hr hcount⟩

/-- An expression between brackets. -/
theorem Reads.close (h : Reads .disjunction room ts e rest)
    (hclose : require (.mark .rightParen) rest = .ok rest') :
    ∃ inner, ts = inner ++ .mark .rightParen :: rest' ∧ InRoom .disjunction room inner e := by
  obtain ⟨inner, rfl, hin⟩ := h
  exact ⟨inner, by rw [require_eq_ok hclose], hin⟩

end

/-- What the readers return is derived in the room they are given: the cases are those of the
readers. What is said of a chain is said of all lexemes from its left operand on. -/
theorem readers_sound :
    (∀ level room ts, ∀ e rest, readAt level room ts = .ok (e, rest) →
      Reads level room ts e rest) ∧
    (∀ level next h room left ts, ∀ whole all e rest, Reads level whole all left ts →
      room = whole - left.binaries → chain level next h room left ts = .ok (e, rest) →
      Reads level whole all e rest) ∧
    (∀ room ts, ∀ e rest, readTerm room ts = .ok (e, rest) → Reads .term room ts e rest) ∧
    (∀ room ts, ∀ e rest, readBracket room ts = .ok (e, rest) →
      ∃ inside inner, room = inside + 1 ∧ ts = inner ++ .mark .rightParen :: rest ∧
        InRoom .disjunction inside inner e) ∧
    (∀ name room ts, ∀ t rest, readReference name room ts = .ok (t, rest) →
      Reads .term room (.name name :: ts) t.toExpr rest) := by
  apply readAt.mutual_induct
  -- `readAt`: a term, an operator in front, or the left operand of a chain
  case case1 =>
    intro level room ts h ih e rest hread
    have hterm : level = .term := by cases level <;> first | rfl | cases h
    subst hterm
    exact ih e rest (readAt_term room ts ▸ hread)
  case case2 =>
    intro level ts next h op rest₁ hu e rest hread
    rw [readAt_zero h hu] at hread
    cases hread
  case case3 =>
    intro level ts next h op rest₁ hu room m herr _ e rest hread
    rw [readAt_unary h room hu, herr] at hread
    cases hread
  case case4 =>
    intro level ts next h op rest₁ hu room operand rest₂ hok ih e rest hread
    rw [readAt_unary h room hu, hok] at hread
    cases hread
    exact (ih _ _ hok).unary hu
  case case5 =>
    intro level room ts next h hu m herr _ e rest hread
    rw [readAt_left h room hu, herr] at hread
    cases hread
  case case6 =>
    intro level room ts next h hu left rest₁ hok ihl ihc e rest hread
    rw [readAt_left h room hu, hok] at hread
    obtain ⟨front, hfront, hin⟩ := ihl _ _ hok
    exact ihc room ts e rest ⟨front, hfront, .tighter h hin⟩ rfl hread
  -- `chain`: no operator follows, or one does
  case case7 =>
    intro level next h room left ts hb whole all e rest hleft _ hread
    rw [chain_stop h room left hb] at hread
    cases hread
    exact hleft
  case case8 =>
    intro level next h room left ts op rest₁ hb m herr _ whole all e rest _ _ hread
    rw [chain_step h room left hb, herr] at hread
    cases hread
  case case9 =>
    intro level next h room left ts op rest₁ hb right rest₂ hok hlt ihr ihc whole all e rest
      hleft hwhole hread
    rw [chain_step h room left hb, hok] at hread
    simp only [if_pos hlt] at hread
    have hroom : room - (right.binaries + 1) = whole - (binary op left right).binaries := by
      rw [hwhole, binaries]
      omega
    have hbinary := hleft.binary h hb (hwhole ▸ ihr _ _ hok) (hwhole ▸ hlt)
    exact ihc whole all e rest hbinary hroom hread
  case case10 =>
    intro level next h room left ts op rest₁ hb right rest₂ hok hlt _ whole all e rest _ _ hread
    rw [chain_step h room left hb, hok] at hread
    simp only [if_neg hlt] at hread
    cases hread
  -- `readTerm`: a number, a text, a name, a bracket, or none of these
  case case11 =>
    intro room x rest₁ e rest hread
    rw [readTerm] at hread
    cases hread
    exact ⟨[.number x], rfl, .number x⟩
  case case12 =>
    intro room s rest₁ e rest hread
    rw [readTerm] at hread
    cases hread
    exact ⟨[.quote s], rfl, .text s⟩
  case case13 =>
    intro room n rest₁ m herr _ e rest hread
    rw [readTerm, herr] at hread
    cases hread
  case case14 =>
    intro room n rest₁ t rest₂ hok ih e rest hread
    rw [readTerm, hok] at hread
    cases hread
    exact ih _ _ hok
  case case15 =>
    intro room rest₁ ih e rest hread
    rw [readTerm] at hread
    obtain ⟨inside, inner, rfl, rfl, hin⟩ := ih _ _ hread
    exact ⟨.mark .leftParen :: (inner ++ [.mark .rightParen]), by simp, .bracket hin⟩
  case case16 =>
    intro room ts h₁ h₂ h₃ h₄ e rest hread
    unfold readTerm at hread
    split at hread
    · exact absurd rfl (h₁ _ _)
    · exact absurd rfl (h₂ _ _)
    · exact absurd rfl (h₃ _ _)
    · exact absurd rfl (h₄ _)
    · cases hread
  -- `readBracket`: no room, or an expression and the closing bracket
  case case17 =>
    intro ts e rest hread
    rw [readBracket] at hread
    cases hread
  case case18 =>
    intro ts room m herr _ e rest hread
    rw [readBracket, herr] at hread
    cases hread
  case case19 =>
    intro ts room inner rest₁ hok m herr _ e rest hread
    rw [readBracket, hok] at hread
    simp only [herr] at hread
    cases hread
  case case20 =>
    intro ts room inner rest₁ hok rest₂ hreq ih e rest hread
    rw [readBracket, hok] at hread
    simp only [hreq] at hread
    cases hread
    obtain ⟨inner, hinner, hin⟩ := (ih _ _ hok).close hreq
    exact ⟨room, inner, rfl, hinner, hin⟩
  -- `readReference`: a variable, or an array element
  case case21 =>
    intro name room ts h t rest hread
    rw [readReference, h] at hread
    cases hread
    exact ⟨[.name name], rfl, .scalar name⟩
  case case22 =>
    intro name room ts rest₁ h m herr _ t rest hread
    rw [readReference, h] at hread
    simp only [herr] at hread
    cases hread
  case case23 =>
    intro name room ts rest₁ h index rest₂ hok ih t rest hread
    rw [readReference, h] at hread
    simp only [hok] at hread
    cases hread
    obtain ⟨inside, inner, rfl, rfl, hin⟩ := ih _ _ hok
    rw [after?_eq_some h]
    exact ⟨.name name :: .mark .leftParen :: (inner ++ [.mark .rightParen]), by simp,
      .element name hin⟩

/-- What is read on a level is derived there. -/
theorem reads_of_readAt {level : Level} {room : Nat} {ts rest : List Lexeme} {e : Expr}
    (h : readAt level room ts = .ok (e, rest)) : Reads level room ts e rest :=
  readers_sound.1 level room ts e rest h

/-- What a name refers to is a term. -/
theorem reads_of_readReference {name : Name} {room : Nat} {ts rest : List Lexeme} {t : Target}
    (h : readReference name room ts = .ok (t, rest)) :
    Reads .term room (.name name :: ts) t.toExpr rest :=
  readers_sound.2.2.2.2 name room ts t rest h

/-! ## Completeness -/

/-- The lexemes cannot go on an expression at the place. -/
def Stops (place : Level) (rest : List Lexeme) : Prop :=
  ∀ l ∈ rest.head?, l ≠ .mark .leftParen ∧
    ∀ op, BinaryOp.ofLexeme? l = some op → place.rank < op.level.rank

theorem Stops.anti {place place' : Level} {rest : List Lexeme} (h : Stops place rest)
    (hle : place'.rank ≤ place.rank) : Stops place' rest :=
  fun l hl => ⟨(h l hl).1, fun op hop => Nat.lt_of_le_of_lt hle ((h l hl).2 op hop)⟩

theorem stops_nil (place : Level) : Stops place [] :=
  fun _ hl => nomatch hl

/-- A lexeme that is neither an operator nor opens a bracket stops every expression. -/
theorem stops_cons {l : Lexeme} (place : Level) (rest : List Lexeme)
    (h : l ≠ .mark .leftParen) (hop : BinaryOp.ofLexeme? l = none) : Stops place (l :: rest) := by
  intro l' hl'
  cases hl'
  refine ⟨h, fun op hsome => ?_⟩
  rw [hop] at hsome
  cases hsome

theorem stops_rightParen (place : Level) (rest : List Lexeme) :
    Stops place (.mark .rightParen :: rest) :=
  stops_cons place rest (by decide) rfl

/-- An operator stops expressions that bind tighter. -/
theorem stops_binary {place : Level} (op : BinaryOp) (rest : List Lexeme)
    (h : place.rank < op.level.rank) : Stops place (op.lexeme :: rest) := by
  intro l hl
  cases hl
  refine ⟨by cases op <;> decide, fun op' hop' => ?_⟩
  rw [BinaryOp.ofLexeme?_lexeme] at hop'
  cases hop'
  exact h

theorem Stops.binary?_eq_none {level : Level} {rest : List Lexeme} (h : Stops level rest) :
    level.binary? rest = none := by
  cases rest with
  | nil => rfl
  | cons l rest =>
      cases hop : BinaryOp.ofLexeme? l with
      | none => simp only [Level.binary?, hop]
      | some op =>
          have hne : op.level ≠ level := by
            rintro rfl
            exact Nat.lt_irrefl _ ((h l rfl).2 op hop)
          simp only [Level.binary?, hop, if_neg hne]

theorem Stops.after?_eq_none {place : Level} {rest : List Lexeme} (h : Stops place rest) :
    after? (.mark .leftParen) rest = none := by
  cases rest with
  | nil => rfl
  | cons l rest => exact if_neg (h l rfl).1

/-- Behind a unary operator of the level nothing else of the level can follow. -/
theorem Stops.of_unary {op : UnaryOp} {next : Level} (h : op.level.tighter? = some next)
    {rest : List Lexeme} (hs : Stops next rest) : Stops op.level rest := by
  intro l hl
  refine ⟨(hs l hl).1, fun op' hop' => ?_⟩
  have hlt := (hs l hl).2 op' hop'
  have hrank := Level.rank_of_tighter? h
  have hne : op'.level.rank ≠ op.level.rank :=
    fun heq => Level.level_ne op op' (Level.rank_injective heq)
  omega

/-- Lexemes of a level do not start with a unary operator of a looser level. -/
theorem Derives.head {level : Level} {ts : List Lexeme} {e : Expr} (h : Derives level ts e) :
    ∃ l ls, ts = l :: ls ∧
      ∀ op, UnaryOp.ofLexeme? l = some op → op.level.rank ≤ level.rank := by
  induction h with
  | number => exact ⟨_, _, rfl, fun op hop => nomatch hop⟩
  | text => exact ⟨_, _, rfl, fun op hop => nomatch hop⟩
  | scalar => exact ⟨_, _, rfl, fun op hop => nomatch hop⟩
  | element => exact ⟨_, _, rfl, fun op hop => nomatch hop⟩
  | bracket => exact ⟨_, _, rfl, fun op hop => nomatch hop⟩
  | tighter hnext _ ih =>
      obtain ⟨l, ls, rfl, hhead⟩ := ih
      have hrank := Level.rank_of_tighter? hnext
      exact ⟨l, ls, rfl, fun op hop => Nat.le_trans (hhead op hop) (by omega)⟩
  | unary op _ _ =>
      refine ⟨_, _, rfl, fun op' hop' => ?_⟩
      have heq : op' = op := by cases op <;> cases hop' <;> rfl
      exact heq ▸ Nat.le_refl _
  | binary op _ _ _ ihl _ =>
      obtain ⟨l, ls, rfl, hhead⟩ := ihl
      exact ⟨l, _, rfl, hhead⟩

/-- The lexemes are read as the expression. -/
def ReadAs (level : Level) (room : Nat) (ts : List Lexeme) (e : Expr) : Prop :=
  ∀ rest, Stops level rest → readAt level room (ts ++ rest) = .ok (e, rest)

/-- The reader of the level gets to the expression and goes on behind it. -/
def ChainsAt (level : Level) (room : Nat) (ts : List Lexeme) (e : Expr) : Prop :=
  ∀ next, ∀ h : level.tighter? = some next, ∀ rest, Stops next rest →
    readAt level room (ts ++ rest) = chain level next h (room - e.binaries) e rest

section

variable {level next : Level} {room : Nat} {ts ts' : List Lexeme} {e left right : Expr}

theorem ChainsAt.readAs (hlevel : level ≠ .term) (h : ChainsAt level room ts e) :
    ReadAs level room ts e := by
  intro rest hstops
  obtain ⟨next, hnext⟩ := Level.exists_tighter hlevel
  have hrank := Level.rank_of_tighter? hnext
  rw [h next hnext rest (hstops.anti (by omega)), chain_stop hnext _ _ hstops.binary?_eq_none]

theorem chainsAt_term : ChainsAt .term room ts e :=
  fun _ hnext => nomatch hnext

/-- An expression of the next level is read as an operand. -/
theorem ReadAs.chainsAt (hnext : level.tighter? = some next) (hderives : Derives next ts e)
    (h : ReadAs next room ts e) : ChainsAt level room ts e := by
  intro next' hnext' rest hstops
  cases hnext.symm.trans hnext'
  have hunary : level.unary? (ts ++ rest) = none := by
    obtain ⟨l, ls, rfl, hhead⟩ := hderives.head
    have hrank := Level.rank_of_tighter? hnext
    refine Level.unary?_eq_none _ fun op hop heq => ?_
    have hle := hhead op hop
    rw [heq] at hle
    omega
  rw [readAt_left hnext room hunary, h rest hstops]

theorem ReadAs.readBracket (h : ReadAs .disjunction room ts e) (rest : List Lexeme) :
    readBracket (room + 1) (ts ++ .mark .rightParen :: rest) = .ok (e, rest) := by
  rw [Expr.readBracket, h _ (stops_rightParen _ _)]
  rfl

theorem ReadAs.bracket (h : ReadAs .disjunction room ts e) :
    ReadAs .term (room + 1) (.mark .leftParen :: (ts ++ [.mark .rightParen])) e := by
  intro rest _
  rw [readAt_term, List.cons_append, readTerm, List.append_assoc, List.singleton_append,
    h.readBracket]

theorem ReadAs.element (n : Name) (h : ReadAs .disjunction room ts e) :
    ReadAs .term (room + 1) (.name n :: .mark .leftParen :: (ts ++ [.mark .rightParen]))
      (.element n e) := by
  intro rest _
  rw [readAt_term, List.cons_append, readTerm, readReference, List.cons_append, after?_cons]
  simp only [List.append_assoc, List.singleton_append, h.readBracket]
  rfl

theorem readAs_scalar (n : Name) : ReadAs .term room [.name n] (.scalar n) := by
  intro rest hstops
  rw [readAt_term, List.singleton_append, readTerm, readReference, hstops.after?_eq_none]
  rfl

theorem readAs_number (x : Float) : ReadAs .term room [.number x] (.number x) := by
  intro rest _
  rw [readAt_term, List.singleton_append, readTerm]

theorem readAs_text (s : String) : ReadAs .term room [.quote s] (.text s) := by
  intro rest _
  rw [readAt_term, List.singleton_append, readTerm]

theorem ReadAs.unary (op : UnaryOp) (h : ReadAs op.level room ts e) :
    ReadAs op.level (room + 1) (op.lexeme :: ts) (.unary op e) := by
  obtain ⟨next, hnext⟩ := Level.exists_tighter (Level.unary_level_ne_term op)
  intro rest hstops
  rw [List.cons_append, readAt_unary hnext room (Level.unary?_lexeme op _), h rest hstops]

/-- No operator of its level can follow a unary operator, so its chain is over at once. -/
theorem ReadAs.chainsAt_unary (op : UnaryOp) (h : ReadAs op.level room ts e) :
    ChainsAt op.level room ts e := by
  intro next hnext rest hstops
  have hstops' := Stops.of_unary hnext hstops
  rw [h rest hstops', chain_stop hnext _ _ hstops'.binary?_eq_none]

/-- The operators of its own level are gathered onto the left operand of a binary operation. -/
theorem ChainsAt.binary (op : BinaryOp) (hnext : op.level.tighter? = some next)
    (hleft : ChainsAt op.level room ts left) (hright : ReadAs next (room - left.binaries) ts' right)
    (hcount : right.binaries < room - left.binaries) :
    ChainsAt op.level room (ts ++ op.lexeme :: ts') (.binary op left right) := by
  intro next' hnext' rest hstops
  cases hnext.symm.trans hnext'
  have hrank := Level.rank_of_tighter? hnext
  rw [List.append_assoc, List.cons_append,
    hleft next hnext _ (stops_binary op _ (by omega)),
    chain_step hnext _ _ (Level.binary?_lexeme op _), hright rest hstops]
  simp only [binaries, if_pos hcount]
  congr 1
  omega

end

/-- What fits into the room is read, on every level, and the reader goes on behind it. -/
theorem InRoom.reads {level : Level} {room : Nat} {ts : List Lexeme} {e : Expr}
    (h : InRoom level room ts e) : ReadAs level room ts e ∧ ChainsAt level room ts e := by
  induction h with
  | number x => exact ⟨readAs_number x, chainsAt_term⟩
  | text s => exact ⟨readAs_text s, chainsAt_term⟩
  | scalar n => exact ⟨readAs_scalar n, chainsAt_term⟩
  | element n _ ih => exact ⟨ih.1.element n, chainsAt_term⟩
  | bracket _ ih => exact ⟨ih.1.bracket, chainsAt_term⟩
  | @tighter level next _ _ _ hnext h ih =>
      have hchains := ih.1.chainsAt hnext h.derives
      have hterm : level ≠ .term := fun heq => by rw [heq] at hnext; cases hnext
      exact ⟨hchains.readAs hterm, hchains⟩
  | unary op _ ih =>
      have hread := ih.1.unary op
      exact ⟨hread, hread.chainsAt_unary op⟩
  | binary op hnext _ _ hcount ihl ihr =>
      have hchains := ihl.2.binary op hnext ihr.1 hcount
      exact ⟨hchains.readAs (Level.binary_level_ne_term op), hchains⟩

/-- The reader accepts exactly the derivations that fit into its room. -/
theorem readAt_iff {level : Level} {room : Nat} {ts rest : List Lexeme} {e : Expr}
    (hstops : Stops level rest) :
    readAt level room (ts ++ rest) = .ok (e, rest) ↔ InRoom level room ts e := by
  constructor
  · intro h
    obtain ⟨front, hfront, hin⟩ := reads_of_readAt h
    rw [List.append_cancel_right hfront]
    exact hin
  · exact fun h => h.reads.1 rest hstops

end Expr

end LineBasic
