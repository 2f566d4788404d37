import LineBasic.Proofs.Expr.Grammar
import LineBasic.Token.Lexer

/-!
# Which texts are expressions

The tokens of a text are read as one expression just if the grammar derives it from all of them and
it fits into the room of an expression. There is room for every derivation from lexemes with at most
that many operators and opening brackets, however these are nested; so short expressions are read
just as the grammar has it. Since the reader has one answer, the grammar is not ambiguous. Tokens
that are not read are a syntax error in the line, at one of the tokens or behind the last one.
-/

namespace LineBasic

/-- The lexeme is an operator or opens a bracket. -/
def Lexeme.weighs : Lexeme → Bool
  | operator _ => true
  | keyword .OR => true
  | keyword .AND => true
  | keyword .NOT => true
  | mark .leftParen => true
  | _ => false

namespace Expr

/-- The count of operators and opening brackets. In an expression an operator has one operand or
two, and an opening bracket belongs to an array or groups. -/
def weight (ts : List Lexeme) : Nat :=
  ts.countP Lexeme.weighs

theorem weight_append (ts ts' : List Lexeme) : weight (ts ++ ts') = weight ts + weight ts' :=
  List.countP_append

theorem weight_unary (op : UnaryOp) (ts : List Lexeme) :
    weight (op.lexeme :: ts) = weight ts + 1 :=
  List.countP_cons_of_pos (by cases op <;> rfl)

theorem weight_binary (op : BinaryOp) (ts : List Lexeme) :
    weight (op.lexeme :: ts) = weight ts + 1 :=
  List.countP_cons_of_pos (by cases op <;> rfl)

theorem weight_bracket (ts : List Lexeme) :
    weight (.mark .leftParen :: (ts ++ [.mark .rightParen])) = weight ts + 1 := by
  rw [weight, List.countP_cons_of_pos rfl, List.countP_append]
  rfl

theorem weight_element (n : Name) (ts : List Lexeme) :
    weight (.name n :: .mark .leftParen :: (ts ++ [.mark .rightParen])) = weight ts + 1 :=
  (List.countP_cons_of_neg Bool.false_ne_true).trans (weight_bracket ts)

/-- Each binary operator is one of the lexemes. -/
theorem Derives.binaries_le {level : Level} {ts : List Lexeme} {e : Expr}
    (h : Derives level ts e) : e.binaries ≤ weight ts := by
  induction h with
  | number => exact Nat.zero_le _
  | text => exact Nat.zero_le _
  | scalar => exact Nat.zero_le _
  | element n _ ih => exact weight_element n _ ▸ Nat.le_succ_of_le ih
  | bracket _ ih => exact weight_bracket _ ▸ Nat.le_succ_of_le ih
  | tighter _ _ ih => exact ih
  | unary op _ ih => exact weight_unary op _ ▸ Nat.le_succ_of_le ih
  | binary op _ _ _ ihl ihr =>
      rw [binaries, weight_append, weight_binary]
      omega

/-- A derivation fits into a room that is as large as the weight of its lexemes. -/
theorem Derives.inRoom {level : Level} {ts : List Lexeme} {e : Expr} (h : Derives level ts e)
    {room : Nat} (hroom : weight ts ≤ room) : InRoom level room ts e := by
  induction h generalizing room with
  | number x => exact .number x
  | text s => exact .text s
  | scalar n => exact .scalar n
  | element n _ ih =>
      rw [weight_element] at hroom
      obtain ⟨room, rfl⟩ : ∃ r, room = r + 1 := ⟨room - 1, by omega⟩
      exact .element n (ih (by omega))
  | bracket _ ih =>
      rw [weight_bracket] at hroom
      obtain ⟨room, rfl⟩ : ∃ r, room = r + 1 := ⟨room - 1, by omega⟩
      exact .bracket (ih (by omega))
  | tighter hnext _ ih => exact .tighter hnext (ih hroom)
  | unary op _ ih =>
      rw [weight_unary] at hroom
      obtain ⟨room, rfl⟩ : ∃ r, room = r + 1 := ⟨room - 1, by omega⟩
      exact .unary op (ih (by omega))
  | binary op hnext hleft hright ihl ihr =>
      rw [weight_append, weight_binary] at hroom
      have hl := hleft.binaries_le
      have hr := hright.binaries_le
      exact .binary op hnext (ihl (by omega)) (ihr (by omega)) (by omega)

/-- The grammar is not ambiguous. -/
theorem Derives.unique {level : Level} {ts : List Lexeme} {e e' : Expr} (h : Derives level ts e)
    (h' : Derives level ts e') : e = e' := by
  have hread := (h.inRoom (Nat.le_refl _)).reads.1 [] (stops_nil level)
  have hread' := (h'.inRoom (Nat.le_refl _)).reads.1 [] (stops_nil level)
  cases hread.symm.trans hread'
  rfl

/-- Tokens are read as the expression that is derived from them in the room of an expression. -/
theorem ofTokens_eq_ok_iff {line : Option Int} {toks : List Token} {e : Expr} :
    ofTokens line toks = .ok e ↔ InRoom .disjunction room (toks.map Token.lexeme) e := by
  rw [← readAt_iff (stops_nil _), List.append_nil]
  unfold ofTokens read
  rcases readAt .disjunction room (toks.map Token.lexeme) with m | ⟨e', _ | ⟨l, rest⟩⟩
  · exact ⟨fun h => (nomatch h), fun h => (nomatch h)⟩
  · constructor <;> intro h <;> cases h <;> rfl
  · exact ⟨fun h => (nomatch h), fun h => (nomatch h)⟩

/-- The column of an error is that of a token, or the one behind the last token. -/
theorem columnAt_cases (toks : List Token) (endColumn left : Nat) :
    columnAt toks endColumn left = endColumn ∨
      ∃ t ∈ toks, columnAt toks endColumn left = t.column := by
  unfold columnAt
  cases hhead : (toks.drop (toks.length - left)).head? with
  | none => exact .inl rfl
  | some t => exact .inr ⟨t, List.mem_of_mem_drop (List.mem_of_mem_head? hhead), rfl⟩

/-- What the tokens of a text are read as. A tree that is returned is derived from them. A tree that
is derived from them is returned if they have at most sixty operators and opening brackets. If no
tree is returned there is a syntax error in the line, at a token or behind the last one. -/
theorem ofTokens_grammar (line : Option Int) (toks : List Token) :
    let ts := toks.map Token.lexeme
    (∀ e, ofTokens line toks = .ok e → Derives .disjunction ts e) ∧
    (∀ e, Derives .disjunction ts e → weight ts ≤ 60 → ofTokens line toks = .ok e) ∧
    ((¬ ∃ e, ofTokens line toks = .ok e) →
      ∃ column detail, ofTokens line toks = .error ⟨line, some column, some detail⟩ ∧
        (column = endColumnOf toks ∨ ∃ t ∈ toks, column = t.column)) := by
  intro ts
  refine ⟨fun e h => (ofTokens_eq_ok_iff.mp h).derives,
    fun e h hweight => ofTokens_eq_ok_iff.mpr (h.inRoom hweight), fun hnone => ?_⟩
  have hplace (m : Misread) := columnAt_cases toks (endColumnOf toks) m.left
  unfold ofTokens at hnone ⊢
  dsimp only at hnone ⊢
  split at hnone
  · rename_i m _
    exact ⟨_, _, rfl, hplace m⟩
  · exact absurd ⟨_, rfl⟩ hnone
  · rename_i l rest _
    exact ⟨_, _, rfl, hplace ⟨.unexpected l, (l :: rest).length⟩⟩

/-- `A-B(C)-(D)` groups to the left. -/
theorem ofTokens_grammar_left :
    ofTokens none [⟨.name "A", 1⟩, ⟨.operator .minus, 2⟩, ⟨.name "B", 3⟩, ⟨.mark .leftParen, 4⟩,
        ⟨.name "C", 5⟩, ⟨.mark .rightParen, 6⟩, ⟨.operator .minus, 7⟩, ⟨.mark .leftParen, 8⟩,
        ⟨.name "D", 9⟩, ⟨.mark .rightParen, 10⟩] =
      .ok (.binary .minus (.binary .minus (.scalar "A") (.element "B" (.scalar "C")))
        (.scalar "D")) := by
  have hfactor {ts : List Lexeme} {e : Expr} (h : Derives .term ts e) : Derives .product ts e :=
    .tighter rfl (.tighter rfl h)
  have hsum {ts : List Lexeme} {e : Expr} (h : Derives .sum ts e) : Derives .disjunction ts e :=
    .tighter rfl (.tighter rfl (.tighter rfl (.tighter rfl h)))
  have hname (n : Name) : Derives .disjunction [.name n] (.scalar n) :=
    hsum (.tighter rfl (hfactor (.scalar n)))
  have hfirst := Derives.binary .minus rfl (.tighter rfl (hfactor (.scalar "A")))
    (hfactor (.element "B" (hname "C")))
  have hsecond := Derives.binary .minus rfl hfirst (hfactor (.bracket (hname "D")))
  exact (ofTokens_grammar none _).2.1 _ (hsum hsecond) (by decide)

end Expr

end LineBasic
