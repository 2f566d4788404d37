import LineBasic.Proofs.Expr.Shape

/-!
# Expressions are read back from their lexemes

`lexemesAt place e` are the lexemes of the listing of `e` at a place. In room enough they are read
back as `e`, if what follows neither opens a bracket nor goes on with an operator of the place. They
are derived as `e` in that room, and what is derived is read.
-/

namespace LineBasic

open Reading

namespace Expr

/-- Lexemes in brackets if the level is looser than the place. -/
def enclosed (place own : Level) (ls : List Lexeme) : List Lexeme :=
  if place.rank < own.rank then .mark .leftParen :: (ls ++ [.mark .rightParen]) else ls

/-- The lexemes of the listing of an expression at a place. -/
def lexemesAt (place : Level) : Expr → List Lexeme
  | number x => [.number x]
  | text s => [.quote s]
  | scalar n => [.name n]
  | element n index =>
      .name n :: .mark .leftParen :: (index.lexemesAt .disjunction ++ [.mark .rightParen])
  | unary op operand => enclosed place op.level (op.lexeme :: operand.lexemesAt op.level)
  | binary op left right =>
      enclosed place op.level
        (left.lexemesAt op.level ++ op.lexeme :: right.lexemesAt op.rightPlace)

/-- Brackets are put around a derivation that is looser than its place. -/
theorem inRoom_enclosed {own : Level} {least : Nat} {ts : List Lexeme} {e : Expr}
    (h : ∀ room, least ≤ room → InRoom own room ts e) {place : Level} {room : Nat}
    (hroom : enclosedRoom place own least ≤ room) :
    InRoom place room (enclosed place own ts) e := by
  unfold enclosedRoom at hroom
  unfold enclosed
  split at hroom
  case isTrue hlt =>
    obtain ⟨room, rfl⟩ : ∃ r, room = r + 1 := ⟨room - 1, by omega⟩
    rw [if_pos hlt]
    exact (InRoom.bracket ((h room (by omega)).lift own.rank_le)).lift (Nat.zero_le _)
  case isFalse hge =>
    rw [if_neg hge]
    exact (h room hroom).lift (Nat.not_lt.mp hge)

/-- The lexemes of an expression are derived as the expression, if there is room. -/
theorem inRoom_lexemesAt (place : Level) (e : Expr) {room : Nat} (hroom : e.roomAt place ≤ room) :
    InRoom place room (e.lexemesAt place) e := by
  induction e generalizing place room with
  | number x => exact (InRoom.number x).lift (Nat.zero_le _)
  | text s => exact (InRoom.text s).lift (Nat.zero_le _)
  | scalar n => exact (InRoom.scalar n).lift (Nat.zero_le _)
  | element n index ih =>
      rw [roomAt] at hroom
      obtain ⟨room, rfl⟩ : ∃ r, room = r + 1 := ⟨room - 1, by omega⟩
      exact (InRoom.element n (ih .disjunction (by omega))).lift (Nat.zero_le _)
  | unary op operand ih =>
      refine inRoom_enclosed (fun room hroom => ?_) hroom
      obtain ⟨room, rfl⟩ : ∃ r, room = r + 1 := ⟨room - 1, by omega⟩
      exact .unary op (ih op.level (by omega))
  | binary op left right ihl ihr =>
      obtain ⟨next, hnext⟩ := Level.exists_tighter (Level.binary_level_ne_term op)
      have hplace : op.rightPlace = next := by rw [BinaryOp.rightPlace, hnext]; rfl
      refine inRoom_enclosed (fun room hroom => ?_) hroom
      exact .binary op hnext (ihl op.level (by omega)) (hplace ▸ ihr op.rightPlace (by omega))
        (by omega)

/-- An expression is read back from its lexemes. -/
theorem readAt_lexemesAt (place : Level) (e : Expr) {room : Nat} {rest : List Lexeme}
    (hroom : e.roomAt place ≤ room) (hstops : Stops place rest) :
    readAt place room (e.lexemesAt place ++ rest) = .ok (e, rest) :=
  (inRoom_lexemesAt place e hroom).reads.1 rest hstops

end Expr

end LineBasic
