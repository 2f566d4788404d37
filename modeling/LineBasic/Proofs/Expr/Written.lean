import LineBasic.Proofs.Expr.Parsing
import LineBasic.Proofs.Expr.RoundTrip

/-!
# Expressions as they are written

An expression forgets the brackets that grouped it. `Written` keeps them: it is the expression with
a node for each pair of brackets around a part. The lexemes that are derived as an expression are
those of the ways to write it in which every operator stands at a place that takes its level
(`Fits`), so what is said of all lexemes of an expression can be shown by induction on how it is
written.

`Expr.written place e` is the expression with the brackets of its listing. They are put as they are
needed, from the outside to the inside.
-/

namespace LineBasic

/-- An expression with the brackets that it is written with. -/
inductive Written where
  | number (value : Float)
  | text (value : String)
  | scalar (name : Name)
  | element (name : Name) (index : Written)
  | unary (op : UnaryOp) (operand : Written)
  | binary (op : BinaryOp) (left right : Written)
  | bracket (inner : Written)

/-- From an expression to one of its parts. -/
inductive Expr.Branch where
  | index | operand | left | right
deriving DecidableEq, Repr

namespace Written

/-- The expression without its brackets. -/
def tree : Written → Expr
  | number x => .number x
  | text s => .text s
  | scalar n => .scalar n
  | element n index => .element n index.tree
  | unary op operand => .unary op operand.tree
  | binary op left right => .binary op left.tree right.tree
  | bracket inner => inner.tree

/-- The lexemes, one after the other. -/
def lexemes : Written → List Lexeme
  | number x => [.number x]
  | text s => [.quote s]
  | scalar n => [.name n]
  | element n index => .name n :: .mark .leftParen :: (index.lexemes ++ [.mark .rightParen])
  | unary op operand => op.lexeme :: operand.lexemes
  | binary op left right => left.lexemes ++ op.lexeme :: right.lexemes
  | bracket inner => .mark .leftParen :: (inner.lexemes ++ [.mark .rightParen])

/-- Every operator stands at a place that takes its level. -/
def Fits (place : Level) : Written → Prop
  | number _ => True
  | text _ => True
  | scalar _ => True
  | element _ index => index.Fits .disjunction
  | unary op operand => op.level.rank ≤ place.rank ∧ operand.Fits op.level
  | binary op left right =>
      op.level.rank ≤ place.rank ∧ left.Fits op.level ∧ right.Fits op.rightPlace
  | bracket inner => inner.Fits .disjunction

/-- The count of brackets that group. The brackets of an array element do not. -/
def pairs : Written → Nat
  | number _ => 0
  | text _ => 0
  | scalar _ => 0
  | element _ index => index.pairs
  | unary _ operand => operand.pairs
  | binary _ left right => left.pairs + right.pairs
  | bracket inner => inner.pairs + 1

/-- The count of brackets directly around the part at the end of a path. -/
def pairsAt : Written → List Expr.Branch → Nat
  | bracket inner, [] => inner.pairsAt [] + 1
  | bracket inner, path => inner.pairsAt path
  | element _ index, .index :: path => index.pairsAt path
  | unary _ operand, .operand :: path => operand.pairsAt path
  | binary _ left _, .left :: path => left.pairsAt path
  | binary _ _ right, .right :: path => right.pairsAt path
  | _, _ => 0

/-- What fits a place fits every looser one. -/
theorem Fits.mono {w : Written} {place place' : Level} (h : w.Fits place)
    (hle : place.rank ≤ place'.rank) : w.Fits place' := by
  cases w with
  | unary op operand => exact ⟨Nat.le_trans h.1 hle, h.2⟩
  | binary op left right => exact ⟨Nat.le_trans h.1 hle, h.2⟩
  | _ => exact h

end Written

namespace BinaryOp

/-- The right operand stands one level tighter than the operator. -/
theorem tighter?_level (op : BinaryOp) : op.level.tighter? = some op.rightPlace := by
  cases op <;> rfl

end BinaryOp

namespace Expr

/-- What is derived on a level is derived on every looser one. -/
theorem Derives.lift {level level' : Level} {ts : List Lexeme} {e : Expr}
    (h : Derives level ts e) (hle : level.rank ≤ level'.rank) : Derives level' ts e :=
  ((h.inRoom (Nat.le_refl _)).lift hle).derives

end Expr

open LineBasic.Expr

namespace Written

theorem Fits.derives {w : Written} {place : Level} (h : w.Fits place) :
    Derives place w.lexemes w.tree := by
  induction w generalizing place with
  | number x => exact (Derives.number x).lift (Nat.zero_le _)
  | text s => exact (Derives.text s).lift (Nat.zero_le _)
  | scalar n => exact (Derives.scalar n).lift (Nat.zero_le _)
  | element n index ih => exact (Derives.element n (ih h)).lift (Nat.zero_le _)
  | unary op operand ih => exact (Derives.unary op (ih h.2)).lift h.1
  | binary op left right ihl ihr =>
      exact (Derives.binary op op.tighter?_level (ihl h.2.1) (ihr h.2.2)).lift h.1
  | bracket inner ih => exact (Derives.bracket (ih h)).lift (Nat.zero_le _)

end Written

/-- The derivations of an expression are the ways to write it. -/
theorem Expr.derives_iff_written {place : Level} {ts : List Lexeme} {e : Expr} :
    Derives place ts e ↔ ∃ w : Written, w.Fits place ∧ w.lexemes = ts ∧ w.tree = e := by
  constructor
  · intro h
    induction h with
    | number x => exact ⟨.number x, trivial, rfl, rfl⟩
    | text s => exact ⟨.text s, trivial, rfl, rfl⟩
    | scalar n => exact ⟨.scalar n, trivial, rfl, rfl⟩
    | element n _ ih =>
        obtain ⟨index, hfits, rfl, rfl⟩ := ih
        exact ⟨.element n index, hfits, rfl, rfl⟩
    | bracket _ ih =>
        obtain ⟨inner, hfits, rfl, rfl⟩ := ih
        exact ⟨.bracket inner, hfits, rfl, rfl⟩
    | tighter hnext _ ih =>
        obtain ⟨w, hfits, rfl, rfl⟩ := ih
        have hrank := Level.rank_of_tighter? hnext
        exact ⟨w, hfits.mono (by omega), rfl, rfl⟩
    | unary op _ ih =>
        obtain ⟨operand, hfits, rfl, rfl⟩ := ih
        exact ⟨.unary op operand, ⟨Nat.le_refl _, hfits⟩, rfl, rfl⟩
    | binary op hnext _ _ ihl ihr =>
        obtain ⟨left, hleft, rfl, rfl⟩ := ihl
        obtain ⟨right, hright, rfl, rfl⟩ := ihr
        cases hnext.symm.trans op.tighter?_level
        exact ⟨.binary op left right, ⟨Nat.le_refl _, hleft, hright⟩, rfl, rfl⟩
  · rintro ⟨w, hfits, rfl, rfl⟩
    exact hfits.derives

/-! ## The weight of what is written -/

/-- The count of operators and array elements. -/
def Expr.operations : Expr → Nat
  | number _ => 0
  | text _ => 0
  | scalar _ => 0
  | element _ index => index.operations + 1
  | unary _ operand => operand.operations + 1
  | binary _ left right => left.operations + right.operations + 1

/-- What weighs in an expression is its operators, its array elements and its brackets. -/
theorem Written.weight_lexemes (w : Written) :
    weight w.lexemes = w.tree.operations + w.pairs := by
  induction w with
  | number x => rfl
  | text s => rfl
  | scalar n => rfl
  | element n index ih =>
      rw [lexemes, weight_element, ih, tree, operations, pairs]
      omega
  | unary op operand ih =>
      rw [lexemes, weight_unary, ih, tree, operations, pairs]
      omega
  | binary op left right ihl ihr =>
      rw [lexemes, weight_append, weight_binary, ihl, ihr, tree, operations, pairs]
      omega
  | bracket inner ih =>
      rw [lexemes, weight_bracket, ih, tree, pairs]
      omega

/-! ## The brackets of a listing -/

/-- Brackets around what is looser than its place. -/
def Written.enclosed (place own : Level) (w : Written) : Written :=
  if place.rank < own.rank then bracket w else w

/-- The expression with the brackets of its listing at a place. -/
def Expr.written (place : Level) : Expr → Written
  | number x => .number x
  | text s => .text s
  | scalar n => .scalar n
  | element n index => .element n (index.written .disjunction)
  | unary op operand => .enclosed place op.level (.unary op (operand.written op.level))
  | binary op left right =>
      .enclosed place op.level
        (.binary op (left.written op.level) (right.written op.rightPlace))

namespace Written

theorem enclosed_of_le {place own : Level} (h : own.rank ≤ place.rank) (w : Written) :
    w.enclosed place own = w :=
  if_neg (Nat.not_lt.mpr h)

@[simp] theorem tree_enclosed (place own : Level) (w : Written) :
    (w.enclosed place own).tree = w.tree := by
  unfold enclosed
  split <;> rfl

theorem lexemes_enclosed (place own : Level) (w : Written) :
    (w.enclosed place own).lexemes = Expr.enclosed place own w.lexemes := by
  unfold enclosed Expr.enclosed
  split <;> rfl

/-- Brackets make everything fit. -/
theorem Fits.enclosed {w : Written} {own : Level} (h : w.Fits own) (place : Level) :
    (w.enclosed place own).Fits place := by
  unfold Written.enclosed
  split
  case isTrue hlt => exact h.mono own.rank_le
  case isFalse hge => exact h.mono (Nat.not_lt.mp hge)

end Written

namespace Expr

/-- A place adds nothing but the brackets. -/
theorem written_eq (place : Level) (e : Expr) :
    e.written place = (e.written .disjunction).enclosed place e.level := by
  have hloose (own : Level) (w : Written) : w.enclosed .disjunction own = w :=
    Written.enclosed_of_le own.rank_le w
  have hterm (w : Written) : w.enclosed place .term = w :=
    Written.enclosed_of_le (Nat.zero_le _) w
  cases e <;> simp only [written, level, hloose, hterm]

@[simp] theorem tree_written (place : Level) (e : Expr) : (e.written place).tree = e := by
  induction e generalizing place with
  | element n index ih => rw [written, Written.tree, ih]
  | unary op operand ih => rw [written, Written.tree_enclosed, Written.tree, ih]
  | binary op left right ihl ihr =>
      rw [written, Written.tree_enclosed, Written.tree, ihl, ihr]
  | _ => rfl

/-- The brackets are those of the listing. -/
theorem lexemes_written (place : Level) (e : Expr) :
    (e.written place).lexemes = e.lexemesAt place := by
  induction e generalizing place with
  | element n index ih => rw [written, Written.lexemes, ih, lexemesAt]
  | unary op operand ih =>
      rw [written, Written.lexemes_enclosed, Written.lexemes, ih, lexemesAt]
  | binary op left right ihl ihr =>
      rw [written, Written.lexemes_enclosed, Written.lexemes, ihl, ihr, lexemesAt]
  | _ => rfl

theorem fits_written (place : Level) (e : Expr) : (e.written place).Fits place := by
  induction e generalizing place with
  | number x => trivial
  | text s => trivial
  | scalar n => trivial
  | element n index ih => exact ih .disjunction
  | unary op operand ih =>
      have h : (Written.unary op (operand.written op.level)).Fits op.level :=
        ⟨Nat.le_refl _, ih op.level⟩
      exact h.enclosed place
  | binary op left right ihl ihr =>
      have h : (Written.binary op (left.written op.level) (right.written op.rightPlace)).Fits
          op.level := ⟨Nat.le_refl _, ihl op.level, ihr op.rightPlace⟩
      exact h.enclosed place

end Expr

end LineBasic
