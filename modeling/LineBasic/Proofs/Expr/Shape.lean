import LineBasic.Listing
import LineBasic.Proofs.Expr.Grammar

/-!
# The shape of expressions that are read

What the reader of expressions can return. `roomAt place e` is the least room in which `e` is read
back from its listing at a place, where brackets stand only as far as they are needed. An expression
that was read, with whatever brackets, had at least that room: brackets and nesting only add to
it. The expression is made of lexemes of the line, and what is left over is the end of the line. All
of this holds of derivations, so it goes by induction on the grammar.
-/

namespace LineBasic

open Reading

namespace Expr

/-- Every constant and name of the expression has the property, as a lexeme. -/
def MadeOf (P : Lexeme → Prop) : Expr → Prop
  | number x => P (.number x)
  | text s => P (.quote s)
  | scalar n => P (.name n)
  | element n index => P (.name n) ∧ index.MadeOf P
  | unary _ operand => operand.MadeOf P
  | binary _ left right => left.MadeOf P ∧ right.MadeOf P

/-- One level of nesting more if brackets are needed at the place. -/
def enclosedRoom (place own : Level) (n : Nat) : Nat :=
  if place.rank < own.rank then n + 1 else n

/-- The room that it takes to read the listing of an expression at a place. -/
def roomAt (place : Level) : Expr → Nat
  | number _ => 0
  | text _ => 0
  | scalar _ => 0
  | element _ index => index.roomAt .disjunction + 1
  | unary op operand => enclosedRoom place op.level (operand.roomAt op.level + 1)
  | binary op left right =>
      enclosedRoom place op.level
        (max (left.roomAt op.level)
          (left.binaries + max (right.roomAt op.rightPlace) (right.binaries + 1)))

theorem enclosedRoom_anti {place place' : Level} (own : Level) (n : Nat)
    (h : place.rank ≤ place'.rank) : enclosedRoom place' own n ≤ enclosedRoom place own n := by
  unfold enclosedRoom
  split <;> split <;> omega

theorem enclosedRoom_le (place own : Level) (n : Nat) :
    n ≤ enclosedRoom place own n ∧ enclosedRoom place own n ≤ n + 1 := by
  unfold enclosedRoom
  split <;> omega

@[simp] theorem enclosedRoom_disjunction (own : Level) (n : Nat) :
    enclosedRoom .disjunction own n = n :=
  if_neg (Nat.not_lt.mpr own.rank_le)

@[simp] theorem enclosedRoom_term (place : Level) (n : Nat) : enclosedRoom place .term n = n :=
  if_neg (Nat.not_lt_zero _)

/-- A place adds nothing but the brackets. -/
theorem roomAt_eq (place : Level) (e : Expr) :
    e.roomAt place = enclosedRoom place e.level (e.roomAt .disjunction) := by
  cases e <;> simp only [roomAt, level, enclosedRoom_disjunction, enclosedRoom_term]

/-- A place that takes looser expressions needs no more room. -/
theorem roomAt_anti {place place' : Level} (e : Expr) (h : place.rank ≤ place'.rank) :
    e.roomAt place' ≤ e.roomAt place := by
  rw [roomAt_eq place', roomAt_eq place]
  exact enclosedRoom_anti _ _ h

/-- Brackets add one level of nesting. -/
theorem roomAt_le_succ (place : Level) (e : Expr) :
    e.roomAt place ≤ e.roomAt .disjunction + 1 := by
  rw [roomAt_eq place]
  exact (enclosedRoom_le _ _ _).2

/-- Each binary operator takes room. -/
theorem binaries_le_roomAt (place : Level) (e : Expr) : e.binaries ≤ e.roomAt place := by
  induction e generalizing place with
  | element _ index ih => exact Nat.le_succ_of_le (ih _)
  | unary op operand ih =>
      have := ih op.level
      have := (enclosedRoom_le place op.level (operand.roomAt op.level + 1)).1
      simp only [binaries, roomAt]
      omega
  | binary op left right =>
      refine Nat.le_trans ?_ (enclosedRoom_le place op.level _).1
      simp only [binaries]
      omega
  | _ => exact Nat.le_refl _

/-! ## What is derived -/

/-- What is derived from lexemes is made of them. -/
theorem Derives.madeOf {P : Lexeme → Prop} {level : Level} {ts : List Lexeme} {e : Expr}
    (h : Derives level ts e) (hts : ∀ l ∈ ts, P l) : e.MadeOf P := by
  induction h with
  | number => exact hts _ List.mem_cons_self
  | text => exact hts _ List.mem_cons_self
  | scalar => exact hts _ List.mem_cons_self
  | element n _ ih =>
      obtain ⟨hname, hrest⟩ := List.forall_mem_cons.mp hts
      exact ⟨hname, ih (List.forall_mem_append.mp (forall_of_cons hrest)).1⟩
  | bracket _ ih => exact ih (List.forall_mem_append.mp (forall_of_cons hts)).1
  | tighter _ _ ih => exact ih hts
  | unary op _ ih => exact ih (forall_of_cons hts)
  | binary op _ _ _ ihl ihr =>
      obtain ⟨hleft, hright⟩ := List.forall_mem_append.mp hts
      exact ⟨ihl hleft, ihr (forall_of_cons hright)⟩

/-- An operator with operands that fit, the right one into the room that the left one leaves. -/
theorem roomAt_binary_le {op : BinaryOp} {next : Level} (h : op.level.tighter? = some next)
    {left right : Expr} {room : Nat} (hleft : left.roomAt op.level ≤ room)
    (hright : right.roomAt next ≤ room - left.binaries)
    (hcount : right.binaries < room - left.binaries) :
    (binary op left right).roomAt op.level ≤ room := by
  have hplace : op.rightPlace = next := by rw [BinaryOp.rightPlace, h]; rfl
  have hbin := binaries_le_roomAt op.level left
  rw [roomAt, enclosedRoom, if_neg (Nat.lt_irrefl _), hplace]
  omega

/-- What fits with the brackets that it has fits with those that it needs. -/
theorem InRoom.roomAt_le {level : Level} {room : Nat} {ts : List Lexeme} {e : Expr}
    (h : InRoom level room ts e) : e.roomAt level ≤ room := by
  induction h with
  | number => exact Nat.zero_le _
  | text => exact Nat.zero_le _
  | scalar => exact Nat.zero_le _
  | element _ _ ih => exact Nat.succ_le_succ ih
  | bracket _ ih => exact Nat.le_trans (roomAt_le_succ .term _) (Nat.succ_le_succ ih)
  | tighter hnext _ ih =>
      have hrank := Level.rank_of_tighter? hnext
      exact Nat.le_trans (roomAt_anti _ (by omega)) ih
  | unary op _ ih =>
      rw [roomAt, enclosedRoom, if_neg (Nat.lt_irrefl _)]
      exact Nat.succ_le_succ ih
  | binary op hnext _ _ hcount ihl ihr => exact roomAt_binary_le hnext ihl ihr hcount

/-- What is read: an expression of the given lexemes that has the room it was given, and the end of
the lexemes. -/
theorem Reads.fits {P : Lexeme → Prop} {level : Level} {room : Nat} {ts rest : List Lexeme}
    {e : Expr} (h : Reads level room ts e rest) (hts : ∀ l ∈ ts, P l) :
    e.roomAt level ≤ room ∧ e.MadeOf P ∧ rest <:+ ts := by
  obtain ⟨front, rfl, hin⟩ := h
  exact ⟨hin.roomAt_le, hin.derives.madeOf (List.forall_mem_append.mp hts).1,
    List.suffix_append front rest⟩

end Expr

end LineBasic
