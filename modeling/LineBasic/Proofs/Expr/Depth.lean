import LineBasic.Diagnostic
import LineBasic.Expr.Eval
import LineBasic.Proofs.Expr.Counted
import LineBasic.Proofs.Expr.Shape
import LineBasic.Proofs.Outcome

/-!
# The depth of expressions that are read

What an expression is read for goes through it by recursion: its value, its kind, its listing. So
each of these is nested as deep as the operations on the longest way down. The reader keeps that
short, although its two counters never see the whole way at once: nesting is taken back where it
ends, and operators are only counted once both their operands are there. What links the counters to
the finished tree is the room that its listing needs: it bounds the operands of unary operators and
the subscripts that are inside of each other, and also the binary operators, each of them alone.

`Nested` is a result with the depth of the calls that led to it, so that the recursions can be
written with every call of theirs marked, next to the plain ones.
-/

namespace LineBasic

namespace Expr

/-- The expression has another one nested in it: it is a unary operation or an array element. -/
def isNesting : Expr → Bool
  | element _ _ => true
  | unary _ _ => true
  | _ => false

/-- The expression is a binary operation. -/
def isBinary : Expr → Bool
  | binary _ _ _ => true
  | _ => false

/-- The expression is an operation on smaller ones. -/
def isOperation (e : Expr) : Bool :=
  e.isNesting || e.isBinary

/-- The ways down from an expression to its constants and variables, with all that they pass. -/
def paths : Expr → List (List Expr)
  | element name index => index.paths.map (element name index :: ·)
  | unary op operand => operand.paths.map (unary op operand :: ·)
  | binary op left right => (left.paths ++ right.paths).map (binary op left right :: ·)
  | e => [[e]]

/-- The length of the longest way down. -/
def height : Expr → Nat
  | element _ index => index.height + 1
  | unary _ operand => operand.height + 1
  | binary _ left right => max left.height right.height + 1
  | _ => 0

/-! ## Ways down and the room of the listing -/

theorem countP_isOperation (p : List Expr) :
    p.countP isOperation = p.countP isNesting + p.countP isBinary := by
  induction p with
  | nil => rfl
  | cons e p ih =>
      simp only [List.countP_cons, ih, isOperation]
      cases e <;> simp only [isNesting, isBinary, Bool.or_true, Bool.or_false, Bool.false_eq_true,
        if_true, if_false] <;> omega

theorem countP_isBinary_le {e : Expr} {p : List Expr} (hp : p ∈ e.paths) :
    p.countP isBinary ≤ e.binaries := by
  induction e generalizing p with
  | element name index ih =>
      obtain ⟨q, hq, rfl⟩ := List.mem_map.mp hp
      rw [List.countP_cons_of_neg Bool.false_ne_true]
      exact ih hq
  | unary op operand ih =>
      obtain ⟨q, hq, rfl⟩ := List.mem_map.mp hp
      rw [List.countP_cons_of_neg Bool.false_ne_true]
      exact ih hq
  | binary op left right ihl ihr =>
      obtain ⟨q, hq, rfl⟩ := List.mem_map.mp hp
      rw [List.countP_cons_of_pos rfl, binaries]
      rcases List.mem_append.mp hq with hl | hr
      · have := ihl hl
        omega
      · have := ihr hr
        omega
  | _ =>
      cases List.mem_singleton.mp hp
      exact Nat.le_refl _

theorem countP_isNesting_le {e : Expr} {p : List Expr} (hp : p ∈ e.paths) (place : Level) :
    p.countP isNesting ≤ e.roomAt place := by
  induction e generalizing p place with
  | element name index ih =>
      obtain ⟨q, hq, rfl⟩ := List.mem_map.mp hp
      rw [List.countP_cons_of_pos rfl, roomAt]
      exact Nat.succ_le_succ (ih hq _)
  | unary op operand ih =>
      obtain ⟨q, hq, rfl⟩ := List.mem_map.mp hp
      rw [List.countP_cons_of_pos rfl, roomAt]
      exact Nat.le_trans (Nat.succ_le_succ (ih hq _)) (enclosedRoom_le place op.level _).1
  | binary op left right ihl ihr =>
      obtain ⟨q, hq, rfl⟩ := List.mem_map.mp hp
      rw [List.countP_cons_of_neg Bool.false_ne_true, roomAt]
      refine Nat.le_trans ?_ (enclosedRoom_le place op.level _).1
      rcases List.mem_append.mp hq with hl | hr
      · have := ihl hl op.level
        omega
      · have := ihr hr op.rightPlace
        omega
  | _ =>
      cases List.mem_singleton.mp hp
      exact Nat.zero_le _

theorem exists_path (e : Expr) : ∃ p ∈ e.paths, p.countP isOperation = e.height := by
  induction e with
  | element name index ih =>
      obtain ⟨p, hp, hcount⟩ := ih
      exact ⟨_, List.mem_map_of_mem hp, by rw [List.countP_cons_of_pos rfl, hcount, height]⟩
  | unary op operand ih =>
      obtain ⟨p, hp, hcount⟩ := ih
      exact ⟨_, List.mem_map_of_mem hp, by rw [List.countP_cons_of_pos rfl, hcount, height]⟩
  | binary op left right ihl ihr =>
      obtain ⟨p, hp, hcount⟩ : ∃ p ∈ left.paths ++ right.paths,
          p.countP isOperation = max left.height right.height := by
        rcases Nat.le_total left.height right.height with h | h
        · rw [Nat.max_eq_right h]
          exact ihr.imp fun p hp => ⟨List.mem_append_right _ hp.1, hp.2⟩
        · rw [Nat.max_eq_left h]
          exact ihl.imp fun p hp => ⟨List.mem_append_left _ hp.1, hp.2⟩
      exact ⟨_, List.mem_map_of_mem hp, by rw [List.countP_cons_of_pos rfl, hcount, height]⟩
  | _ => exact ⟨_, List.mem_singleton_self _, rfl⟩

end Expr

/-! ## Recursions with their depth -/

/-- A result, and how deep the calls were nested that led to it. -/
structure Nested (α : Type) where
  value : α
  depth : Nat

namespace Nested

variable {α β : Type}

/-- Calls that follow each other are nested as deep as the deeper one. -/
instance : Monad Nested where
  pure a := ⟨a, 0⟩
  bind x f := ⟨(f x.value).value, max x.depth (f x.value).depth⟩

/-- The result of a call. -/
def call (x : Nested α) : Nested α :=
  ⟨x.value, x.depth + 1⟩

/-- The result is `a`, and no call is nested deeper than `n`. -/
structure Yields (x : Nested α) (a : α) (n : Nat) : Prop where
  value : x.value = a
  depth : x.depth ≤ n

variable {x : Nested α} {a : α} {n m : Nat}

theorem yields_pure (a : α) (n : Nat) : (pure a : Nested α).Yields a n :=
  ⟨rfl, Nat.zero_le n⟩

theorem Yields.mono (h : x.Yields a n) (hnm : n ≤ m) : x.Yields a m :=
  ⟨h.value, Nat.le_trans h.depth hnm⟩

theorem Yields.call (h : x.Yields a n) : x.call.Yields a (n + 1) :=
  ⟨h.value, Nat.succ_le_succ h.depth⟩

theorem Yields.bind {f : α → Nested β} {b : β} (hx : x.Yields a n) (hf : (f a).Yields b n) :
    (x >>= f).Yields b n := by
  obtain ⟨rfl, hdepth⟩ := hx
  exact ⟨hf.value, Nat.max_le.mpr ⟨hdepth, hf.depth⟩⟩

end Nested

namespace Expr

/-- The value of an expression, with the calls for its parts. -/
def nestedEval (vars : Variables) : Expr → Nested (Except Failure Value)
  | number x => pure (.ok (.number x))
  | text s => pure (.ok (.text s))
  | scalar name => pure (.ok (vars.get name))
  | element name index => do
      match ← (nestedEval vars index).call with
      | .error e => pure (.error e)
      | .ok v =>
          match v.toInteger with
          | .error e => pure (.error e)
          | .ok i => pure ((vars.element name i).mapError .fault)
  | unary op operand => do
      match ← (nestedEval vars operand).call with
      | .error e => pure (.error e)
      | .ok v => pure ((op.apply v).mapError .fault)
  | binary op left right => do
      match ← (nestedEval vars left).call with
      | .error e => pure (.error e)
      | .ok a =>
          match ← (nestedEval vars right).call with
          | .error e => pure (.error e)
          | .ok b => pure ((op.apply a b).mapError .fault)

/-- The findings in an expression and its kind, with the calls for its parts. -/
def nestedInfer (arrays : List Name) : Expr → Nested (List Finding × Option Kind)
  | number _ => pure ([], some .numeric)
  | text _ => pure ([], some .textual)
  | scalar name => pure ([], some (Kind.ofName name))
  | element name index => do
      let (found, kind) ← (nestedInfer arrays index).call
      pure ((if name ∈ arrays then [] else [.undimensioned name]) ++ found ++
        requireKind "array subscript" .numeric kind, some (Kind.ofName name))
  | unary op operand => do
      match ← (nestedInfer arrays operand).call with
      | (found, some .textual) => pure (found ++ [.textOperand op.spelling], none)
      | (found, kind) => pure (found, kind)
  | binary op left right => do
      let (found, leftKind) ← (nestedInfer arrays left).call
      let (found', rightKind) ← (nestedInfer arrays right).call
      match leftKind, rightKind with
      | some l, some r =>
          let (own, kind) := op.infer l r
          pure (found ++ found' ++ own, kind)
      | _, _ => pure (found ++ found', none)

/-- The listing of an expression, with the calls for its parts. -/
def nestedListing (place : Level) : Expr → Nested String
  | number x => pure (listedNumber x)
  | text s => pure (listedText s)
  | scalar name => pure name
  | element name index => do
      let inside ← (nestedListing .disjunction index).call
      pure (name ++ "(" ++ inside ++ ")")
  | unary op operand => do
      let inside ← (nestedListing op.level operand).call
      pure (bracketed place op.level (op.before ++ inside))
  | binary op left right => do
      let front ← (nestedListing op.level left).call
      let back ← (nestedListing op.rightPlace right).call
      pure (bracketed place op.level (front ++ op.between ++ back))

theorem yields_nestedEval (vars : Variables) (e : Expr) :
    (e.nestedEval vars).Yields (e.eval vars) e.height := by
  induction e with
  | element name index ih =>
      rw [nestedEval, eval, height]
      refine ih.call.bind ?_
      cases index.eval vars with
      | error e => exact Nested.yields_pure _ _
      | ok v => cases h : v.toInteger <;> simp only [h] <;> exact Nested.yields_pure _ _
  | unary op operand ih =>
      rw [nestedEval, eval, height]
      refine ih.call.bind ?_
      cases operand.eval vars <;> exact Nested.yields_pure _ _
  | binary op left right ihl ihr =>
      rw [nestedEval, eval, height]
      refine (ihl.call.mono (Nat.succ_le_succ (Nat.le_max_left _ _))).bind ?_
      cases left.eval vars with
      | error e => exact Nested.yields_pure _ _
      | ok a =>
          refine (ihr.call.mono (Nat.succ_le_succ (Nat.le_max_right _ _))).bind ?_
          cases right.eval vars <;> exact Nested.yields_pure _ _
  | _ => exact Nested.yields_pure _ _

theorem yields_nestedInfer (arrays : List Name) (e : Expr) :
    (e.nestedInfer arrays).Yields (e.infer arrays) e.height := by
  induction e with
  | element name index ih =>
      rw [nestedInfer, infer, height]
      exact ih.call.bind (Nested.yields_pure _ _)
  | unary op operand ih =>
      rw [nestedInfer, infer, height]
      refine ih.call.bind ?_
      obtain ⟨found, kind⟩ := operand.infer arrays
      rcases kind with - | - | - <;> exact Nested.yields_pure _ _
  | binary op left right ihl ihr =>
      rw [nestedInfer, infer, height]
      refine (ihl.call.mono (Nat.succ_le_succ (Nat.le_max_left _ _))).bind ?_
      refine (ihr.call.mono (Nat.succ_le_succ (Nat.le_max_right _ _))).bind ?_
      obtain ⟨found, leftKind⟩ := left.infer arrays
      obtain ⟨found', rightKind⟩ := right.infer arrays
      cases leftKind <;> cases rightKind <;> exact Nested.yields_pure _ _
  | _ => exact Nested.yields_pure _ _

theorem yields_nestedListing (place : Level) (e : Expr) :
    (e.nestedListing place).Yields (e.listingAt place) e.height := by
  induction e generalizing place with
  | element name index ih =>
      rw [nestedListing, listingAt, height]
      exact (ih _).call.bind (Nested.yields_pure _ _)
  | unary op operand ih =>
      rw [nestedListing, listingAt, height]
      exact (ih _).call.bind (Nested.yields_pure _ _)
  | binary op left right ihl ihr =>
      rw [nestedListing, listingAt, height]
      refine ((ihl _).call.mono (Nat.succ_le_succ (Nat.le_max_left _ _))).bind ?_
      refine ((ihr _).call.mono (Nat.succ_le_succ (Nat.le_max_right _ _))).bind ?_
      exact Nested.yields_pure _ _
  | _ => exact Nested.yields_pure _ _

/-! ## Expressions that are read -/

/-- The expression is as small as the reader keeps it, and what goes through it by recursion is
nested no deeper than that. -/
structure IsShallow (e : Expr) : Prop where
  binaries : e.binaries ≤ room
  nesting : ∀ p ∈ e.paths, p.countP isNesting ≤ room
  operations : ∀ p ∈ e.paths, p.countP isOperation ≤ 2 * room
  eval : ∀ vars, (e.nestedEval vars).Yields (e.eval vars) (2 * room)
  infer : ∀ arrays, (e.nestedInfer arrays).Yields (e.infer arrays) (2 * room)
  listing : ∀ place, (e.nestedListing place).Yields (e.listingAt place) (2 * room)

/-- What can be listed in the room of an expression is small. -/
theorem isShallow_of_roomAt {e : Expr} {place : Level} (h : e.roomAt place ≤ room) :
    e.IsShallow := by
  have hbinaries : e.binaries ≤ room := Nat.le_trans (binaries_le_roomAt place e) h
  have hnesting : ∀ p ∈ e.paths, p.countP isNesting ≤ room :=
    fun p hp => Nat.le_trans (countP_isNesting_le hp place) h
  -- nesting and binary operators each have the room for themselves, hence twice of it
  have hoperations : ∀ p ∈ e.paths, p.countP isOperation ≤ 2 * room := by
    intro p hp
    have hn := hnesting p hp
    have hb := countP_isBinary_le hp
    rw [countP_isOperation]
    omega
  have hheight : e.height ≤ 2 * room := by
    obtain ⟨p, hp, hcount⟩ := e.exists_path
    exact hcount ▸ hoperations p hp
  exact ⟨hbinaries, hnesting, hoperations, fun vars => (yields_nestedEval vars e).mono hheight,
    fun arrays => (yields_nestedInfer arrays e).mono hheight,
    fun place => (yields_nestedListing place e).mono hheight⟩

theorem isShallow_of_read {ts rest : List Lexeme} {e : Expr} (h : Expr.read ts = .ok (e, rest)) :
    e.IsShallow :=
  isShallow_of_roomAt ((reads_of_readAt h).fits (P := fun _ => True) fun _ _ => trivial).1

end Expr

theorem Target.isShallow_of_read {ts rest : List Lexeme} {t : Target}
    (h : Target.read ts = .ok (t, rest)) : t.toExpr.IsShallow := by
  unfold Target.read at h
  split at h
  · exact Expr.isShallow_of_roomAt
      ((Expr.reads_of_readReference h).fits (P := fun _ => True) fun _ _ => trivial).1
  · cases h

/-- Whatever lexemes an expression or a target is read off, and whatever the counters of the reader
are after all that it has read and misread before: there is room for every binary operator of the
tree, and for all the unary operators and subscripts on a way down. So no way down passes more
operations than twice the room, and neither does the evaluator, the checker or the lister nest any
deeper in that tree. -/
theorem read_expressions_shallow (ts rest : List Lexeme) (c : Counters) :
    (∀ e, (Counting.expression ts c).1 = .ok (e, rest) → e.IsShallow) ∧
    (∀ t, (Counting.target ts c).1 = .ok (t, rest) → t.toExpr.IsShallow) := by
  rw [Counting.agrees_expression ts c, Counting.agrees_target ts c]
  exact ⟨fun e => Expr.isShallow_of_read, fun t => Target.isShallow_of_read⟩

/-- As many operators in front as there is room for, and then as many as there is room for behind
them: by then the nesting is forgotten, and the way down to the first number passes them all. -/
theorem read_expressions_shallow_deepest :
    let nots := List.replicate Expr.room (Lexeme.keyword .NOT)
    let ands := (List.replicate Expr.room [Lexeme.keyword .AND, .number 1]).flatten
    ∃ e, (Counting.expression (nots ++ .number 1 :: ands) ⟨60, 60⟩).1 = .ok (e, []) ∧
      e.IsShallow ∧ e.height = 2 * Expr.room := by
  intro nots ands
  obtain ⟨⟨e, rest⟩, hread, hheight⟩ := exists_of_any
    (p := fun q => q.2.isEmpty && q.1.height == 2 * Expr.room)
    (show (Expr.read (nots ++ .number 1 :: ands)).toOption.any _ = true by decide +kernel)
  obtain ⟨hrest, hheight⟩ := Bool.and_eq_true_iff.mp hheight
  cases List.isEmpty_iff.mp hrest
  have hcounting : (Counting.expression (nots ++ .number 1 :: ands) ⟨60, 60⟩).1 = .ok (e, []) := by
    rw [Counting.agrees_expression, hread]
  exact ⟨e, hcounting, (read_expressions_shallow _ [] ⟨60, 60⟩).1 e hcounting, eq_of_beq hheight⟩

end LineBasic
