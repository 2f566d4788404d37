import LineBasic.Proofs.Expr.Grammar

/-!
# Expressions read by a reader that counts

A reader that is kept from one expression to the next has two counters: how deep it is nested in the
expression at hand, and how many binary operators it has read. They are set back in front of every
expression. A misreading leaves them where they stand, so what they are in front of an expression
depends on all that was read before.

The readers here have these counters, where `Expr.readAt` has the room that is left. They come to an
end because nothing that is read gives room back, which is part of what they arrive at. They read
the same: as long as the counters and the room add up to the room of an expression, both arrive at
the same outcome, and the operators of what was read have been counted.
-/

namespace LineBasic

open Reading

/-- The counters of a reader. -/
structure Counters where
  nesting : Nat
  operators : Nat
deriving DecidableEq

namespace Counters

/-- The room that is taken. -/
def used (c : Counters) : Nat :=
  c.nesting + c.operators

/-- One nesting level down. -/
def enter (c : Counters) : Counters :=
  { c with nesting := c.nesting + 1 }

/-- One nesting level up. -/
def leave (c : Counters) : Counters :=
  { c with nesting := c.nesting - 1 }

/-- One binary operator more. -/
def operate (c : Counters) : Counters :=
  { c with operators := c.operators + 1 }

@[simp]
theorem used_enter (c : Counters) : c.enter.used = c.used + 1 :=
  Nat.add_right_comm _ _ _

@[simp]
theorem used_operate (c : Counters) : c.operate.used = c.used + 1 :=
  rfl

theorem used_le_operate (c : Counters) : c.used ≤ c.operate.used :=
  Nat.le_succ _

/-- A level up is a level less than one level down and something more. -/
theorem used_le_leave {c c' : Counters} (h : c.enter.used ≤ c'.used) : c.used ≤ c'.leave.used := by
  simp only [used, enter, leave] at h ⊢
  omega

end Counters

/-- Where a reader with the counters `c` arrives. If something was read, no less room is taken than
before; behind a misreading there are counters too. -/
inductive Counted (c : Counters) (α : Type) where
  | misread (m : Misread) (c' : Counters)
  | read (a : α) (c' : Counters) (h : c.used ≤ c'.used)

namespace Counted

variable {α β : Type} {c c' : Counters}

/-- The outcome, and the counters then. -/
def run : Counted c α → Except Misread α × Counters
  | misread m c' => (.error m, c')
  | read a c' _ => (.ok a, c')

/-- What is read without the counters. -/
def ofExcept : Except Misread α → Counted c α
  | .error m => misread m c
  | .ok a => read a c (Nat.le_refl _)

/-- The same from counters with no more room taken. -/
def since (x : Counted c' α) (h : c.used ≤ c'.used) : Counted c α :=
  match x with
  | misread m d => misread m d
  | read a d h' => read a d (Nat.le_trans h h')

/-- One reader behind another. -/
def bind (x : Counted c α)
    (f : (a : α) → (c' : Counters) → c.used ≤ c'.used → Counted c' β) : Counted c β :=
  match x with
  | misread m c' => misread m c'
  | read a c' h => (f a c' h).since h

end Counted

namespace Counting

mutual

/-- An expression of the given level or a tighter one. -/
def readAt (level : Level) (ts : List Lexeme) (c : Counters) : Counted c (Expr × List Lexeme) :=
  match h : level.tighter? with
  | none => readTerm ts c
  | some next =>
      match level.unary? ts with
      | some (op, rest) =>
          (readNested level rest c).bind fun (operand, rest) _ _ =>
            .ofExcept (.ok (.unary op operand, rest))
      | none =>
          (readAt next ts c).bind fun (left, rest) c _ => chain level next h left rest c
termination_by 20 * (Expr.room + 1 - c.used) + 2 * level.rank + 5
decreasing_by
  · omega
  · omega
  · have := Level.rank_of_tighter? h
    omega
  · omega

/-- The operators of one level and their right operands, gathered to the left onto `left`. -/
def chain (level next : Level) (h : level.tighter? = some next) (left : Expr) (ts : List Lexeme)
    (c : Counters) : Counted c (Expr × List Lexeme) :=
  match level.binary? ts with
  | none => .ofExcept (.ok (left, ts))
  | some (op, rest) =>
      (readAt next rest c).bind fun (right, rest) c _ =>
        if Expr.room < c.operate.used then .misread ⟨.tooComplex, rest.length⟩ c.operate
        else (chain level next h (.binary op left right) rest c.operate).since c.used_le_operate
termination_by 20 * (Expr.room + 1 - c.used) + 2 * level.rank + 4
decreasing_by
  · have := Level.rank_of_tighter? h
    omega
  · simp only [Counters.used_operate] at *
    omega

/-- A constant, a variable or array element, or an expression in brackets. -/
def readTerm (ts : List Lexeme) (c : Counters) : Counted c (Expr × List Lexeme) :=
  match ts with
  | .number x :: rest => .ofExcept (.ok (.number x, rest))
  | .quote s :: rest => .ofExcept (.ok (.text s, rest))
  | .name n :: rest =>
      (readReference n rest c).bind fun (target, rest) _ _ => .ofExcept (.ok (target.toExpr, rest))
  | .mark .leftParen :: rest => readBracket rest c
  | _ => .ofExcept (misread (.wanted .expression) ts)
termination_by 20 * (Expr.room + 1 - c.used) + 3
decreasing_by
  · omega
  · omega

/-- What the name in front of the lexemes refers to: an array element if a bracket follows. -/
def readReference (name : Name) (ts : List Lexeme) (c : Counters) :
    Counted c (Target × List Lexeme) :=
  match after? (.mark .leftParen) ts with
  | none => .ofExcept (.ok (.scalar name, ts))
  | some rest =>
      (readBracket rest c).bind fun (index, rest) _ _ =>
        .ofExcept (.ok (.element name index, rest))
termination_by 20 * (Expr.room + 1 - c.used) + 2
decreasing_by
  omega

/-- An expression and the bracket that closes it. -/
def readBracket (ts : List Lexeme) (c : Counters) : Counted c (Expr × List Lexeme) :=
  (readNested .disjunction ts c).bind fun (e, rest) _ _ =>
    (Counted.ofExcept (require (.mark .rightParen) rest)).bind fun rest _ _ =>
      .ofExcept (.ok (e, rest))
termination_by 20 * (Expr.room + 1 - c.used) + 1
decreasing_by
  omega

/-- An expression one nesting level down. The level is left behind a misreading too, but not if it
is one too many. -/
def readNested (level : Level) (ts : List Lexeme) (c : Counters) :
    Counted c (Expr × List Lexeme) :=
  if Expr.room < c.enter.used then .misread ⟨.tooComplex, ts.length⟩ c.enter
  else
    match readAt level ts c.enter with
    | .misread m c' => .misread m c'.leave
    | .read a c' h => .read a c'.leave (Counters.used_le_leave h)
termination_by 20 * (Expr.room + 1 - c.used)
decreasing_by
  have := level.rank_le
  simp only [Counters.used_enter] at *
  omega

end

/-! ## Counters and room -/

/-- In front of what the reader takes there are `before` operators, and there is `room` for more of
them and for nesting. Then the outcome is `r`, and if something was read there are as many operators
as `size` says. -/
def Follows {α : Type} {c : Counters} (x : Counted c α) (before room : Nat) (r : Except Misread α)
    (size : α → Nat) : Prop :=
  c.used + room = Expr.room →
    match x with
    | .misread m _ => r = .error m
    | .read a c' _ => r = .ok a ∧ c'.nesting = c.nesting ∧
        c'.operators + before = c.operators + size a ∧ size a ≤ before + room

section

variable {α β : Type} {c : Counters} {x : Counted c α} {before room : Nat} {r : Except Misread α}
  {size : α → Nat}

theorem Follows.fst_run (h : Follows x before room r size) (hc : c.used + room = Expr.room) :
    x.run.1 = r := by
  have h := h hc
  cases x with
  | misread m c' => exact h.symm
  | read a c' _ => exact h.1.symm

theorem follows_ofExcept (hsize : ∀ a, r = .ok a → size a = before) :
    Follows (c := c) (.ofExcept r) before room r size := by
  intro _
  cases r with
  | error m => rfl
  | ok a =>
      have ha := hsize a rfl
      exact ⟨rfl, rfl, by omega, by omega⟩

/-- An expression whose operators are counted. -/
theorem follows_expr (e : Expr) (rest : List Lexeme) :
    Follows (c := c) (.ofExcept (.ok (e, rest))) e.binaries room (.ok (e, rest))
      fun a => a.1.binaries :=
  follows_ofExcept fun _ ha => by cases ha; rfl

theorem follows_target (t : Target) (rest : List Lexeme) :
    Follows (c := c) (.ofExcept (.ok (t, rest))) t.toExpr.binaries room (.ok (t, rest))
      fun a => a.1.toExpr.binaries :=
  follows_ofExcept fun _ ha => by cases ha; rfl

/-- One reader behind another: what is read first takes room from the second. -/
theorem Follows.bind {f : (a : α) → (c' : Counters) → c.used ≤ c'.used → Counted c' β}
    {R : Except Misread β} {size' : β → Nat} (hx : Follows x before room r size)
    (herror : ∀ m, r = .error m → R = .error m)
    (hok : ∀ a c' h, r = .ok a → ∀ room', size a + room' = before + room →
      Follows (f a c' h) (size a) room' R size') :
    Follows (x.bind f) before room R size' := by
  intro hc
  have hx := hx hc
  cases x with
  | misread m c' => exact herror m hx
  | read a c' h =>
      obtain ⟨hr, hnesting, hoperators, hle⟩ := hx
      obtain ⟨room', hroom⟩ := Nat.exists_eq_add_of_le hle
      rw [Counters.used] at hc
      have hf := hok a c' h hr room' hroom.symm (by rw [Counters.used]; omega)
      rw [Counted.bind]
      cases hb : f a c' h with
      | misread m c'' =>
          rw [hb] at hf
          exact hf
      | read b c'' h' =>
          rw [hb] at hf
          obtain ⟨hR, hnesting', hoperators', hle'⟩ := hf
          exact ⟨hR, hnesting'.trans hnesting, by omega, by omega⟩

/-- The operators in front may be counted in. -/
theorem Follows.add (hx : Follows x before room r size) (k : Nat) :
    Follows x (k + before) room r fun a => k + size a := by
  intro hc
  have hx := hx hc
  cases x with
  | misread m c' => exact hx
  | read a c' _ =>
      obtain ⟨hr, hnesting, hoperators, hle⟩ := hx
      exact ⟨hr, hnesting, by dsimp only; omega, by dsimp only; omega⟩

end

section

variable {level next : Level} {before room : Nat} {ts rest : List Lexeme} {c : Counters}

/-- A binary operator takes one unit of room. -/
theorem follows_operate {α : Type} {x : Counted c.operate α} {r : Except Misread α} {size : α → Nat}
    (hzero : room = 0 → r = misread .tooComplex ts)
    (hsucc : ∀ inside, room = inside + 1 → Follows x (before + 1) inside r size) :
    Follows (if Expr.room < c.operate.used then .misread ⟨.tooComplex, ts.length⟩ c.operate
      else x.since c.used_le_operate) before room r size := by
  intro hc
  cases room with
  | zero =>
      rw [if_pos (by rw [Counters.used_operate]; omega)]
      exact hzero rfl
  | succ inside =>
      have hx := hsucc inside rfl (by rw [Counters.used_operate]; omega)
      rw [if_neg (by rw [Counters.used_operate]; omega)]
      cases x with
      | misread m c' => exact hx
      | read a c' _ =>
          obtain ⟨hr, hnesting, hoperators, hle⟩ := hx
          dsimp only [Counters.operate] at hnesting hoperators
          exact ⟨hr, hnesting, by omega, by omega⟩

theorem follows_readNested_zero (level : Level) (ts : List Lexeme) :
    Follows (readNested level ts c) 0 0 (misread .tooComplex ts) fun a => a.1.binaries := by
  intro hc
  rw [readNested, if_pos (by rw [Counters.used_enter]; omega)]
  rfl

/-- Nesting takes one unit of room, which is there again behind what was read. -/
theorem follows_readNested {r : Reading Expr}
    (h : Follows (readAt level ts c.enter) 0 room r fun a => a.1.binaries) :
    Follows (readNested level ts c) 0 (room + 1) r fun a => a.1.binaries := by
  intro hc
  have h := h (by rw [Counters.used_enter]; omega)
  rw [readNested, if_neg (by rw [Counters.used_enter]; omega)]
  cases hread : readAt level ts c.enter with
  | misread m c' =>
      rw [hread] at h
      exact h
  | read a c' _ =>
      rw [hread] at h
      obtain ⟨hr, hnesting, hoperators, hle⟩ := h
      dsimp only [Counters.enter] at hnesting hoperators
      refine ⟨hr, ?_, ?_, by omega⟩
      · rw [Counters.leave, hnesting, Nat.add_sub_cancel]
      · exact hoperators

/-! ## The readers, case by case -/

theorem readAt_term (ts : List Lexeme) (c : Counters) : readAt .term ts c = readTerm ts c := by
  rw [readAt]
  split
  · rfl
  · rename_i h
    cases h

theorem readAt_unary {op : UnaryOp} (h : level.tighter? = some next)
    (hu : level.unary? ts = some (op, rest)) (c : Counters) :
    readAt level ts c = (readNested level rest c).bind fun p _ _ =>
      .ofExcept (.ok (.unary op p.1, p.2)) := by
  rw [readAt]
  split
  · rename_i h'
    cases h.symm.trans h'
  · rw [hu]

theorem readAt_left (h : level.tighter? = some next) (hu : level.unary? ts = none) (c : Counters) :
    readAt level ts c =
      (readAt next ts c).bind fun p c _ => chain level next h p.1 p.2 c := by
  rw [readAt]
  split
  · rename_i h'
    cases h.symm.trans h'
  · rename_i h'
    cases h.symm.trans h'
    rw [hu]

theorem follows_readAt_zero {op : UnaryOp} (h : level.tighter? = some next)
    (hu : level.unary? ts = some (op, rest)) :
    Follows (readAt level ts c) 0 0 (Expr.readAt level 0 ts) fun a => a.1.binaries := by
  rw [readAt_unary h hu, Expr.readAt_zero h hu]
  refine (follows_readNested_zero level rest).bind (fun m hm => ?_) fun a c' _ ha => ?_
  · cases hm
    rfl
  · cases ha

theorem follows_readAt_unary {op : UnaryOp} (h : level.tighter? = some next)
    (hu : level.unary? ts = some (op, rest))
    (ih : ∀ c, Follows (readAt level rest c) 0 room (Expr.readAt level room rest)
      fun a => a.1.binaries) :
    Follows (readAt level ts c) 0 (room + 1) (Expr.readAt level (room + 1) ts)
      fun a => a.1.binaries := by
  rw [readAt_unary h hu, Expr.readAt_unary h room hu]
  refine (follows_readNested (ih _)).bind (fun m hm => by rw [hm]) fun p c' _ hp room' _ => ?_
  rw [hp]
  exact follows_expr (.unary op p.1) p.2

theorem follows_readAt_left (h : level.tighter? = some next) (hu : level.unary? ts = none)
    (ih : Follows (readAt next ts c) 0 room (Expr.readAt next room ts) fun a => a.1.binaries)
    (ihc : ∀ left rest c, Expr.readAt next room ts = .ok (left, rest) →
      Follows (chain level next h left rest c) left.binaries (room - left.binaries)
        (Expr.chain level next h (room - left.binaries) left rest) fun a => a.1.binaries) :
    Follows (readAt level ts c) 0 room (Expr.readAt level room ts) fun a => a.1.binaries := by
  rw [readAt_left h hu, Expr.readAt_left h room hu]
  refine ih.bind (fun m hm => by rw [hm]) fun p c' _ hp room' hroom => ?_
  have heq : room' = room - p.1.binaries := by
    omega
  rw [hp, heq]
  exact ihc p.1 p.2 c' hp

theorem follows_chain_stop (h : level.tighter? = some next) (left : Expr)
    (hb : level.binary? ts = none) :
    Follows (chain level next h left ts c) left.binaries room (Expr.chain level next h room left ts)
      fun a => a.1.binaries := by
  rw [chain, hb, Expr.chain_stop h room left hb]
  exact follows_expr left ts

theorem follows_chain_step (h : level.tighter? = some next) (left : Expr) {op : BinaryOp}
    (hb : level.binary? ts = some (op, rest))
    (ih : Follows (readAt next rest c) 0 room (Expr.readAt next room rest) fun a => a.1.binaries)
    (ihc : ∀ right rest' c, Expr.readAt next room rest = .ok (right, rest') →
      right.binaries < room →
      Follows (chain level next h (.binary op left right) rest' c)
        (left.binaries + right.binaries + 1) (room - (right.binaries + 1))
        (Expr.chain level next h (room - (right.binaries + 1)) (.binary op left right) rest')
        fun a => a.1.binaries) :
    Follows (chain level next h left ts c) left.binaries room (Expr.chain level next h room left ts)
      fun a => a.1.binaries := by
  rw [chain, hb, Expr.chain_step h room left hb]
  refine (ih.add left.binaries).bind (fun m hm => by rw [hm]) fun p c' _ hp room' hroom => ?_
  rw [hp]
  dsimp only at hroom ⊢
  refine follows_operate (fun hzero => ?_) fun inside hinside => ?_
  · rw [if_neg (by omega)]
  · have hlt : p.1.binaries < room := by omega
    have heq : inside = room - (p.1.binaries + 1) := by omega
    rw [if_pos hlt, heq]
    exact ihc p.1 p.2 _ hp hlt

theorem follows_readBracket_zero (ts : List Lexeme) :
    Follows (readBracket ts c) 0 0 (Expr.readBracket 0 ts) fun a => a.1.binaries := by
  rw [readBracket, Expr.readBracket]
  refine (follows_readNested_zero .disjunction ts).bind (fun m hm => ?_) fun a c' _ ha => ?_
  · cases hm
    rfl
  · cases ha

theorem follows_readBracket
    (ih : ∀ c, Follows (readAt .disjunction ts c) 0 room (Expr.readAt .disjunction room ts)
      fun a => a.1.binaries) :
    Follows (readBracket ts c) 0 (room + 1) (Expr.readBracket (room + 1) ts)
      fun a => a.1.binaries := by
  rw [readBracket, Expr.readBracket]
  refine (follows_readNested (ih _)).bind (fun m hm => by rw [hm]) fun p c' _ hp room' _ => ?_
  rw [hp]
  refine (follows_ofExcept (fun _ _ => rfl)).bind (fun m hm => ?_)
    fun rest c'' _ hrest room'' _ => ?_
  · simp only [hm]
  · simp only [hrest]
    exact follows_expr p.1 rest

theorem follows_readReference (name : Name)
    (ih : ∀ rest, after? (.mark .leftParen) ts = some rest →
      Follows (readBracket rest c) 0 room (Expr.readBracket room rest) fun a => a.1.binaries) :
    Follows (readReference name ts c) 0 room (Expr.readReference name room ts)
      fun a => a.1.toExpr.binaries := by
  rw [readReference, Expr.readReference]
  cases hafter : after? (.mark .leftParen) ts with
  | none =>
      exact follows_target (.scalar name) ts
  | some rest =>
      refine (ih rest hafter).bind (fun m hm => by simp only [hm]) fun p c' _ hp room' _ => ?_
      simp only [hp]
      exact follows_target (.element name p.1) p.2

theorem follows_readTerm_name (name : Name)
    (ih : Follows (readReference name ts c) 0 room (Expr.readReference name room ts)
      fun a => a.1.toExpr.binaries) :
    Follows (readTerm (.name name :: ts) c) 0 room (Expr.readTerm room (.name name :: ts))
      fun a => a.1.binaries := by
  rw [readTerm, Expr.readTerm]
  refine ih.bind (fun m hm => by rw [hm]) fun p c' _ hp room' _ => ?_
  rw [hp]
  exact follows_expr p.1.toExpr p.2

end

/-- The readers that count follow the readers that have room: the cases are those of the latter. -/
theorem readers_follow :
    (∀ level room ts, ∀ c, Follows (readAt level ts c) 0 room (Expr.readAt level room ts)
      fun a => a.1.binaries) ∧
    (∀ level next h room left ts, ∀ c, Follows (chain level next h left ts c) left.binaries room
      (Expr.chain level next h room left ts) fun a => a.1.binaries) ∧
    (∀ room ts, ∀ c, Follows (readTerm ts c) 0 room (Expr.readTerm room ts)
      fun a => a.1.binaries) ∧
    (∀ room ts, ∀ c, Follows (readBracket ts c) 0 room (Expr.readBracket room ts)
      fun a => a.1.binaries) ∧
    (∀ name room ts, ∀ c, Follows (readReference name ts c) 0 room
      (Expr.readReference name room ts) fun a => a.1.toExpr.binaries) := by
  apply Expr.readAt.mutual_induct
  -- `readAt`: a term, an operator in front, or the left operand of a chain
  case case1 =>
    intro level room ts h ih c
    have hterm : level = .term := by cases level <;> first | rfl | cases h
    subst hterm
    rw [Expr.readAt_term, readAt_term]
    exact ih c
  case case2 =>
    intro level ts next h op rest hu c
    exact follows_readAt_zero h hu
  case case3 =>
    intro level ts next h op rest hu room m herr ih c
    exact follows_readAt_unary h hu ih
  case case4 =>
    intro level ts next h op rest hu room operand rest' hok ih c
    exact follows_readAt_unary h hu ih
  case case5 =>
    intro level room ts next h hu m herr ih c
    exact follows_readAt_left h hu (ih c) fun left rest c hok => by cases herr.symm.trans hok
  case case6 =>
    intro level room ts next h hu left rest hok ihl ihc c
    refine follows_readAt_left h hu (ihl c) fun left' rest' c' hok' => ?_
    cases hok.symm.trans hok'
    exact ihc c'
  -- `chain`: no operator follows, or one does
  case case7 =>
    intro level next h room left ts hb c
    exact follows_chain_stop h left hb
  case case8 =>
    intro level next h room left ts op rest hb m herr ih c
    exact follows_chain_step h left hb (ih c)
      fun right rest' c hok => by cases herr.symm.trans hok
  case case9 =>
    intro level next h room left ts op rest hb right rest' hok hlt ihr ihc c
    refine follows_chain_step h left hb (ihr c) fun right' rest'' c' hok' _ => ?_
    cases hok.symm.trans hok'
    exact ihc c'
  case case10 =>
    intro level next h room left ts op rest hb right rest' hok hlt ihr c
    refine follows_chain_step h left hb (ihr c) fun right' rest'' c' hok' hlt' => ?_
    cases hok.symm.trans hok'
    exact absurd hlt' hlt
  -- `readTerm`: a number, a text, a name, a bracket, or none of these
  case case11 =>
    intro room x rest c
    rw [readTerm, Expr.readTerm]
    exact follows_expr (.number x) rest
  case case12 =>
    intro room s rest c
    rw [readTerm, Expr.readTerm]
    exact follows_expr (.text s) rest
  case case13 =>
    intro room name rest m herr ih c
    exact follows_readTerm_name name (ih c)
  case case14 =>
    intro room name rest target rest' hok ih c
    exact follows_readTerm_name name (ih c)
  case case15 =>
    intro room rest ih c
    rw [readTerm, Expr.readTerm]
    exact ih c
  case case16 =>
    intro room ts hnumber hquote hname hparen c
    have hfails : Expr.readTerm room ts = misread (.wanted .expression) ts := by
      rw [Expr.readTerm] <;> assumption
    have hcounted : readTerm ts c = .ofExcept (misread (.wanted .expression) ts) := by
      rw [readTerm] <;> assumption
    rw [hfails, hcounted]
    exact follows_ofExcept fun a ha => by cases ha
  -- `readBracket`: no room, or an expression and the closing bracket
  case case17 =>
    intro ts c
    exact follows_readBracket_zero ts
  case case18 =>
    intro ts room m herr ih c
    exact follows_readBracket ih
  case case19 =>
    intro ts room e rest hok m herr ih c
    exact follows_readBracket ih
  case case20 =>
    intro ts room e rest hok rest' hreq ih c
    exact follows_readBracket ih
  -- `readReference`: a variable, or an array element
  case case21 =>
    intro name room ts h c
    exact follows_readReference name fun rest hrest => by cases h.symm.trans hrest
  case case22 =>
    intro name room ts rest h m herr ih c
    refine follows_readReference name fun rest' hrest => ?_
    cases h.symm.trans hrest
    exact ih c
  case case23 =>
    intro name room ts rest h index rest' hok ih c
    refine follows_readReference name fun rest' hrest => ?_
    cases h.symm.trans hrest
    exact ih c

end Counting

/-! ## Expressions that stand on their own -/

/-- A reader with counters, which are there behind a misreading too. -/
abbrev Counting (α : Type) := ExceptT Misread (StateM Counters) α

namespace Counting

variable {α β : Type}

/-- An outcome that does not depend on the counters. -/
def ofExcept (r : Except Misread α) : Counting α :=
  fun c => (r, c)

/-- An expression. -/
def expression (ts : List Lexeme) : Counting (Expr × List Lexeme) := do
  set (⟨0, 0⟩ : Counters)
  fun c => (readAt .disjunction ts c).run

/-- A variable or array element to assign to. -/
def target (ts : List Lexeme) : Counting (Target × List Lexeme) := do
  set (⟨0, 0⟩ : Counters)
  match ts with
  | .name n :: rest => fun c => (readReference n rest c).run
  | _ => ofExcept (misread (.wanted .variableName) ts)

/-- Whatever the counters are, the outcome is `r`. -/
def Agrees (x : Counting α) (r : Except Misread α) : Prop :=
  ∀ c : Counters, (x c).1 = r

theorem agrees_pure (a : α) : Agrees (pure a) (.ok a) :=
  fun _ => rfl

theorem agrees_ofExcept (r : Except Misread α) : Agrees (ofExcept r) r :=
  fun _ => rfl

/-- One reader behind another. -/
theorem Agrees.bind {x : Counting α} {r : Except Misread α} {f : α → Counting β}
    {R : Except Misread β} (hx : Agrees x r) (herror : ∀ m, r = .error m → R = .error m)
    (hok : ∀ a, r = .ok a → Agrees (f a) R) : Agrees (x >>= f) R := by
  intro c
  cases hrun : x c with
  | mk r' c' =>
      have hr : r' = r := by
        rw [← hx c, hrun]
      have hbind : (x >>= f) c = ExceptT.bindCont f r' c' := by
        change ExceptT.bindCont f (x c).1 (x c).2 = _
        rw [hrun]
      rw [hbind]
      cases r' with
      | error m => exact (herror m hr.symm).symm
      | ok a => exact hok a hr.symm c'

/-- One reader behind another, off the lexemes that the first one has left over. -/
theorem Agrees.andThen {x : Counting (α × List Lexeme)} {r : Reading α}
    {f : α × List Lexeme → Counting β} {R : Except Misread β} (hx : Agrees x r)
    (herror : ∀ m, r = .error m → R = .error m)
    (hok : ∀ a rest, r = .ok (a, rest) → Agrees (f (a, rest)) R) : Agrees (x >>= f) R :=
  hx.bind herror fun p h => hok p.1 p.2 h

/-- An expression is read as if it were the first one. -/
theorem agrees_expression (ts : List Lexeme) : Agrees (expression ts) (Expr.read ts) :=
  fun _ => (readers_follow.1 .disjunction Expr.room ts ⟨0, 0⟩).fst_run (Nat.zero_add _)

theorem agrees_target (ts : List Lexeme) : Agrees (target ts) (Target.read ts) := by
  intro c
  unfold target
  split
  · exact (readers_follow.2.2.2.2 _ Expr.room _ ⟨0, 0⟩).fst_run (Nat.zero_add _)
  · rename_i hname
    rw [Target.read]
    · rfl
    · exact hname

end Counting

end LineBasic
