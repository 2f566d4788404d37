import LineBasic.Proofs.Number.Order
import LineBasic.Proofs.Value.Finiteness

/-!
# The order of values

Only two comparisons look at the values, the test for being greater and the one for being equal;
the other four turn the operands around or the outcome over. That is right because values of one
kind are in a total order, as long as numbers are finite: `Precedes` says what comes before what,
and of two values that are `Alike` neither comes before the other. Numbers are ordered by their
exact values, so the two zeros are alike. Texts are ordered by the code points of their characters,
and what a text starts with comes before it.
-/

namespace LineBasic

/-- The comparison holds of the values: its outcome is one. -/
def BinaryOp.Relates (op : BinaryOp) (a b : Value) : Prop :=
  op.apply a b = .ok (.number 1)

namespace Value

/-- Values of one kind that are not an infinity and not without a value. -/
structure Comparable (a b : Value) : Prop where
  kind : a.kind = b.kind
  left : a.IsFinite
  right : b.IsFinite

/-- The first value comes before the second one. A text comes before those that it is a proper
beginning of; otherwise the first character decides in which two texts differ. -/
inductive Precedes : Value → Value → Prop
  | number {x y : Float} (h : Number.units x < Number.units y) : Precedes (number x) (number y)
  | beginning (s : List Char) (c : Char) (t : List Char) :
      Precedes (text (String.ofList s)) (text (String.ofList (s ++ c :: t)))
  | character (front : List Char) {c d : Char} (h : c.toNat < d.toNat) (s t : List Char) :
      Precedes (text (String.ofList (front ++ c :: s))) (text (String.ofList (front ++ d :: t)))

/-- The values are the same text, or numbers with the same exact value. -/
def Alike : Value → Value → Prop
  | number x, number y => Number.units x = Number.units y
  | text s, text t => s = t
  | _, _ => False

section

variable {a b c : Value}

theorem Comparable.symm (h : a.Comparable b) : b.Comparable a :=
  ⟨h.kind.symm, h.right, h.left⟩

theorem Comparable.trans (h : a.Comparable b) (h' : b.Comparable c) : a.Comparable c :=
  ⟨h.kind.trans h'.kind, h.left, h'.right⟩

/-- Values that can be compared are two numbers or two texts. -/
theorem Comparable.numbers_or_texts (h : a.Comparable b) :
    (∃ x y, a = number x ∧ b = number y ∧ x.isFinite = true ∧ y.isFinite = true) ∨
      ∃ s t, a = text s ∧ b = text t := by
  cases a with
  | number x =>
      cases b with
      | number y => exact .inl ⟨x, y, rfl, rfl, h.left, h.right⟩
      | text t => cases h.kind
  | text s =>
      cases b with
      | number y => cases h.kind
      | text t => exact .inr ⟨s, t, rfl, rfl⟩

/-! ## The order as one of numbers and one of texts -/

theorem precedes_number_iff {x y : Float} :
    (number x).Precedes (number y) ↔ Number.units x < Number.units y :=
  ⟨fun h => by cases h; assumption, .number⟩

theorem lt_iff_toNat_lt {c d : Char} : c < d ↔ c.toNat < d.toNat :=
  Char.lt_def.trans UInt32.lt_iff_toNat_lt

theorem lt_append_cons (s : List Char) (c : Char) (t : List Char) : s < s ++ c :: t := by
  induction s with
  | nil => exact List.nil_lt_cons c t
  | cons d s ih => exact List.cons_lt_cons_iff.mpr (.inr ⟨rfl, ih⟩)

theorem append_cons_lt (front : List Char) {c d : Char} (h : c < d) (s t : List Char) :
    front ++ c :: s < front ++ d :: t := by
  induction front with
  | nil => exact List.cons_lt_cons_iff.mpr (.inl h)
  | cons e front ih => exact List.cons_lt_cons_iff.mpr (.inr ⟨rfl, ih⟩)

/-- A smaller list of characters is a beginning of the other one, or the first difference between
them makes it smaller. -/
theorem cases_of_lt {s t : List Char} (h : s < t) :
    (∃ c t', t = s ++ c :: t') ∨ ∃ front c d s' t', c < d ∧ s = front ++ c :: s' ∧
      t = front ++ d :: t' := by
  induction s generalizing t with
  | nil =>
      cases t with
      | nil => exact absurd h (List.not_lt_nil [])
      | cons d t => exact .inl ⟨d, t, rfl⟩
  | cons c s ih =>
      cases t with
      | nil => exact absurd h (List.not_lt_nil _)
      | cons d t =>
          rcases List.cons_lt_cons_iff.mp h with hlt | ⟨rfl, hlt⟩
          · exact .inr ⟨[], c, d, s, t, hlt, rfl, rfl⟩
          · rcases ih hlt with ⟨e, t', rfl⟩ | ⟨front, e, e', s', t', hee, rfl, rfl⟩
            · exact .inl ⟨e, t', rfl⟩
            · exact .inr ⟨c :: front, e, e', s', t', hee, rfl, rfl⟩

theorem precedes_text_iff {s t : String} : (text s).Precedes (text t) ↔ s < t := by
  rw [String.lt_iff_toList_lt]
  constructor
  · intro h
    cases h with
    | beginning s c t =>
        rw [String.toList_ofList, String.toList_ofList]
        exact lt_append_cons s c t
    | character front h s t =>
        rw [String.toList_ofList, String.toList_ofList]
        exact append_cons_lt front (lt_iff_toNat_lt.mpr h) s t
  · intro h
    rw [← String.ofList_toList (s := s), ← String.ofList_toList (s := t)]
    rcases cases_of_lt h with ⟨c, t', ht⟩ | ⟨front, c, d, s', t', hlt, hs, ht⟩
    · rw [ht]
      exact .beginning _ c t'
    · rw [hs, ht]
      exact .character front (lt_iff_toNat_lt.mp hlt) s' t'

/-! ## A total order -/

/-- Wherever a value stands, it is after the smaller one of two others or before the greater one. -/
theorem Comparable.precedes_or (hab : a.Comparable b) (hbc : b.Comparable c)
    (h : a.Precedes c) : a.Precedes b ∨ b.Precedes c := by
  rcases hab.numbers_or_texts with ⟨x, y, rfl, rfl, -, -⟩ | ⟨s, t, rfl, rfl⟩
  · rcases hbc.numbers_or_texts with ⟨_, z, heq, rfl, -, -⟩ | ⟨_, _, heq, -⟩ <;> cases heq
    rw [precedes_number_iff] at *
    rw [precedes_number_iff]
    omega
  · rcases hbc.numbers_or_texts with ⟨_, _, heq, -⟩ | ⟨_, u, heq, rfl⟩ <;> cases heq
    rw [precedes_text_iff] at *
    rw [precedes_text_iff]
    exact (lt_or_ge s t).imp_right fun hts => lt_of_le_of_lt hts h

/-- Of two values one comes before the other, or they are alike. -/
theorem Comparable.trichotomy (h : a.Comparable b) :
    (a.Precedes b ∧ ¬ a.Alike b ∧ ¬ b.Precedes a) ∨ (¬ a.Precedes b ∧ a.Alike b ∧ ¬ b.Precedes a) ∨
      (¬ a.Precedes b ∧ ¬ a.Alike b ∧ b.Precedes a) := by
  rcases h.numbers_or_texts with ⟨x, y, rfl, rfl, -, -⟩ | ⟨s, t, rfl, rfl⟩
  · rw [precedes_number_iff, precedes_number_iff, Alike]
    omega
  · rw [precedes_text_iff, precedes_text_iff, Alike]
    rcases lt_trichotomy s t with hlt | rfl | hgt
    · exact .inl ⟨hlt, hlt.ne, hlt.asymm⟩
    · exact .inr (.inl ⟨lt_irrefl s, rfl, lt_irrefl s⟩)
    · exact .inr (.inr ⟨hgt.asymm, hgt.ne', hgt⟩)

theorem alike_comm : a.Alike b ↔ b.Alike a := by
  cases a <;> cases b <;> first | exact eq_comm | exact Iff.rfl

/-- What is not after a value is before it or alike. -/
theorem Comparable.not_precedes_iff (h : a.Comparable b) :
    ¬ b.Precedes a ↔ a.Precedes b ∨ a.Alike b := by
  rcases h.trichotomy with ⟨hab, -, hba⟩ | ⟨-, heq, hba⟩ | ⟨hab, heq, hba⟩
  · exact ⟨fun _ => .inl hab, fun _ => hba⟩
  · exact ⟨fun _ => .inr heq, fun _ => hba⟩
  · exact ⟨fun hn => absurd hba hn, fun hor => absurd hor (not_or.mpr ⟨hab, heq⟩)⟩

theorem Comparable.precedes_trans (hab : a.Comparable b) (hbc : b.Comparable c)
    (h : a.Precedes b) (h' : b.Precedes c) : a.Precedes c := by
  have hcb : ¬ c.Precedes b := hbc.not_precedes_iff.mpr (.inl h')
  exact ((hab.trans hbc).precedes_or hbc.symm h).resolve_right hcb

/-! ## The two tests -/

theorem Comparable.exists_isGreater (h : a.Comparable b) :
    ∃ p, a.isGreater b = .ok p ∧ (p = true ↔ b.Precedes a) := by
  rcases h.numbers_or_texts with ⟨x, y, rfl, rfl, hx, hy⟩ | ⟨s, t, rfl, rfl⟩
  · refine ⟨decide (y < x), rfl, ?_⟩
    rw [decide_eq_true_iff, precedes_number_iff, Number.lt_iff hy hx]
  · refine ⟨decide (t < s), rfl, ?_⟩
    rw [decide_eq_true_iff, precedes_text_iff]

theorem Comparable.exists_isEqual (h : a.Comparable b) :
    ∃ p, a.isEqual b = .ok p ∧ (p = true ↔ a.Alike b) := by
  rcases h.numbers_or_texts with ⟨x, y, rfl, rfl, hx, hy⟩ | ⟨s, t, rfl, rfl⟩
  · exact ⟨x == y, rfl, Number.beq_iff hx hy⟩
  · exact ⟨s == t, rfl, beq_iff_eq⟩

theorem truth_eq_one_iff {p : Bool} : truth p = number 1 ↔ p = true := by
  cases p <;> decide +kernel

end

end Value

/-! ## The six operators -/

namespace BinaryOp

open Value

section

variable {op : BinaryOp} {a b c : Value}

/-- What a comparison says about its operands. -/
def Says : BinaryOp → Value → Value → Prop
  | less, a, b => a.Precedes b
  | equal, a, b => a.Alike b
  | greater, a, b => b.Precedes a
  | atMost, a, b => a.Precedes b ∨ a.Alike b
  | atLeast, a, b => b.Precedes a ∨ a.Alike b
  | unequal, a, b => ¬ a.Alike b
  | _, _, _ => False

/-- A comparison has a truth value as its outcome, and it is that of what the operator says. -/
theorem exists_truth (h : a.Comparable b) (hop : op.level = .comparison) :
    ∃ p, op.apply a b = .ok (truth p) ∧ (p = true ↔ op.Says a b) := by
  obtain ⟨g, hg, hga⟩ := h.exists_isGreater
  obtain ⟨l, hl, hla⟩ := h.symm.exists_isGreater
  obtain ⟨e, he, hea⟩ := h.exists_isEqual
  cases op with
  | equal => exact ⟨e, by rw [apply, he]; rfl, hea⟩
  | less => exact ⟨l, by rw [apply, hl]; rfl, hla⟩
  | greater => exact ⟨g, by rw [apply, hg]; rfl, hga⟩
  | unequal =>
      refine ⟨!e, by rw [apply, he]; rfl, ?_⟩
      rw [Bool.not_eq_true', ← Bool.not_eq_true, hea, Says]
  | atMost =>
      refine ⟨!g, by rw [apply, hg]; rfl, ?_⟩
      rw [Bool.not_eq_true', ← Bool.not_eq_true, hga, Says, h.not_precedes_iff]
  | atLeast =>
      refine ⟨!l, by rw [apply, hl]; rfl, ?_⟩
      rw [Bool.not_eq_true', ← Bool.not_eq_true, hla, Says, alike_comm, h.symm.not_precedes_iff]
  | or | and | plus | minus | times | divide => cases hop

theorem relates_iff (h : a.Comparable b) (hop : op.level = .comparison) :
    op.Relates a b ↔ op.Says a b := by
  obtain ⟨p, hp, hsays⟩ := exists_truth h hop
  rw [Relates, hp, Except.ok.injEq, truth_eq_one_iff, hsays]

theorem says_trans (hop : op = less ∨ op = atMost) (hab : a.Comparable b) (hbc : b.Comparable c)
    (h : op.Says a b) (h' : op.Says b c) : op.Says a c := by
  rcases hop with rfl | rfl
  · exact hab.precedes_trans hbc h h'
  -- not being after goes along chains, because being after splits
  · have hba : ¬ b.Precedes a := hab.not_precedes_iff.mpr h
    have hcb : ¬ c.Precedes b := hbc.not_precedes_iff.mpr h'
    refine (hab.trans hbc).not_precedes_iff.mp fun hca => ?_
    exact (hbc.symm.precedes_or hab.symm hca).elim hcb hba

theorem apply_of_kind_ne (h : a.kind ≠ b.kind) (hop : op.level = .comparison) :
    op.apply a b = .error (.of .typeMismatch) := by
  have hmixed : ∀ f g, compare f g a b = .error mismatch ∧ compare f g b a = .error mismatch := by
    intro f g
    cases a <;> cases b <;> first | exact absurd rfl h | exact ⟨rfl, rfl⟩
  cases op with
  | equal | unequal => rw [apply, isEqual, (hmixed _ _).1]; rfl
  | greater | atMost => rw [apply, isGreater, (hmixed _ _).1]; rfl
  | less | atLeast => rw [apply, isGreater, (hmixed _ _).2]; rfl
  | or | and | plus | minus | times | divide => cases hop

end

end BinaryOp

open BinaryOp in
/-- Comparisons are the tests of one total order. Of two values of one kind, finite if they are
numbers, the first is less, equal or greater, and only one of these. To be less is to be greater
with the operands exchanged, and the other three operators put these outcomes together. What is
less, or not greater, is so along every chain. Values of two kinds are not compared at all. -/
theorem comparisons_total_order (a b c : Value) :
    (a.Comparable b →
      (∀ op : BinaryOp, op.level = .comparison →
        op.apply a b = .ok (.number 0) ∨ op.apply a b = .ok (.number 1)) ∧
      ((less.Relates a b ↔ a.Precedes b) ∧ (equal.Relates a b ↔ a.Alike b)) ∧
      ((less.Relates a b ∧ ¬ equal.Relates a b ∧ ¬ greater.Relates a b) ∨
        (¬ less.Relates a b ∧ equal.Relates a b ∧ ¬ greater.Relates a b) ∨
        (¬ less.Relates a b ∧ ¬ equal.Relates a b ∧ greater.Relates a b)) ∧
      (atLeast.Relates a b ↔ greater.Relates a b ∨ equal.Relates a b) ∧
      (atMost.Relates a b ↔ less.Relates a b ∨ equal.Relates a b) ∧
      (∃ x, equal.apply a b = .ok (.number x) ∧ unequal.apply a b = .ok (.number (1 - x))) ∧
      greater.apply a b = less.apply b a) ∧
    (a.Comparable b → b.Comparable c → ∀ op ∈ [less, atMost],
      op.Relates a b → op.Relates b c → op.Relates a c) ∧
    (a.kind ≠ b.kind → ∀ op : BinaryOp, op.level = .comparison →
      op.apply a b = .error (.of .typeMismatch)) := by
  refine ⟨fun h => ?_, fun hab hbc op hop => ?_, fun h op => apply_of_kind_ne h⟩
  · have hless : less.Relates a b ↔ a.Precedes b := relates_iff h rfl
    have hequal : equal.Relates a b ↔ a.Alike b := relates_iff h rfl
    have hgreater : greater.Relates a b ↔ b.Precedes a := relates_iff h rfl
    refine ⟨fun op hop => ?_, ⟨hless, hequal⟩, ?_, ?_, ?_, ?_, rfl⟩
    · obtain ⟨p, hp, -⟩ := exists_truth h hop
      cases p with
      | false => exact .inl hp
      | true => exact .inr hp
    · rw [hless, hequal, hgreater]
      exact h.trichotomy
    · rw [relates_iff h rfl, hgreater, hequal, Says]
    · rw [relates_iff h rfl, hless, hequal, Says]
    · obtain ⟨p, hp, -⟩ := h.exists_isEqual
      refine ⟨if p then 1 else 0, by rw [apply, hp]; rfl, ?_⟩
      have hnot : (1 : Float) - (if p then 1 else 0) = if !p then 1 else 0 := by
        cases p <;> decide +kernel
      rw [hnot, apply, hp]
      rfl
  · have hcases : op = less ∨ op = atMost := by simpa using hop
    have hlevel : op.level = .comparison := by rcases hcases with rfl | rfl <;> rfl
    rw [relates_iff hab hlevel, relates_iff hbc hlevel, relates_iff (hab.trans hbc) hlevel]
    exact says_trans hcases hab hbc

/-- A text comes before those that it is a beginning of, and these before one that has a greater
character at a place of theirs. -/
theorem comparisons_total_order_beginning :
    let a : Value := .text "AB"
    let b : Value := .text "ABC"
    let c : Value := .text "B"
    a.Comparable b ∧ b.Comparable c ∧ BinaryOp.less.Relates a b ∧ BinaryOp.less.Relates b c ∧
      BinaryOp.less.Relates a c ∧ ¬ BinaryOp.equal.Relates a b ∧ b.kind ≠ (Value.number 2).kind ∧
      BinaryOp.atMost.apply b (.number 2) = .error (.of .typeMismatch) := by
  intro a b c
  have hab : a.Comparable b := ⟨rfl, trivial, trivial⟩
  have hbc : b.Comparable c := ⟨rfl, trivial, trivial⟩
  have hkind : b.kind ≠ (Value.number 2).kind := Kind.noConfusion
  obtain ⟨-, ⟨hless, -⟩, hone, -⟩ := (comparisons_total_order a b c).1 hab
  have h : BinaryOp.less.Relates a b := hless.mpr (.beginning ['A', 'B'] 'C' [])
  have h' : BinaryOp.less.Relates b c :=
    ((comparisons_total_order b c a).1 hbc).2.1.1.mpr (.character [] (by decide) ['B', 'C'] [])
  have hnot : ¬ BinaryOp.equal.Relates a b := by tauto
  exact ⟨hab, hbc, h, h', (comparisons_total_order a b c).2.1 hab hbc .less (by decide) h h', hnot,
    hkind, (comparisons_total_order b (.number 2) c).2.2 hkind .atMost rfl⟩

end LineBasic
