import LineBasic.Proofs.Engine.Loops
import LineBasic.Proofs.Number.Order
import Mathlib.Algebra.Order.Floor.Ring
import Mathlib.Data.Rat.Floor
import Mathlib.Order.Bounds.Basic

/-!
# Counters

The values that the variable of a loop takes, and after how many of them the loop ends. A loop looks
at its counter behind its body, so it has one round at least. As long as the sums are exact, the
count of rounds is what division says; comparisons are always exact. The second half says which
statements leave the counter alone.
-/

namespace LineBasic

open Exec

/-! ## How many rounds a loop has -/

theorem Value.zero_le_sign_iff (x : Float) : 0 ≤ sign x ↔ ¬ x < 0 := by
  unfold sign
  by_cases h : x < 0
  · rw [if_pos h, if_neg (Number.not_pos_of_neg h)]
    simp [h]
  · rw [if_neg h]
    split <;> simp [h]

namespace Loop

/-- A counter that starts at a number, after it has been counted on a number of times. -/
def counterAfter (first stride : Float) : Nat → Except Fault Value
  | 0 => .ok (.number first)
  | i + 1 => do
      let v ← counterAfter first stride i
      v.add (.number stride)

theorem counterAfter_succ {first stride x y : Float} {i : Nat}
    (hx : counterAfter first stride i = .ok (.number x))
    (hsum : (Value.number x).add (.number stride) = .ok (.number y)) :
    counterAfter first stride (i + 1) = .ok (.number y) := by
  rw [counterAfter, hx]
  exact hsum

/-- The number is beyond the limit of a loop. -/
def Beyond (last stride x : Float) : Prop :=
  if stride < 0 then x < last else last < x

/-- The counter is beyond the limit when it has been counted on `i` times. -/
def EndsAt (first last stride : Float) (i : Nat) : Prop :=
  ∃ x, counterAfter first stride i = .ok (.number x) ∧ Beyond last stride x

/-- The loop ends when its counter has been counted on `k` times, and not before. -/
def HasRounds (first last stride : Float) (k : Nat) : Prop :=
  IsLeast {i | 1 ≤ i ∧ EndsAt first last stride i} k

variable {first last stride : Float} {k : Nat}

theorem isOver_iff (l : Loop) (x : Float) : l.isOver x = true ↔ Beyond l.limit l.step x := by
  unfold isOver Beyond
  by_cases h : l.step < 0
  · rw [if_neg ((Value.zero_le_sign_iff l.step).not_left.mpr h), if_pos h, decide_eq_true_iff]
  · rw [if_pos ((Value.zero_le_sign_iff l.step).mpr h), if_neg h, decide_eq_true_iff]

/-- A loop that has no number of rounds never ends. -/
theorem not_beyond_of_forall_not (h : ∀ k, ¬ HasRounds first last stride k) {i : Nat} (hi : 1 ≤ i)
    {x : Float} (hx : counterAfter first stride i = .ok (.number x)) :
    ¬ Beyond last stride x := by
  classical
  intro hbeyond
  have hends : ∃ i, 1 ≤ i ∧ EndsAt first last stride i := ⟨i, hi, x, hx, hbeyond⟩
  exact h (Nat.find hends) ⟨Nat.find_spec hends, fun j hj => Nat.find_min' hends hj⟩

/-- Limit and step are integers, and so are the values that the counter takes up to the given one:
the sums are exact. -/
structure Exact (first last stride : Float) (a b s : Int) (k : Nat) : Prop where
  limit : Number.IsInteger last b
  step : Number.IsInteger stride s
  counter : ∀ i ≤ k, ∃ x, counterAfter first stride i = .ok (.number x) ∧
    Number.IsInteger x (a + i * s)

/-- The values `a + i * s` are beyond `b` from an index on. -/
theorem beyond_iff_floor_lt {a b s : Int} (hs : s ≠ 0) (i : Int) :
    (if s < 0 then a + i * s < b else b < a + i * s) ↔ ⌊((b - a : Int) : ℚ) / s⌋ < i := by
  rw [Int.floor_lt]
  split
  case isTrue hneg =>
    have hneg : (s : ℚ) < 0 := Int.cast_lt_zero.mpr hneg
    rw [div_lt_iff_of_neg hneg, ← Int.cast_mul, Int.cast_lt]
    omega
  case isFalse hneg =>
    have hpos : (0 : ℚ) < s := Int.cast_pos.mpr (by omega)
    rw [div_lt_iff₀ hpos, ← Int.cast_mul, Int.cast_lt]
    omega

/-- If the sums are exact, a counter is beyond the limit from an index on. -/
theorem Exact.ends_iff {a b s : Int} (h : Exact first last stride a b s k) (hs : s ≠ 0) {i : Nat}
    (hi : i ≤ k) :
    EndsAt first last stride i ↔ ⌊((b - a : Int) : ℚ) / s⌋ < i := by
  obtain ⟨x, hx, hinteger⟩ := h.counter i hi
  have hbeyond : Beyond last stride x ↔ if s < 0 then a + i * s < b else b < a + i * s := by
    have hsign := h.step.lt_iff Number.isInteger_zero
    have hbelow := hinteger.lt_iff h.limit
    have habove := h.limit.lt_iff hinteger
    unfold Beyond
    by_cases hdown : s < 0
    · rw [if_pos hdown, if_pos (hsign.mpr hdown), hbelow]
    · rw [if_neg hdown, if_neg (hsign.not.mpr hdown), habove]
  rw [← beyond_iff_floor_lt hs, ← hbeyond]
  constructor
  · rintro ⟨y, hy, hbeyond⟩
    cases hx.symm.trans hy
    exact hbeyond
  · exact fun hbeyond => ⟨x, hx, hbeyond⟩

/-- If the sums are exact, division says how many rounds a loop has. -/
theorem Exact.hasRounds_iff {a b s : Int} (h : Exact first last stride a b s k) (hs : s ≠ 0) :
    HasRounds first last stride k ↔ (k : Int) = max 1 (⌊((b - a : Int) : ℚ) / s⌋ + 1) := by
  have hends {i : Nat} (hi : i ≤ k) := h.ends_iff hs hi
  generalize ⌊((b - a : Int) : ℚ) / s⌋ = q at hends ⊢
  constructor
  · rintro ⟨⟨hpos, hk⟩, hleast⟩
    have hq := (hends (Nat.le_refl k)).mp hk
    by_contra hne
    have hlt : max 1 (q + 1) < k := by omega
    have hle := hleast (a := (max 1 (q + 1)).toNat) ⟨by omega, (hends (by omega)).mpr (by omega)⟩
    omega
  · intro hk
    refine ⟨⟨by omega, (hends (Nat.le_refl k)).mpr (by omega)⟩, fun i ⟨hpos, hi⟩ => ?_⟩
    by_contra hlt
    have hq := (hends (by omega)).mp hi
    omega

end Loop

/-! ## Statements that leave a variable alone -/

namespace Variables

variable {vars : Variables}

theorem get_numbers_set {name : Name} (h : Kind.ofName name = .numeric) (vars : Variables)
    (x : Float) :
    ({ vars with numbers := vars.numbers.set name x } : Variables).get name = .number x := by
  unfold get
  rw [h]
  dsimp only
  rw [Table.get?_set, if_pos rfl]
  rfl

/-- Setting a variable leaves the others alone. -/
theorem get_set {name other : Name} (hne : name ≠ other) (v : Value) :
    Meets (fun vars' => vars'.get other = vars.get other) (fun _ => True) (vars.set name v) := by
  unfold set
  split
  · change get _ other = get _ other
    unfold get
    dsimp only
    rw [Table.get?_set, if_neg hne]
  · change get _ other = get _ other
    unfold get
    dsimp only
    rw [Table.get?_set, if_neg hne]
  · trivial

/-- Setting an element of an array leaves the variables alone. -/
theorem get_setElement (vars : Variables) (name other : Name) (index : Int) (v : Value) :
    Meets (fun vars' => vars'.get other = vars.get other) (fun _ => True)
      (vars.setElement name index v) := by
  unfold setElement
  split
  · trivial
  · split
    · split <;> exact rfl
    · split <;> exact rfl
    · trivial

/-- Dimensioning an array leaves the variables alone. -/
theorem get_dim (vars : Variables) (name other : Name) (size : Int) (length : Option Int) :
    Meets (fun vars' => vars'.get other = vars.get other) (fun _ => True)
      (vars.dim name size length) := by
  unfold dim
  split
  · trivial
  · split
    · trivial
    · dsimp only
      split
      · exact rfl
      · split
        · trivial
        · exact rfl

end Variables

/-- Assigning to anything but a variable leaves that variable alone. -/
theorem Target.get_assign {t : Target} {name : Name} (h : t ≠ .scalar name) (vars : Variables)
    (v : Value) :
    Meets (fun vars' => vars'.get name = vars.get name) (fun _ => True) (t.assign vars v) := by
  cases t with
  | scalar other =>
      have hne : other ≠ name := fun heq => h (congrArg Target.scalar heq)
      exact (Variables.get_set hne v).fault fun _ _ => trivial
  | element other index =>
      rw [assign]
      cases index.eval vars with
      | error e => exact trivial
      | ok w =>
          dsimp only
          cases w.toInteger with
          | error e => exact trivial
          | ok i => exact (vars.get_setElement other name i v).fault fun _ _ => trivial

/-- The statement neither is a condition nor changes the order of execution, and it does not assign
to the variable. -/
def Statement.IsPlainFor (name : Name) (s : Statement) : Prop :=
  ¬ s.IsCondition ∧ ¬ s.IsControl ∧ .scalar name ∉ s.targets

namespace Statement

variable {σ : Type} {I : Engine → Prop}

/-- A statement that is plain for a variable keeps what does not look at the constants or at other
variables. -/
theorem IsPlainFor.keeps {name : Name} {s : Statement} (h : s.IsPlainFor name)
    (hstore : ∀ e e' vars, I e → I e' → vars.get name = e.store.get name →
      I { e' with store := vars })
    (htape : ∀ e tape, I e → I { e with tape := tape })
    (hrunning : ∀ e, I e → I { e with status := .running }) (devices : Devices σ) :
    Keeps I (fun _ => True) (fun _ => True) (s.exec devices) := by
  obtain ⟨hcondition, hcontrol, htargets⟩ := h
  have hE (f : Failure) (_ : f.Unplaced) : (fun _ : Signal => True) (.failure f) := trivial
  refine keeps_of_targets hE hrunning devices.fail_true hcondition hcontrol
    (fun _ _ e tape _ he _ => htape e tape he) (fun t ht v => ?_) fun other size length _ => ?_
  · have hne : t ≠ .scalar name := fun heq => htargets (heq ▸ ht)
    refine keeps_getEngine.bind fun e he => ?_
    refine (keeps_ofFailure (t.get_assign hne e.store v)).bind fun vars hvars => ?_
    exact keeps_change fun e' he' => hstore e e' vars he he' hvars
  · refine keeps_getEngine.bind fun e he => ?_
    refine (keeps_ofFault (e.store.get_dim other name size _)).bind fun vars hvars => ?_
    exact keeps_change fun e' he' => hstore e e' vars he he' hvars

end Statement

end LineBasic
