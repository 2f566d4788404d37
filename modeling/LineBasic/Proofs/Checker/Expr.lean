import LineBasic.Diagnostic
import LineBasic.Expr.Eval
import LineBasic.Proofs.Outcome

/-!
# Expressions without findings

An expression in which the checker finds nothing has a kind, and wherever it has a value, this is of
that kind. It can still fail, but not with a fault of a cause that the checker looks for:
`Fault.Unchecked` leaves out these two causes.
-/

namespace LineBasic

/-- The fault is not of a cause that the checker looks for. -/
def Fault.Unchecked (f : Fault) : Prop :=
  f.cause ≠ .typeMismatch ∧ f.cause ≠ .undefinedLine

/-- The failure is not a fault of a cause that the checker looks for. -/
def Failure.Unchecked : Failure → Prop
  | fault f => f.Unchecked
  | _ => True

theorem Fault.unchecked_of {cause : Cause} (h : cause ≠ .typeMismatch)
    (h' : cause ≠ .undefinedLine) : (Fault.of cause).Unchecked :=
  ⟨h, h'⟩

/-! ## Operations -/

namespace Value

theorem unchecked_finite (x : Float) :
    Meets (fun v => v.kind = .numeric) Fault.Unchecked (finite x) := by
  unfold finite
  split
  · rfl
  · exact Fault.unchecked_of (by decide) (by decide)

theorem unchecked_quotient (x y : Float) :
    Meets (fun v => v.kind = .numeric) Fault.Unchecked (quotient x y) := by
  unfold quotient
  split
  · exact Fault.unchecked_of (by decide) (by decide)
  · exact unchecked_finite _

theorem exists_number {v : Value} (h : v.kind = .numeric) : ∃ x, v = number x := by
  cases v with
  | number x => exact ⟨x, rfl⟩
  | text s => cases h

theorem unchecked_asNumber {v : Value} (h : v.kind = .numeric) :
    Meets (fun _ => True) Fault.Unchecked v.asNumber := by
  obtain ⟨x, rfl⟩ := exists_number h
  trivial

theorem unchecked_toInteger {v : Value} (h : v.kind = .numeric) :
    Meets (fun _ => True) Failure.Unchecked v.toInteger := by
  obtain ⟨x, rfl⟩ := exists_number h
  simp only [toInteger, asNumber]
  cases checkInteger x <;> trivial

end Value

theorem UnaryOp.unchecked_apply (op : UnaryOp) {v : Value} (h : v.kind = .numeric) :
    Meets (fun w => w.kind = .numeric) Fault.Unchecked (op.apply v) := by
  obtain ⟨x, rfl⟩ := Value.exists_number h
  cases op <;> rfl

/-- Operands of kinds that the checker accepts. -/
theorem BinaryOp.unchecked_apply {op : BinaryOp} {a b : Value} {k : Kind}
    (h : op.infer a.kind b.kind = ([], some k)) :
    Meets (fun v => v.kind = k) Fault.Unchecked (op.apply a b) := by
  cases a with
  | number x =>
      cases b with
      | number y =>
          cases op with
          | plus =>
              cases h
              exact Value.unchecked_finite _
          | minus =>
              cases h
              exact Value.unchecked_finite _
          | times =>
              cases h
              exact Value.unchecked_finite _
          | divide =>
              cases h
              exact Value.unchecked_quotient _ _
          | _ =>
              cases h
              rfl
      | text t => cases op <;> cases h
  | text s =>
      cases b with
      | number y => cases op <;> cases h
      | text t =>
          cases op with
          | or => cases h
          | and => cases h
          | minus => cases h
          | times => cases h
          | divide => cases h
          | _ =>
              cases h
              rfl

theorem BinaryOp.infer_of_findings {op : BinaryOp} {l r : Kind} (h : (op.infer l r).1 = []) :
    ∃ k, op.infer l r = ([], some k) := by
  cases op <;> cases l <;> cases r <;> first | exact ⟨_, rfl⟩ | cases h

/-! ## Variables -/

namespace Variables

theorem kind_get (vars : Variables) (name : Name) : (vars.get name).kind = Kind.ofName name := by
  unfold get
  split
  · rename_i h
    exact h.symm
  · rename_i h
    exact h.symm

theorem unchecked_checkIndex (vars : Variables) (name : Name) (index : Int) :
    Meets (fun _ => True) Fault.Unchecked (vars.checkIndex name index) := by
  unfold checkIndex
  split
  · exact Fault.unchecked_of (by decide) (by decide)
  · rename_i size _
    have hrange : Meets (fun _ => True) Fault.Unchecked
        (checkRange .subscriptRange 0 size [some index]) :=
      meets_checkRange (Fault.unchecked_of (by decide) (by decide)) 0 size [some index]
    split
    · rename_i heq
      exact hrange.of_error heq
    · trivial

theorem unchecked_element (vars : Variables) (name : Name) (index : Int) :
    Meets (fun v => v.kind = Kind.ofName name) Fault.Unchecked (vars.element name index) := by
  have hindex := unchecked_checkIndex vars name index
  unfold element
  split
  · rename_i heq
    exact hindex.of_error heq
  · split
    · rename_i h
      exact h.symm
    · rename_i h
      exact h.symm

theorem unchecked_set (vars : Variables) {name : Name} {v : Value} (h : v.kind = Kind.ofName name) :
    Meets (fun _ => True) Fault.Unchecked (vars.set name v) := by
  cases v with
  | number x =>
      have hkind : Kind.ofName name = .numeric := h.symm
      simp only [set, hkind]
      trivial
  | text s =>
      have hkind : Kind.ofName name = .textual := h.symm
      simp only [set, hkind]
      trivial

theorem unchecked_setElement (vars : Variables) {name : Name} (index : Int) {v : Value}
    (h : v.kind = Kind.ofName name) :
    Meets (fun _ => True) Fault.Unchecked (vars.setElement name index v) := by
  have hindex := unchecked_checkIndex vars name index
  unfold setElement
  split
  · rename_i heq
    exact hindex.of_error heq
  · cases v with
    | number x =>
        have hkind : Kind.ofName name = .numeric := h.symm
        simp only [hkind]
        split <;> trivial
    | text s =>
        have hkind : Kind.ofName name = .textual := h.symm
        simp only [hkind]
        split <;> trivial

end Variables

/-! ## Expressions -/

section

variable {arrays : List Name} {vars : Variables}

theorem kind_of_requireKind {what : String} {k k' : Kind}
    (h : requireKind what k (some k') = []) : k' = k := by
  unfold requireKind at h
  dsimp only at h
  split at h
  · assumption
  · cases h

/-- Where nothing is found there is a kind. -/
theorem Expr.infer_of_findings {e : Expr} (h : e.findings arrays = []) :
    ∃ k, e.infer arrays = ([], some k) := by
  induction e with
  | number x => exact ⟨_, rfl⟩
  | text s => exact ⟨_, rfl⟩
  | scalar name => exact ⟨_, rfl⟩
  | element name index ih => exact ⟨_, Prod.ext h rfl⟩
  | unary op operand ih =>
      rcases hinfer : operand.infer arrays with ⟨found, kind⟩
      simp only [findings, infer, hinfer] at h ih ⊢
      cases kind with
      | none =>
          obtain ⟨k, hk⟩ := ih h
          cases hk
      | some k =>
          cases k with
          | numeric => exact ⟨_, Prod.ext h rfl⟩
          | textual => exact absurd (List.append_eq_nil_iff.mp h).2 (List.cons_ne_nil _ _)
  | binary op left right ihl ihr =>
      rcases hl : left.infer arrays with ⟨found, kind⟩
      rcases hr : right.infer arrays with ⟨found', kind'⟩
      simp only [findings, infer, hl, hr] at h ihl ihr ⊢
      cases kind with
      | none =>
          obtain ⟨k, hk⟩ := ihl (List.append_eq_nil_iff.mp h).1
          cases hk
      | some l =>
          cases kind' with
          | none =>
              obtain ⟨k, hk⟩ := ihr (List.append_eq_nil_iff.mp h).2
              cases hk
          | some r =>
              obtain ⟨hfound, hop⟩ := List.append_eq_nil_iff.mp h
              obtain ⟨k, hk⟩ := BinaryOp.infer_of_findings hop
              exact ⟨k, Prod.ext h (show (op.infer l r).2 = some k by rw [hk])⟩

/-- An expression has a value of its kind, unless it fails for a reason that the checker does not
look for. -/
theorem Expr.unchecked_eval {e : Expr} {k : Kind} (h : e.infer arrays = ([], some k)) :
    Meets (fun v => v.kind = k) Failure.Unchecked (e.eval vars) := by
  induction e generalizing k with
  | number x =>
      cases h
      rfl
  | text s =>
      cases h
      rfl
  | scalar name =>
      cases h
      exact Variables.kind_get vars name
  | element name index ih =>
      rcases hinfer : index.infer arrays with ⟨found, kind⟩
      simp only [infer, hinfer, Prod.mk.injEq, Option.some.injEq] at h
      obtain ⟨hfindings, rfl⟩ := h
      obtain ⟨hfound, hrequire⟩ := List.append_eq_nil_iff.mp hfindings
      obtain ⟨k, hk⟩ := infer_of_findings (show index.findings arrays = [] by
        rw [findings, hinfer]
        exact (List.append_eq_nil_iff.mp hfound).2)
      rw [hinfer, Prod.mk.injEq] at hk
      obtain ⟨rfl, rfl⟩ := hk
      have hindex := ih hinfer
      rw [kind_of_requireKind hrequire] at hindex
      rw [eval]
      split
      · rename_i heq
        exact hindex.of_error heq
      · rename_i v heq
        have hinteger := Value.unchecked_toInteger (hindex.of_ok heq)
        split
        · rename_i heq
          exact hinteger.of_error heq
        · exact (Variables.unchecked_element vars name _).fault fun _ h => h
  | unary op operand ih =>
      rcases hinfer : operand.infer arrays with ⟨found, kind⟩
      simp only [infer, hinfer] at h
      have hkind : kind = some k ∧ k = .numeric ∧ found = [] := by
        cases kind with
        | none => cases h
        | some k' =>
            cases k' with
            | numeric =>
                cases h
                exact ⟨rfl, rfl, rfl⟩
            | textual => exact absurd (congrArg Prod.snd h) (Option.some_ne_none k).symm
      obtain ⟨rfl, rfl, rfl⟩ := hkind
      have hoperand := ih hinfer
      rw [eval]
      split
      · rename_i heq
        exact hoperand.of_error heq
      · rename_i v heq
        exact (op.unchecked_apply (hoperand.of_ok heq)).fault fun _ h => h
  | binary op left right ihl ihr =>
      rcases hl : left.infer arrays with ⟨found, kind⟩
      rcases hr : right.infer arrays with ⟨found', kind'⟩
      simp only [infer, hl, hr] at h
      split at h
      · rename_i l r
        rw [Prod.mk.injEq] at h
        obtain ⟨hfindings, hkind⟩ := h
        obtain ⟨hfound, hop⟩ := List.append_eq_nil_iff.mp hfindings
        obtain ⟨rfl, rfl⟩ := List.append_eq_nil_iff.mp hfound
        have hleft := ihl hl
        have hright := ihr hr
        rw [eval]
        split
        · rename_i heq
          exact hleft.of_error heq
        · rename_i a ha
          split
          · rename_i heq
            exact hright.of_error heq
          · rename_i b hb
            have hinfer : op.infer a.kind b.kind = ([], some k) := by
              rw [hleft.of_ok ha, hright.of_ok hb]
              exact Prod.ext hop hkind
            exact (BinaryOp.unchecked_apply hinfer).fault fun _ h => h
      · exact absurd (congrArg Prod.snd h) (Option.some_ne_none k).symm

/-- A target of which nothing is found takes a value of its kind. -/
theorem Target.unchecked_assign {t : Target} (h : t.findings arrays = []) {v : Value}
    (hv : v.kind = t.kind) : Meets (fun _ => True) Failure.Unchecked (t.assign vars v) := by
  cases t with
  | scalar name => exact (Variables.unchecked_set vars hv).fault fun _ h => h
  | element name index =>
      rcases hinfer : index.infer arrays with ⟨found, kind⟩
      have h : ((if name ∈ arrays then [] else [.undimensioned name]) ++ (index.infer arrays).1 ++
        requireKind "array subscript" .numeric (index.infer arrays).2) = [] := h
      obtain ⟨hfound, hrequire⟩ := List.append_eq_nil_iff.mp h
      obtain ⟨k, hk⟩ := Expr.infer_of_findings (List.append_eq_nil_iff.mp hfound).2
      rw [hk] at hrequire
      have hindex : Meets (fun v => v.kind = k) Failure.Unchecked (index.eval vars) :=
        Expr.unchecked_eval hk
      rw [kind_of_requireKind hrequire] at hindex
      rw [assign]
      split
      · rename_i heq
        exact hindex.of_error heq
      · rename_i w heq
        have hinteger := Value.unchecked_toInteger (hindex.of_ok heq)
        split
        · rename_i heq
          exact hinteger.of_error heq
        · exact (Variables.unchecked_setElement vars _ hv).fault fun _ h => h

/-- An expression that has to be of a kind. -/
theorem Expr.infer_of_findingsAs {what : String} {k : Kind} {e : Expr}
    (h : e.findingsAs arrays what k = []) : e.infer arrays = ([], some k) := by
  obtain ⟨hfound, hrequire⟩ := List.append_eq_nil_iff.mp h
  obtain ⟨k', hk⟩ := infer_of_findings hfound
  rw [hk] at hrequire
  rw [hk, kind_of_requireKind hrequire]

end

end LineBasic
