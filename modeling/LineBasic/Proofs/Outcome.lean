import LineBasic.Fault

/-!
# Outcomes

`Meets Q E r` says what comes of a computation that may fail: a result satisfies `Q`, and a failure
`E`. What is done with the outcome afterwards, such as passing a fault on as a failure, is a lemma
each, and so are the two checks of which most faults come.
-/

namespace LineBasic

/-- A result satisfies `Q`, or a failure `E`. -/
def Meets {ε α : Type} (Q : α → Prop) (E : ε → Prop) : Except ε α → Prop
  | .ok a => Q a
  | .error e => E e

section

variable {ε ε' α β : Type} {Q Q' : α → Prop} {E E' : ε → Prop}

theorem Meets.imp {r : Except ε α} (h : Meets Q E r) (hQ : ∀ a, Q a → Q' a)
    (hE : ∀ e, E e → E' e) : Meets Q' E' r := by
  cases r with
  | ok a => exact hQ a h
  | error e => exact hE e h

theorem meets_true (r : Except ε α) : Meets (fun _ => True) (fun _ => True) r := by
  cases r <;> trivial

theorem Meets.of_ok {r : Except ε α} {a : α} (h : Meets Q E r) (hr : r = .ok a) : Q a := by
  rwa [hr] at h

theorem Meets.of_error {r : Except ε α} {e : ε} (h : Meets Q E r) (hr : r = .error e) : E e := by
  rwa [hr] at h

theorem exists_of_isOk {r : Except ε α} (h : r.isOk = true) : ∃ a, r = .ok a := by
  cases r with
  | ok a => exact ⟨a, rfl⟩
  | error e => cases h

theorem exists_of_any {r : Except ε α} {p : α → Bool} (h : r.toOption.any p = true) :
    ∃ a, r = .ok a ∧ p a = true := by
  cases r with
  | ok a => exact ⟨a, rfl, h⟩
  | error e => cases h

/-- What is done to an error does not change a result. -/
theorem ok_of_mapError {r : Except ε α} {f : ε → ε'} {a : α} (h : r.mapError f = .ok a) :
    r = .ok a := by
  cases r with
  | ok b =>
      cases h
      rfl
  | error e => cases h

theorem Meets.mapError {r : Except ε α} {f : ε → ε'} {F : ε' → Prop}
    (h : Meets Q (fun e => F (f e)) r) : Meets Q F (r.mapError f) := by
  cases r <;> exact h

theorem Meets.map {r : Except ε α} {f : α → β} {R : β → Prop}
    (h : Meets (fun a => R (f a)) E r) : Meets R E (r.map f) := by
  cases r <;> exact h

/-- A fault that is passed on as a failure. -/
theorem Meets.fault {r : Except Fault α} {F : Fault → Prop} {G : Failure → Prop}
    (h : Meets Q F r) (hG : ∀ f, F f → G (.fault f)) : Meets Q G (r.mapError .fault) :=
  (h.imp (fun _ ha => ha) hG).mapError

theorem meets_checkRange {cause : Cause} {F : Fault → Prop} (h : F (.of cause)) (low high : Int)
    (xs : List (Option Int)) : Meets (fun _ => True) F (checkRange cause low high xs) := by
  unfold checkRange
  split
  · trivial
  · exact h

theorem meets_failIf {cause : Cause} {F : Fault → Prop} (h : F (.of cause)) (condition : Bool) :
    Meets (fun _ => True) F (failIf cause condition) := by
  unfold failIf
  split
  · exact h
  · trivial

end

end LineBasic
