import LineBasic.Proofs.Engine.Step
import LineBasic.Proofs.Program.Rejection
import LineBasic.Session

/-!
# Loading changes everything or nothing

A source of which every line is blank or can be read makes the program of the machine. Otherwise the
first line that is neither is to blame, and the engine with its program, variables and constants
stays as it was. The log can tell of lines with one number that were read before.
-/

namespace LineBasic

variable {σ : Type}

namespace Machine

/-- Notes in the log do not touch the engine. -/
theorem foldl_noted (devices : Devices σ) (log : List LogEntry) (m : Machine σ) :
    log.foldl (fun m entry => m.noted devices entry) m =
      { m with world := log.foldl (fun world entry => devices.note entry world) m.world } := by
  induction log generalizing m with
  | nil => rfl
  | cons entry log ih => exact ih _

theorem load_ok (devices : Devices σ) {source : Source} {p : Program}
    (h : (Program.load source).2 = .ok p) (m : Machine σ) :
    (m.load devices source).1 = .ok () ∧
      (m.load devices source).2.engine = Engine.ofProgram p .empty m.engine.tick := by
  unfold load
  rcases hsource : Program.load source with ⟨log, result⟩
  rw [hsource] at h
  cases h
  refine ⟨rfl, (engine_notedIfHalted devices _).trans ?_⟩
  rw [foldl_noted]

theorem load_error (devices : Devices σ) {source : Source} {f : Failure}
    (h : (Program.load source).2 = .error f) (m : Machine σ) :
    (m.load devices source).1 = .error f ∧ ∃ log : List LogEntry, (m.load devices source).2 =
      { m with world := log.foldl (fun world entry => devices.note entry world) m.world } := by
  unfold load
  rcases hsource : Program.load source with ⟨log, result⟩
  rw [hsource] at h
  cases h
  exact ⟨rfl, log, foldl_noted devices log m⟩

end Machine

/-- A source is loaded into a machine, or it is not. In the first case each of its lines is blank or
has its number among those of the new program, and the engine is set to the start of that program
and has no variables. In the other case nothing but the log has changed. The failure is a syntax
error or due to a run of digits that is too long or spells too large a number. It is about the first
line that is neither blank nor read; a syntax error names this line by its number, or by its place
in the source if it has none, and a column of the line or the one behind it. -/
theorem load_all_or_nothing (devices : Devices σ) (source : Source) (m : Machine σ) :
    let outcome := m.load devices source
    let texts := source.toLines.map Line.trimmed
    (∃ p, outcome.1 = .ok () ∧ (∀ text ∈ texts, p.Takes text) ∧
      outcome.2.engine = Engine.ofProgram p .empty m.engine.tick) ∨
    ∃ f, outcome.1 = .error f ∧ Program.StopsAt 1 texts f ∧ ∃ log : List LogEntry, outcome.2 =
      { m with world := log.foldl (fun world entry => devices.note entry world) m.world } := by
  intro outcome texts
  rcases Program.addLines_cases .empty 1 source.toLines with ⟨p, hload, htakes⟩ | ⟨f, hload, hstops⟩
  · rw [← Program.load_eq] at hload
    obtain ⟨hok, hengine⟩ := Machine.load_ok devices hload m
    exact .inl ⟨p, hok, htakes, hengine⟩
  · rw [← Program.load_eq] at hload
    obtain ⟨herror, hlog⟩ := Machine.load_error devices hload m
    exact .inr ⟨f, herror, hstops, hlog⟩

end LineBasic
