import LineBasic.Proofs.Number.Literal
import LineBasic.Proofs.Settings.Arguments
import LineBasic.Proofs.Settings.Sections
import LineBasic.Settings.Choice

/-!
# Which setting counts

For each parameter there is one text that counts: the last one that the command line says about it,
and only if it says none, the one in the section of the configuration file. The setting is what this
text spells, and the default if it spells nothing of use; the other source is not asked then. What
is not a parameter has no effect, and of the positions only the first one has.
-/

namespace LineBasic

/-- A text spells a setting of a parameter: a pass in letters of either case, a text that is not
empty, a number, or a flag. An empty text spells a flag that is on, and no number. -/
def Parameter.Spells (p : Parameter) (text : String) (setting : Setting) : Prop :=
  match p.form with
  | .pass => ∃ pass : Pass, lowered text = pass.word ∧ setting = .pass pass
  | .text => text ≠ "" ∧ setting = .text text
  | .number => ∃ x, Number.Spells text.toList x ∧ setting = .number x
  | .flag =>
      let word := String.ofList (Text.asciiUpper text.toList)
      (text = "" ∨ word ∈ yesWords) ∧ setting = .flag true ∨
        word ∈ noWords ∧ setting = .flag false

namespace Parameter

variable {p : Parameter} {text : String} {setting : Setting}

theorem ofWord?_eq_some_iff {word : String} {pass : Pass} :
    Pass.ofWord? word = some pass ↔ word = pass.word := by
  constructor
  · intro h
    have hword : (pass.word == word) = true :=
      List.find?_some (p := fun q : Pass => q.word == word) h
    exact (eq_of_beq hword).symm
  · rintro rfl
    cases pass <;> rfl

theorem flag?_eq_some_iff {b : Bool} :
    flag? text = some b ↔
      if b then text = "" ∨ String.ofList (Text.asciiUpper text.toList) ∈ yesWords
      else String.ofList (Text.asciiUpper text.toList) ∈ noWords := by
  have hdisjoint : ∀ word ∈ noWords, word ≠ "" ∧ word ∉ yesWords := by decide
  have hempty : text = "" → String.ofList (Text.asciiUpper text.toList) = "" := by
    rintro rfl
    rfl
  unfold flag?
  dsimp only
  generalize String.ofList (Text.asciiUpper text.toList) = word at *
  split
  case isTrue hyes =>
    cases b with
    | true => exact ⟨fun _ => hyes, fun _ => rfl⟩
    | false =>
        refine ⟨fun h => (nomatch h), fun hno => ?_⟩
        obtain ⟨hne, hnot⟩ := hdisjoint word hno
        exact (hyes.elim (fun h => hne (hempty h)) hnot).elim
  case isFalse hyes =>
    split
    case isTrue hno =>
      cases b with
      | true => exact ⟨fun h => (nomatch h), fun h => absurd h hyes⟩
      | false => exact ⟨fun _ => hno, fun _ => rfl⟩
    case isFalse hno =>
      refine ⟨fun h => (nomatch h), fun h => ?_⟩
      cases b with
      | true => exact absurd h hyes
      | false => exact absurd h hno

/-- A text is read as what it spells. -/
theorem read_eq_some_iff : p.read text = some setting ↔ p.Spells text setting := by
  unfold read Spells
  cases p.form with
  | pass =>
      simp only [Option.map_eq_some_iff, ofWord?_eq_some_iff]
      exact exists_congr fun pass => and_congr_right fun _ => eq_comm
  | text =>
      by_cases hempty : text = ""
      · simp [hempty]
      · simp [hempty, eq_comm]
  | number =>
      simp only [Option.map_eq_some_iff, Number.ofText?_eq_some_iff]
      exact exists_congr fun x => and_congr_right fun _ => eq_comm
  | flag =>
      simp only [Option.map_eq_some_iff, flag?_eq_some_iff]
      constructor
      · rintro ⟨b, hb, rfl⟩
        cases b with
        | true => exact .inl ⟨hb, rfl⟩
        | false => exact .inr ⟨hb, rfl⟩
      · rintro (⟨hyes, rfl⟩ | ⟨hno, rfl⟩)
        · exact ⟨true, hyes, rfl⟩
        · exact ⟨false, hno, rfl⟩

end Parameter

/-! ## The text that counts -/

namespace Settings

open Argument

variable {options : Table String String} {p : Parameter}

/-- The setting of a parameter is what the text spells, if it spells one, and else the default. -/
def Follows (s : Settings) (p : Parameter) : Option String → Prop
  | none => s.get p = p.default
  | some text =>
      (∀ setting, p.Spells text setting → s.get p = setting) ∧
        ((∀ setting, ¬ p.Spells text setting) → s.get p = p.default)

theorem follows_given (s : Settings) (p : Parameter) : s.Follows p (s.given.get? p) := by
  have hget : s.get p = ((s.given.get? p).bind p.read).getD p.default := rfl
  cases htext : s.given.get? p with
  | none =>
      rw [htext] at hget
      exact hget
  | some text =>
      rw [htext, Option.bind_some] at hget
      refine ⟨fun setting hspells => ?_, fun hnone => ?_⟩
      · rw [hget, Parameter.read_eq_some_iff.mpr hspells, Option.getD_some]
      · have hread : p.read text = none :=
          Option.eq_none_iff_forall_ne_some.mpr fun setting hsetting =>
            hnone setting (Parameter.read_eq_some_iff.mp hsetting)
        rw [hget, hread, Option.getD_none]

/-- The settings that a section and the arguments of a command line make up. -/
def ofTexts (options : Table String String) (texts : List String) : Settings :=
  ofSources options (CommandLine.ofArguments (Argument.ofTexts 0 texts))

theorem parameterOf?_eq_some_iff (hp : p ≠ .config) {subject : Subject} :
    parameterOf? subject = some p ↔ subject = .option p.name := by
  cases subject with
  | position => exact ⟨fun h => (nomatch h), fun h => (nomatch h)⟩
  | option name =>
      rw [parameterOf?, Option.filter_eq_some_iff, Parameter.ofName?_eq_some_iff,
        Subject.option.injEq]
      exact ⟨And.left, fun h => ⟨h, by simpa using hp⟩⟩

/-- What a command line gives a parameter. The configuration file is not a setting. -/
theorem under_lineEntries (line : CommandLine) (h : Table.Distinct line) (p : Parameter) :
    Table.under p (lineEntries line) =
      if p = .config then [] else (line.get? (.option p.name)).toList := by
  split
  case isTrue hp =>
    subst hp
    refine Table.under_eq_nil fun e he => ?_
    obtain ⟨⟨subject, text⟩, -, hentry⟩ := List.mem_filterMap.mp he
    obtain ⟨q, hq, rfl⟩ := Option.map_eq_some_iff.mp hentry
    cases subject with
    | position => cases hq
    | option name =>
        rw [parameterOf?, Option.filter_eq_some_iff] at hq
        simpa using hq.2
  case isFalse hp =>
    rw [← h.under_entries]
    exact Table.under_filterMap (fun subject => parameterOf?_eq_some_iff hp) line.entries

/-- What a section gives a parameter. -/
theorem under_sectionEntries (h : options.Distinct) (p : Parameter) :
    Table.under p (sectionEntries options) = (options.get? p.name).toList := by
  rw [← h.under_entries]
  exact Table.under_filterMap (fun name => Parameter.ofName?_eq_some_iff) options.entries

/-- The command line counts, if it gives the parameter, and else the section. -/
theorem get?_given (h : options.Distinct) (texts : List String) (p : Parameter) :
    (ofTexts options texts).given.get? p =
      (if p = .config then none else ((front texts).flatMap (said p.name)).getLast?).or
        (options.get? p.name) := by
  have hline := under_lineEntries _ (CommandLine.distinct_ofArguments (Argument.ofTexts 0 texts)) p
  rw [CommandLine.get?_option] at hline
  rw [ofTexts, ofSources, Table.get?_setAll, Table.under_append, hline, under_sectionEntries h,
    Table.get?_empty, Option.or_none, List.getLast?_append]
  have hlast (o : Option String) : o.toList.getLast? = o := by cases o <;> rfl
  split
  · rw [List.getLast?_nil, hlast]
  · rw [hlast, hlast]

end Settings

/-! ## What has no effect -/

/-- Behind some arguments, an argument is a position that is not the first one, or an option that
says nothing about any parameter. -/
inductive Argument.Idle (before : List String) (arg : String) : Prop where
  | surplus (h : "--" ∈ before ∨ IsPosition arg) (hfirst : positional before ≠ [])
  | unrecognised (hfront : "--" ∉ before) (hoption : ¬ IsPosition arg) (hne : arg ≠ "--")
      (hspoken : ∀ (p : Parameter) text, ¬ p.Says arg text)

namespace Argument

variable {before : List String} {arg : String}

/-- An idle argument says nothing about a parameter. -/
theorem Idle.flatMap_said (h : Idle before arg) (after : List String) (p : Parameter) :
    (front (before ++ arg :: after)).flatMap (said p.name) =
      (front (before ++ after)).flatMap (said p.name) := by
  rw [front_append, front_append]
  by_cases hfront : "--" ∈ before
  · rw [if_pos hfront, if_pos hfront]
  · have hsilent : arg ≠ "--" ∧ said p.name arg = [] := by
      cases h with
      | surplus h =>
          have hposition := h.resolve_left hfront
          refine ⟨?_, said_of_isPosition hposition p.name⟩
          rintro rfl
          exact absurd hposition (by decide)
      | unrecognised _ _ hne hspoken =>
          exact ⟨hne, said_eq_nil_iff.mpr (hspoken p)⟩
    rw [if_neg hfront, if_neg hfront, front_cons hsilent.1, List.flatMap_append,
      List.flatMap_cons, hsilent.2, List.nil_append, List.flatMap_append]

/-- An idle argument is not the first position. -/
theorem Idle.head?_positional (h : Idle before arg) (after : List String) :
    (positional (before ++ arg :: after)).head? = (positional (before ++ after)).head? := by
  rw [positional_append, positional_append]
  cases h with
  | surplus _ hfirst =>
      rw [List.head?_append_of_ne_nil _ hfirst, List.head?_append_of_ne_nil _ hfirst]
  | unrecognised hfront hoption hne =>
      rw [if_neg hfront, if_neg hfront, positional_cons hne, if_neg hoption]

end Argument

namespace Settings

open Argument

variable {options : Table String String}

/-- The program and all settings are the same. -/
structure Same (s s' : Settings) : Prop where
  program : s'.program = s.program
  get : ∀ p, s'.get p = s.get p
  given? : ∀ p, s'.given? p = s.given? p

theorem same_of_given {s s' : Settings} (hprogram : s'.program = s.program)
    (h : ∀ p, s'.given.get? p = s.given.get? p) : s.Same s' where
  program := hprogram
  get p := by rw [Settings.get, Settings.get, h]
  given? p := by rw [Settings.given?, Settings.given?, h]

/-- The first position is the program. -/
theorem program_ofTexts (options : Table String String) (texts : List String) :
    (ofTexts options texts).program = (positional texts).headD "" := by
  rw [List.headD_eq_head?_getD, ← CommandLine.get?_position]
  rfl

theorem same_of_unknown (h : options.Distinct) (texts : List String) {name : String}
    (hname : Parameter.ofName? name = none) (text : String) :
    (ofTexts options texts).Same (ofTexts (options.set name text) texts) := by
  refine same_of_given rfl fun p => ?_
  have hne : name ≠ p.name := fun heq => by
    cases hname.symm.trans (Parameter.ofName?_eq_some_iff.mpr heq)
  rw [get?_given (h.set name text), get?_given h, Table.get?_set, if_neg hne]

theorem same_of_idle (h : options.Distinct) {before : List String} {arg : String}
    (hidle : Idle before arg) (after : List String) :
    (ofTexts options (before ++ after)).Same (ofTexts options (before ++ arg :: after)) := by
  refine same_of_given ?_ fun p => ?_
  · rw [program_ofTexts, program_ofTexts, List.headD_eq_head?_getD, List.headD_eq_head?_getD,
      hidle.head?_positional]
  · rw [get?_given h, get?_given h, hidle.flatMap_said]

end Settings

/-- The settings that a command line and a section make up. For every parameter but the name of the
configuration file, the setting is what the last argument in front of `--` spells that says
something about it. If no argument does, it is what the option of the section spells, and if there
is none, the default. The first position is the program. Options of the section that are not known,
options of the command line that say nothing about any parameter, and further positions change
nothing. -/
theorem settings_precedence {options : Table String String} (h : options.Distinct)
    (texts : List String) :
    let s := Settings.ofTexts options texts
    (∀ p, p ≠ .config →
      (∀ before arg after text, Argument.front texts = before ++ arg :: after → p.Says arg text →
        (∀ arg' ∈ after, ∀ text', ¬ p.Says arg' text') → s.Follows p (some text)) ∧
      ((∀ arg ∈ Argument.front texts, ∀ text, ¬ p.Says arg text) →
        s.Follows p (options.get? p.name))) ∧
    s.program = (Argument.positional texts).headD "" ∧
    (∀ name text, Parameter.ofName? name = none →
      s.Same (Settings.ofTexts (options.set name text) texts)) ∧
    ∀ before arg after, texts = before ++ after → Argument.Idle before arg →
      s.Same (Settings.ofTexts options (before ++ arg :: after)) := by
  intro s
  refine ⟨fun p hp => ⟨fun before arg after text hfront hspoken hlast => ?_, fun hnone => ?_⟩,
    Settings.program_ofTexts options texts, fun name text hname =>
      Settings.same_of_unknown h texts hname text, ?_⟩
  · have hgiven := Settings.get?_given h texts p
    rw [if_neg hp, hfront, Argument.getLast?_flatMap_said hspoken hlast, Option.some_or] at hgiven
    exact hgiven ▸ s.follows_given p
  · have hgiven := Settings.get?_given h texts p
    rw [if_neg hp, Argument.flatMap_said_eq_nil_iff.mpr hnone, List.getLast?_nil,
      Option.none_or] at hgiven
    exact hgiven ▸ s.follows_given p
  · rintro before arg after rfl hidle
    exact Settings.same_of_idle h hidle after

theorem settings_precedence_unusable :
    ∃ f, Ini.read "[pocketbasic]\npass=check\ndebug\nwait-unit=2".toList = .ok f ∧
      let options := f.options "pocketbasic"
      let texts :=
        ["--pass=LEX", "a.bas", "--wait-unit=\x1c2", "b.bas", "--pause-time=", "--", "--pass=run"]
      let s := Settings.ofTexts options texts
      s.get .pass = .pass .lex ∧ s.get .debug = .flag true ∧
        s.get .waitUnit = Parameter.waitUnit.default ∧
        s.get .pauseTime = Parameter.pauseTime.default ∧ s.program = "a.bas" ∧
        s.Same (Settings.ofTexts options ("--nope=1" :: texts)) := by
  obtain ⟨f, hf, hdebug⟩ := exists_of_any
    (p := fun f : Ini.File => (f.options "pocketbasic").get? "debug" == some "")
    (show (Ini.read "[pocketbasic]\npass=check\ndebug\nwait-unit=2".toList).toOption.any _ = true by
      decide +kernel)
  refine ⟨f, hf, ?_⟩
  intro options texts s
  obtain ⟨hsetting, hprogram, -, hidle⟩ :=
    settings_precedence (Ini.distinct_options hf "pocketbasic") texts
  obtain ⟨hpass, -⟩ := hsetting .pass (by decide)
  obtain ⟨hwait, -⟩ := hsetting .waitUnit (by decide)
  obtain ⟨hpause, -⟩ := hsetting .pauseTime (by decide)
  obtain ⟨-, hsection⟩ := hsetting .debug (by decide)
  have hlex := hpass [] "--pass=LEX" _ "LEX" rfl (Argument.mem_said_iff.mp (by decide +kernel))
    (Argument.flatMap_said_eq_nil_iff.mp (by decide +kernel))
  have hnone := hwait ["--pass=LEX", "a.bas"] "--wait-unit=\x1c2" _ "\x1c2" rfl
    (Argument.mem_said_iff.mp (by decide +kernel))
    (Argument.flatMap_said_eq_nil_iff.mp (by decide +kernel))
  have hempty := hpause ["--pass=LEX", "a.bas", "--wait-unit=\x1c2", "b.bas"] "--pause-time=" [] ""
    rfl (Argument.mem_said_iff.mp (by decide +kernel)) (List.forall_mem_nil _)
  have hon := hsection (Argument.flatMap_said_eq_nil_iff.mp (by decide +kernel))
  rw [show options.get? Parameter.debug.name = some "" from eq_of_beq hdebug] at hon
  refine ⟨hlex.1 _ ⟨.lex, by decide +kernel, rfl⟩, hon.1 _ (.inl ⟨.inl rfl, rfl⟩), hnone.2 ?_,
    hempty.2 ?_, hprogram, ?_⟩
  · rintro setting ⟨x, hx, -⟩
    exact absurd (Number.ofText?_eq_some_iff.mpr hx)
      (Option.eq_none_iff_forall_ne_some.mp (by decide +kernel) x)
  · rintro setting ⟨x, hx, -⟩
    exact absurd (Number.ofText?_eq_some_iff.mpr hx)
      (Option.eq_none_iff_forall_ne_some.mp (by decide +kernel) x)
  · refine hidle [] "--nope=1" texts rfl (.unrecognised (by decide) (by decide) (by decide) ?_)
    exact fun p => Argument.said_eq_nil_iff.mp (by cases p <;> decide +kernel)

end LineBasic
