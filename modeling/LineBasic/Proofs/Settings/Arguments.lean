import LineBasic.Proofs.Table
import LineBasic.Proofs.Token.Words
import LineBasic.Settings.Arguments

/-!
# What a command line says

A command line is read argument by argument. In front of `--` an argument is a position or an
option, and what an option says about a parameter can be seen from that argument alone; behind `--`
there are positions only. So what a command line says about a parameter is what its arguments in
front of `--` say, one after the other, and its first position is the first argument that is one.
-/

namespace LineBasic

/-- An option in front of `--` says a text about the parameter: the one behind the equals sign, and
the empty text if there is none or if a letter behind a single dash stands for the parameter. -/
inductive Parameter.Says (p : Parameter) : String → String → Prop where
  | valued (text : String) : Says p ("--" ++ p.name ++ "=" ++ text) text
  | bare : Says p ("--" ++ p.name) ""
  | letter {arg : String} {cs : List Char} (harg : arg.toList = '-' :: cs)
      (hcs : cs.head? ≠ some '-') {c : Char} (hc : c ∈ cs) (h : Parameter.ofLetter? c = some p) :
      Says p arg ""

namespace Parameter

/-- A name is not empty, and it has no equals sign in it. -/
theorem plain_name (p : Parameter) : '=' ∉ p.name.toList ∧ p.name ≠ "" := by
  cases p <;> decide

theorem eq_of_name_eq {p q : Parameter} (h : p.name = q.name) : p = q := by
  revert h
  cases p <;> cases q <;> decide

theorem ofName?_eq_some_iff {name : String} {p : Parameter} :
    ofName? name = some p ↔ name = p.name := by
  constructor
  · intro h
    have hname : (p.name == name) = true :=
      List.find?_some (p := fun q : Parameter => q.name == name) h
    exact (eq_of_beq hname).symm
  · rintro rfl
    cases p <;> rfl

end Parameter

namespace Argument

/-- The argument is a position even in front of `--`. -/
def IsPosition (arg : String) : Prop :=
  arg = "-" ∨ arg.toList.head? ≠ some '-'

instance (arg : String) : Decidable (IsPosition arg) :=
  inferInstanceAs (Decidable (_ ∨ _))

/-- The arguments in front of `--`. -/
def front (texts : List String) : List String :=
  texts.takeWhile (· ≠ "--")

/-- The arguments that are positions. -/
def positional (texts : List String) : List String :=
  (front texts).filter (fun arg => decide (IsPosition arg)) ++
    (texts.dropWhile (· ≠ "--")).drop 1

/-- What an option in front of `--` is read as. -/
def optional (arg : String) : List Argument :=
  match arg.toList with
  | '-' :: '-' :: cs =>
      if (named cs).1 = "" then [] else [given (.option (named cs).1) (named cs).2]
  | '-' :: cs => cs.map ofLetter
  | _ => []

/-! ## One argument -/

theorem not_isPosition {arg : String} {c : Char} {cs : List Char}
    (h : arg.toList = '-' :: c :: cs) : ¬ IsPosition arg := by
  rintro (rfl | hhead)
  · cases h
  · exact hhead (congrArg List.head? h)

theorem exists_of_not_isPosition {arg : String} (h : ¬ IsPosition arg) :
    ∃ c cs, arg.toList = '-' :: c :: cs := by
  cases harg : arg.toList with
  | nil => exact absurd (.inr (by simp [harg])) h
  | cons c cs =>
      by_cases hc : c = '-'
      · subst hc
        cases cs with
        | nil => exact absurd (.inl (String.toList_inj.mp harg)) h
        | cons c' cs => exact ⟨c', cs, rfl⟩
      · exact absurd (.inr (by simpa [harg] using hc)) h

theorem optional_double {arg : String} {cs : List Char} (h : arg.toList = '-' :: '-' :: cs) :
    optional arg =
      if (named cs).1 = "" then [] else [given (.option (named cs).1) (named cs).2] := by
  rw [optional, h]
  rfl

theorem optional_single {arg : String} {cs : List Char} (h : arg.toList = '-' :: cs)
    (hcs : cs.head? ≠ some '-') : optional arg = cs.map ofLetter := by
  rw [optional, h]
  split
  · rename_i heq
    cases heq
    exact absurd rfl hcs
  · rename_i heq
    cases heq
    rfl
  · rename_i hne
    exact absurd rfl (hne cs)

theorem optional_of_isPosition {arg : String} (h : IsPosition arg) : optional arg = [] := by
  rcases h with rfl | h
  · rfl
  · unfold optional
    split
    · rename_i harg
      exact absurd (congrArg List.head? harg) h
    · rename_i harg
      exact absurd (congrArg List.head? harg) h
    · rfl

/-- An argument in front of `--` is read by itself. -/
theorem ofTexts_cons {text : String} (h : text ≠ "--") (count : Nat) (rest : List String) :
    ofTexts count (text :: rest) =
      if IsPosition text then given (.position count) text :: ofTexts (count + 1) rest
      else optional text ++ ofTexts count rest := by
  rw [ofTexts]
  split
  · rename_i harg
    exact absurd (String.toList_inj.mp harg) h
  · rename_i cs hcs harg
    rw [optional_double harg]
    obtain ⟨c, cs, rfl⟩ := List.exists_cons_of_ne_nil hcs
    rw [if_neg (not_isPosition harg)]
    dsimp only
    split <;> rfl
  · rename_i c cs _ hc harg
    rw [if_neg (not_isPosition harg), optional_single harg fun heq => hc (Option.some.inj heq)]
  · rename_i hne
    have hposition : IsPosition text := by
      by_cases h : IsPosition text
      · exact h
      · obtain ⟨c, cs, harg⟩ := exists_of_not_isPosition h
        exact (hne c cs harg).elim
    rw [if_pos hposition]

/-! ## What an option says -/

/-- The name goes up to the first equals sign, if there is one, and the text stands behind it. -/
theorem named_eq_iff {cs : List Char} {name text : String} (hname : '=' ∉ name.toList) :
    named cs = (name, text) ↔
      cs = name.toList ++ '=' :: text.toList ∨ cs = name.toList ∧ text = "" := by
  have hplain : ∀ c ∈ name.toList, decide (c ≠ '=') = true := fun c hc =>
    decide_eq_true fun heq => hname (heq ▸ hc)
  constructor
  · intro h
    obtain ⟨hfst, hsnd⟩ := Prod.mk.inj h
    have htake : cs.takeWhile (· ≠ '=') = name.toList := by rw [← hfst, String.toList_ofList]
    have hdrop : (cs.dropWhile (· ≠ '=')).drop 1 = text.toList := by
      rw [← hsnd, String.toList_ofList]
    have hhead := Text.head?_dropWhile_not (fun c : Char => decide (c ≠ '=')) cs
    have hcs : cs = name.toList ++ cs.dropWhile (· ≠ '=') := by
      rw [← htake, List.takeWhile_append_dropWhile]
    cases hrest : cs.dropWhile (· ≠ '=') with
    | nil =>
        rw [hrest] at hcs hdrop
        exact .inr ⟨hcs.trans (List.append_nil _), String.toList_inj.mp hdrop.symm⟩
    | cons c rest =>
        rw [hrest] at hcs hdrop hhead
        have hc : c = '=' := by simpa using hhead c rfl
        have hbehind : rest = text.toList := hdrop
        exact .inl (by rw [hcs, hc, hbehind])
  · have hnamed (rest : List Char) (hrest : ∀ c ∈ rest.head?, decide (c ≠ '=') = false) :
        named (name.toList ++ rest) = (name, String.ofList (rest.drop 1)) := by
      obtain ⟨htake, hdrop⟩ := Lexer.takeWhile_append_head hplain hrest
      rw [named, htake, hdrop, String.ofList_toList]
    rintro (rfl | ⟨rfl, rfl⟩)
    · rw [hnamed _ (by simp), List.drop_one, List.tail_cons, String.ofList_toList]
    · have h := hnamed [] (by simp)
      rwa [List.append_nil] at h

variable {p : Parameter} {arg text : String}

theorem ofLetter_eq_given_iff {c : Char} :
    ofLetter c = given (.option p.name) text ↔ Parameter.ofLetter? c = some p ∧ text = "" := by
  unfold ofLetter
  cases Parameter.ofLetter? c with
  | none => exact ⟨fun h => (nomatch h), fun h => (nomatch h.1)⟩
  | some q =>
      simp only [given.injEq, Subject.option.injEq, Option.some.injEq]
      exact ⟨fun ⟨hname, htext⟩ => ⟨Parameter.eq_of_name_eq hname, htext.symm⟩,
        fun ⟨hq, htext⟩ => ⟨congrArg Parameter.name hq, htext.symm⟩⟩

theorem mem_optional_double {cs : List Char} (h : arg.toList = '-' :: '-' :: cs) :
    given (.option p.name) text ∈ optional arg ↔ named cs = (p.name, text) := by
  rw [optional_double h]
  split
  case isTrue hempty =>
    refine ⟨fun hmem => (nomatch hmem), fun heq => ?_⟩
    rw [heq] at hempty
    exact absurd hempty p.plain_name.2
  case isFalse =>
    rw [List.mem_singleton, given.injEq, Subject.option.injEq, Prod.ext_iff]
    exact and_congr eq_comm eq_comm

/-- What is read of a parameter stands behind two dashes, or it is a letter behind a single one. -/
theorem cases_of_mem_optional (h : given (.option p.name) text ∈ optional arg) :
    (∃ cs, arg.toList = '-' :: '-' :: cs ∧ named cs = (p.name, text)) ∨
      ∃ cs, arg.toList = '-' :: cs ∧ cs.head? ≠ some '-' ∧ text = "" ∧
        ∃ c ∈ cs, Parameter.ofLetter? c = some p := by
  by_cases hposition : IsPosition arg
  · rw [optional_of_isPosition hposition] at h
    cases h
  · obtain ⟨c, cs, harg⟩ := exists_of_not_isPosition hposition
    by_cases hc : c = '-'
    · subst hc
      exact .inl ⟨cs, harg, (mem_optional_double harg).mp h⟩
    · have hhead : (c :: cs).head? ≠ some '-' := fun heq => hc (Option.some.inj heq)
      rw [optional_single harg hhead] at h
      obtain ⟨d, hd, hread⟩ := List.mem_map.mp h
      obtain ⟨hletter, htext⟩ := ofLetter_eq_given_iff.mp hread
      exact .inr ⟨c :: cs, harg, hhead, htext, d, hd, hletter⟩

/-- What an option is read as is what it says. -/
theorem mem_optional_iff : given (.option p.name) text ∈ optional arg ↔ p.Says arg text := by
  have hequals := p.plain_name.1
  constructor
  · intro h
    rcases cases_of_mem_optional h with ⟨cs, harg, hnamed⟩ | ⟨cs, harg, hcs, rfl, c, hc, hletter⟩
    · rcases (named_eq_iff hequals).mp hnamed with hcs | ⟨hcs, rfl⟩
      · have heq : arg = "--" ++ p.name ++ "=" ++ text := String.toList_inj.mp (by simp [harg, hcs])
        exact heq ▸ .valued text
      · have heq : arg = "--" ++ p.name := String.toList_inj.mp (by simp [harg, hcs])
        exact heq ▸ .bare
    · exact .letter harg hcs hc hletter
  · rintro (_ | _ | ⟨harg, hcs, hc, hletter⟩)
    · exact (mem_optional_double (by simp)).mpr ((named_eq_iff hequals).mpr (.inl rfl))
    · exact (mem_optional_double (by simp)).mpr ((named_eq_iff hequals).mpr (.inr ⟨rfl, rfl⟩))
    · rw [optional_single harg hcs]
      exact List.mem_map.mpr ⟨_, hc, ofLetter_eq_given_iff.mpr ⟨hletter, rfl⟩⟩

/-- An argument does not say two different texts about a parameter. -/
theorem says_unique {text' : String} (h : p.Says arg text) (h' : p.Says arg text') :
    text = text' := by
  rcases cases_of_mem_optional (mem_optional_iff.mpr h) with
    ⟨cs, harg, hnamed⟩ | ⟨cs, harg, hcs, htext, -⟩
  · rcases cases_of_mem_optional (mem_optional_iff.mpr h') with
      ⟨cs', harg', hnamed'⟩ | ⟨cs', harg', hcs', -⟩
    · cases harg.symm.trans harg'
      exact (Prod.mk.inj (hnamed.symm.trans hnamed')).2
    · cases harg.symm.trans harg'
      exact absurd rfl hcs'
  · rcases cases_of_mem_optional (mem_optional_iff.mpr h') with
      ⟨cs', harg', -⟩ | ⟨cs', -, -, htext', -⟩
    · cases harg.symm.trans harg'
      exact absurd rfl hcs
    · exact htext.trans htext'.symm

/-- The texts that an argument in front of `--` gives an option, in order. -/
def said (name arg : String) : List String :=
  Table.under (.option name) ((optional arg).filterMap entry?)

theorem mem_said_iff : text ∈ said p.name arg ↔ p.Says arg text := by
  rw [said, Table.mem_under_iff, ← mem_optional_iff, List.mem_filterMap]
  constructor
  · rintro ⟨a, ha, hentry⟩
    cases a with
    | given subject t =>
        cases hentry
        exact ha
    | unknownLetter => cases hentry
  · exact fun h => ⟨_, h, rfl⟩

theorem said_eq_nil_iff : said p.name arg = [] ↔ ∀ text, ¬ p.Says arg text := by
  simp only [List.eq_nil_iff_forall_not_mem, mem_said_iff]

theorem said_of_isPosition (h : IsPosition arg) (name : String) : said name arg = [] := by
  rw [said, optional_of_isPosition h]
  rfl

/-- Arguments that say nothing about a parameter. -/
theorem flatMap_said_eq_nil_iff {args : List String} :
    args.flatMap (said p.name) = [] ↔ ∀ arg ∈ args, ∀ text, ¬ p.Says arg text := by
  simp only [List.flatMap_eq_nil_iff, said_eq_nil_iff]

/-- The last argument that says something about a parameter counts. -/
theorem getLast?_flatMap_said {before after : List String} (h : p.Says arg text)
    (hlast : ∀ arg ∈ after, ∀ text, ¬ p.Says arg text) :
    ((before ++ arg :: after).flatMap (said p.name)).getLast? = some text := by
  have hmem := mem_said_iff.mpr h
  have hsaid : (said p.name arg).getLast? = some text := by
    rw [List.getLast?_eq_getLast_of_ne_nil (List.ne_nil_of_mem hmem)]
    exact congrArg some (says_unique (mem_said_iff.mp (List.getLast_mem _)) h)
  rw [List.flatMap_append, List.flatMap_cons, flatMap_said_eq_nil_iff.mpr hlast, List.append_nil,
    List.getLast?_append, hsaid, Option.some_or]

/-! ## Command lines -/

/-- Behind `--` there are positions only. -/
theorem under_option_positions (name : String) (count : Nat) (texts : List String) :
    Table.under (.option name) ((ofTexts.positions count texts).filterMap entry?) = [] := by
  induction texts generalizing count with
  | nil => rfl
  | cons text rest ih => exact ih (count + 1)

theorem front_separator (rest : List String) : front ("--" :: rest) = [] := rfl

theorem front_cons (h : arg ≠ "--") (rest : List String) :
    front (arg :: rest) = arg :: front rest :=
  List.takeWhile_cons_of_pos (by simpa using h)

theorem positional_separator (rest : List String) : positional ("--" :: rest) = rest := rfl

theorem positional_cons (h : arg ≠ "--") (rest : List String) :
    positional (arg :: rest) =
      if IsPosition arg then arg :: positional rest else positional rest := by
  unfold positional
  rw [front_cons h, List.dropWhile_cons_of_pos (by simpa using h)]
  by_cases hposition : IsPosition arg
  · rw [if_pos hposition, List.filter_cons_of_pos (by simpa using hposition), List.cons_append]
  · rw [if_neg hposition, List.filter_cons_of_neg (by simpa using hposition)]

theorem front_append (before rest : List String) :
    front (before ++ rest) = if "--" ∈ before then front before else before ++ front rest := by
  induction before with
  | nil => rfl
  | cons arg before ih =>
      rw [List.cons_append]
      by_cases harg : arg = "--"
      · subst harg
        rw [front_separator, front_separator, if_pos List.mem_cons_self]
      · rw [front_cons harg, front_cons harg, ih]
        simp only [List.mem_cons, Ne.symm harg, false_or]
        split <;> rfl

theorem positional_append (before rest : List String) :
    positional (before ++ rest) =
      positional before ++ if "--" ∈ before then rest else positional rest := by
  induction before with
  | nil => rfl
  | cons arg before ih =>
      rw [List.cons_append]
      by_cases harg : arg = "--"
      · subst harg
        rw [positional_separator, positional_separator, if_pos List.mem_cons_self]
      · rw [positional_cons harg, positional_cons harg, ih]
        simp only [List.mem_cons, Ne.symm harg, false_or]
        split <;> rfl

/-- What a command line says about an option. -/
theorem under_option_ofTexts (name : String) (count : Nat) (texts : List String) :
    Table.under (.option name) ((ofTexts count texts).filterMap entry?) =
      (front texts).flatMap (said name) := by
  induction texts generalizing count with
  | nil => rfl
  | cons text rest ih =>
      by_cases htext : text = "--"
      · subst htext
        exact under_option_positions name count rest
      · rw [ofTexts_cons htext, front_cons htext, List.flatMap_cons]
        by_cases hposition : IsPosition text
        · rw [if_pos hposition, said_of_isPosition hposition, ← ih (count + 1)]
          rfl
        · rw [if_neg hposition, List.filterMap_append, Table.under_append, ih count]
          rfl

/-- An option is not read as a position. -/
theorem under_position_optional (index : Nat) (arg : String) :
    Table.under (.position index) ((optional arg).filterMap entry?) = [] := by
  refine Table.under_eq_nil fun e he => ?_
  obtain ⟨a, ha, hentry⟩ := List.mem_filterMap.mp he
  unfold optional at ha
  split at ha
  · split at ha
    · cases ha
    · cases List.mem_singleton.mp ha
      cases hentry
      exact fun h => (nomatch h)
  · obtain ⟨c, -, rfl⟩ := List.mem_map.mp ha
    unfold ofLetter at hentry
    split at hentry
    · cases hentry
      exact fun h => (nomatch h)
    · cases hentry
  · cases ha

/-- Positions are counted upwards. -/
theorem under_position_of_lt {index count : Nat} (h : index < count) (texts : List String) :
    Table.under (.position index) ((ofTexts.positions count texts).filterMap entry?) = [] ∧
      Table.under (.position index) ((ofTexts count texts).filterMap entry?) = [] := by
  have hne (count : Nat) (h : index < count) : Subject.position count ≠ .position index :=
    fun heq => Nat.ne_of_gt h (Subject.position.inj heq)
  induction texts generalizing count with
  | nil => exact ⟨rfl, rfl⟩
  | cons text rest ih =>
      have hbehind := ih (Nat.lt_succ_of_lt h)
      refine ⟨(Table.under_cons_ne (hne count h) _).trans hbehind.1, ?_⟩
      by_cases htext : text = "--"
      · subst htext
        exact (ih h).1
      · rw [ofTexts_cons htext]
        split
        · exact (Table.under_cons_ne (hne count h) _).trans hbehind.2
        · rw [List.filterMap_append, Table.under_append, under_position_optional, (ih h).2]
          rfl

/-- The first position of a command line. -/
theorem under_position_ofTexts (count : Nat) (texts : List String) :
    Table.under (.position count) ((ofTexts count texts).filterMap entry?) =
      (positional texts).head?.toList := by
  induction texts with
  | nil => rfl
  | cons text rest ih =>
      by_cases htext : text = "--"
      · subst htext
        rw [positional_separator]
        cases rest with
        | nil => rfl
        | cons text rest =>
            have hbehind := (under_position_of_lt (Nat.lt_succ_self count) rest).1
            exact (Table.under_cons_self _ _ _).trans (congrArg (text :: ·) hbehind)
      · rw [ofTexts_cons htext, positional_cons htext]
        split
        · have hbehind := (under_position_of_lt (Nat.lt_succ_self count) rest).2
          exact (Table.under_cons_self _ _ _).trans (congrArg (text :: ·) hbehind)
        · rw [List.filterMap_append, Table.under_append, under_position_optional, ih]
          rfl

end Argument

namespace CommandLine

open Argument

/-- The last text that a command line gives an option. -/
theorem get?_option (name : String) (texts : List String) :
    (ofArguments (ofTexts 0 texts)).get? (.option name) =
      ((front texts).flatMap (said name)).getLast? := by
  rw [ofArguments, Table.get?_setAll, under_option_ofTexts, Table.get?_empty, Option.or_none]

/-- The program is the first position. -/
theorem get?_position (texts : List String) :
    (ofArguments (ofTexts 0 texts)).get? (.position 0) = (positional texts).head? := by
  rw [ofArguments, Table.get?_setAll, under_position_ofTexts, Table.get?_empty, Option.or_none]
  cases (positional texts).head? <;> rfl

theorem distinct_ofArguments (args : List Argument) : (ofArguments args).Distinct :=
  Table.distinct_empty.setAll _

end CommandLine

end LineBasic
