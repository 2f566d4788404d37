import LineBasic.Proofs.Settings.Precedence
import LineBasic.Shell.Preparation

/-!
# The settings that are found

A system is known by its answers. They decide which section the settings come from: that of the file
which the command line names, or else of the file of the user, if that file is there and can be
read. The settings that are found are those that this section and the command line make up.
-/

namespace LineBasic

/-- A system that answers every request, and the same request always alike. -/
structure System where
  answer {α : Type} (request : Request α) : α

/-- How a talk with a system ends. -/
def Talk.outcome {α : Type} (t : Talk α) (system : System) : Except HostError α :=
  t.run.perform (m := Id) system.answer

namespace Talk

variable {α β : Type} {system : System}

theorem outcome_ask (r : Request α) : (ask r).outcome system = .ok (system.answer r) := rfl

theorem outcome_bind (t : Talk α) (f : α → Talk β) :
    (t >>= f).outcome system = (t.outcome system).bind fun a => (f a).outcome system := by
  have hrun : (t >>= f).run = t.run.bind (ExceptT.bindCont f) := rfl
  rw [outcome, hrun, Dialogue.perform_bind, ← outcome]
  cases t.outcome system with
  | ok a => rfl
  | error e => rfl

/-- A talk that ends well does so in all its parts. -/
theorem exists_of_outcome_bind {t : Talk α} {f : α → Talk β} {b : β}
    (h : (t >>= f).outcome system = .ok b) :
    ∃ a, t.outcome system = .ok a ∧ (f a).outcome system = .ok b := by
  rw [outcome_bind] at h
  cases ht : t.outcome system with
  | ok a =>
      rw [ht] at h
      exact ⟨a, rfl, h⟩
  | error e =>
      rw [ht] at h
      cases h

end Talk

namespace Shell

open Argument

/-- The name of the configuration file: the last one on the command line, which may be empty, or
that of the user if it is there. -/
def configurationFile (system : System) (userFile : String) (texts : List String) : String :=
  ((front texts).flatMap (said Parameter.config.name)).getLast?.getD
    (if system.answer (.exists userFile) then userFile else "")

/-- The options of the section in a configuration file. There are none if there is no file or if it
cannot be read. -/
def optionsIn (system : System) (name : String) : Table String String :=
  if name = "" then .empty
  else
    match system.answer (.fileContent name) with
    | .error _ => .empty
    | .ok bytes =>
        match Ini.read (Text.unifyBreaks (Text.ofMarkedUtf8 bytes)) with
        | .error _ => .empty
        | .ok f => f.options configurationSection

variable {system : System} {userFile : String} {texts : List String}

theorem distinct_optionsIn (system : System) (name : String) :
    (optionsIn system name).Distinct := by
  unfold optionsIn
  split
  · exact Table.distinct_empty
  · split
    · exact Table.distinct_empty
    · split
      · exact Table.distinct_empty
      · exact Ini.distinct_options ‹_› _

theorem outcome_configurationName :
    (configurationName userFile (CommandLine.ofArguments (Argument.ofTexts 0 texts))).outcome
      system = .ok (configurationFile system userFile texts) := by
  rw [configurationName, CommandLine.get?_option, configurationFile]
  cases ((front texts).flatMap (said Parameter.config.name)).getLast? with
  | some name => rfl
  | none =>
      dsimp only
      rw [Talk.outcome_bind, Talk.outcome_ask]
      cases system.answer (.exists userFile) <;> rfl

theorem options_of_readConfiguration {name : String} {log : List LogEntry}
    {options : Table String String} (hname : name ≠ "")
    (h : (readConfiguration name).outcome system = .ok (log, options)) :
    options = optionsIn system name := by
  obtain ⟨content, hcontent, h⟩ := Talk.exists_of_outcome_bind h
  have hanswer : system.answer (.fileContent name) = content := Except.ok.inj hcontent
  rw [optionsIn, if_neg hname, hanswer]
  cases content with
  | error e => cases e <;> cases h <;> rfl
  | ok bytes =>
      dsimp only at h ⊢
      cases hread : Ini.read (Text.unifyBreaks (Text.ofMarkedUtf8 bytes)) with
      | ok f =>
          rw [hread] at h
          cases h
          rfl
      | error e =>
          rw [hread] at h
          cases e with
          | malformed =>
              cases h
              rfl
          | danglingLine => cases h

theorem options_of_configuration {log : List LogEntry} {options : Table String String}
    (h : (configuration userFile (CommandLine.ofArguments (Argument.ofTexts 0 texts))).outcome
      system = .ok (log, options)) :
    options = optionsIn system (configurationFile system userFile texts) := by
  obtain ⟨name, hname, h⟩ := Talk.exists_of_outcome_bind h
  rw [outcome_configurationName] at hname
  cases hname
  split at h
  case isTrue hempty =>
    cases h
    rw [optionsIn, if_pos hempty]
  case isFalse hne => exact options_of_readConfiguration hne h

/-- The settings that are found are made up of the command line and the section in the configuration
file. For every parameter but the name of that file, the setting is what the last argument spells
that says something about it, or else what the section gives for it. -/
theorem settings_found {notes : List LogEntry} {s : Settings}
    (h : (findSettings userFile texts).outcome system = .ok (notes, s)) :
    let options := optionsIn system (configurationFile system userFile texts)
    s = Settings.ofTexts options texts ∧ ∀ p, p ≠ .config →
      s.Follows p (((front texts).flatMap (said p.name)).getLast?.or (options.get? p.name)) := by
  obtain ⟨⟨log, options⟩, hconfiguration, h⟩ := Talk.exists_of_outcome_bind h
  cases h
  have hoptions := options_of_configuration hconfiguration
  have hdistinct : options.Distinct := hoptions ▸ distinct_optionsIn _ _
  rw [← hoptions]
  refine ⟨rfl, fun p hp => ?_⟩
  have hgiven := Settings.get?_given hdistinct texts p
  rw [if_neg hp] at hgiven
  exact hgiven ▸ Settings.follows_given _ p

end Shell

end LineBasic
