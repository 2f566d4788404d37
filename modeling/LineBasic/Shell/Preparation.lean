import LineBasic.Settings.Choice
import LineBasic.Settings.Ini
import LineBasic.Shell.Dialogue
import LineBasic.Text.Encoding

/-!
# Finding the settings and opening the log

Before anything else the settings are found: the command line names a configuration file, or the
file of the user is taken if there is one. Notes made meanwhile are kept back until it is known
where they go.
-/

namespace LineBasic

/-- Where notes go: whether debugging notes are kept, and the file they go to, which without a name
is the standard error. -/
structure LogSink where
  debug : Bool
  file : String

/-- Make a note. -/
def LogSink.write (sink : LogSink) (entry : LogEntry) : Dialogue Unit :=
  if entry.isKept sink.debug then
    let line := entry.text ++ "\n"
    if sink.file = "" then .request (.printError line) else .request (.extendFile sink.file line)
  else pure ()

namespace Shell

/-- The section of a configuration file that the settings come from. -/
def configurationSection : String := "pocketbasic"

/-- The place of the configuration file of a user, below the directory of all their configurations.
-/
def userConfiguration : String := "pocketbasic/pocketbasic.ini"

/-- The note on a configuration file that cannot be read. -/
def unreadable (name : String) : LogEntry :=
  ⟨.warning, s!"Error in configuration file `{name}`. Configuration not loaded."⟩

/-- Read the options in a configuration file. A file that cannot be read gives none. -/
def readConfiguration (name : String) : Talk (List LogEntry × Table String String) := do
  match ← Talk.ask (.fileContent name) with
  | .error .nulInFileName => throw .nulInFileName
  | .error _ => pure ([unreadable name], .empty)
  | .ok bytes =>
      match Ini.read (Text.unifyBreaks (Text.ofMarkedUtf8 bytes)) with
      | .ok file => pure ([], file.options configurationSection)
      | .error .malformed => pure ([unreadable name], .empty)
      | .error .danglingLine => throw .danglingLine

/-- The name of the configuration file: the one on the command line, which may be empty, or that of
the user if it is there. -/
def configurationName (userFile : String) (line : CommandLine) : Talk String :=
  match line.get? (.option Parameter.config.name) with
  | some name => pure name
  | none => do
      if ← Talk.ask (.exists userFile) then pure userFile else pure ""

/-- The options in the configuration file, if there is one. -/
def configuration (userFile : String) (line : CommandLine) :
    Talk (List LogEntry × Table String String) := do
  let name ← configurationName userFile line
  if name = "" then pure ([], .empty) else readConfiguration name

/-- Find the settings, and what there is to note about them. -/
def findSettings (userFile : String) (texts : List String) : Talk (List LogEntry × Settings) := do
  let args := Argument.ofTexts 0 texts
  let line := CommandLine.ofArguments args
  let (log, options) ← configuration userFile line
  let notes := CommandLine.complaints args ++ log ++ Settings.complaints options line
  pure (notes, Settings.ofSources options line)

/-- Open the log that the settings ask for. -/
def openLog (settings : Settings) : Talk LogSink := do
  let sink : LogSink := ⟨settings.flag .debug, settings.text .logfile⟩
  if sink.file = "" then pure sink
  else
    Talk.attempt (.startFile sink.file)
    pure sink

/-- Make several notes. -/
def noteAll (sink : LogSink) (entries : List LogEntry) : Dialogue Unit :=
  entries.forM sink.write

/-- Find the settings, open the log, and make the notes that were kept back. -/
def prepare (userFile : String) (texts : List String) : Talk (Settings × LogSink) := do
  let (notes, settings) ← findSettings userFile texts
  let sink ← openLog settings
  noteAll sink notes
  pure (settings, sink)

end Shell

end LineBasic
