import Hypermark.Command.Arguments
import Hypermark.Command.Files
import Hypermark.Convert
import Hypermark.Text.Lines

/-!
A run of the program, from its settings to its exit code.

The stages come in this order: logging is set up, the options are checked, the input is read,
converted and written.  The first failure ends the run with its message and exit code.  Log records
go to the error output, which takes all of them, and to the log file at the time they arise.

The files are in a store.  What else a run meets is in its `Surroundings`, and all of it may fail.

* `Session.exit_finish`, `Session.exit_failWith_ne_zero`: the exit code tells whether a stage failed.
-/

namespace Hypermark.Command

/-- What a run meets beside the files.  Where something fails, the system says why. -/
structure Surroundings where
  /-- The text on standard input. -/
  stdin : Except Text Text
  /-- A path that can name no file at all. -/
  pathFault : Text → Option Text
  /-- A text that has no bytes in a file. -/
  encodeFault : Text → Option Text
  /-- A text that standard output does not take, but for that many characters at its start. -/
  stdoutFault : Text → Option (Nat × Text)

namespace Surroundings

/-- Everything works; only a null character cannot stand in a path. -/
def working (stdin : Text) : Surroundings where
  stdin := .ok stdin
  pathFault path := if path.contains '\x00' then some "embedded null byte".toList else none
  encodeFault _ := none
  stdoutFault _ := none

/-- What a file holds after a text was written to it, nothing if the text has no bytes. -/
def written (around : Surroundings) (text : Text) : List UInt8 :=
  match around.encodeFault text with
  | none => Text.encodeUtf8 text
  | some _ => []

end Surroundings

/-- What a run works on and what it has put out so far. -/
structure Session where
  store : FileStore
  around : Surroundings
  /-- The time that log records show. -/
  time : Text
  logging : Log.Settings
  /-- The file that log records are added to, by the parts of its full path. -/
  logFile : Option (List Text)
  stdout : Text
  stderr : Text

/-- What a run leaves behind. -/
structure Outcome where
  exit : Nat
  stdout : Text
  stderr : Text
  store : FileStore

/-- The text of an input: of standard input as it is, of a file by its bytes, line breaks unified. -/
def inputText (store : FileStore) (around : Surroundings) (input : Text) : Except Fault Text :=
  if input = standardInput then around.stdin.mapError .system
  else
    let path := FileStore.tidy input
    match around.pathFault path with
    | some message => .error (.system message)
    | none =>
      match store.read path with
      | .ok content => .ok (Text.unifyBreaks (Text.decodeUtf8 content))
      | .error problem => .error (.unreadable path problem)

namespace Session

/-! ## Logging -/

/-- Adds a record to the log file, if there is one; a record that cannot be added is dropped. -/
def logToFile (s : Session) (line : Text) : Session :=
  match s.logFile with
  | none => s
  | some parts =>
    match s.around.encodeFault line with
    | none =>
      match s.store.append parts (Text.encodeUtf8 line) with
      | .ok store => { s with store := store }
      | .error _ => s
    | some _ => s

/-- Logs a record if the level in force shows it. -/
def log (s : Session) (r : Log.Record) : Session :=
  if s.logging.shows r then
    let line := s.logging.format.line s.time r
    { s with stderr := s.stderr ++ line }.logToFile line
  else s

def logAll (s : Session) (rs : List Log.Record) : Session := rs.foldl log s

/-- A problem as the system words it. -/
def problemText (problem : FileProblem) : Text :=
  "[Errno ".toList ++ Text.ofNat problem.number ++ "] ".toList ++ problem.message

/-- Opens the log file; a run goes on without one that cannot be opened. -/
def openLog (s : Session) (path : Text) : Session :=
  let parts := s.store.fullParts path
  match s.store.append parts [] with
  | .ok store =>
    { s with store := store, logFile := some parts }.log
      ⟨.debug, Log.programName, "Logging to file: ".toList ++ path⟩
  | .error problem =>
    s.log ⟨.warning, Log.programName,
      "Could not create log file ".toList ++ path ++ ": ".toList ++ problemText problem ++
        ": ".toList ++ Text.quoted (s.store.fullPath path)⟩

/-- A session before anything is logged. -/
def fresh (settings : Settings) (store : FileStore) (around : Surroundings) (time : Text) :
    Session :=
  let level : Value := if settings.trace then .int 10 else .text settings.logLevel
  ⟨store, around, time, Log.configure level settings.trace, none, [], []⟩

/-- A session with logging set up as the settings ask for it. -/
def start (settings : Settings) (store : FileStore) (around : Surroundings) (time : Text) :
    Session :=
  let session := fresh settings store around time
  match settings.logFile with
  | some path => if path.isEmpty then session else session.openLog path
  | none => session

/-! ## Stages -/

def topic : Text := "llmdocs.cli".toList

/-- A document as it is put out: with a line break at its end, unless it is empty. -/
def withLineBreak (document : Text) : Text :=
  if document.isEmpty then [] else document ++ ['\n']

/-- Puts the output where it belongs, and tells what went wrong.  A file is opened, and so emptied,
before the output is put into bytes. -/
def writeOutput (s : Session) (out : Option Text) (output : Text) : Session × Option Fault :=
  match out with
  | none =>
    match s.around.stdoutFault output with
    | none => ({ s with stdout := s.stdout ++ output }, none)
    | some (taken, message) =>
      ({ s with stdout := s.stdout ++ output.take taken }, some (.system message))
  | some path =>
    let path := FileStore.tidy path
    match s.around.pathFault path with
    | some message => (s, some (.system message))
    | none =>
      match s.store.write path (s.around.written output) with
      | .error problem => (s, some (.unwritable path problem))
      | .ok store =>
        let s := { s with store := store }
        match s.around.encodeFault output with
        | some message => (s, some (.system message))
        | none =>
          (s.log ⟨.info, topic,
            "Wrote ".toList ++ Text.ofNat output.length ++ " characters to ".toList ++ path⟩, none)

/-- The options that the settings ask for. -/
def options (settings : Settings) : Except Fault Options :=
  (OptionRecord.standard.set "html_parser".toList (.text settings.parser)
    |>.set "detect_code_language".toList (.bool settings.detectLanguage)).check

/-! ## The run -/

/-- Ends a run without failure. -/
def finish (s : Session) : Outcome := ⟨0, s.stdout, s.stderr, s.store⟩

/-- The fault has no place among the expected ones. -/
def isUnexpected (fault : Fault) : Bool := !fault.failure.isOwn

/-- Ends a run with a fault. -/
def failWith (s : Session) (fault : Fault) : Outcome :=
  let s :=
    if isUnexpected fault then s.log ⟨.debug, topic, "Unexpected failure".toList⟩ else s
  ⟨fault.failure.exitCode, s.stdout,
    s.stderr ++ "Error: ".toList ++ fault.message ++ ['\n'], s.store⟩

/-- Converts the input and writes the result, with logging set up. -/
def process (s : Session) (plugins : Plugins) (settings : Settings) : Outcome :=
  match options settings with
  | .error fault => s.failWith fault
  | .ok opts =>
    match inputText s.store s.around settings.input with
    | .error fault => s.failWith fault
    | .ok text =>
      let s := s.log ⟨.debug, topic,
        "Read ".toList ++ Text.ofNat text.length ++ " characters from ".toList ++ settings.input⟩
      let result := plugins.convert opts text
      let s := s.logAll (result.log.map Log.ofNotice)
      match result.outcome with
      | .error fault => s.failWith fault
      | .ok document =>
        match s.writeOutput settings.out (withLineBreak document) with
        | (s, some fault) => s.failWith fault
        | (s, none) => s.finish

end Session

/-- Runs with the given settings. -/
def run (plugins : Plugins) (settings : Settings) (store : FileStore) (around : Surroundings)
    (time : Text) : Outcome :=
  (Session.start settings store around time).process plugins settings

/-! ## Other requests -/

def versionText : Text := "llmdocs 0.1.0\n".toList

def usageText : Text :=
  ("usage: llmdocs [-h] [--out PATH] [--html-parser HTML_PARSER] [--log-level LEVEL]\n" ++
    "               [--log-file PATH] [--trace] [--no-code-language] [--version]\n" ++
    "               [input]\n").toList

/-- Does what a command line asks for, with the parsers that are installed. -/
def performWith (plugins : Plugins) (request : Request) (store : FileStore)
    (around : Surroundings) (time : Text) : Outcome :=
  match request with
  | .run settings => run plugins settings store around time
  | .showVersion => ⟨0, versionText, [], store⟩
  | .showHelp => ⟨0, usageText, [], store⟩

/-- Does what a command line asks for, with the built-in parser alone and where everything works. -/
def perform (request : Request) (store : FileStore) (stdin time : Text) : Outcome :=
  performWith Plugins.none request store (.working stdin) time

/-! ## Lemmas -/

theorem Session.exit_finish (s : Session) : s.finish.exit = 0 := rfl

theorem Session.exit_failWith (s : Session) (fault : Fault) :
    (s.failWith fault).exit = fault.failure.exitCode := rfl

theorem Session.exit_failWith_ne_zero (s : Session) (fault : Fault) :
    (s.failWith fault).exit ≠ 0 := by
  cases fault <;> simp [Session.exit_failWith, Fault.failure, Failure.exitCode]

end Hypermark.Command
