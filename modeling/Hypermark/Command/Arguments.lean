import Hypermark.Command.Log
import Hypermark.Options.Record

/-!
The command line.

Every argument is first told to be an option, a plain argument or the separator `--`, after which all
are plain.  Then they are taken in order: an option takes the value attached to it or the next plain
argument, and the first plain argument left is the input.

* `classify_plain`: an argument that does not start with a hyphen is plain.
-/

namespace Hypermark.Command

/-! ## Options -/

inductive Switch where
  | help
  | out
  | parser
  | logLevel
  | logFile
  | trace
  | noCodeLanguage
  | version
deriving DecidableEq, Repr

namespace Switch

/-- The spellings of all options, in the order in which messages list them. -/
def spellings : List (Text × Switch) :=
  [("-h", help), ("--help", help), ("--out", out), ("-o", out), ("--html-parser", parser),
    ("--log-level", logLevel), ("--log-file", logFile), ("--trace", trace),
    ("--no-code-language", noCodeLanguage), ("--version", version)].map
    fun e => (e.1.toList, e.2)

/-- The option takes a value. -/
def takesValue : Switch → Bool
  | out | parser | logLevel | logFile => true
  | _ => false

/-- All spellings of an option. -/
def label (s : Switch) : Text :=
  ['/'].intercalate ((spellings.filter (·.2 == s)).map Prod.fst)

end Switch

/-- Why a command line is refused. -/
inductive UsageError where
  | ambiguous (argument : Text) (spellings : List Text)
  | missingValue (option : Switch)
  | ignoredValue (option : Switch) (value : Text)
  | invalidLevel (value : Text)
  | unrecognized (arguments : List Text)
deriving DecidableEq, Repr

/-- The levels that may be asked for. -/
def levelChoices : List Text :=
  ["DEBUG".toList, "INFO".toList, "WARNING".toList, "ERROR".toList, "CRITICAL".toList]

namespace UsageError

def message : UsageError → Text
  | ambiguous argument spellings =>
    "ambiguous option: ".toList ++ argument ++ " could match ".toList ++
      [',', ' '].intercalate spellings
  | missingValue option =>
    "argument ".toList ++ option.label ++ ": expected one argument".toList
  | ignoredValue option value =>
    "argument ".toList ++ option.label ++ ": ignored explicit argument ".toList ++
      Text.quoted value
  | invalidLevel value =>
    "argument ".toList ++ Switch.logLevel.label ++ ": invalid choice: ".toList ++
      Text.quoted value ++ " (choose from ".toList ++
      [',', ' '].intercalate (levelChoices.map Text.quoted) ++ [')']
  | unrecognized arguments =>
    "unrecognized arguments: ".toList ++ [' '].intercalate arguments

/-- The message as the program prints it. -/
def line (e : UsageError) : Text := Log.programName ++ ": error: ".toList ++ e.message

end UsageError

/-! ## Telling arguments apart -/

/-- An argument once it is told what it is. -/
inductive Word where
  | plain (t : Text)
  | separator
  | option (s : Switch) (value : Option Text)
  | unknown (t : Text)
deriving DecidableEq, Repr

/-- The argument reads as a negative number. -/
def isNegativeNumber (t : Text) : Bool :=
  let t := if t.getLast? == some '\n' then t.dropLast else t
  match t with
  | '-' :: cs =>
    let whole := cs.takeWhile fun c => (Text.digit? c).isSome
    match cs.drop whole.length with
    | [] => !whole.isEmpty
    | '.' :: fraction => !fraction.isEmpty && fraction.all fun c => (Text.digit? c).isSome
    | _ => false
  | _ => false

/-- The part before the first equals sign, and the value after it. -/
def splitValue (t : Text) : Text × Option Text :=
  let name := t.takeWhile (· != '=')
  match t.drop name.length with
  | _ :: value => (name, some value)
  | [] => (name, none)

/-- The options that an argument may mean which is not spelled out: beginnings of long spellings, and
short ones with their value right after them. -/
def candidates (t : Text) : List (Text × Switch × Option Text) :=
  if "--".toList.isPrefixOf t then
    let (name, value) := splitValue t
    Switch.spellings.filterMap fun (spelling, s) =>
      if name.isPrefixOf spelling then some (spelling, s, value) else none
  else
    Switch.spellings.filterMap fun (spelling, s) =>
      if spelling == t.take 2 then some (spelling, s, some (t.drop 2))
      else if t.isPrefixOf spelling then some (spelling, s, none)
      else none

/-- Tells what an argument is that does not come after a separator. -/
def classify (t : Text) : Except UsageError Word :=
  if t.head? != some '-' then .ok (.plain t)
  else
    match Switch.spellings.lookup t with
    | some s => .ok (.option s none)
    | none =>
      if t.length = 1 then .ok (.plain t)
      else
        match splitValue t with
        | (name, some value) =>
          match Switch.spellings.lookup name with
          | some s => .ok (.option s (some value))
          | none => among t
        | (_, none) => among t
where
  /-- An argument that is not an option spelled out. -/
  among (t : Text) : Except UsageError Word :=
    match candidates t with
    | [(_, s, value)] => .ok (.option s value)
    | [] => .ok (if isNegativeNumber t || t.contains ' ' then .plain t else .unknown t)
    | many => .error (.ambiguous t (many.map (·.1)))

/-- Tells what each argument is. -/
def classifyAll : List Text → Except UsageError (List Word)
  | [] => .ok []
  | t :: ts =>
    if t = "--".toList then .ok (.separator :: ts.map .plain)
    else do
      let word ← classify t
      let words ← classifyAll ts
      return word :: words

/-! ## Taking arguments -/

/-- What a run is asked for. -/
structure Settings where
  input : Text
  out : Option Text
  parser : Text
  logLevel : Text
  logFile : Option Text
  trace : Bool
  detectLanguage : Bool
deriving DecidableEq, Repr

inductive Request where
  | run (settings : Settings)
  | showVersion
  | showHelp
deriving DecidableEq, Repr

/-- The input that stands for standard input. -/
def standardInput : Text := ['-']

/-- The settings as far as the arguments are taken. -/
structure Taken where
  settings : Settings
  /-- The input has been given. -/
  hasInput : Bool
  /-- Arguments that nobody wants. -/
  extras : List Text

/-- The settings with the value of an option. -/
def setValue (s : Switch) (value : Text) (settings : Settings) : Except UsageError Settings :=
  match s with
  | .out => .ok { settings with out := some value }
  | .parser => .ok { settings with parser := value }
  | .logLevel =>
    if levelChoices.contains (Text.upper value) then
      .ok { settings with logLevel := Text.upper value }
    else .error (.invalidLevel (Text.upper value))
  | .logFile => .ok { settings with logFile := some value }
  | _ => .ok settings

/-- The settings with an option that takes no value. -/
def setFlag (s : Switch) (settings : Settings) : Settings :=
  match s with
  | .trace => { settings with trace := true }
  | .noCodeLanguage => { settings with detectLanguage := false }
  | _ => settings

def Taken.setInput (taken : Taken) (t : Text) : Taken :=
  { taken with settings := { taken.settings with input := t }, hasInput := true }

def Taken.addExtra (taken : Taken) (t : Text) : Taken := { taken with extras := taken.extras ++ [t] }

/-- Takes the arguments in order.  A separator next to the input goes with it. -/
def take (taken : Taken) : List Word → Except UsageError Request
  | [] =>
    if taken.extras.isEmpty then .ok (.run taken.settings)
    else .error (.unrecognized taken.extras)
  | .plain t :: .separator :: rest =>
    if taken.hasInput then take ((taken.addExtra t).addExtra "--".toList) rest
    else take (taken.setInput t) rest
  | .plain t :: rest =>
    if taken.hasInput then take (taken.addExtra t) rest else take (taken.setInput t) rest
  | .separator :: .plain t :: rest =>
    if taken.hasInput then take ((taken.addExtra "--".toList).addExtra t) rest
    else take (taken.setInput t) rest
  | .separator :: rest =>
    if taken.hasInput then take (taken.addExtra "--".toList) rest
    else take { taken with hasInput := true } rest
  | .unknown t :: rest => take (taken.addExtra t) rest
  | .option s (some value) :: rest =>
    if s.takesValue then do take { taken with settings := (← setValue s value taken.settings) } rest
    else .error (.ignoredValue s value)
  | .option s none :: .plain value :: rest =>
    if s.takesValue then do take { taken with settings := (← setValue s value taken.settings) } rest
    else
      match s with
      | .help => .ok .showHelp
      | .version => .ok .showVersion
      | _ => take { taken with settings := setFlag s taken.settings } (.plain value :: rest)
  | .option s none :: rest =>
    if s.takesValue then .error (.missingValue s)
    else
      match s with
      | .help => .ok .showHelp
      | .version => .ok .showVersion
      | _ => take { taken with settings := setFlag s taken.settings } rest

/-! ## Environment -/

/-- The defaults that the environment may change. -/
structure Environment where
  parser : Option Text
  logLevel : Option Text

def parserVariable : Text := "LLMDOCS_HTML_PARSER".toList

def logLevelVariable : Text := "LLMDOCS_LOG_LEVEL".toList

def Environment.settings (env : Environment) : Settings where
  input := standardInput
  out := none
  parser := env.parser.getD Parser.builtin.name
  logLevel := Text.upper (env.logLevel.getD "WARNING".toList)
  logFile := none
  trace := false
  detectLanguage := true

/-- Reads a command line. -/
def read (env : Environment) (arguments : List Text) : Except UsageError Request :=
  (classifyAll arguments).bind fun words => take ⟨env.settings, false, []⟩ words

/-! ## Lemmas -/

theorem classify_plain {t : Text} (h : t.head? ≠ some '-') : classify t = .ok (.plain t) := by
  have : (t.head? != some '-') = true := by simpa using h
  simp [classify, this]

end Hypermark.Command
