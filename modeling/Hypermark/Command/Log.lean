import Hypermark.Notice
import Hypermark.Options.Value
import Hypermark.Text.Case

/-!
Log records: how urgent they are, which are shown, and how they are written.

* `Settings.shows_iff`: a record is shown if it is at least as urgent as the level in force.
-/

namespace Hypermark.Log

/-! ## Levels -/

inductive Level where
  | debug
  | info
  | warning
deriving DecidableEq, Repr

def Level.number : Level → Int
  | debug => 10
  | info => 20
  | warning => 30

def Level.name : Level → Text
  | debug => "DEBUG".toList
  | info => "INFO".toList
  | warning => "WARNING".toList

/-- The numbers of the level names. -/
def levelNumbers : List (Text × Int) :=
  [("CRITICAL", 50), ("FATAL", 50), ("ERROR", 40), ("WARNING", 30), ("WARN", 30), ("INFO", 20),
    ("DEBUG", 10), ("NOTSET", 0)].map fun e => (e.1.toList, e.2)

/-- The level that holds where none is set. -/
def standardLevel : Int := 30

/-- The level that a value stands for: a number or truth value stands for itself, a text for the
level of that name, and anything else for `fallback`. -/
def resolve (value fallback : Value) : Value :=
  match value with
  | .int n => .int n
  | .bool b => .bool b
  | .text t =>
    match levelNumbers.lookup (Text.upper (Text.trim t)) with
    | some n => .int n
    | none => fallback
  | _ => fallback

/-- The least number of a record that is shown when `level` is set; zero sets nothing. -/
def threshold (level : Int) : Int := if level = 0 then standardLevel else level

/-! ## Records -/

/-- The name of the program, as its records give it. -/
def programName : Text := "llmdocs".toList

structure Record where
  level : Level
  topic : Text
  message : Text
deriving Repr

def ofNotice (n : Notice) : Record := ⟨.debug, n.topic, n.message⟩

/-- How records are written. -/
inductive Format where
  | plain
  /-- With time and topic. -/
  | traced
deriving DecidableEq, Repr

/-- The pattern that a format goes by. -/
def Format.pattern : Format → Text
  | plain => "%(levelname)s: %(message)s".toList
  | traced => "[%(asctime)s] [%(levelname)s] [%(name)s] %(message)s".toList

/-- The pattern of the time in a format. -/
def Format.timePattern? : Format → Option Text
  | plain => none
  | traced => some "%Y-%m-%d %H:%M:%S".toList

/-- A record as a line, `time` being the time now. -/
def Format.line (format : Format) (time : Text) (r : Record) : Text :=
  match format with
  | plain => r.level.name ++ ": ".toList ++ r.message ++ ['\n']
  | traced =>
    '[' :: time ++ "] [".toList ++ r.level.name ++ "] [".toList ++ r.topic ++ "] ".toList ++
      r.message ++ ['\n']

/-- What is set up for logging. -/
structure Settings where
  level : Int
  format : Format
deriving Repr

def Settings.shows (s : Settings) (r : Record) : Bool := threshold s.level ≤ r.level.number

/-- The settings for a level and a choice of format; the level is a number or a name. -/
def configure (level : Value) (traced : Bool) : Settings :=
  ⟨((resolve level (.int standardLevel)).floor?).getD standardLevel,
    if traced then .traced else .plain⟩

/-! ## Lemmas -/

theorem Settings.shows_iff (s : Settings) (r : Record) :
    s.shows r = true ↔ threshold s.level ≤ r.level.number := by
  simp [Settings.shows]

end Hypermark.Log
