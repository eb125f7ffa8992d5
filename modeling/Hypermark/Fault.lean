import Hypermark.Options.Value

/-!
What can go wrong, as causes.

A `Fault` says why a conversion, a set of options or a file was refused; its wording is in one
place, `Fault.message`.  A `Failure` is the report that reaches the user: what kind of failure it
is, and with which exit code the program ends.

* `exitCode_eq_three_iff`: exit code three is for rejected arguments only.
-/

namespace Hypermark

/-! ## Causes -/

/-- Markup that cannot be read at all. -/
inductive MarkupProblem where
  /-- A marked section without a name; the text shows where it starts. -/
  | nameExpected (context : Text)
  /-- A marked section of an unknown kind. -/
  | unknownSection (keyword : Text)
deriving DecidableEq, Repr

/-- Why a file cannot be used. -/
inductive FileProblem where
  | missing
  | isDirectory
  | notDirectory
  /-- Any other, by the number and the description that the system gives. -/
  | other (number : Nat) (description : Text)
deriving DecidableEq, Repr

inductive Fault where
  /-- A number is out of range. -/
  | oversize (size : Oversize)
  | markup (problem : MarkupProblem)
  /-- A known parser that is not installed. -/
  | parserMissing (name : Text)
  /-- A parser that nothing is known about. -/
  | parserNotFound (name : Text)
  /-- A parser that is installed refuses the text, in its own words. -/
  | refused (message : Text)
  /-- The document is not a text. -/
  | notText (value : Value)
  /-- Options are made with a name that they do not have. -/
  | unexpectedOption (name : Text)
  /-- Options are changed under names that they do not have. -/
  | unknownOptions (names : List Text)
  | invalidParser (value : Value)
  | tooFewBlankLines (value : Value)
  | fenceTooShort (value : Value)
  /-- A value that is no number stands for one. -/
  | notNumber (value : Value)
  | unreadable (path : Text) (problem : FileProblem)
  | unwritable (path : Text) (problem : FileProblem)
  /-- Something beside the files fails, in the words of the system. -/
  | system (message : Text)
deriving Repr

/-! ## Wording -/

def MarkupProblem.message : MarkupProblem → Text
  | nameExpected context => "expected name token at ".toList ++ Text.quoted context
  | unknownSection keyword =>
    "unknown status keyword ".toList ++ Text.quoted keyword ++ " in marked section".toList

def FileProblem.message : FileProblem → Text
  | missing => "No such file or directory".toList
  | isDirectory => "Is a directory".toList
  | notDirectory => "Not a directory".toList
  | other _ description => description

/-- The number by which the system knows the problem. -/
def FileProblem.number : FileProblem → Nat
  | missing => 2
  | isDirectory => 21
  | notDirectory => 20
  | other number _ => number

/-- The wording for a number with too many digits. -/
def tooManyDigits (detail : Text) : Text :=
  "Exceeds the limit (".toList ++ Text.ofNat digitLimit ++
    " digits) for integer string conversion".toList ++ detail ++
    "; use sys.set_int_max_str_digits() to increase the limit".toList

def Oversize.message : Oversize → Text
  | reading digits =>
    tooManyDigits (": value has ".toList ++ Text.ofNat digits ++ " digits".toList)
  | writing => tooManyDigits []
  | index => "cannot fit 'int' into an index-sized integer".toList

/-- A package and the versions that are needed of it, possibly any. -/
abbrev Package := Text × Text

/-- The packages that a component needs, with the command that installs them. -/
def missingPackages (component : Text) (packages : List Package) : Text :=
  if packages.isEmpty then component ++ " is missing a required dependency".toList
  else
    component ++ " requires the following packages: ".toList ++
      [',', ' '].intercalate
        (packages.map fun p => Text.apostrophe :: p.1 ++ p.2 ++ [Text.apostrophe]) ++
      "\nInstall with: pip install --upgrade ".toList ++
      [' '].intercalate
        (packages.map fun p => if p.2.isEmpty then p.1 else '"' :: p.1 ++ p.2 ++ ['"'])

def converterName : Text := "HTML to Markdown conversion".toList

def parserNames : List Text := ["html.parser".toList, "html5lib".toList, "lxml".toList]

namespace Fault

def message : Fault → Text
  | oversize size => size.message
  | markup problem =>
    ("The markup you provided was rejected by the parser. Trying a different parser or a " ++
      "different encoding may help.\n\nOriginal exception(s) from parser:\n AssertionError: ").toList
      ++ problem.message
  | parserMissing name => missingPackages converterName [(name, [])]
  | parserNotFound name =>
    "Selected html_parser not found: ".toList ++ Text.quoted name ++ ['.']
  | refused message => message
  | notText value => "HTML input must be a string, got ".toList ++ value.typeName
  | unexpectedOption name =>
    "HtmlToMarkdownOptions.__init__() got an unexpected keyword argument '".toList ++ name ++
      [Text.apostrophe]
  | unknownOptions names =>
    "Unknown option(s) for HtmlToMarkdownOptions: ".toList ++ [',', ' '].intercalate names
  | invalidParser value =>
    "html_parser must be one of ".toList ++ [',', ' '].intercalate parserNames ++
      ", got ".toList ++ value.display
  | tooFewBlankLines value => "max_blank_lines must be at least 1, got ".toList ++ value.display
  | fenceTooShort value =>
    "min_code_fence_length must be at least 3, got ".toList ++ value.display
  | notNumber value =>
    "'<' not supported between instances of '".toList ++ value.typeName ++ "' and 'int'".toList
  | unreadable _ problem => "Cannot read input file: ".toList ++ problem.message
  | unwritable _ problem => "Cannot write output file: ".toList ++ problem.message
  | system message => message

end Fault

/-! ## Reports -/

/-- A failure as it is reported. -/
inductive Failure where
  /-- A failure of this library without a closer description. -/
  | general (message : Text)
  /-- An argument or option is invalid. -/
  | argument (message : Text) (parameter : Option Text) (value : Value)
  /-- A file cannot be used. -/
  | file (message : Text) (path : Option Text)
  /-- Packages are missing. -/
  | dependency (message component : Text) (packages : List Package)
  /-- A failure from outside: a module that cannot be loaded, or anything else. -/
  | foreign (message : Text) (isMissingModule : Bool)
deriving Repr

namespace Failure

/-- The report of missing packages; the wording is generated unless one is given. -/
def ofPackages (component : Text) (packages : List Package) (wording : Option Text) : Failure :=
  dependency (wording.getD (missingPackages component packages)) component packages

def message : Failure → Text
  | general m => m
  | argument m _ _ => m
  | file m _ => m
  | dependency m _ _ => m
  | foreign m _ => m

/-- The failure is one of this library's own. -/
def isOwn : Failure → Bool
  | foreign .. => false
  | _ => true

/-- The exit code of the program after a failure. -/
def exitCode : Failure → Nat
  | general _ => 1
  | argument .. => 3
  | file .. => 4
  | dependency .. => 2
  | foreign _ isMissingModule => if isMissingModule then 2 else 1

end Failure

/-- The report of a fault. -/
def Fault.failure (fault : Fault) : Failure :=
  match fault with
  | .parserMissing name => .dependency fault.message converterName [(name, [])]
  | .parserNotFound _ => .dependency fault.message converterName []
  | .notText value => .argument fault.message (some "html".toList) value
  | .unknownOptions names => .argument fault.message names.head? .null
  | .invalidParser value => .argument fault.message (some "html_parser".toList) value
  | .tooFewBlankLines value => .argument fault.message (some "max_blank_lines".toList) value
  | .fenceTooShort value => .argument fault.message (some "min_code_fence_length".toList) value
  | .unreadable path _ => .file fault.message (some path)
  | .unwritable path _ => .file fault.message (some path)
  | .oversize _ | .markup _ | .refused _ | .unexpectedOption _ | .notNumber _ | .system _ =>
    .foreign fault.message false

/-! ## Lemmas -/

theorem Failure.exitCode_eq_three_iff (f : Failure) :
    f.exitCode = 3 ↔ ∃ message parameter value, f = .argument message parameter value := by
  cases f with
  | foreign m missing => cases missing <;> simp [Failure.exitCode]
  | _ => simp [Failure.exitCode]

theorem Fault.message_failure (fault : Fault) : fault.failure.message = fault.message := by
  unfold Fault.failure
  generalize fault.message = m
  cases fault <;> rfl

end Hypermark
