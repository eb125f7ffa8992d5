import Hypermark.Command.Run
import Std.Time

/-!
The program: the command line, the files it names and standard input go into a run, and what the run
leaves behind goes out.
-/

namespace Hypermark

open Command

/-- A file with this content, barred if it may not be written. -/
def fileAt (path : String) (content : List UInt8) : IO FileEntry := do
  try
    discard (IO.FS.Handle.mk path .append)
    return .file content
  catch
    | .permissionDenied _ number description =>
      return .barred (some content) (.other number.toNat description.toList)
    | e => throw e

/-- What is at a path, if anything. -/
def entryAt? (path : String) : IO (Option FileEntry) := do
  try
    let bytes ← IO.FS.readBinFile path
    return some (← fileAt path bytes.toList)
  catch
    | .noFileOrDirectory .. => return none
    | .inappropriateType .. => return some .directory
    | .permissionDenied _ number description =>
      return some (.barred none (.other number.toNat description.toList))
    | e => throw e

/-- The beginnings of a path, each of which may be a directory. -/
def ancestors (parts : List Text) : List (List Text) :=
  (List.range (parts.length + 1)).map parts.take

/-- The store of the files that a run may touch. -/
def snapshot (workingDirectory : Text) (paths : List Text) : IO FileStore := do
  let store : FileStore := ⟨workingDirectory, []⟩
  let full := paths.flatMap fun path => ancestors (store.fullParts path)
  let direct := paths.flatMap fun path => ancestors (FileStore.partsOf (store.whole path))
  let mut entries := []
  for parts in full ++ direct do
    unless parts.isEmpty || (entries.lookup parts).isSome do
      let path := String.ofList ('/' :: ['/'].intercalate parts)
      if let some entry ← entryAt? path then entries := (parts, entry) :: entries
  return ⟨workingDirectory, entries⟩

/-- Writes the files that a run has changed. -/
def commit (before after : FileStore) : IO Unit := do
  for (parts, entry) in after.entries do
    if before.at? parts != some entry then
      if let .file content := entry then
        IO.FS.writeBinFile (String.ofList ('/' :: ['/'].intercalate parts))
          (ByteArray.mk content.toArray)

/-- The time now, to the second. -/
def timeNow : IO Text := do
  let now ← Std.Time.PlainDateTime.now
  return (now.format "yyyy-MM-dd HH:mm:ss").toList

/-- The paths that settings name. -/
def namedPaths (settings : Settings) : List Text :=
  (if settings.input = standardInput then [] else [FileStore.tidy settings.input]) ++
    (settings.out.map FileStore.tidy).toList ++ settings.logFile.toList

/-- Runs the program on its arguments. -/
def runProgram (args : List String) : IO UInt32 := do
  let parser ← IO.getEnv "LLMDOCS_HTML_PARSER"
  let logLevel ← IO.getEnv "LLMDOCS_LOG_LEVEL"
  match Command.read ⟨parser.map String.toList, logLevel.map String.toList⟩
      (args.map String.toList) with
  | .error e =>
    IO.eprint (String.ofList (usageText ++ e.line ++ ['\n']))
    return 2
  | .ok request =>
    let settings? := match request with
      | .run settings => some settings
      | _ => none
    let workingDirectory := (← IO.currentDir).toString.toList
    let store ← snapshot workingDirectory ((settings?.map namedPaths).getD [])
    let wantsInput := settings?.any fun s => s.input == standardInput
    let stdin ← if wantsInput then (← IO.getStdin).readToEnd else pure ""
    let outcome := perform request store stdin.toList (← timeNow)
    commit store outcome.store
    IO.print (String.ofList outcome.stdout)
    IO.eprint (String.ofList outcome.stderr)
    return UInt32.ofNat outcome.exit

end Hypermark

def main (args : List String) : IO UInt32 := Hypermark.runProgram args
