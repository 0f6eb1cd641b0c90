/-
The program.

It takes a picture of the files below the current directory and of the user's settings, does on it what the
command line says, and then writes what was changed. Programs are not executed here: their code is written to
the standard output.
-/
import ScriptWorkbench.CommandLine.Run
import ScriptWorkbench.Repl
import Std.Time.Zoned

namespace ScriptWorkbench.Main

/-! ## Files -/

partial def gather (fs : Files) (e : IO.FS.DirEntry) : IO Files := do
  let names := Path.splitNames e.path.toString
  match (← e.path.symlinkMetadata).type with
  | .dir => (← e.path.readDir).foldlM gather (fs.install names .directory)
  | .file =>
    let bytes ← IO.FS.readBinFile e.path
    return fs.install names (.file (.bytes bytes.toList))
  | _ => return fs

def picture : IO Files := do
  let here ← IO.currentDir
  let home := (← IO.getEnv "HOME").getD "/"
  let cwd := Path.splitNames here.toString
  let mut fs : Files := ⟨[], cwd, Path.splitNames home, false⟩
  fs := fs.install cwd .directory
  for e in ← here.readDir do
    fs ← gather fs e
  for e in ← (← IO.FS.realPath home).readDir do
    if e.fileName == ".opn" then fs ← gather fs e
  return fs

/-- Write the directories and texts that a picture has more than an older one. Texts are always new:
files that were read are kept as bytes. -/
def writeBack (old new : Files) : IO Unit := do
  for (names, entry) in new.entries do
    let path := "/" ++ "/".intercalate names
    match entry with
    | .directory => if (old.entry? names).isNone then IO.FS.createDirAll path
    | .file (.text s) => IO.FS.writeFile path s
    | .file (.bytes _) => pure ()

/-! ## Time -/

def padded (width : Nat) (n : Nat) : String :=
  let digits := Nat.toDigits 10 n
  String.ofList (List.replicate (width - digits.length) '0' ++ digits)

def timeNow : IO String := do
  let t ← Std.Time.PlainDateTime.now
  let part (width : Nat) (n : Int) := padded width n.toNat
  return part 4 t.year.toInt ++ "-" ++ part 2 t.month.toNat ++ "-" ++ part 2 t.day.toNat ++ "T" ++
    part 2 t.hour.toInt ++ ":" ++ part 2 t.minute.toInt ++ ":" ++ part 2 t.second.toInt ++ "." ++
    part 6 (t.nanosecond.toInt / 1000)

/-! ## Dialogue -/

def showSince (old new : Repl.State) : IO Unit := do
  IO.print (String.ofList (new.printed.toList.drop old.printed.length))
  IO.eprint (String.ofList (new.reported.toList.drop old.reported.length))
  for e in new.executions.drop old.executions.length do IO.println e.code

partial def converse (w : Repl.Surroundings) (s : Repl.State) : IO UInt32 := do
  IO.print s.nextPrompt.text
  (← IO.getStdout).flush
  let line ← (← IO.getStdin).getLine
  if line.isEmpty then
    IO.print Repl.farewell
    return 0
  let (next, after) := Repl.enter w s.prompt (Text.replaceAll line "\n" "")
  showSince s after
  match next with
  | .continue => converse w after
  | .leave => return 0
  | .breakDown _ => return 1

def dialogue (fs : Files) : IO UInt32 := do
  IO.print Repl.welcome
  converse ⟨fs, "python", [], fun _ => none, fun _ => none⟩ .initial

/-! ## Commands -/

def carryOut (words : List String) : IO UInt32 := do
  let fs ← picture
  let input ← if words.contains "-" then (← IO.getStdin).readToEnd else pure ""
  let surroundings : CommandLine.Surroundings := ⟨← timeNow, input, fun _ => none, none⟩
  let (outcome, world) := CommandLine.runLine surroundings words (.ofFiles fs)
  IO.print world.printed
  IO.eprint world.reported
  for e in world.executions do IO.println e.code
  writeBack fs world.files
  match outcome with
  | .code n => if world.dialogue then dialogue world.files else return n.toUInt32
  | .refused .help => return 0
  | .refused (.usage program error) =>
    IO.eprintln (CommandLine.usageLine program error)
    return 2
  | .crashed crash =>
    IO.eprintln crash.message
    return 1

end ScriptWorkbench.Main

def main (words : List String) : IO UInt32 :=
  ScriptWorkbench.Main.carryOut words
