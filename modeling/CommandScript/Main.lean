import CommandScript.CommandLine
import Std.Time.DateTime.Timestamp

/-!
# The program

Runs the command line: reads files and lines, shows what the shell shows and exits with
its code.
-/

namespace CommandScript.Program

/-- More steps than can be taken. -/
def budget : Nat := Nat.pow 2 62

/-- The usual setting, with a clock that shows seconds. -/
def setting (seconds : Float) : Setting where
  lookup := .resolved
  collectFrom := some usualCollectFrom
  native native _ line :=
    if native = Interpreter.clock then .ok (.number seconds)
    else .error ⟨.nativeFailure native.name "not available", line⟩

def currentSetting : IO Setting := do
  let now ← Std.Time.Timestamp.now
  return setting (Float.ofInt now.toNanosecondsSinceUnixEpoch.val / 1000000000)

def exhausted : IO UInt32 := do
  IO.eprintln "The program does not end."
  return 1

def put (shown : Shell.Shown) : IO Unit := do
  (← IO.getStdout).putStr shown.output
  (← IO.getStdout).flush
  (← IO.getStderr).putStr shown.errors

def finish (result : Option (Shell.Shown × Nat)) : IO UInt32 := do
  match result with
  | some (shown, code) =>
    put shown
    return code.toUInt32
  | none => exhausted

/-- Reads and runs lines up to the end of the input. -/
partial def converse (prompt : Bool) (session : Session) : IO UInt32 := do
  if prompt then
    (← IO.getStdout).putStr "> "
    (← IO.getStdout).flush
  let line ← (← IO.getStdin).getLine
  if line.isEmpty then return 0
  match Shell.runLine (← currentSetting) budget session (Shell.lineText line) with
  | some (shown, none, session) =>
    put shown
    converse prompt session
  | some (shown, some code, _) =>
    put shown
    return code.toUInt32
  | none => exhausted

def readFile? (path : String) : IO (Option String) := do
  try
    return some (← IO.FS.readFile path)
  catch _ => return none

def run (options : Options) : IO UInt32 := do
  let setting ← currentSetting
  match options.file, options.script with
  | some file, _ =>
    let source ← readFile? file
    finish (Shell.execute setting budget options (fun _ => source) "")
  | none, some _ => finish (Shell.execute setting budget options (fun _ => none) "")
  | none, none =>
    converse (← (← IO.getStdin).isTty) (Shell.interactive setting options)

end CommandScript.Program

def main (args : List String) : IO UInt32 := do
  match CommandScript.Options.parse args with
  | .ok options => CommandScript.Program.run options
  | .error problem =>
    IO.eprintln s!"error: {problem}"
    return 2
