import CommandScript.Directory
import CommandScript.Session
import CommandScript.Syntax.Listing
import CommandScript.Text.Blank
import CommandScript.Text.Decoding
import CommandScript.Text.Edited

/-!
# The command line

The program is given a script by file or by text, or else reads lines from its input. A
script is run, or only listed. Lines are run one after another in command mode, errors
being shown as they arise, until a line exits or the input ends.

* `Options.parse`: the options of a command line.
* `Shell.runScript`, `Shell.listScript`: what a script shows, and the exit code.
* `Shell.runLine`: what a line shows, and the exit code if it was the last.
* `Shell.lineText`: a line of input as it counts after editing.
* `Shell.execute`, `Shell.executeIn`: the whole program, by the way files are read or in a
  directory.
-/

namespace CommandScript

structure Options where
  file : Option String
  script : Option String
  listing : Bool
  quiet : Bool
  deriving DecidableEq

namespace Options

def none : Options := ⟨.none, .none, false, false⟩

/-- Adds the file of a script. Its name must not be empty. -/
def withFile (options : Options) (file : String) : Except String Options :=
  if file.isEmpty then .error "a value is required for '[FILE]'"
  else if options.file.isSome || options.script.isSome then .error s!"unexpected argument '{file}'"
  else .ok { options with file := some file }

/-- Adds the text of a script. -/
def withScript (options : Options) (text : String) : Except String Options :=
  if options.file.isSome || options.script.isSome then .error "unexpected argument '--eval'"
  else .ok { options with script := some text }

/-- Adds the text of a script that stands in an argument of its own. An argument with
something after a `-` is an option and no text. -/
def withScriptArgument (options : Options) (arg : String) : Except String Options :=
  match arg.toList with
  | '-' :: _ :: _ => .error "a value is required for '--eval'"
  | _ => options.withScript arg

/-- Asks for a listing, which may be asked for once. -/
def withListing (options : Options) : Except String Options :=
  if options.listing then .error "the argument '--print-ast' cannot be used multiple times"
  else .ok { options with listing := true }

/-- Asks for quiet, which may be asked for once. -/
def withQuiet (options : Options) : Except String Options :=
  if options.quiet then .error "the argument '--quiet' cannot be used multiple times"
  else .ok { options with quiet := true }

def withFiles (options : Options) (files : List String) : Except String Options :=
  files.foldlM withFile options

/-- The options written as letters after one `-`. The letter `e` takes the rest as its
value; if nothing is left, the value is still to come. -/
def withLetters (options : Options) : List Char → Except String (Options × Bool)
  | [] => .ok (options, false)
  | 'q' :: rest => do (← options.withQuiet).withLetters rest
  | 'v' :: rest => withLetters options rest
  | ['e'] => .ok (options, true)
  | 'e' :: '=' :: rest => (options.withScript (String.ofList rest)).map (·, false)
  | 'e' :: rest => (options.withScript (String.ofList rest)).map (·, false)
  | letter :: _ => .error s!"unexpected argument '-{letter}'"

/-- Reads arguments from left to right. After `--` only files follow. -/
def parseFrom (options : Options) : List String → Except String Options
  | [] => .ok options
  | "--" :: files => options.withFiles files
  | "--print-ast" :: rest => do (← options.withListing).parseFrom rest
  | "--quiet" :: rest => do (← options.withQuiet).parseFrom rest
  | "--verbose" :: rest => parseFrom options rest
  | ["--eval"] => .error "a value is required for '--eval'"
  | "--eval" :: text :: rest => do (← options.withScriptArgument text).parseFrom rest
  | arg :: rest =>
    match arg.toList with
    | '-' :: '-' :: 'e' :: 'v' :: 'a' :: 'l' :: '=' :: text => do
      (← options.withScript (String.ofList text)).parseFrom rest
    | '-' :: '-' :: _ => .error s!"unexpected argument '{arg}'"
    | '-' :: letter :: letters => do
      let (options, pending) ← options.withLetters (letter :: letters)
      if pending then
        match rest with
        | [] => .error "a value is required for '-e'"
        | text :: rest => (← options.withScriptArgument text).parseFrom rest
      else options.parseFrom rest
    | _ => do (← options.withFile arg).parseFrom rest

def parse (args : List String) : Except String Options := none.parseFrom args

end Options

namespace Shell

/-! ## Exit codes -/

/-- The script has errors that kept it from running. -/
def codeBadScript : Nat := 65

/-- The file of the script cannot be read. -/
def codeNoInput : Nat := 66

/-- The script failed while it ran. -/
def codeFailed : Nat := 70

def statusCode : Status → Nat
  | .completed => 0
  | .exit code => if code < 256 then code else 1

def failureCode (errors : List (Located Fault)) : Nat :=
  if errors.any (·.cause.isRuntime) then codeFailed else codeBadScript

/-! ## What is shown -/

structure Shown where
  output : String
  errors : String

/-- The text that an effect leaves on the console. -/
def effectText : Effect → String
  | .wrote bytes => Text.decode bytes
  | .delivered delivery => CommandModule.consoleLine delivery.command delivery.map

def effectsText (effects : Array Effect) : String :=
  String.join (effects.toList.map effectText)

def errorLines (errors : List (Located Fault)) : String :=
  String.join (errors.map fun error => error.message ++ "\n")

def unreadable (file : String) : String :=
  s!"Failed to read the input file '{file}'. Perhaps this file does not exist?\n"

/-- A session of the command line: unless it is to be quiet, received commands are shown. -/
def newSession (setting : Setting) (options : Options) : Session :=
  let session := Session.initial setting Sink.unlimited
  if options.quiet then session else session.install .console

/-- Takes the effects of a session to be shown. -/
def takeShown (session : Session) : String × Session :=
  (effectsText session.interpreter.effects,
    { session with interpreter := { session.interpreter with effects := #[] } })

/-! ## Scripts and lines -/

def runScript (setting : Setting) (budget : Nat) (session : Session) (source : String) :
    Option (Shown × Nat) :=
  (session.run setting budget source).map fun (result, session) =>
    let output := (takeShown session).1
    match result with
    | .ok status => (⟨output, ""⟩, statusCode status)
    | .error errors => (⟨output, errorLines errors⟩, failureCode errors)

def listScript (session : Session) (source : String) : Shown × Nat :=
  match (session.parse source).1 with
  | .ok program => (⟨programListing program ++ "\n", ""⟩, 0)
  | .error errors => (⟨"", errorLines errors⟩, codeBadScript)

/-- Runs a line, unless it is blank. The exit code is given if the line exits. -/
def runLine (setting : Setting) (budget : Nat) (session : Session) (line : String) :
    Option (Shown × Option Nat × Session) :=
  if Text.isBlank line then some (⟨"", ""⟩, none, session)
  else
    (session.run setting budget line).map fun (result, session) =>
      let (output, session) := takeShown session
      match result with
      | .ok .completed => (⟨output, ""⟩, none, session)
      | .ok status => (⟨output, ""⟩, some (statusCode status), session)
      | .error errors => (⟨output, errorLines errors⟩, none, session)

/-- What is left of a line without its line break, which may be a carriage return and a
line feed. -/
def lineText (line : String) : String :=
  let chars := line.toList
  let chars :=
    if chars.getLast? = some '\n' then
      let chars := chars.dropLast
      if chars.getLast? = some '\r' then chars.dropLast else chars
    else chars
  String.ofList (Text.edited chars)

/-- The lines of a text, each with its line break. -/
def splitLines (text : List Char) : List (List Char) :=
  match text with
  | [] => []
  | c :: rest =>
    if c = '\n' then [c] :: splitLines rest
    else
      match splitLines rest with
      | [] => [[c]]
      | line :: lines => (c :: line) :: lines

/-- Runs lines until one exits, and shows what they show in order. -/
def runLines (setting : Setting) (budget : Nat) (session : Session) :
    List String → Option (Shown × Nat)
  | [] => some (⟨"", ""⟩, 0)
  | line :: rest => do
    let (shown, code, session) ← runLine setting budget session line
    match code with
    | some code => return (shown, code)
    | none =>
      let (later, code) ← runLines setting budget session rest
      return (⟨shown.output ++ later.output, shown.errors ++ later.errors⟩, code)

def script (setting : Setting) (budget : Nat) (options : Options) (source : String) :
    Option (Shown × Nat) :=
  let session := newSession setting options
  if options.listing then some (listScript session source)
  else runScript setting budget session source

def interactive (setting : Setting) (options : Options) : Session :=
  { newSession setting options with mode := .command }

/-- The whole program, given how files are read and all of its input. -/
def execute (setting : Setting) (budget : Nat) (options : Options)
    (readFile : String → Option String) (input : String) : Option (Shown × Nat) :=
  match options.file, options.script with
  | some file, _ =>
    match readFile file with
    | some source => script setting budget options source
    | none => some (⟨"", unreadable file⟩, codeNoInput)
  | none, some source => script setting budget options source
  | none, none =>
    runLines setting budget (interactive setting options)
      ((splitLines input.toList).map fun line => lineText (String.ofList line))

/-- The whole program, started in a directory. -/
def executeIn (setting : Setting) (budget : Nat) (options : Options) (directory : Directory) :
    Option (Shown × Nat) :=
  execute setting budget options directory.read? directory.input

end Shell

end CommandScript
