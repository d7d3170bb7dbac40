import Scriptlet.Command.Folder
import Scriptlet.Command.Options
import Scriptlet.Evaluation
import Scriptlet.Json.Read
import Scriptlet.Node.Decode
import Scriptlet.Node.Encode
import Scriptlet.Parse
import Scriptlet.Text.Newline
import Scriptlet.Text.Utf8

/-!
# The command line

A command runs a program from text, runs one from a tree, or writes a program's tree to a file
beside it.  It is a function from its arguments and from what stands under the paths it names; its
result says what it prints, what it writes and how it ends.

* `Problem` is what keeps a command from succeeding: a failure has a message and ends with status
  1, while an escape is something that commands make no message of.
* `runProgram`, `runTree` and `emitTree` are the three things that a command does.
* `runCommand` is the whole.
-/

namespace Scriptlet
namespace Command

/-- How a command ends when nothing has made a message of the reason. -/
inductive Escape where
  /-- A folder stands where a file is wanted. -/
  | folder
  /-- The path, or a name in it, is too long. -/
  | overlong (path : String)
  | undecodable (fault : Text.Utf8Fault)
  | load (error : LoadError)
  /-- The tree file takes UTF-8 only. -/
  | unencodable (reason : Text.Unencodable)

/-- The wording of an escape. -/
def Escape.message : Escape → String
  | .folder => "Is a directory"
  | .overlong path => "[Errno 36] File name too long: " ++ Text.quotedChars path.toList
  | .undecodable fault => fault.message
  | .load error => error.message
  | .unencodable reason => reason.message

/-- What keeps a command from succeeding. -/
inductive Problem where
  | failure (message : String)
  | escape (e : Escape)

/-- How a command ends. -/
inductive Ending where
  | exit (status : Nat)
  | escape (e : Escape)

/-- What a command does. -/
structure Report where
  ending : Ending
  stdout : String
  stderr : String
  /-- The files that it writes, by the path it writes them under. -/
  written : List (String × String)

/-- What stands under paths. -/
abbrev Disk := String → Option Entry

/-- The file that the trace is written to. -/
def traceFile : String := "debug.txt"

/-- The file that a program's tree is written to. -/
def treeFile (program : String) : String := normalPath program ++ ".ast.json"

/-- How to call the command. -/
def usage : String :=
  "usage: minijs [-h] [-v] [--emit-ast JS_FILE | --ast AST_JSON_FILE] [program]\n"

/-- What asking for help prints. -/
def helpText : String :=
  usage ++ "\nminijs tree-walking interpreter\n\npositional arguments:\n" ++
    "  program              program file (.js) to execute\n\noptions:\n" ++
    "  -h, --help           show this help message and exit\n" ++
    "  -v                   increase debug verbosity (can be repeated)\n" ++
    "  --emit-ast JS_FILE   emit AST JSON for the given .js file\n" ++
    "  --ast AST_JSON_FILE  execute AST from a JSON file\n"

/-- The report of a command that did nothing else than end. -/
def Report.ofProblem : Problem → Report
  | .failure message => ⟨.exit 1, "", message ++ "\n", []⟩
  | .escape e => ⟨.escape e, "", "", []⟩

/-- The bytes of a file. -/
def readBytes (disk : Disk) (path : String) : Except Problem (List UInt8) :=
  let shown := normalPath path
  match disk shown with
  | none => .error (.failure ("Error: file " ++ shown ++ " not found"))
  | some .folder => .error (.escape .folder)
  | some .overlong => .error (.escape (.overlong shown))
  | some (.file bytes) => .ok bytes

/-- The text that a file's bytes spell, with its line ends unified. -/
def decodeText (bytes : List UInt8) : Except Text.Utf8Fault String :=
  (Text.readUtf8 bytes).map fun cs => String.ofList (Text.unifyNewlines cs)

section
variable [CharacterNames]

/-- The program that a file spells. -/
def readProgram (disk : Disk) (path : String) : Except Problem (List Node) := do
  let bytes ← readBytes disk path
  let source ← (decodeText bytes).mapError fun fault => .escape (.undecodable fault)
  (parse source).mapError fun error => .failure ("Syntax error: " ++ error.message)

end

/-- What becomes of an error in loading: errors about the form of a document have a message, and
those about converting data that has the right form escape.  That an integer has too many digits to
be shown has a message as well. -/
def loadProblem (describe : String → Problem) (error : LoadError) : Problem :=
  match error with
  | .notIterable _ => .escape (.load error)
  | .integerTooLarge => .escape (.load error)
  | error => describe error.message

/-- The program that a file holds as a tree. -/
def readTree (disk : Disk) (path : String) : Except Problem (List Node) := do
  let bytes ← readBytes disk path
  let describe message :=
    Problem.failure ("Error: cannot load AST from " ++ path ++ ": " ++ message)
  let text ← (decodeText bytes).mapError fun fault => describe fault.message
  let document ← (Json.read text).mapError fun fault => describe fault.message
  match ← (Node.ofJson document).mapError (loadProblem describe) with
  | .program body => return body
  | _ => .error (.failure ("Error: " ++ path ++ " does not contain a Program node"))

/-- The lines of a text, each ended by a line feed. -/
def unlines (lines : List String) : String := String.join (lines.map (· ++ "\n"))

/-- Runs a program in a fresh world.  The trace file is opened before the program starts, and
what the program printed and traced stays if it fails.  The message about a failure shows
surrogates as escapes, so it can always be written. -/
def runProgram (disk : Disk) (verbosity : Nat) (body : List Node) : Report :=
  if 0 < verbosity ∧ disk traceFile = some .folder then Report.ofProblem (.escape .folder)
  else
    let report status stderr (w : World) : Report :=
      ⟨.exit status, unlines w.output.toList, stderr,
        if 0 < verbosity then [(traceFile, unlines (w.trace.toList.map Event.text))] else []⟩
    match run defaultBound body World.globalScope (World.fresh verbosity) with
    | .ok _ w => report 0 "" w
    | .error fault w => report 1 ("Runtime error: " ++ fault.message.escaped ++ "\n") w

/-- Writes a program's tree to a file, and prints the path of the file.  A text that cannot be
written ends this, and what has been written by then stays in the file. -/
def emitTree (disk : Disk) (path : String) (body : List Node) : Report :=
  let target := treeFile path
  match disk target with
  | some .folder => Report.ofProblem (.escape .folder)
  | some .overlong => Report.ofProblem (.escape (.overlong target))
  | _ =>
    let document := Node.toJson (.program body)
    let written := [(target, Json.write .indented document)]
    match document.unencodable? with
    | some reason => ⟨.escape (.unencodable reason), "", "", written⟩
    | none => ⟨.exit 0, target ++ "\n", "", written⟩

/-- The report of something done with a program, if there is one. -/
def Report.ofResult (program : Except Problem (List Node)) (act : List Node → Report) : Report :=
  match program with
  | .ok body => act body
  | .error problem => ofProblem problem

/-- The report of arguments that are refused. -/
def Report.ofUsageError (error : UsageError) : Report :=
  ⟨.exit 2, "", usage ++ "minijs: error: " ++ error.message ++ "\n", []⟩

section
variable [CharacterNames]

/-- Does what has been asked for.  An empty path counts as none. -/
def serve (disk : Disk) (request : Request) : Report :=
  match request.emit.filter (· ≠ ""), request.tree.filter (· ≠ ""),
      request.program.filter (· ≠ "") with
  | some path, _, _ => .ofResult (readProgram disk path) (emitTree disk path)
  | none, some path, _ => .ofResult (readTree disk path) (runProgram disk request.verbosity)
  | none, none, some path =>
    .ofResult (readProgram disk path) (runProgram disk request.verbosity)
  | none, none, none => .ofUsageError .missingProgram

/-- What a command with the given arguments does. -/
def runCommand (arguments : List String) (disk : Disk) : Report :=
  match readArguments arguments with
  | .error error => .ofUsageError error
  | .ok .help => ⟨.exit 0, helpText, "", []⟩
  | .ok (.request request) => serve disk request

end

/-- The paths that a command with the given arguments may look at. -/
def consulted (arguments : List String) : List String :=
  match readArguments arguments with
  | .ok (.request request) =>
    traceFile :: ([request.emit, request.tree, request.program].filterMap id).flatMap fun path =>
      [normalPath path, treeFile path]
  | _ => []

end Command
end Scriptlet
