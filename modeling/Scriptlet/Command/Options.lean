import Scriptlet.Text.Digit
import Scriptlet.Text.Quoted

/-!
# Command line arguments

Arguments are first told apart one by one: options, words, and a double dash that makes words of
all arguments after it.  Then they are taken from left to right, and the first that cannot be
taken is the error that is reported.  Asking for help ends the taking at once.

* An option may be written with its value after `=`, and a long one may be cut short if it stays
  clear which one is meant.
* Short options may be joined: `-vv` is `-v -v`.
* One word is the program.  What is left over is reported when all has been taken.
-/

namespace Scriptlet
namespace Command

/-- An option. -/
inductive Flag where
  | help
  | verbose
  | emit
  | tree
  deriving DecidableEq, Repr

/-- How options are written. -/
def Flag.spellings : List (String × Flag) :=
  [("-h", .help), ("--help", .help), ("-v", .verbose), ("--emit-ast", .emit), ("--ast", .tree)]

/-- The name of an option in messages. -/
def Flag.name : Flag → String
  | .help => "-h/--help"
  | .verbose => "-v"
  | .emit => "--emit-ast"
  | .tree => "--ast"

/-- Whether an option has a value. -/
def Flag.takesValue : Flag → Bool
  | .emit => true
  | .tree => true
  | _ => false

/-- An argument by its form.  An option may have been written together with a text that is its
value or more options. -/
inductive Argument where
  | word (text : String)
  | separator
  | option (flag : Flag) (isShort : Bool) (attached : Option String)
  | unknown (text : String)
  deriving DecidableEq, Repr

/-- Why arguments are refused. -/
inductive UsageError where
  | ambiguous (argument : String) (spellings : List String)
  | ignored (flag : Flag) (attached : String)
  | missingValue (flag : Flag)
  | conflict (flag other : Flag)
  | unrecognized (arguments : List String)
  | missingProgram
  deriving DecidableEq, Repr

/-- The wording of a refusal. -/
def UsageError.message : UsageError → String
  | .ambiguous argument spellings =>
    "ambiguous option: " ++ argument ++ " could match " ++ ", ".intercalate spellings
  | .ignored flag attached =>
    "argument " ++ flag.name ++ ": ignored explicit argument " ++ Text.quotedChars attached.toList
  | .missingValue flag => "argument " ++ flag.name ++ ": expected one argument"
  | .conflict flag other =>
    "argument " ++ flag.name ++ ": not allowed with argument " ++ other.name
  | .unrecognized arguments => "unrecognized arguments: " ++ " ".intercalate arguments
  | .missingProgram => "missing program file; or use --emit-ast/--ast"

/-! ## Telling arguments apart -/

/-- A text up to its first equals sign and after it. -/
def splitValue (cs : List Char) : Option (List Char × List Char) :=
  match cs.dropWhile (· ≠ '=') with
  | _ :: value => some (cs.takeWhile (· ≠ '='), value)
  | [] => none

/-- A text without the line feed at its end, if it has one. -/
def dropLineFeed (cs : List Char) : List Char :=
  if cs.getLast? = some '\n' then cs.dropLast else cs

/-- Whether an argument reads as a negative number, which is no option.  A line feed at its end
is passed over. -/
def isNegativeNumber (cs : List Char) : Bool :=
  let isDigit c := (Text.digitValue c).isSome
  match dropLineFeed cs with
  | '-' :: cs =>
    match cs.dropWhile isDigit with
    | [] => !cs.isEmpty
    | '.' :: fraction => !fraction.isEmpty && fraction.all isDigit
    | _ => false
  | _ => false

/-- The options that an argument starting with a dash can mean though it is none as it stands,
with the text attached to them. -/
def guesses (cs : List Char) : List (String × Flag × Option String) :=
  match cs with
  | '-' :: '-' :: _ =>
    let (stem, value) :=
      match splitValue cs with
      | some (stem, value) => (stem, some (String.ofList value))
      | none => (cs, none)
    (Flag.spellings.filter fun (spelling, _) => stem.isPrefixOf spelling.toList).map
      fun (spelling, flag) => (spelling, flag, value)
  | _ =>
    (Flag.spellings.filter fun (spelling, _) => spelling.toList = cs.take 2).map
      fun (spelling, flag) => (spelling, flag, some (String.ofList (cs.drop 2)))

/-- The form of an argument before any separator. -/
def classify (argument : String) : Except UsageError Argument :=
  let cs := argument.toList
  let spelled (cs : List Char) := Flag.spellings.lookup (String.ofList cs)
  match cs with
  | '-' :: second :: _ =>
    let isShort := second ≠ '-'
    match spelled cs, (splitValue cs).bind fun (stem, value) =>
        (spelled stem).map fun flag => (flag, value) with
    | some flag, _ => .ok (.option flag isShort none)
    | none, some (flag, value) => .ok (.option flag isShort (some (String.ofList value)))
    | none, none =>
      match guesses cs with
      | [(_, flag, attached)] => .ok (.option flag isShort attached)
      | [] =>
        if isNegativeNumber cs ∨ ' ' ∈ cs then .ok (.word argument) else .ok (.unknown argument)
      | several => .error (.ambiguous argument (several.map Prod.fst))
  | _ => .ok (.word argument)

/-- The forms of all arguments. -/
def classifyAll : List String → Except UsageError (List Argument)
  | [] => .ok []
  | "--" :: arguments => .ok (.separator :: arguments.map .word)
  | argument :: arguments => do
    let first ← classify argument
    return first :: (← classifyAll arguments)

/-! ## Taking arguments -/

/-- What has been asked for. -/
structure Request where
  verbosity : Nat
  emit : Option String
  tree : Option String
  program : Option String
  deriving DecidableEq, Repr

/-- What the taking of arguments ends in. -/
inductive Answer where
  | help
  | request (r : Request)
  deriving DecidableEq, Repr

/-- Arguments taken so far: whether the place of the program is taken, which a separator does
too, and what was left over, the last one first. -/
structure Taken where
  request : Request
  isPlaceTaken : Bool
  leftOver : List String

/-- Before any argument. -/
def Taken.start : Taken := ⟨⟨0, none, none, none⟩, false, []⟩

/-- The flags that an option without a value stands for, together with those joined to it. -/
def joined (flag : Flag) (isShort : Bool) (attached : List Char) : Except UsageError (List Flag) :=
  let refused := Except.error (UsageError.ignored flag (String.ofList attached))
  match attached with
  | [] => refused
  | c :: rest =>
    if isShort then
      match Flag.spellings.lookup (String.ofList ['-', c]) with
      | some next =>
        if rest.isEmpty then .ok [flag, next] else (joined next true rest).map (flag :: ·)
      | none => refused
    else refused

/-- Takes options that have no value: nothing if one of them asks for help. -/
def Taken.countFlags (t : Taken) : List Flag → Option Taken
  | [] => some t
  | .help :: _ => none
  | _ :: flags =>
    { t with request := { t.request with verbosity := t.request.verbosity + 1 } }.countFlags flags

/-- The value that is written after an equals sign.  A double dash there stands for the empty
text. -/
def attachedValue (text : String) : String := if text = "--" then "" else text

/-- Takes the value of an option.  The two options that have one exclude each other. -/
def Taken.setValue (t : Taken) (flag : Flag) (value : String) : Except UsageError Taken :=
  match flag with
  | .emit =>
    if t.request.tree.isSome then .error (.conflict .emit .tree)
    else .ok { t with request := { t.request with emit := some value } }
  | .tree =>
    if t.request.emit.isSome then .error (.conflict .tree .emit)
    else .ok { t with request := { t.request with tree := some value } }
  | _ => .ok t

/-- Takes a word: as the program if its place is free. -/
def Taken.word (t : Taken) (text : String) : Taken :=
  if t.isPlaceTaken then { t with leftOver := text :: t.leftOver }
  else { t with request := { t.request with program := some text }, isPlaceTaken := true }

/-- Takes arguments from left to right.  A separator belongs to the program if it stands beside
it, and is left over otherwise. -/
def takeAll (t : Taken) : List Argument → Except UsageError Answer
  | [] =>
    if t.leftOver.isEmpty then .ok (.request t.request)
    else .error (.unrecognized t.leftOver.reverse)
  | .unknown text :: rest => takeAll { t with leftOver := text :: t.leftOver } rest
  | .word text :: .separator :: rest =>
    if t.isPlaceTaken then
      takeAll { t with leftOver := "--" :: text :: t.leftOver } rest
    else takeAll (t.word text) rest
  | .word text :: rest => takeAll (t.word text) rest
  | .separator :: .word text :: rest =>
    if t.isPlaceTaken then
      takeAll { t with leftOver := text :: "--" :: t.leftOver } rest
    else takeAll (t.word text) rest
  | .separator :: rest =>
    if t.isPlaceTaken then takeAll { t with leftOver := "--" :: t.leftOver } rest
    else takeAll { t with isPlaceTaken := true } rest
  | .option flag isShort (some attached) :: rest =>
    if flag.takesValue then do takeAll (← t.setValue flag (attachedValue attached)) rest
    else do
      match t.countFlags (← joined flag isShort attached.toList) with
      | some t => takeAll t rest
      | none => .ok .help
  | .option flag _ none :: rest =>
    if flag.takesValue then
      match rest with
      | .word value :: rest => do takeAll (← t.setValue flag value) rest
      | _ => .error (.missingValue flag)
    else
      match t.countFlags [flag] with
      | some t => takeAll t rest
      | none => .ok .help

/-- What arguments ask for. -/
def readArguments (arguments : List String) : Except UsageError Answer := do
  takeAll .start (← classifyAll arguments)

end Command
end Scriptlet
