import Scriptlet.Reader
import Scriptlet.Text.Position
import Scriptlet.Text.Quoted
import Scriptlet.Token.Scan

/-!
# Program text

Text is read by splitting off layout and one token at a time, the first candidate that the reader
accepts.  Where it accepts none, the text is at fault at that place.  String literals that denote
nothing are found only in a text that is otherwise a program.

* `SyntaxError` names what is wrong with a text.
* `readTokens` reads a text in a state of the reader.
* `parse` is the program that a text spells.
-/

namespace Scriptlet

/-- What is wrong with a text that is no program. -/
inductive SyntaxError where
  | unexpectedToken (place : Text.Position) (lexeme : List Char)
  | unexpectedCharacter (place : Text.Position) (c : Char)
  /-- The text ends too early.  The place is that of its last token. -/
  | unexpectedEnd (place : Text.Position)
  | malformedString (lexeme : List Char)
  deriving DecidableEq, Repr

namespace SyntaxError

/-- The place of an error, if it has one. -/
def place? : SyntaxError → Option Text.Position
  | .unexpectedToken place _ => some place
  | .unexpectedCharacter place _ => some place
  | .unexpectedEnd place => some place
  | .malformedString _ => none

/-- The wording of an error without its place. -/
def reason : SyntaxError → String
  | .unexpectedToken _ lexeme => "unexpected " ++ Text.quotedChars lexeme
  | .unexpectedCharacter _ c => "unexpected character " ++ Text.quotedChars [c]
  | .unexpectedEnd _ => "unexpected end of input"
  | .malformedString lexeme => "invalid string literal " ++ String.ofList lexeme

/-- The wording of an error. -/
def message (e : SyntaxError) : String :=
  match e.place? with
  | some place =>
    "line " ++ toString place.line ++ ", column " ++ toString place.column ++ ": " ++ e.reason
  | none => e.reason

end SyntaxError

section
variable [CharacterNames]

/-- Whether a token is a string literal that denotes nothing. -/
def Token.isMalformed (t : Token) : Bool :=
  t.terminal == .string && (StringLiteral.decode t.lexeme).isNone

/-- The first candidate that the reader accepts. -/
def Reader.choose? (r : Reader) (cs : List Char) : Option Token :=
  (Token.candidates cs).find? fun t => r.accepts t.terminal

theorem Reader.lexeme_ne_nil_of_choose? {r : Reader} {cs : List Char} {t : Token}
    (h : r.choose? cs = some t) : t.lexeme ≠ [] :=
  Token.lexeme_ne_nil (List.mem_of_find?_eq_some h)

end

/-- What is wrong at a place where the reader does not go on. -/
def SyntaxError.unexpected (place : Text.Position) (c : Char) (cs : List Char) : SyntaxError :=
  match Token.candidates (c :: cs) with
  | t :: _ => .unexpectedToken place t.lexeme
  | [] => .unexpectedCharacter place c

variable [CharacterNames]

/-- Reads the rest of a text, given the state of the reader, the place of the last token and the
place of the rest.  The result is the tokens and the program. -/
def readTokens (r : Reader) (last place : Text.Position) (cs : List Char) :
    Except SyntaxError (List Token × List Node) :=
  let place := place.advance (Token.splitLayout cs).1
  match hrest : (Token.splitLayout cs).2 with
  | [] =>
    match r.finish? with
    | some body => .ok ([], body)
    | none => .error (.unexpectedEnd last)
  | c :: rest =>
    match hchoice : r.choose? (c :: rest) with
    | none => .error (.unexpected place c rest)
    | some t =>
      match r.feed t with
      | none => .error (.unexpectedToken place t.lexeme)
      | some r =>
        have : ((c :: rest).drop t.lexeme.length).length < cs.length := by
          have whole := congrArg List.length (Token.splitLayout_append cs)
          have nonempty := List.length_pos_iff.2 (Reader.lexeme_ne_nil_of_choose? hchoice)
          simp only [List.length_append, hrest, List.length_cons] at whole
          simp only [List.length_drop, List.length_cons]
          omega
        (readTokens r place (place.advance t.lexeme) ((c :: rest).drop t.lexeme.length)).map
          fun (tokens, body) => (t :: tokens, body)
termination_by cs.length
decreasing_by exact this

/-- The program that characters spell. -/
def parseChars (cs : List Char) : Except SyntaxError (List Node) := do
  let (tokens, body) ← readTokens .start .start .start cs
  match tokens.find? Token.isMalformed with
  | some t => .error (.malformedString t.lexeme)
  | none => .ok body

/-- The program that a text spells. -/
def parse (source : String) : Except SyntaxError (List Node) := parseChars source.toList

end Scriptlet
