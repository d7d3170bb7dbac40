/-!
# Line ends

Files end their lines in one of three ways.  Text read from a file has them all as a line feed.
-/

namespace Scriptlet
namespace Text

/-- A carriage return, with the line feed after it if there is one, becomes a line feed. -/
def unifyNewlines : List Char → List Char
  | '\r' :: '\n' :: cs => '\n' :: unifyNewlines cs
  | '\r' :: cs => '\n' :: unifyNewlines cs
  | c :: cs => c :: unifyNewlines cs
  | [] => []

end Text
end Scriptlet
