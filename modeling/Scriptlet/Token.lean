/-!
# Tokens

Program text is read as a sequence of tokens.  A token has a terminal, which says what it can
stand for in the grammar, and the characters that it was written with.
-/

namespace Scriptlet

/-- The words that the grammar gives a meaning to. -/
inductive Keyword where
  | functionWord
  | ifWord
  | elseWord
  | whileWord
  | varWord
  | letWord
  | constWord
  | returnWord
  | trueWord
  | falseWord
  deriving DecidableEq, Repr

/-- All keywords. -/
def Keyword.all : List Keyword :=
  [.functionWord, .ifWord, .elseWord, .whileWord, .varWord, .letWord, .constWord, .returnWord,
    .trueWord, .falseWord]

/-- How a keyword is written. -/
def Keyword.spelling : Keyword → String
  | .functionWord => "function"
  | .ifWord => "if"
  | .elseWord => "else"
  | .whileWord => "while"
  | .varWord => "var"
  | .letWord => "let"
  | .constWord => "const"
  | .returnWord => "return"
  | .trueWord => "true"
  | .falseWord => "false"

/-- How tightly a binary operator binds. -/
inductive Level where
  | equality
  | relational
  | additive
  | multiplicative
  deriving DecidableEq, Repr

/-- The place of a level among all: tighter ones have higher ranks. -/
def Level.rank : Level → Nat
  | .equality => 0
  | .relational => 1
  | .additive => 2
  | .multiplicative => 3

/-- What a token can stand for in the grammar. -/
inductive Terminal where
  | number
  | string
  | name
  | keyword (k : Keyword)
  | operator (level : Level)
  | assign
  | comma
  | semicolon
  | openParen
  | closeParen
  | openBrace
  | closeBrace
  deriving DecidableEq, Repr

/-- A token. -/
structure Token where
  terminal : Terminal
  lexeme : List Char
  deriving DecidableEq, Repr

/-- The operators and other signs.  One that another one starts with comes after it. -/
def Token.signs : List Token :=
  [⟨.operator .equality, ['=', '=', '=']⟩, ⟨.operator .equality, ['!', '=', '=']⟩,
    ⟨.operator .equality, ['=', '=']⟩, ⟨.operator .equality, ['!', '=']⟩,
    ⟨.operator .relational, ['<', '=']⟩, ⟨.operator .relational, ['>', '=']⟩,
    ⟨.operator .relational, ['<']⟩, ⟨.operator .relational, ['>']⟩,
    ⟨.operator .additive, ['+']⟩, ⟨.operator .additive, ['-']⟩,
    ⟨.operator .multiplicative, ['*']⟩, ⟨.operator .multiplicative, ['/']⟩,
    ⟨.operator .multiplicative, ['%']⟩, ⟨.assign, ['=']⟩, ⟨.comma, [',']⟩, ⟨.semicolon, [';']⟩,
    ⟨.openParen, ['(']⟩, ⟨.closeParen, [')']⟩, ⟨.openBrace, ['\x7b']⟩, ⟨.closeBrace, ['\x7d']⟩]

end Scriptlet
