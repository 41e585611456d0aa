/-!
# Kinds of tokens

The vocabulary of the language: nineteen punctuation marks and sixteen reserved words, each with one
spelling, and the four kinds that have no spelling of their own. `Punctuation.all` and `Keyword.all`
list the two closed families in their canonical order; looking a text up in such a list is the only
way a spelling becomes a kind, so a spelling belongs to a kind exactly when the kind has it
(`Punctuation.ofSpelling?_eq_some_iff`, `Keyword.ofSpelling?_eq_some_iff`).
-/

set_option autoImplicit false

namespace Lox

/-! ## Punctuation -/

/-- The marks of one or two characters. -/
inductive Punctuation where
  | leftParen | rightParen | leftBrace | rightBrace
  | comma | dot | minus | plus | semicolon | slash | star
  | bang | bangEqual | equal | equalEqual
  | greater | greaterEqual | less | lessEqual
  deriving DecidableEq, Repr

namespace Punctuation

/-- Every mark, in canonical order. -/
def all : List Punctuation :=
  [leftParen, rightParen, leftBrace, rightBrace, comma, dot, minus, plus, semicolon, slash, star,
    bang, bangEqual, equal, equalEqual, greater, greaterEqual, less, lessEqual]

/-- The text of a mark in a source. -/
def spelling : Punctuation → String
  | leftParen => "("
  | rightParen => ")"
  | leftBrace => "\x7b"
  | rightBrace => "\x7d"
  | comma => ","
  | dot => "."
  | minus => "-"
  | plus => "+"
  | semicolon => ";"
  | slash => "/"
  | star => "*"
  | bang => "!"
  | bangEqual => "!="
  | equal => "="
  | equalEqual => "=="
  | greater => ">"
  | greaterEqual => ">="
  | less => "<"
  | lessEqual => "<="

/-- The name of a mark in a listing. -/
def name : Punctuation → String
  | leftParen => "LEFT_PAREN"
  | rightParen => "RIGHT_PAREN"
  | leftBrace => "LEFT_BRACE"
  | rightBrace => "RIGHT_BRACE"
  | comma => "COMMA"
  | dot => "DOT"
  | minus => "MINUS"
  | plus => "PLUS"
  | semicolon => "SEMICOLON"
  | slash => "SLASH"
  | star => "STAR"
  | bang => "BANG"
  | bangEqual => "BANG_EQUAL"
  | equal => "EQUAL"
  | equalEqual => "EQUAL_EQUAL"
  | greater => "GREATER"
  | greaterEqual => "GREATER_EQUAL"
  | less => "LESS"
  | lessEqual => "LESS_EQUAL"

/-- The mark that a text spells, if it spells one. -/
def ofSpelling? (text : List Char) : Option Punctuation :=
  all.find? fun p => p.spelling.toList = text

theorem mem_all (p : Punctuation) : p ∈ all := by
  cases p <;> decide

theorem spelling_injective {p q : Punctuation} (h : p.spelling = q.spelling) : p = q := by
  revert h
  cases p <;> cases q <;> decide

theorem ofSpelling?_eq_some_iff {text : List Char} {p : Punctuation} :
    ofSpelling? text = some p ↔ p.spelling.toList = text := by
  constructor
  · intro h
    simpa using List.find?_some h
  · rintro rfl
    cases p <;> rfl

end Punctuation

/-! ## Reserved words -/

/-- The words that an identifier may not be. -/
inductive Keyword where
  | andWord | classWord | elseWord | falseWord | funWord | forWord | ifWord | nilWord
  | orWord | printWord | returnWord | superWord | thisWord | trueWord | varWord | whileWord
  deriving DecidableEq, Repr

namespace Keyword

/-- Every reserved word, in canonical order. -/
def all : List Keyword :=
  [andWord, classWord, elseWord, falseWord, funWord, forWord, ifWord, nilWord,
    orWord, printWord, returnWord, superWord, thisWord, trueWord, varWord, whileWord]

/-- The text of a reserved word in a source: lower case only. -/
def spelling : Keyword → String
  | andWord => "and"
  | classWord => "class"
  | elseWord => "else"
  | falseWord => "false"
  | funWord => "fun"
  | forWord => "for"
  | ifWord => "if"
  | nilWord => "nil"
  | orWord => "or"
  | printWord => "print"
  | returnWord => "return"
  | superWord => "super"
  | thisWord => "this"
  | trueWord => "true"
  | varWord => "var"
  | whileWord => "while"

/-- The name of a reserved word in a listing. -/
def name : Keyword → String
  | andWord => "AND"
  | classWord => "CLASS"
  | elseWord => "ELSE"
  | falseWord => "FALSE"
  | funWord => "FUN"
  | forWord => "FOR"
  | ifWord => "IF"
  | nilWord => "NIL"
  | orWord => "OR"
  | printWord => "PRINT"
  | returnWord => "RETURN"
  | superWord => "SUPER"
  | thisWord => "THIS"
  | trueWord => "TRUE"
  | varWord => "VAR"
  | whileWord => "WHILE"

/-- The reserved word that a text spells, if it spells one. -/
def ofSpelling? (text : List Char) : Option Keyword :=
  all.find? fun k => k.spelling.toList = text

theorem mem_all (k : Keyword) : k ∈ all := by
  cases k <;> decide

theorem spelling_injective {k l : Keyword} (h : k.spelling = l.spelling) : k = l := by
  revert h
  cases k <;> cases l <;> decide

theorem ofSpelling?_eq_some_iff {text : List Char} {k : Keyword} :
    ofSpelling? text = some k ↔ k.spelling.toList = text := by
  constructor
  · intro h
    simpa using List.find?_some h
  · rintro rfl
    cases k <;> rfl

end Keyword

/-! ## All kinds -/

/-- What a token is. -/
inductive Kind where
  | mark (p : Punctuation)
  | keyword (k : Keyword)
  | identifier
  | string
  | number
  | eof
  deriving DecidableEq, Repr

namespace Kind

/-- Every kind: the marks, the kinds without a spelling, the reserved words, the end. -/
def all : List Kind :=
  Punctuation.all.map mark ++ [identifier, string, number] ++ Keyword.all.map keyword ++ [eof]

/-- The one text that tokens of this kind have, for the kinds that have one. -/
def spelling? : Kind → Option String
  | mark p => some p.spelling
  | keyword k => some k.spelling
  | identifier | string | number | eof => none

/-- The name of a kind in a listing. -/
def name : Kind → String
  | mark p => p.name
  | keyword k => k.name
  | identifier => "IDENTIFIER"
  | string => "STRING"
  | number => "NUMBER"
  | eof => "EOF"

/-- The kind that has a given name. -/
def ofName? (name : String) : Option Kind :=
  all.find? fun k => k.name = name

/-- The place of a kind among the marks. -/
def punctuationIndex? (k : Kind) : Option Nat :=
  Punctuation.all.findIdx? fun p => mark p = k

/-- The place of a kind among the reserved words. -/
def keywordIndex? (k : Kind) : Option Nat :=
  Keyword.all.findIdx? fun w => keyword w = k

/-- The kind of a word: a reserved word if it is spelled as one, else an identifier. -/
def ofWord (text : List Char) : Kind :=
  match Keyword.ofSpelling? text with
  | some k => keyword k
  | none => identifier

theorem mem_all (k : Kind) : k ∈ all := by
  cases k with
  | mark p => cases p <;> decide
  | keyword k => cases k <;> decide
  | _ => decide

/-- A kind is told by its name. -/
theorem ofName?_name (k : Kind) : ofName? k.name = some k := by
  have hall : ∀ k ∈ all, ofName? k.name = some k := by decide +kernel
  exact hall k (mem_all k)

end Kind

end Lox
