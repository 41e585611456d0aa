import Lox.Kind

/-!
# The lexical grammar

Which texts are lexemes, and of what kind (`IsLexeme`), and which texts may stand between lexemes
(`IsSkippable`), said without reference to any way of finding them. Letters and digits are those of
ASCII.
-/

set_option autoImplicit false

namespace Lox

/-! ## Characters -/

/-- The characters that a word may begin with. -/
def isWordStart (c : Char) : Bool :=
  c.isAlpha || c == '_'

/-- The characters that a word may go on with. -/
def isWordPart (c : Char) : Bool :=
  isWordStart c || c.isDigit

/-- The characters that separate lexemes. -/
def isSpace (c : Char) : Bool :=
  c == ' ' || c == '\r' || c == '\t' || c == '\n'

/-! ## Lexemes and skippable texts -/

/-- A word: a letter or underscore, then letters, underscores and digits. -/
def IsWord (text : List Char) : Prop :=
  ∃ c s, text = c :: s ∧ isWordStart c = true ∧ ∀ d ∈ s, isWordPart d = true

/-- One digit or more. -/
def IsDigits (text : List Char) : Prop :=
  text ≠ [] ∧ ∀ d ∈ text, d.isDigit = true

/-- The texts of each kind. The end of the source has no text. -/
inductive IsLexeme : Kind → List Char → Prop where
  | mark (p : Punctuation) : IsLexeme (.mark p) p.spelling.toList
  | keyword (k : Keyword) : IsLexeme (.keyword k) k.spelling.toList
  | identifier {text : List Char} (word : IsWord text)
      (free : ∀ k : Keyword, k.spelling.toList ≠ text) : IsLexeme .identifier text
  | whole {digits : List Char} (isDigits : IsDigits digits) : IsLexeme .number digits
  | fractional {whole fraction : List Char} (wholeDigits : IsDigits whole)
      (fractionDigits : IsDigits fraction) : IsLexeme .number (whole ++ '.' :: fraction)
  | string {body : List Char} (unquoted : '"' ∉ body) : IsLexeme .string ('"' :: body ++ ['"'])

/-- The texts that yield no token: one space character, or a comment without its line feed. -/
inductive IsSkippable : List Char → Prop where
  | space {c : Char} (isSpace : isSpace c = true) : IsSkippable [c]
  | comment {text : List Char} (oneLine : '\n' ∉ text) : IsSkippable ('/' :: '/' :: text)

end Lox
