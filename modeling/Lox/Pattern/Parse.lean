import Lox.Pattern.Meaning
import Lox.Pattern.Reader
import Lox.Pattern.Size

/-!
# From texts to patterns

`Pattern.parse` gives the pattern that a text writes, or says why there is none: the text is
faulty, the pattern is too large, or it asks for words of all scripts.
-/

set_option autoImplicit false

namespace Lox

namespace Pattern

/-- How the refusal of a pattern that is too large is worded. -/
def tooLargeMessage : String :=
  "Compiled regex exceeds size limit of " ++ toString sizeLimit ++ " bytes."

/-- How the refusal of a pattern that asks for words of all scripts is worded. -/
def noWordsMessage : String := "error building NFA"

/-- The pattern that a text writes; the error says why there is none. -/
def parse (text : List Char) : Except String Pattern :=
  match Phrase.read text >>= Phrase.meaning .initial with
  | .error fault => .error (fault.report text)
  | .ok (p, _) =>
    if p.isTooLarge then .error tooLargeMessage
    else if p.asksAllScripts then .error noWordsMessage
    else .ok p

end Pattern

end Lox
