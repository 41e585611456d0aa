import Lox.Json

/-!
# Listings

The two forms in which a list of tokens is written out: one record after another, each ended by a
line feed, or a JSON array.
-/

set_option autoImplicit false

namespace Lox

inductive Format where
  | text
  | json
  deriving DecidableEq, Repr

/-- The format that an option names; case counts. -/
def Format.ofName? (name : String) : Option Format :=
  if name = "text" then some .text else if name = "json" then some .json else none

namespace Listing

/-- The record of each token, ended by a line feed. -/
def text (tokens : List Token) : String :=
  String.join (tokens.map fun t => t.display ++ "\n")

/-- An array of all tokens, ended by a line feed. -/
def json (tokens : List Token) : String :=
  JsonLayout.pretty.array 0 (tokens.map (Token.json .pretty 1)) ++ "\n"

end Listing

/-- The listing of tokens in a format. -/
def listing (format : Format) (tokens : List Token) : String :=
  match format with
  | .text => Listing.text tokens
  | .json => Listing.json tokens

end Lox
