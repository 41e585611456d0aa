import Lox.Command.Arguments

/-!
# What the command says of itself

The texts for arguments that are no request.
-/

set_option autoImplicit false

namespace Lox

def versionText : String := "lox 0.1.0\n"

def helpText : String :=
  "Lox scanner: turns .lox source into tokens\n\n" ++
  "Usage: lox [OPTIONS] <COMMAND>\n\n" ++
  "Commands:\n" ++
  "  tokens  Scan a .lox file (or interactive input) and print its tokens\n" ++
  "  check   Scan a .lox file (or interactive input) and only report errors\n" ++
  "  help    Print this message or the help of the given subcommand(s)\n\n" ++
  "Options:\n" ++
  "  -v, --verbose...  Log more (-v for debug, -vv for trace)\n" ++
  "  -h, --help        Print help\n" ++
  "  -V, --version     Print version\n"

/-- What is said to a refusal. -/
def Refusal.text : Refusal → String
  | help | helpForMissingAction => helpText
  | version => versionText
  | missingAction => "error: a subcommand is required but one was not provided\n"
  | unknownAction => "error: unrecognized subcommand\n"
  | unknownOption => "error: unexpected argument found\n"
  | invalidValue => "error: invalid value for '--format <FORMAT>'\n"
  | unneededValue => "error: unexpected value for an option that takes none\n"
  | repeatedOption => "error: the argument '--format <FORMAT>' cannot be used multiple times\n"

end Lox
