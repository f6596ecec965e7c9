import PolicyTable.Text.Basic

/-!
# `PolicyTable.CommandLine.Page` — flags, usage and help

The program has one command, and flags stand before or after the command. What may be written at one
of the two levels is a `Page`, with a usage line and a help text.
-/

namespace PolicyTable.CommandLine

/-- The flags of the program. -/
inductive Flag
  | help
  | output
  deriving DecidableEq, Repr

/-- The letter of a flag, which is written behind one hyphen. -/
def Flag.letter : Flag → Char
  | .help => 'h'
  | .output => 'o'

/-- The long form of a flag, with its two hyphens. -/
def Flag.long : Flag → Text
  | .help => "--help".toList
  | .output => "--output".toList

/-- The short form of a flag, with its hyphen. -/
def Flag.short (f : Flag) : Text := ['-', f.letter]

/-- Both forms of a flag, as messages write them. -/
def Flag.forms (f : Flag) : Text := f.short ++ '/' :: f.long

/-- The two levels of the command line: the program, and its command. -/
inductive Page
  | program
  | doc
  deriving DecidableEq, Repr

/-- The name of the command. -/
def commandName : Text := "doc".toList

/-- The flags of a level. -/
def Page.flags : Page → List Flag
  | .program => [.help]
  | .doc => [.help, .output]

/-- The words that a level is called by. -/
def Page.call : Page → Text
  | .program => "policydoc".toList
  | .doc => "policydoc doc".toList

/-- The usage line of a level. -/
def Page.usage : Page → Text
  | .program => "usage: policydoc [-h] \x7bdoc\x7d ...\n".toList
  | .doc => "usage: policydoc doc [-h] [-o OUTPUT] directory\n".toList

/-- What the help text of a level says after the usage line. -/
def Page.details : Page → Text
  | .program =>
    ("\npositional arguments:\n" ++
      "  \x7bdoc\x7d\n" ++
      "    doc       Generate documentation from Rego policies.\n" ++
      "\noptions:\n" ++
      "  -h, --help  show this help message and exit\n").toList
  | .doc =>
    ("\npositional arguments:\n" ++
      "  directory             Directory containing Rego policies.\n" ++
      "\noptions:\n" ++
      "  -h, --help            show this help message and exit\n" ++
      "  -o OUTPUT, --output OUTPUT\n" ++
      "                        File name of the generated document, written inside\n" ++
      "                        the directory.\n").toList

/-- The help text of a level. -/
def Page.help (p : Page) : Text := p.usage ++ p.details

end PolicyTable.CommandLine
