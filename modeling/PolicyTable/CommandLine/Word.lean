import PolicyTable.CommandLine.Page
import PolicyTable.Text.Digit
import PolicyTable.Text.Quoted

/-!
# `PolicyTable.CommandLine.Word` — the words of a command line

A word that starts with a hyphen is a flag, unless it is a single hyphen, looks like a negative number
or has a space in it and no flag in front. A long flag may be shortened as long as no other flag starts
alike. A value may stand behind an equals sign, and directly behind the letter of a short flag. After a
word of two hyphens every word is plain.

## Contents
- `Problem`, what can be wrong with a command line, and its message.
- `Attached` and `Word`; `Word.ofText` tells what one word is and `wordsOf` what all of them are.
-/

namespace PolicyTable.CommandLine

/-! ## Problems -/

/-- What can be wrong with a command line. -/
inductive Problem
  | required (argument : Text)
  | invalidCommand (word : Text)
  | ambiguous (word : Text) (flags : List Flag)
  | missingValue (flag : Flag)
  | unwantedValue (flag : Flag) (value : Text)
  | unrecognized (words : List Text)
  deriving DecidableEq, Repr

/-- The message about a problem. -/
def Problem.message : Problem → Text
  | .required argument => "the following arguments are required: ".toList ++ argument
  | .invalidCommand word =>
    "argument command: invalid choice: ".toList ++ Text.quoted word ++ " (choose from ".toList ++
      Text.quoted commandName ++ [')']
  | .ambiguous word flags =>
    "ambiguous option: ".toList ++ word ++ " could match ".toList ++
      List.intercalate [',', ' '] (flags.map Flag.long)
  | .missingValue flag => "argument ".toList ++ flag.forms ++ ": expected one argument".toList
  | .unwantedValue flag value =>
    "argument ".toList ++ flag.forms ++ ": ignored explicit argument ".toList ++ Text.quoted value
  | .unrecognized words =>
    "unrecognized arguments: ".toList ++ List.intercalate [' '] words

/-! ## Words -/

/-- What is attached to a flag in its word: nothing, a value behind the equals sign of a long flag, or a
    value behind the letter of a short flag, where an equals sign may stand between them. -/
inductive Attached
  | nothing
  | toLong (value : Text)
  | toShort (value : Text)
  deriving DecidableEq, Repr

/-- One word of a command line. -/
inductive Word
  | plain (text : Text)
  | divider
  | flag (text : Text) (flag : Flag) (attached : Attached)
  | unknown (text : Text)
  deriving DecidableEq, Repr

/-- The word that divides flags from plain words. -/
def dividerText : Text := ['-', '-']

/-- A word as it was written. -/
def Word.text : Word → Text
  | .plain t | .flag t _ _ | .unknown t => t
  | .divider => dividerText

/-- The flag of a level that is written so. -/
def Page.flagOf? (p : Page) (t : Text) : Option Flag :=
  p.flags.find? fun f => t = f.short || t = f.long

/-- The flag of a level with that letter. -/
def Page.ofLetter? (p : Page) (c : Char) : Option Flag := p.flags.find? (·.letter = c)

/-- The flag that is written in full before an equals sign, with the value behind the sign. -/
def Page.withValue? (p : Page) (t : Text) : Option (Flag × Attached) := do
  let (name, value) ← Text.cutAt '=' t
  let f ← p.flagOf? name
  return (f, if name = f.short then .toShort value else .toLong value)

/-- The flags that a word with a hyphen in front may stand for, with what is attached. -/
def Page.candidates (p : Page) (t : Text) : List (Flag × Attached) :=
  match t with
  | '-' :: '-' :: _ =>
    let (start, attached) :=
      match Text.cutAt '=' t with
      | some (start, value) => (start, Attached.toLong value)
      | none => (t, .nothing)
    (p.flags.filter fun f => (Text.dropLead? start f.long).isSome).map (·, attached)
  | '-' :: c :: value => ((p.ofLetter? c).map fun f => (f, Attached.toShort value)).toList
  | _ => []

/-- Is the text a run of digits, or one with a point before its last digits? -/
def isNumeral (t : Text) : Bool :=
  match t.dropWhile Text.isDigit with
  | [] => !t.isEmpty
  | '.' :: r => !r.isEmpty && r.all Text.isDigit
  | _ => false

/-- Does the word look like a negative number? A line end behind it does not count. -/
def isNegativeNumber (t : Text) : Bool :=
  match t with
  | '-' :: r => isNumeral r || (r.getLast? = some '\n' && isNumeral r.dropLast)
  | _ => false

/-- What a word before a divider is. -/
def Word.ofText (p : Page) (t : Text) : Except Problem Word :=
  if t.head? != some '-' then .ok (.plain t)
  else
    match p.flagOf? t with
    | some f => .ok (.flag t f .nothing)
    | none =>
      if t.length = 1 then .ok (.plain t)
      else
        match p.withValue? t with
        | some (f, attached) => .ok (.flag t f attached)
        | none =>
          match p.candidates t with
          | [(f, attached)] => .ok (.flag t f attached)
          | (f, _) :: more => .error (.ambiguous t (f :: more.map (·.1)))
          | [] =>
            if isNegativeNumber t || t.contains ' ' then .ok (.plain t) else .ok (.unknown t)

/-- What the words of a command line are. -/
def wordsOf (p : Page) : List Text → Except Problem (List Word)
  | [] => .ok []
  | t :: r =>
    if t = dividerText then .ok (.divider :: r.map .plain)
    else do
      let word ← Word.ofText p t
      return word :: (← wordsOf p r)

end PolicyTable.CommandLine
