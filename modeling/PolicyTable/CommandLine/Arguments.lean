import PolicyTable.CommandLine.Word

/-!
# `PolicyTable.CommandLine.Arguments` — what a command line asks for

The words are taken from left to right. On the level of the program the first plain word is the
command and all words after it belong to it. On the level of the command the first plain word is the
directory. Words that have no use are extras, and extras are refused at the end.

## Contents
- **Flags.** `Effect`, what the flags of one word do; `effectOf` finds it.
- **Command.** `DocState` and `docArguments`; `Refusal` says why a command line is not run.
- **Program.** `Request` and `parse`.
-/

namespace PolicyTable.CommandLine

/-! ## Flags -/

/-- What the flags of one word do: ask for help, give the name of the document, and use up the next
    word. -/
structure Effect where
  asksHelp : Bool := false
  output? : Option Text := none
  usesNext : Bool := false
  deriving DecidableEq, Repr

/-- The effect of the flag for the name of the document. Its value is attached or the next plain
    word. -/
def outputEffect (next? : Option Text) : Attached → Except Problem Effect
  | .toLong value | .toShort value => .ok { output? := some value }
  | .nothing =>
    match next? with
    | some value => .ok { output? := some value, usesNext := true }
    | none => .error (.missingValue .output)

/-- The effect of the letters behind the letter of the help flag, each of which has to be a flag. What
    stands behind the letter of the flag for the name of the document is its value. -/
def behindHelp (p : Page) (next? : Option Text) : Text → Except Problem Effect
  | [] => .ok { asksHelp := true }
  | c :: r =>
    match p.ofLetter? c with
    | none => .error (.unwantedValue .help (c :: r))
    | some .help => behindHelp p next? r
    | some .output =>
      (outputEffect next? (if r.isEmpty then .nothing else .toShort r)).map
        fun e => { e with asksHelp := true }

/-- The effect of the flags of one word, where `next?` is the next word if it is plain. -/
def effectOf (p : Page) (next? : Option Text) : Flag → Attached → Except Problem Effect
  | .output, attached => outputEffect next? attached
  | .help, .nothing => .ok { asksHelp := true }
  | .help, .toLong value => .error (.unwantedValue .help value)
  | .help, .toShort [] => .error (.unwantedValue .help [])
  | .help, .toShort value => behindHelp p next? value

/-! ## Command -/

/-- What the arguments of the command have given so far. -/
structure DocState where
  directory? : Option Text := none
  output? : Option Text := none
  extras : List Text := []
  deriving DecidableEq, Repr

/-- Why a command line is not run: help was asked for, or there is a problem. -/
inductive Refusal
  | help (page : Page)
  | problem (page : Page) (problem : Problem)
  deriving DecidableEq, Repr

/-- The state after a word with flags. -/
def DocState.flag (s : DocState) (e : Effect) : Except Refusal DocState :=
  if e.asksHelp then .error (.help .doc)
  else .ok { s with output? := e.output?.or s.output? }

/-- The state after a plain word: the first one is the directory. -/
def DocState.plain (s : DocState) (t : Text) : DocState :=
  match s.directory? with
  | none => { s with directory? := some t }
  | some _ => { s with extras := s.extras ++ [t] }

/-- The first word if it is plain. -/
def plainHead? : List Word → Option Text
  | .plain t :: _ => some t
  | _ => none

/-- The state after all words, where the first one is passed over if it has been used up. A divider is
    dropped next to the directory and an extra elsewhere. -/
def docArguments : (usedUp : Bool) → List Word → DocState → Except Refusal DocState
  | _, [], s => .ok s
  | true, _ :: r, s => docArguments false r s
  | false, .unknown t :: r, s => docArguments false r { s with extras := s.extras ++ [t] }
  | false, .flag _ f attached :: r, s => do
    let e ← (effectOf .doc (plainHead? r) f attached).mapError (.problem .doc)
    docArguments e.usesNext r (← s.flag e)
  | false, .plain t :: .divider :: r, s =>
    match s.directory? with
    | none => docArguments false r (s.plain t)
    | some _ => docArguments false r { s with extras := s.extras ++ [t, dividerText] }
  | false, .plain t :: r, s => docArguments false r (s.plain t)
  | false, .divider :: .plain t :: r, s =>
    match s.directory? with
    | none => docArguments false r (s.plain t)
    | some _ => docArguments false r { s with extras := s.extras ++ [dividerText, t] }
  | false, .divider :: r, s => docArguments false r { s with extras := s.extras ++ [dividerText] }

/-! ## Program -/

/-- What the command is asked for. -/
structure Request where
  directory : Text
  output : Text
  deriving DecidableEq, Repr

/-- The name of the document if the command line gives none. -/
def defaultOutput : Text := "policies.md".toList

/-- The words of the program before the command, and the command with its words. -/
def commandOf : List Word → (extras : List Text) → Except Refusal (List Text × Text × List Text)
  | [], _ => .error (.problem .program (.required "command".toList))
  | .unknown t :: r, extras => commandOf r (extras ++ [t])
  | .plain t :: r, extras => .ok (extras, t, r.map (·.text))
  | .divider :: [], extras => commandOf [] (extras ++ [dividerText])
  | .divider :: r, extras => .ok (extras, dividerText, r.map (·.text))
  | .flag _ f attached :: r, extras => do
    let e ← (effectOf .program none f attached).mapError (.problem .program)
    if e.asksHelp then .error (.help .program) else commandOf r extras

/-- What a command line asks for, or why it is not run. -/
def parse (arguments : List Text) : Except Refusal Request := do
  let words ← (wordsOf .program arguments).mapError (.problem .program)
  let (extras, command, rest) ← commandOf words []
  if command ≠ commandName then .error (.problem .program (.invalidCommand command))
  else
    let words ← (wordsOf .doc rest).mapError (.problem .doc)
    let s ← docArguments false words {}
    match s.directory? with
    | none => .error (.problem .doc (.required "directory".toList))
    | some directory =>
      let extras := extras ++ s.extras
      if extras.isEmpty then .ok ⟨directory, s.output?.getD defaultOutput⟩
      else .error (.problem .program (.unrecognized extras))

end PolicyTable.CommandLine
