import StackAsm.Text.Decimal

/-!
# Reading command-line arguments

A command has options, at most one operand, and possibly subcommands.  An
option is a flag, asks for help or the version, or takes a value, which either
is attached to it or is the next word.  Two hyphens end the options.

Arguments are read from left to right.  A value given as a word of its own and
an operand are examined when the next known argument arrives, or at the end, so
an unknown argument directly after a bad value is what is reported.
-/

set_option autoImplicit false

namespace StackAsm.CommandLine

inductive Rejection where
  | unknownSubcommand
  | missingOperand
  | unknownArgument
  | invalidValue
  | invalidNumber
  | repeatedArgument
  | surplusValue
  | missingSubcommand
  | noArguments
  | helpRequested
  | versionRequested
deriving DecidableEq, Repr

/-- A test for a value; a value that fails has a reason. -/
abbrev Check := String → Option Rejection

def anyText : Check := fun _ => none

def nonEmptyPath : Check := fun text =>
  if text.isEmpty then some .invalidValue else none

def oneOf (words : List String) : Check := fun text =>
  if text ∈ words then none else some .invalidValue

def wordNumber : Check := fun text =>
  match Text.Decimal.readWord text with
  | .ok _ => none
  | .error _ => some .invalidNumber

inductive Role where
  | flag
  | help
  | version
  | value (check : Check)

structure Spec where
  /-- The name after two hyphens. -/
  name : String
  /-- The letter after one hyphen. -/
  letter : Option Char := none
  role : Role

/-- The arguments a command takes. -/
structure Grammar where
  options : List Spec
  /-- The test for the operand, if the command has one. -/
  operand : Option Check := none
  subcommands : List String := []

structure Given where
  flags : List String := []
  values : List (String × String) := []
  operand : Option String := none

namespace Given

def hasFlag (given : Given) (name : String) : Bool :=
  given.flags.contains name

def value? (given : Given) (name : String) : Option String :=
  given.values.lookup name

def addFlag (given : Given) (name : String) : Except Rejection Given :=
  if given.hasFlag name then .error .repeatedArgument
  else .ok { given with flags := name :: given.flags }

def addValue (given : Given) (name : String) (check : Check) (text : String) :
    Except Rejection Given :=
  if (given.value? name).isSome then .error .repeatedArgument
  else
    match check text with
    | some rejection => .error rejection
    | none => .ok { given with values := (name, text) :: given.values }

def addOperand (given : Given) (check : Check) (text : String) : Except Rejection Given :=
  match check text with
  | some rejection => .error rejection
  | none => .ok { given with operand := some text }

end Given

/-- An argument read but not yet examined. -/
inductive Pending where
  | nothing
  /-- An option that waits for its value. -/
  | option (name : String) (check : Check)
  | value (name : String) (check : Check) (text : String)
  | operand (check : Check) (text : String)

structure Scan where
  given : Given := {}
  pending : Pending := .nothing
  /-- Whether the operand was met. -/
  operandSeen : Bool := false
  /-- Whether the options have ended. -/
  optionsEnded : Bool := false

def Scan.settle (scan : Scan) : Except Rejection Given :=
  match scan.pending with
  | .nothing => .ok scan.given
  | .option _ _ => .error .invalidValue
  | .value name check text => scan.given.addValue name check text
  | .operand check text => scan.given.addOperand check text

/-- Examines the pending argument and waits for nothing. -/
def Scan.settled (scan : Scan) : Except Rejection Scan :=
  match scan.settle with
  | .error rejection => .error rejection
  | .ok given => .ok { scan with given := given, pending := .nothing }

inductive Word where
  | escape
  | long (name : String) (attached : Option String)
  | short (letter : Char) (rest : List Char)
  | plain (text : String)
deriving DecidableEq, Repr

def splitEquals (body : List Char) : String × Option String :=
  match body.dropWhile (· ≠ '=') with
  | [] => (String.ofList body, none)
  | _ :: attached => (String.ofList (body.takeWhile (· ≠ '=')), some (String.ofList attached))

/-- The form of a word while options are read.  A lone hyphen is plain. -/
def Word.ofString (text : String) : Word :=
  match text.toList with
  | ['-', '-'] => .escape
  | '-' :: '-' :: body => .long (splitEquals body).1 (splitEquals body).2
  | '-' :: letter :: rest => .short letter rest
  | _ => .plain text

/-- Where reading goes on after a word. -/
inductive Progress where
  | next (scan : Scan)
  | subcommand (given : Given) (name : String)

def readOption (scan : Scan) (spec : Spec) (attached : Option String) :
    Except Rejection Progress :=
  match spec.role, attached with
  | .value check, some text =>
    match scan.settled with
    | .error rejection => .error rejection
    | .ok scan =>
      match scan.given.addValue spec.name check text with
      | .error rejection => .error rejection
      | .ok given => .ok (.next { scan with given := given })
  | .value check, none =>
    match scan.settled with
    | .error rejection => .error rejection
    | .ok scan => .ok (.next { scan with pending := .option spec.name check })
  | _, some _ => .error .surplusValue
  | .flag, none =>
    match scan.settled with
    | .error rejection => .error rejection
    | .ok scan =>
      match scan.given.addFlag spec.name with
      | .error rejection => .error rejection
      | .ok given => .ok (.next { scan with given := given })
  | .help, none =>
    match scan.settled with
    | .error rejection => .error rejection
    | .ok _ => .error .helpRequested
  | .version, none =>
    match scan.settled with
    | .error rejection => .error rejection
    | .ok _ => .error .versionRequested

/-- The text attached to an option letter: what follows it in the word, after
an equals sign if there is one.  Only an option with a value takes it. -/
def attachedToLetter (spec : Spec) (rest : List Char) : Option String :=
  match spec.role, rest with
  | .value _, [] => none
  | .value _, '=' :: text => some (String.ofList text)
  | .value _, text => some (String.ofList text)
  | _, _ => none

/-- Reads a word that is no option: the value an option waits for, a
subcommand, or the operand. -/
def readPlain (grammar : Grammar) (scan : Scan) (text : String) : Except Rejection Progress :=
  match scan.pending, scan.optionsEnded with
  | .option name check, false => .ok (.next { scan with pending := .value name check text })
  | _, ended =>
    if !grammar.subcommands.isEmpty then
      if text ∉ grammar.subcommands then .error .unknownSubcommand
      else if ended then .error .unknownArgument
      else scan.settle.map fun given => .subcommand given text
    else
      match grammar.operand, scan.operandSeen with
      | some check, false =>
        match scan.settled with
        | .error rejection => .error rejection
        | .ok scan => .ok (.next { scan with pending := .operand check text, operandSeen := true })
      | _, _ => .error .unknownArgument

def readWord (grammar : Grammar) (scan : Scan) (text : String) : Except Rejection Progress :=
  if scan.optionsEnded then readPlain grammar scan text
  else
    match Word.ofString text with
    | .escape => .ok (.next { scan with optionsEnded := true })
    | .long name attached =>
      match grammar.options.find? fun spec => spec.name = name with
      | some spec => readOption scan spec attached
      | none => .error .unknownArgument
    | .short letter rest =>
      match grammar.options.find? fun spec => spec.letter = some letter with
      | some spec => readOption scan spec (attachedToLetter spec rest)
      | none => .error .unknownArgument
    | .plain text => readPlain grammar scan text

/-- Reads arguments up to the end or to a subcommand, which is given with the
arguments after it. -/
def readAll (grammar : Grammar) (scan : Scan) :
    List String → Except Rejection (Given × Option (String × List String))
  | [] => scan.settle.map fun given => (given, none)
  | word :: rest =>
    match readWord grammar scan word with
    | .error rejection => .error rejection
    | .ok (.next scan) => readAll grammar scan rest
    | .ok (.subcommand given name) => .ok (given, some (name, rest))

def readCommand (grammar : Grammar) (arguments : List String) :
    Except Rejection (Given × String) :=
  match readAll grammar {} arguments with
  | .error rejection => .error rejection
  | .ok (given, _) =>
    match given.operand with
    | none => .error .missingOperand
    | some operand => .ok (given, operand)

def helpOption : Spec :=
  ⟨"help", some 'h', .help⟩

def versionOption : Spec :=
  ⟨"version", some 'V', .version⟩

def limitOption : Spec :=
  ⟨"max-steps", none, .value wordNumber⟩

def Given.limit? (given : Given) : Option Nat :=
  match given.value? "max-steps" with
  | none => none
  | some text =>
    match Text.Decimal.readWord text with
    | .ok limit => some limit
    | .error _ => none

end StackAsm.CommandLine
