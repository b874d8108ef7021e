import ModuleDeps.Text.Number
import ModuleDeps.Text.Quoted

/-!
# Flags

Flags are written `--name value`, `--name=value`, `--name` when they are
switches, or with a single letter behind one dash.  Flags and arguments may be
mixed; everything behind `--` is an argument.
-/

set_option autoImplicit false

namespace ModuleDeps.Command

inductive FlagKind
  | switch
  | text
  | number
deriving DecidableEq, Repr

structure Flag where
  name : String
  letter : Option UInt8 := none
  kind : FlagKind
  usage : String
  standard : Text := []
deriving DecidableEq, Repr

inductive FlagValue
  | switch (on : Bool)
  | text (t : Text)
  | number (n : Int)
deriving DecidableEq, Repr

inductive ValueError
  | switch (value : Text)
  | number (value : Text) (cause : Text.NumberError)
deriving DecidableEq, Repr

def ValueError.message : ValueError → Text
  | .switch value =>
    utf8 "strconv.ParseBool: parsing " ++ value.quoted ++ utf8 ": invalid syntax"
  | .number value .malformed =>
    utf8 "strconv.ParseInt: parsing " ++ value.quoted ++ utf8 ": invalid syntax"
  | .number value .outOfRange =>
    utf8 "strconv.ParseInt: parsing " ++ value.quoted ++ utf8 ": value out of range"

inductive UsageError
  | badFlag (arg : Text)
  | unknownFlag (name : Text)
  | unknownLetter (letter : UInt8) (letters : Text)
  | missingValue (name : Text)
  | invalidValue (flag : Flag) (value : Text) (cause : ValueError)
  | unknownCommand (arg : Text)
  | wrongCount (wanted : String) (count : Nat)
deriving DecidableEq, Repr

def Flag.label (f : Flag) : Text :=
  match f.letter with
  | some letter => utf8 "-" ++ [letter] ++ utf8 ", --" ++ utf8 f.name
  | none => utf8 "--" ++ utf8 f.name

def UsageError.message : UsageError → Text
  | .badFlag arg => utf8 "bad flag syntax: " ++ arg
  | .unknownFlag name => utf8 "unknown flag: --" ++ name
  | .unknownLetter letter letters =>
    utf8 "unknown shorthand flag: " ++
      Text.quotedWith Text.squote (Text.encode letter.toNat) ++ utf8 " in -" ++ letters
  | .missingValue name => utf8 "flag needs an argument: --" ++ name
  | .invalidValue flag value cause =>
    utf8 "invalid argument " ++ value.quoted ++ utf8 " for " ++ flag.label.quoted ++
      utf8 " flag: " ++ cause.message
  | .unknownCommand arg => utf8 "unknown command " ++ arg.quoted ++ utf8 " for \"wiseimport\""
  | .wrongCount wanted count =>
    utf8 "accepts " ++ utf8 wanted ++ utf8 " arg(s), received " ++ Text.ofNat count

/-! ## Values -/

def trueWords : List String := ["1", "t", "T", "true", "TRUE", "True"]

def falseWords : List String := ["0", "f", "F", "false", "FALSE", "False"]

def Flag.read (f : Flag) (value : Text) : Except ValueError FlagValue :=
  match f.kind with
  | .text => .ok (.text value)
  | .switch =>
    if trueWords.any fun w => utf8 w == value then .ok (.switch true)
    else if falseWords.any fun w => utf8 w == value then .ok (.switch false)
    else .error (.switch value)
  | .number =>
    match Text.readInt value with
    | .ok n => .ok (.number n)
    | .error cause => .error (.number value cause)

/-! ## Parsing -/

/-- The flags set, the last first, and the arguments. -/
structure Parsed where
  flags : List (String × FlagValue) := []
  args : List Text := []
deriving DecidableEq, Repr

namespace Parsed

def set (p : Parsed) (f : Flag) (value : Text) : Except UsageError Parsed :=
  match f.read value with
  | .ok v => .ok { p with flags := (f.name, v) :: p.flags }
  | .error cause => .error (.invalidValue f value cause)

def find? (p : Parsed) (name : String) : Option FlagValue :=
  (p.flags.find? fun row => row.1 == name).map Prod.snd

def switch (p : Parsed) (name : String) : Bool := p.find? name == some (.switch true)

def text (p : Parsed) (name : String) (standard : Text) : Text :=
  match p.find? name with
  | some (.text t) => t
  | _ => standard

def number (p : Parsed) (name : String) : Int :=
  match p.find? name with
  | some (.number n) => n
  | _ => 0

end Parsed

def named? (flags : List Flag) (name : Text) : Option Flag :=
  flags.find? fun f => utf8 f.name == name

def lettered? (flags : List Flag) (letter : UInt8) : Option Flag :=
  flags.find? fun f => f.letter == some letter

def splitValue (t : Text) : Text × Option Text :=
  let name := t.takeWhile (· != 0x3D)
  match t.drop name.length with
  | [] => (name, none)
  | _ :: value => (name, some value)

/-- A run of letters behind one dash.  Only switches have letters, so a letter
takes no further argument.  Letters that belong to a test run are passed over. -/
def parseLetters (flags : List Flag) : Text → Parsed → Except UsageError Parsed
  | [], p => .ok p
  | letter :: rest, p =>
    if Text.startsWith (letter :: rest) (utf8 "test.") then .ok p
    else
      match lettered? flags letter with
      | none => .error (.unknownLetter letter (letter :: rest))
      | some f =>
        match rest with
        | 0x3D :: b :: value => p.set f (b :: value)
        | _ =>
          match p.set f (utf8 "true") with
          | .ok p => parseLetters flags rest p
          | .error e => .error e

/-- Parses arguments from the left.  `pending` is a flag that waits for its
value. -/
def parseFrom (flags : List Flag) : Option Flag → Parsed → List Text →
    Except UsageError Parsed
  | none, p, [] => .ok p
  | some f, _, [] => .error (.missingValue (utf8 f.name))
  | some f, p, arg :: rest =>
    match p.set f arg with
    | .ok p => parseFrom flags none p rest
    | .error e => .error e
  | none, p, arg :: rest =>
    match arg with
    | 0x2D :: 0x2D :: [] => .ok { p with args := p.args ++ rest }
    | 0x2D :: 0x2D :: flag =>
      if flag.head? = some 0x2D ∨ flag.head? = some 0x3D then .error (.badFlag arg)
      else
        let (name, value) := splitValue flag
        match named? flags name with
        | none => .error (.unknownFlag name)
        | some f =>
          match value, f.kind with
          | some value, _ =>
            match p.set f value with
            | .ok p => parseFrom flags none p rest
            | .error e => .error e
          | none, .switch =>
            match p.set f (utf8 "true") with
            | .ok p => parseFrom flags none p rest
            | .error e => .error e
          | none, _ => parseFrom flags (some f) p rest
    | 0x2D :: b :: letters =>
      match parseLetters flags (b :: letters) p with
      | .ok p => parseFrom flags none p rest
      | .error e => .error e
    | _ => parseFrom flags none { p with args := p.args ++ [arg] } rest

def parse (flags : List Flag) (args : List Text) : Except UsageError Parsed :=
  parseFrom flags none {} args

end ModuleDeps.Command
