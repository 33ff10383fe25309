import FireControl.Decimal.Literal

/-!
# Command-Line Options

Every option has a long name and perhaps a short one; it is a flag or takes one value of a given
kind. A value is the next argument or is attached to the option: to a long name with an equals sign,
to a short name with or without one. An argument that looks like an option is never taken as a
value, no option may occur twice, and a value has to be of the option's kind.

Arguments are looked at from left to right, and the first thing that ends the reading wins: a
request for help or for the version, or a mistake.

## Main definitions

* `CommandOption`: An option.
* `CommandOption.Value`: What was given for an option.
* `Interruption`: Why the reading ends early.
* `CommandOption.scan`: The options at the start of a list of arguments.
-/

namespace FireControl

/-- An option of a command. -/
inductive CommandOption.Kind where
  | flag
  | text
  /-- The name of a file, which cannot be empty. -/
  | path
  | word32
  | word64
  | single
deriving DecidableEq, Repr

/-- An option of a command. -/
structure CommandOption where
  long : String
  short : Option Char
  kind : CommandOption.Kind
  /-- What the help calls the value. -/
  placeholder : String
  /-- What the help says about the option. -/
  description : String

/-- Why the reading of arguments ends early. -/
inductive Interruption where
  | mistake
  | help
  | version
deriving DecidableEq, Repr

namespace CommandOption

/-- What was given for an option. -/
inductive Value where
  | flag
  | text (s : String)
  | word (n : Nat)
  | single (x : Float32)
deriving DecidableEq

/-- The options that were given, by their long names. -/
abbrev Given := List (String × Value)

/-- The value of a text. -/
def value? (kind : Kind) (text : String) : Option Value :=
  match kind with
  | .flag => none
  | .text => some (.text text)
  | .path => if text.isEmpty then none else some (.text text)
  | .word32 =>
    match Literal.integer? text.toList with
    | some n => if 0 ≤ n ∧ n < UInt32.size then some (.word n.toNat) else none
    | none => none
  | .word64 =>
    match Literal.natural? text.toList with
    | some n => if n < UInt64.size then some (.word n) else none
    | none => none
  | .single => (Literal.single? text.toList).map .single

/-- The option with a text for its value added to what was given. -/
def give (option : CommandOption) (text : String) (given : Given) : Except Interruption Given :=
  match value? option.kind text, given.lookup option.long with
  | some v, none => .ok (given ++ [(option.long, v)])
  | _, _ => .error .mistake

/-- The flag added to what was given. -/
def raise (option : CommandOption) (given : Given) : Except Interruption Given :=
  match given.lookup option.long with
  | none => .ok (given ++ [(option.long, .flag)])
  | some _ => .error .mistake

/-- What kind of thing an argument looks like. -/
inductive Shape where
  /-- The mark after which there are no options. -/
  | ending
  /-- A long name, perhaps with a value attached. -/
  | long (name : String) (attached : Option String)
  /-- A short name, perhaps with a value attached. -/
  | short (name : Char) (attached : Option String)
  /-- Anything else. -/
  | plain
deriving DecidableEq

/-- The text after an equals sign. -/
def afterEquals? : List Char → Option String
  | '=' :: cs => some (String.ofList cs)
  | _ => none

/-- The text attached to a short name; an equals sign may come first. -/
def attachedToShort? : List Char → Option String
  | [] => none
  | '=' :: cs => some (String.ofList cs)
  | cs => some (String.ofList cs)

/-- What an argument looks like. -/
def Shape.ofArgument (argument : String) : Shape :=
  match argument.toList with
  | ['-', '-'] => .ending
  | '-' :: '-' :: cs =>
    .long (String.ofList (cs.takeWhile (· ≠ '='))) (afterEquals? (cs.dropWhile (· ≠ '=')))
  | '-' :: c :: cs => .short c (attachedToShort? cs)
  | _ => .plain

/-- The option that an argument names, and the value attached to it. The version can be asked for
where `versioned` says so. -/
def named (options : List CommandOption) (versioned : Bool) :
    Shape → Except Interruption (CommandOption × Option String)
  | .long name attached =>
    if name = "help" ∧ attached.isNone then .error .help
    else if name = "version" ∧ attached.isNone ∧ versioned then .error .version
    else
      match options.find? fun o => o.long = name with
      | some option => .ok (option, attached)
      | none => .error .mistake
  | .short name attached =>
    if name = 'h' then .error .help
    else if name = 'V' ∧ versioned then .error .version
    else
      match options.find? fun o => o.short = some name with
      | some option => .ok (option, attached)
      | none => .error .mistake
  | .ending => .error .mistake
  | .plain => .error .mistake

/-- The options up to the first argument that is none, added to what was given, and the arguments
from there on. -/
def scan (options : List CommandOption) (versioned : Bool) (given : Given) :
    List String → Except Interruption (Given × List String)
  | [] => .ok (given, [])
  | argument :: rest =>
    match Shape.ofArgument argument with
    | .plain => .ok (given, argument :: rest)
    | .ending => if rest.isEmpty then .ok (given, []) else .error .mistake
    | shape =>
      match named options versioned shape with
      | .error e => .error e
      | .ok (option, attached) =>
        if option.kind = .flag then
          match attached, option.raise given with
          | none, .ok given => scan options versioned given rest
          | _, _ => .error .mistake
        else
          match attached with
          | some text =>
            match option.give text given with
            | .ok given => scan options versioned given rest
            | .error e => .error e
          | none =>
            match rest with
            | [] => .error .mistake
            | text :: rest =>
              match Shape.ofArgument text, option.give text given with
              | .plain, .ok given => scan options versioned given rest
              | _, _ => .error .mistake

namespace Given

/-- Whether a flag was given. -/
def flag (given : Given) (name : String) : Bool :=
  (given.lookup name).isSome

/-- The text given for an option. -/
def text? (given : Given) (name : String) : Option String :=
  match given.lookup name with
  | some (.text s) => some s
  | _ => none

/-- The number given for an option. -/
def word? (given : Given) (name : String) : Option Nat :=
  match given.lookup name with
  | some (.word n) => some n
  | _ => none

/-- The number given for an option. -/
def single? (given : Given) (name : String) : Option Float32 :=
  match given.lookup name with
  | some (.single x) => some x
  | _ => none

end Given

end CommandOption

end FireControl
