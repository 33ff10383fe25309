import FireControl.Decimal.Digits

/-!
# Log Lines

Operations that report something to the operator return the lines they report, in order. Where a
line goes, and whether a time stamp stands in front of it, is decided by whoever runs them.

A text may come from outside, with characters in it that a terminal obeys instead of showing them.
Where a line is shown, the numbers of such characters stand in their place, so that nobody can take
over the terminal through a line of the log. White space stays as it is, line breaks included.

## Main definitions

* `Log.Level`: How serious a line is.
* `Log.Source`: The part of the program that reports.
* `Log.Line`: A line of the log.
* `Log.shown`: A text as a terminal shows it.
* `Log.Line.brief`, `Log.Line.full`: The text of a line.
-/

namespace FireControl

namespace Log

/-- How serious a line is. -/
inductive Level where
  | error
  | warn
  | info
deriving DecidableEq, Repr

/-- The name of a level in the log. -/
def Level.label : Level → String
  | .error => "ERROR"
  | .warn => "WARN"
  | .info => "INFO"

/-- The part of the program that reports. -/
inductive Source where
  | commands
  | runCommand
  | sendTest
  | settings
  | serial
  | terminal
  | dryRun
  | assembly
  | turret
  | estimation
  | stages
deriving DecidableEq, Repr

/-- The name of a source in the log. -/
def Source.label : Source → String
  | .commands => "calibur::commands"
  | .runCommand => "calibur::commands::run"
  | .sendTest => "calibur::commands::send_test"
  | .settings => "calibur_tools::config"
  | .serial => "calibur_serial"
  | .terminal => "calibur_serial::tty"
  | .dryRun => "calibur_serial::dry_run"
  | .assembly => "calibur_driver::builder"
  | .turret => "calibur_driver::turret"
  | .estimation => "calibur_driver::estimation"
  | .stages => "calibur_driver::pipeline"

/-- A line of the log. -/
structure Line where
  level : Level
  source : Source
  text : String
deriving DecidableEq, Repr

/-- The line without its source. -/
def Line.brief (line : Line) : String :=
  line.level.label ++ " " ++ line.text

/-- Whether a terminal obeys a character. -/
def isTerminalControl (c : Char) : Bool :=
  c = '\x07' || c = '\x08' || c = '\x0c' || c = '\x1b' || (0x7F ≤ c.toNat && c.toNat ≤ 0x9F)

/-- The number of a character in hexadecimal digits, as it stands in place of the character. -/
def numbered (c : Char) : String :=
  let digits := String.ofList (padLeft 2 '0' (Nat.toDigits 16 c.toNat))
  if c.toNat < 0x80 then "\\x" ++ digits else "\\u\x7b" ++ digits ++ "\x7d"

/-- A text as a terminal shows it. -/
def shown (text : String) : String :=
  String.join (text.toList.map fun c => if isTerminalControl c then numbered c else c.toString)

/-- The line as the terminal shows it after the time stamp. -/
def Line.full (line : Line) : String :=
  line.level.label ++ " " ++ line.source.label ++ ": " ++ shown line.text

/-- A line for the operator's information. -/
def info (source : Source) (text : String) : Line := ⟨.info, source, text⟩

/-- A warning. -/
def warn (source : Source) (text : String) : Line := ⟨.warn, source, text⟩

/-- A report of a failure. -/
def error (source : Source) (text : String) : Line := ⟨.error, source, text⟩

end Log

end FireControl
