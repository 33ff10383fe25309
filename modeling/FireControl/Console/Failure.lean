import FireControl.Turret.Error

/-!
# Failures of Commands

A command that fails tells the operator what it was doing, and below that the causes, each the cause
of the one before.

## Main definitions

* `CommandFailure`: What failed, and the causes.
* `CommandFailure.text`: The report.
* `SettingsError.chain`, `LinkError.chain`: An error with its causes.
-/

namespace FireControl

/-- What failed, and the causes, each the cause of the one before. -/
structure CommandFailure where
  message : String
  causes : List String
deriving DecidableEq, Repr

/-- An error of the settings and what caused it. -/
def SettingsError.chain (e : SettingsError) : List String :=
  match e with
  | .io cause => [e.message, cause.text]
  | .parse _ => [e.message]
  | .invalid _ => [e.message]

/-- An error of a link and what caused it. -/
def LinkError.chain (e : LinkError) : List String :=
  match e with
  | .io cause => [e.message, cause.text]
  | .terminal _ => [e.message]
  | .notOpen => [e.message]
  | .shortWrite _ _ => [e.message]
  | .unsupportedPlatform => [e.message]

namespace CommandFailure

/-- The failure of what was being done because of an error and its causes. -/
def during (message : String) (chain : List String) : CommandFailure :=
  ⟨message, chain⟩

/-- The failure that an error is, with its causes. -/
def ofChain : List String → CommandFailure
  | [] => ⟨"", []⟩
  | message :: causes => ⟨message, causes⟩

/-- The lines of the causes: a single one has no number. -/
def causeLines : List String → String
  | [] => ""
  | [cause] => "\n\nCaused by:\n    " ++ cause
  | causes =>
    "\n\nCaused by:" ++ String.join (causes.mapIdx fun i cause => s!"\n    {i}: {cause}")

/-- The report of a failure. -/
def text (f : CommandFailure) : String :=
  "Error: " ++ f.message ++ causeLines f.causes ++ "\n"

end CommandFailure

end FireControl
