import FireControl.Console.Help
import FireControl.Console.Run
import FireControl.Console.SendTest

/-!
# Program

The program from its arguments to its exit status: zero when the command succeeded, one when it
failed, two when the arguments make no sense.

## Main definitions

* `ExitStatus`: How the program ended.
* `Host.execute`: Carries out a command.
* `Host.program`: The program.
-/

namespace FireControl

/-- How the program ended. -/
inductive ExitStatus where
  | success
  | failure
  | usage
deriving DecidableEq, Repr

/-- The number of a status. -/
def ExitStatus.code : ExitStatus → UInt32
  | .success => 0
  | .failure => 1
  | .usage => 2

namespace Host

variable {m : Type → Type} [Monad m] [ElementaryFunctions]

/-- Carries out a command. -/
def execute (host : Host m) : Command → m (Except CommandFailure Unit)
  | .run options => host.run options
  | .sendTest options => host.sendTest options
  | .config options => host.configure options

/-- Prepares the directory for log files, if there is to be one. -/
def prepareLog (host : Host m) : Option String → m (Except CommandFailure Unit)
  | none => return .ok ()
  | some directory => do
    return (← host.openLog directory).mapError fun e =>
      .during ("Failed to create log directory " ++ directory) [e.text]

/-- Carries out a command with a log. -/
def perform (host : Host m) (logDir : Option String) (command : Command) :
    m (Except CommandFailure Unit) := do
  match ← host.prepareLog logDir with
  | .error e => return .error e
  | .ok () => host.execute command

/-- The program. -/
def program (host : Host m) (arguments : List String) : m ExitStatus := do
  match Request.ofArguments arguments with
  | .mistake =>
    host.printError "error: invalid arguments\n\nFor more information, try '--help'.\n"
    return .usage
  | .help topic =>
    host.print (Help.text topic)
    return .success
  | .version =>
    host.print Help.version
    return .success
  | .command logDir command =>
    match ← host.perform logDir command with
    | .ok () => return .success
    | .error e =>
      host.printError e.text
      return .failure

end Host

end FireControl
