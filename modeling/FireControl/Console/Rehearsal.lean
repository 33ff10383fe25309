import FireControl.Console.FileTree
import FireControl.Console.Host

/-!
# Rehearsals

A host in memory, on which a command can be tried without touching anything: its files are a file
tree, no file of it is a terminal, its clock only moves when a command waits, and it keeps
everything that the operator sees.

The operator sees the log and the texts that a command shows in one stream of lines. Only the first
line of an entry of the log can be told from a text; if the entry goes on, its other lines look like
any text. The operator of a rehearsal asks for the end as soon as a given text has come.

## Main definitions

* `Rehearsal`: The state of the host.
* `Rehearsal.Sight`: What the operator sees.
* `Rehearsal.shown`, `Rehearsal.errors`, `Rehearsal.log`: The lines that came out.
* `Rehearsal.host`: The host.
-/

namespace FireControl

/-- What the operator sees. -/
inductive Rehearsal.Sight where
  /-- An entry of the log. -/
  | entry (line : Log.Line)
  /-- A text, which ends with the end of a line. -/
  | text (text : String)
deriving DecidableEq, Repr

/-- A host in memory. -/
structure Rehearsal where
  files : FileTree
  clock : Instant
  /-- What the operator saw, the last first. -/
  seen : List Rehearsal.Sight
  /-- The reports of failures, the last one first. -/
  reported : List String
  /-- The text after which the operator asks for the end. -/
  awaited : Option String
  /-- Whether the text has come. -/
  ended : Bool

namespace Rehearsal

/-- The start of a rehearsal. -/
def start (files : List (String × ByteArray)) (awaited : Option String) : Rehearsal :=
  { files := .ofFiles files, clock := ⟨0⟩, seen := [], reported := [], awaited := awaited,
    ended := false }

/-- Whether a text holds another one. -/
def holds (text part : String) : Bool :=
  (text.splitOn part).length ≠ 1

/-- A line without the carriage return at its end. -/
def trimReturn (line : String) : String :=
  if line.endsWith "\r" then String.ofList line.toList.dropLast else line

/-- The lines of a text. -/
def linesOf (text : String) : List String :=
  let parts := text.splitOn "\n"
  parts.dropLast.map trimReturn ++ parts.getLast?.toList.filter fun part => part ≠ ""

namespace Sight

/-- What comes to the screen. -/
def onScreen : Sight → String
  | .entry line => line.full ++ "\n"
  | .text s => s

/-- The line that shows itself to be one of the log. -/
def logLine? (sight : Sight) : Option String :=
  match sight with
  | .entry _ => (linesOf sight.onScreen).head?
  | .text _ => none

/-- The other lines. -/
def otherLines (sight : Sight) : List String :=
  match sight with
  | .entry _ => (linesOf sight.onScreen).tail
  | .text _ => linesOf sight.onScreen

end Sight

/-- The lines that were shown. -/
def shown (r : Rehearsal) : List String := r.seen.reverse.flatMap Sight.otherLines

/-- The lines of the reports of failures. -/
def errors (r : Rehearsal) : List String := r.reported.reverse.flatMap linesOf

/-- The lines of the log. -/
def log (r : Rehearsal) : List String := r.seen.reverse.filterMap Sight.logLine?

/-- The state after the operator has seen something. -/
def see (r : Rehearsal) (sight : Sight) : Rehearsal :=
  { r with
    seen := sight :: r.seen
    ended := r.ended || (r.awaited.map (holds sight.onScreen)).getD false }

/-- The state after a report of a failure. -/
def report (r : Rehearsal) (text : String) : Rehearsal :=
  { r with reported := text :: r.reported }

/-- How often a step is repeated at most if the operator never asks for the end. -/
def patience : Nat := 1000

/-- At most `n` steps, until the operator asks for the end. -/
def repeated {σ : Type} (step : σ → StateM Rehearsal σ) : Nat → σ → StateM Rehearsal σ
  | 0, s => return s
  | n + 1, s => do
    if (← get).ended then return s
    repeated step n (← step s)

/-- An operation that changes the files if it succeeds. -/
def changing (change : FileTree → Except IoFailure FileTree) :
    StateM Rehearsal (Except IoFailure Unit) :=
  modifyGet fun r =>
    match change r.files with
    | .ok files => (.ok (), { r with files := files })
    | .error e => (.error e, r)

/-- Writes a text to a file; some files are what the operator sees. -/
def save (path text : String) : StateM Rehearsal (Except IoFailure Unit) := do
  match (← get).files.node path with
  | .ok .screen =>
    modify (·.see (.text text))
    return .ok ()
  | .ok .reports =>
    modify (·.report text)
    return .ok ()
  | _ => changing fun files => files.write path text.toUTF8

/-- The host. -/
def host : Host (StateM Rehearsal) where
  readFile path := return (← get).files.read path
  writeFile := save
  openLog path := changing fun files => files.createDirectories path
  openDevice path := return discard ((← get).files.node path)
  configureDevice _ := return .error "ENOTTY: Not a typewriter"
  writeDevice _ := return .error .notOpen
  log line := modify (·.see (.entry line))
  print text := modify (·.see (.text text))
  printError text := modify (·.report text)
  now := return (← get).clock
  entropy := return 0
  interrupted := return (← get).ended
  pause span := modify fun r => if r.ended then r else { r with clock := r.clock.after span }
  untilInterrupted step s := repeated step patience s

end Rehearsal

end FireControl
