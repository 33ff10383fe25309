import FireControl.Console.Program
import Std.Async.Signal
import Std.Time

/-!
# Main

The program on a real system: files, the clock, the interrupt signal, and a serial device that is
written to as a file.

A device has to be a terminal. Its line settings are left as they are, since they are set with the
tools of the system.

## Main definitions

* `Station`: What the host has to remember.
* `Station.host`: The host.
* `main`: The program.
-/

namespace FireControl

/-- What the operating system said about a failed operation. -/
def IoFailure.ofError (e : IO.Error) : IoFailure :=
  match e with
  | .noFileOrDirectory _ _ _ => .notFound
  | .permissionDenied _ _ _ => .permissionDenied
  | .alreadyExists _ _ _ => .alreadyExists
  | .inappropriateType _ code _ => if code = 20 then .notADirectory else .isADirectory
  | .resourceExhausted _ code _ =>
    if code = 28 then .storageFull else ⟨.other, toString e⟩
  | _ => ⟨.other, toString e⟩

/-- What the host has to remember. -/
structure Station where
  /-- The open serial device. -/
  device : IO.Ref (Option IO.FS.Handle)
  /-- The directory for log files. -/
  logDir : IO.Ref (Option String)
  /-- What is resolved by the operator's request for the end, once somebody wants to know of it. -/
  interrupt : IO.Ref (Option (Std.Async.AsyncTask Int))

namespace Station

/-- The outcome of an operation on a file. -/
def attempt {α : Type} (action : IO α) : IO (Except IoFailure α) := do
  match ← action.toBaseIO with
  | .ok a => return .ok a
  | .error e => return .error (.ofError e)

/-- Listens to the interrupt signal. -/
def arm (station : Station) : IO (Std.Async.AsyncTask Int) := do
  match ← station.interrupt.get with
  | some task => return task
  | none =>
    let waiter ← Std.Async.Signal.Waiter.mk .sigint true
    let task ← waiter.wait
    station.interrupt.set (some task)
    return task

/-- Whether the operator has asked for the end. -/
def interrupted (station : Station) : IO Bool := do
  IO.hasFinished (← station.arm)

/-- Waits, in pieces after each of which the operator may have asked for the end. -/
partial def pause (station : Station) (milliseconds : Nat) : IO Unit := do
  if milliseconds = 0 then return
  if ← station.interrupted then return
  let piece := min milliseconds 50
  IO.sleep piece.toUInt32
  station.pause (milliseconds - piece)

/-- Repeats a step until the operator asks for the end. -/
partial def untilInterrupted (station : Station) {σ : Type} (step : σ → IO σ) (s : σ) : IO σ := do
  if ← station.interrupted then return s
  station.untilInterrupted step (← step s)

/-- Shows a line of the log, and adds it to the file of the day. -/
def log (station : Station) (line : Log.Line) : IO Unit := do
  let now := Std.Time.DateTime.ofTimestampWithZone (← Std.Time.Timestamp.now) .UTC
  let text := now.format "uuuu-MM-dd'T'HH:mm:ss.SSSSSS'Z'" ++
    String.ofList (padLeft 6 ' ' line.level.label.toList) ++ " " ++ line.source.label ++ ": " ++
    Log.shown line.text ++ "\n"
  let out ← IO.getStdout
  out.putStr text
  out.flush
  if let some dir ← station.logDir.get then
    let file ← IO.FS.Handle.mk (dir ++ "/calibur.log." ++ now.format "uuuu-MM-dd") .append
    file.putStr text

/-- Opens a file as a serial device. -/
def openDevice (station : Station) (path : String) : IO (Except IoFailure Unit) :=
  attempt do
    station.device.set (some (← IO.FS.Handle.mk path .readWrite))

/-- Whether the open device is a terminal. -/
def configureDevice (station : Station) : IO (Except String Unit) := do
  match ← station.device.get with
  | none => return .error "EBADF: Bad file number"
  | some handle =>
    if ← handle.isTty then return .ok ()
    station.device.set none
    return .error "ENOTTY: Not a typewriter"

/-- Writes bytes to the open device. -/
def writeDevice (station : Station) (bytes : List UInt8) : IO (Except LinkError Unit) := do
  match ← station.device.get with
  | none => return .error .notOpen
  | some handle =>
    let written ← attempt do
      handle.write ⟨bytes.toArray⟩
      handle.flush
    return written.mapError .io

/-- The real system. -/
def host (station : Station) : Host IO where
  readFile path := attempt (IO.FS.readBinFile path)
  writeFile path text := attempt (IO.FS.writeFile path text)
  openLog path := attempt do
    IO.FS.createDirAll path
    station.logDir.set (some path)
  openDevice := station.openDevice
  configureDevice _ := station.configureDevice
  writeDevice := station.writeDevice
  log := station.log
  print text := do
    let out ← IO.getStdout
    out.putStr text
    out.flush
  printError text := do
    (← IO.getStderr).putStr text
  now := return ⟨← IO.monoNanosNow⟩
  entropy := do
    let bytes ← IO.getRandomBytes 8
    return bytes.toList.foldl (fun n b => n * 256 + b.toUInt64) 0
  interrupted := station.interrupted
  pause span := station.pause (span.nanoseconds / 1000000)
  untilInterrupted := station.untilInterrupted

end Station

end FireControl

/-- The program. -/
def main (arguments : List String) : IO UInt32 := do
  let station : FireControl.Station := ⟨← IO.mkRef none, ← IO.mkRef none, ← IO.mkRef none⟩
  let _ : FireControl.ElementaryFunctions := .native
  let status ← station.host.program arguments
  return status.code
