import FireControl.Console.Failure
import FireControl.Console.Host
import FireControl.Serial.DryRun

/-!
# Connections

The link of a command: a dry run, or a serial device of the host. A pipeline wants a link that it
can write to by itself, and the host writes with effects; so a connection to a device answers a
write with an outcome that was fixed beforehand and keeps the bytes, and whoever runs the pipeline
lets the host write them and goes on with the outcome that they really had.

## Main definitions

* `Connection`: A connection.
* `Connection.link`: It as a link.
* `Host.connect`: Opens a connection.
* `Host.send`: Sends a packet over it.
-/

namespace FireControl

/-- The link of a command. -/
inductive Connection where
  | dryRun (run : DryRun)
  /-- A serial device: what is to be written, and the outcome of writes. -/
  | device (pending : List (List UInt8)) (outcome : Except LinkError Unit)

namespace Connection

/-- A connection as a link. -/
def link : Link Connection where
  write connection bytes :=
    match connection with
    | .dryRun run =>
      let delivery := DryRun.link.write run bytes
      ⟨.dryRun delivery.state, delivery.result, delivery.log⟩
    | .device pending outcome => ⟨.device (pending ++ [bytes]) outcome, outcome, []⟩

/-- What the host still has to write. -/
def pending : Connection → List (List UInt8)
  | .dryRun _ => []
  | .device pending _ => pending

/-- The connection with nothing to write and an outcome for the next write. -/
def expecting (outcome : Except LinkError Unit) : Connection → Connection
  | .dryRun run => .dryRun run
  | .device _ _ => .device [] outcome

end Connection

namespace Host

variable {m : Type → Type} [Monad m]

/-- Opens a serial device and makes it a raw terminal. -/
def openTerminal (host : Host m) (device : String) (rate : BaudRate) :
    m (Except LinkError Unit) := do
  host.log (Log.info .terminal ("Opening serial device: " ++ device))
  match ← host.openDevice device with
  | .error e =>
    host.log (Log.error .terminal s!"Failed to open serial device {device}: {e.text}")
    return .error (.io e)
  | .ok () =>
    host.log (Log.info .terminal s!"Configuring serial device with baudrate: {rate.toNat}")
    match ← host.configureDevice rate with
    | .error text =>
      host.log (Log.error .terminal ("Error getting termios attributes: " ++ text))
      host.log (Log.info .terminal ("Closing serial device: " ++ device))
      return .error (.terminal text)
    | .ok () =>
      host.log (Log.info .terminal "Serial device configured successfully")
      return .ok ()

/-- Opens a connection: a dry run, or a serial device of a line speed in bits per second. -/
def connect (host : Host m) (device : String) (baud : Nat) (dryRun : Bool) :
    m (Except CommandFailure Connection) := do
  if dryRun then
    host.log (Log.info .commands "Dry run: packets are logged instead of sent")
    return .ok (.dryRun .start)
  let (rate, warnings) := BaudRate.ofNatOrDefault baud
  host.logAll warnings
  match ← host.openTerminal device rate with
  | .error e =>
    return .error (.during ("Failed to open serial device " ++ device) e.chain)
  | .ok () =>
    host.log (Log.info .commands s!"Serial device {device} opened at {rate.toNat} baud")
    return .ok (.device [] (.ok ()))

/-- Writes packets to the open device until one fails. -/
def deliver (host : Host m) : List (List UInt8) → m (Except LinkError Unit)
  | [] => return .ok ()
  | bytes :: rest => do
    match ← host.writeDevice bytes with
    | .ok () => host.deliver rest
    | .error e => return .error e

/-- Carries out a step that may write to the connection of its state. If the host has to write, the
step is taken again with the outcome that the writing had. -/
def settle {σ : Type} (host : Host m) (connection : σ → Option Connection)
    (expect : Except LinkError Unit → σ → σ) (step : σ → σ × List Log.Line) (s : σ) : m σ := do
  let after := step (expect (.ok ()) s)
  let pending := ((connection after.1).map Connection.pending).getD []
  let (after, log) ←
    if pending.isEmpty then pure after
    else do
      let outcome ← host.deliver pending
      pure (step (expect outcome s))
  host.logAll log
  return after

/-- Sends a packet, and says whether it went out. -/
def send (host : Host m) (connection : Connection) (packet : Packet) : m (Connection × Bool) :=
  host.settle (fun s : Connection × Bool => some s.1)
    (fun outcome s => (s.1.expecting outcome, s.2))
    (fun s =>
      let transmission := Connection.link.send s.1 packet
      ((transmission.state, transmission.sent), transmission.log))
    (connection, false)

/-- Ends a connection. -/
def disconnect (host : Host m) (device : String) : Connection → m Unit
  | .dryRun _ => return ()
  | .device _ _ => host.log (Log.info .terminal ("Closing serial device: " ++ device))

end Host

end FireControl
