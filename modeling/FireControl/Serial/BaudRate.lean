import FireControl.Log

/-!
# Baud Rates

The line speeds that the serial link supports.

## Main definitions

* `BaudRate`: A supported line speed.
* `BaudRate.ofNat?`: The rate of a number of bits per second.
* `BaudRate.ofNatOrDefault`: The same with a fallback, which it reports.
-/

namespace FireControl

/-- A supported line speed. -/
inductive BaudRate where
  | b9600
  | b19200
  | b38400
  | b57600
  | b115200
  | b230400
  | b460800
  | b921600
deriving DecidableEq, Repr

namespace BaudRate

/-- The rates from slow to fast. -/
def all : List BaudRate :=
  [.b9600, .b19200, .b38400, .b57600, .b115200, .b230400, .b460800, .b921600]

/-- The rate in bits per second. -/
def toNat : BaudRate → Nat
  | .b9600 => 9600
  | .b19200 => 19200
  | .b38400 => 38400
  | .b57600 => 57600
  | .b115200 => 115200
  | .b230400 => 230400
  | .b460800 => 460800
  | .b921600 => 921600

instance : Inhabited BaudRate := ⟨.b115200⟩

/-- The rate of a number of bits per second, if it is supported. -/
def ofNat? (n : Nat) : Option BaudRate :=
  all.find? (fun rate => rate.toNat = n)

/-- The rate of a number of bits per second. An unsupported number gives the default rate and a
warning. -/
def ofNatOrDefault (n : Nat) : BaudRate × List Log.Line :=
  match ofNat? n with
  | some rate => (rate, [])
  | none =>
    (default, [Log.warn .serial s!"Unsupported baudrate {n}, using 115200"])

end BaudRate

end FireControl
