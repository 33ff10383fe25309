import FireControl.Numeric.Precision

/-!
# Time

Moments and spans in whole nanoseconds. A span from a later to an earlier moment is zero.

## Main definitions

* `Instant`: A moment after an arbitrary start.
* `Span`: A length of time.
* `Span.seconds`, `Span.secondsSingle`: The length in seconds, in double and single precision.
* `Span.text`: The length with the unit that suits it.
-/

namespace FireControl

/-- A moment, in nanoseconds after an arbitrary start. -/
structure Instant where
  nanoseconds : Nat
deriving DecidableEq, Inhabited, Repr

/-- A length of time in nanoseconds. -/
structure Span where
  nanoseconds : Nat
deriving DecidableEq, Inhabited, Repr

/-- The time from `earlier` to `later`, or nothing when `later` comes first. -/
def Instant.since (later earlier : Instant) : Span :=
  ⟨later.nanoseconds - earlier.nanoseconds⟩

/-- The moment a span later. -/
def Instant.after (start : Instant) (span : Span) : Instant :=
  ⟨start.nanoseconds + span.nanoseconds⟩

namespace Span

/-- The number of whole seconds. -/
def wholeSeconds (span : Span) : Nat :=
  span.nanoseconds / 1000000000

/-- The nanoseconds beyond the whole seconds. -/
def subsecond (span : Span) : Nat :=
  span.nanoseconds % 1000000000

/-- The length in seconds, in double precision. -/
def seconds (span : Span) : Float :=
  Float.ofInteger span.wholeSeconds + Float.ofInteger span.subsecond / 1000000000

/-- The length in seconds, in single precision. -/
def secondsSingle (span : Span) : Float32 :=
  Float32.ofInteger span.wholeSeconds + Float32.ofInteger span.subsecond / 1000000000

/-- A span of whole milliseconds. -/
def ofMilliseconds (n : Nat) : Span :=
  ⟨n * 1000000⟩

/-- A span of whole microseconds. -/
def ofMicroseconds (n : Nat) : Span :=
  ⟨n * 1000⟩

/-- The length in the largest of the units s, ms, µs and ns that it fills, with as many decimals as
it needs. -/
def text (span : Span) : String :=
  let n := span.nanoseconds
  if 1000000000 ≤ n then decimals n 9 ++ "s"
  else if 1000000 ≤ n then decimals n 6 ++ "ms"
  else if 1000 ≤ n then decimals n 3 ++ "µs"
  else decimals n 0 ++ "ns"
where
  /-- `n / 10 ^ places` with all its decimals. -/
  decimals (n places : Nat) : String :=
    let whole := toString (n / Nat.pow 10 places)
    let digits := Nat.toDigits 10 (Nat.pow 10 places + n % Nat.pow 10 places)
    let fraction := (digits.drop 1).reverse.dropWhile (· = '0')
    if fraction.isEmpty then whole else whole ++ "." ++ String.ofList fraction.reverse

end Span

end FireControl
