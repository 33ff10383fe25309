/-!
# The ChaCha Generator

A generator of random words: the ChaCha block function with twelve rounds, run over a counter. Its
state is a matrix of four rows of four words. A quarter round mixes the four rows lane by lane,
which does all four columns at once; for the diagonals the rows are first turned against each other.

A seed of 64 bits is stretched to the eight words of a key by a congruential generator with permuted
output.

## Main definitions

* `ChaCha.block`: The sixteen words of a key and a counter.
* `ChaCha`: A generator.
* `ChaCha.ofSeed`: The generator of a seed.
* `ChaCha.next`: The next word.
-/

namespace FireControl

/-- Four words, on which every operation works lane by lane. -/
structure Lanes where
  a : UInt32
  b : UInt32
  c : UInt32
  d : UInt32
deriving DecidableEq, Repr

namespace Lanes

/-- A function of two words applied in each lane. -/
def zipWith (f : UInt32 → UInt32 → UInt32) (x y : Lanes) : Lanes :=
  ⟨f x.a y.a, f x.b y.b, f x.c y.c, f x.d y.d⟩

instance : Add Lanes := ⟨zipWith (· + ·)⟩

instance : XorOp Lanes := ⟨zipWith (· ^^^ ·)⟩

/-- A word turned left by `n` of its 32 bits. -/
def rotateWord (n w : UInt32) : UInt32 :=
  (w <<< n) ||| (w >>> (32 - n))

/-- Every word turned left. -/
def rotate (n : UInt32) (x : Lanes) : Lanes :=
  ⟨rotateWord n x.a, rotateWord n x.b, rotateWord n x.c, rotateWord n x.d⟩

/-- The lanes moved one place down, the first to the end. -/
def shift (x : Lanes) : Lanes :=
  ⟨x.b, x.c, x.d, x.a⟩

/-- The words in order. -/
def toList (x : Lanes) : List UInt32 :=
  [x.a, x.b, x.c, x.d]

end Lanes

namespace ChaCha

/-- Four rows of four words. -/
structure Matrix where
  a : Lanes
  b : Lanes
  c : Lanes
  d : Lanes
deriving DecidableEq, Repr

namespace Matrix

/-- The sum of two matrices. -/
def add (m n : Matrix) : Matrix :=
  ⟨m.a + n.a, m.b + n.b, m.c + n.c, m.d + n.d⟩

/-- Half a quarter round, which turns the rows by two given distances. -/
def halfRound (first second : UInt32) (m : Matrix) : Matrix :=
  let a := m.a + m.b
  let d := (m.d ^^^ a).rotate first
  let c := m.c + d
  ⟨a, (m.b ^^^ c).rotate second, c, d⟩

/-- The quarter rounds of all four columns. -/
def columnRound (m : Matrix) : Matrix :=
  (m.halfRound 16 12).halfRound 8 7

/-- The matrix whose columns are the diagonals of `m`. -/
def toDiagonals (m : Matrix) : Matrix :=
  ⟨m.a, m.b.shift, m.c.shift.shift, m.d.shift.shift.shift⟩

/-- The matrix whose diagonals are the columns of `m`. -/
def ofDiagonals (m : Matrix) : Matrix :=
  ⟨m.a, m.b.shift.shift.shift, m.c.shift.shift, m.d.shift⟩

/-- A round over the columns and a round over the diagonals. -/
def doubleRound (m : Matrix) : Matrix :=
  m.columnRound.toDiagonals.columnRound.ofDiagonals

/-- The given number of double rounds. -/
def doubleRounds : Nat → Matrix → Matrix
  | 0, m => m
  | n + 1, m => doubleRounds n m.doubleRound

/-- The sixteen words, row by row. -/
def toList (m : Matrix) : List UInt32 :=
  m.a.toList ++ m.b.toList ++ m.c.toList ++ m.d.toList

end Matrix

/-- The four words with which every block starts. -/
def constants : Lanes :=
  ⟨0x61707865, 0x3320646e, 0x79622d32, 0x6b206574⟩

/-- The eight words of a key. -/
structure Key where
  low : Lanes
  high : Lanes
deriving DecidableEq, Repr

/-- The matrix from which the block of a counter is made. The counter has 64 bits, the low word
first, and two zero words follow it. -/
def initial (key : Key) (counter : UInt64) : Matrix :=
  ⟨constants, key.low, key.high, ⟨counter.toUInt32, (counter >>> 32).toUInt32, 0, 0⟩⟩

/-- The sixteen words of a key and a counter: twelve rounds, added to the matrix they started
from. -/
def block (key : Key) (counter : UInt64) : List UInt32 :=
  let m := initial key counter
  ((m.doubleRounds 6).add m).toList

end ChaCha

/-- A generator: its key, the counter of the next block, and the words left of the block before. -/
structure ChaCha where
  key : ChaCha.Key
  counter : UInt64
  ready : List UInt32
deriving DecidableEq, Repr

namespace ChaCha

/-- The generator of a key. -/
def ofKey (key : Key) : ChaCha :=
  ⟨key, 0, []⟩

/-- The next state of the generator that stretches a seed. -/
def stretch (state : UInt64) : UInt64 :=
  state * 6364136223846793005 + 11634580027462260723

/-- The word that a state of the generator gives. -/
def stretchedWord (state : UInt64) : UInt32 :=
  let mixed := (((state >>> 18) ^^^ state) >>> 27).toUInt32
  let turn := (state >>> 59).toUInt32
  (mixed >>> turn) ||| (mixed <<< ((32 - turn) % 32))

/-- Four words of a key from a state, and the state after them. -/
def stretchedLanes (s : UInt64) : Lanes × UInt64 :=
  let s₁ := stretch s
  let s₂ := stretch s₁
  let s₃ := stretch s₂
  let s₄ := stretch s₃
  (⟨stretchedWord s₁, stretchedWord s₂, stretchedWord s₃, stretchedWord s₄⟩, s₄)

/-- The generator of a seed. -/
def ofSeed (seed : UInt64) : ChaCha :=
  let (low, s) := stretchedLanes seed
  let (high, _) := stretchedLanes s
  ofKey ⟨low, high⟩

/-- The next word, and the generator after it. -/
def next (g : ChaCha) : UInt32 × ChaCha :=
  match g.ready with
  | word :: rest => (word, { g with ready := rest })
  | [] =>
    match block g.key g.counter with
    | word :: rest => (word, { g with counter := g.counter + 1, ready := rest })
    | [] => (0, g)

end ChaCha

end FireControl
