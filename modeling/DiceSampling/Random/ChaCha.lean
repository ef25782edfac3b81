/-
# The ChaCha key stream

A key gives an endless stream of 32-bit words, in blocks of sixteen.  A block is
four rows of four words: the constants, the two halves of the key, and the
number of the block.  Six double rounds mix the rows, and the block is the sum
of the rows before and after mixing.
-/

namespace DiceSampling.ChaCha

/-- Four words which the rounds treat alike. -/
structure Row where
  a : UInt32
  b : UInt32
  c : UInt32
  d : UInt32
  deriving DecidableEq, Repr

namespace Row

/-- Word by word, the result of an operation on two rows. -/
@[inline] def zip (f : UInt32 → UInt32 → UInt32) (x y : Row) : Row :=
  ⟨f x.a y.a, f x.b y.b, f x.c y.c, f x.d y.d⟩

/-- Word by word, the sum of two rows. -/
@[inline] def add (x y : Row) : Row := zip (· + ·) x y

/-- Word by word, a word turned left by a number of bits between 1 and 31. -/
@[inline] def turn (x : Row) (bits : UInt32) : Row :=
  let turned (w : UInt32) := (w <<< bits) ||| (w >>> (32 - bits))
  ⟨turned x.a, turned x.b, turned x.c, turned x.d⟩

/-- The exclusive or of two rows, turned left by a number of bits. -/
@[inline] def mix (x y : Row) (bits : UInt32) : Row := (zip (· ^^^ ·) x y).turn bits

/-- The row with its first word moved to the end. -/
@[inline] def rotate (x : Row) : Row := ⟨x.b, x.c, x.d, x.a⟩

/-- The word at a place; places from the fourth on hold the last word. -/
@[inline] def word (x : Row) : Nat → UInt32
  | 0 => x.a
  | 1 => x.b
  | 2 => x.c
  | _ => x.d

end Row

/-- Sixteen words as four rows. -/
structure Block where
  first : Row
  second : Row
  third : Row
  fourth : Row
  deriving DecidableEq, Repr

namespace Block

/-- The quarter round, on the four columns at once. -/
def columnRound (x : Block) : Block :=
  let a := x.first.add x.second
  let d := x.fourth.mix a 16
  let c := x.third.add d
  let b := x.second.mix c 12
  let a := a.add b
  let d := d.mix a 8
  let c := c.add d
  let b := b.mix c 7
  ⟨a, b, c, d⟩

/-- The rows shifted so that the diagonals become columns. -/
def skew (x : Block) : Block :=
  ⟨x.first, x.second.rotate, x.third.rotate.rotate, x.fourth.rotate.rotate.rotate⟩

/-- The rows shifted back. -/
def unskew (x : Block) : Block :=
  ⟨x.first, x.second.rotate.rotate.rotate, x.third.rotate.rotate, x.fourth.rotate⟩

/-- One round on the columns and one on the diagonals. -/
def doubleRound (x : Block) : Block := x.columnRound.skew.columnRound.unskew

/-- Twelve rounds. -/
def rounds (x : Block) : Block :=
  x.doubleRound.doubleRound.doubleRound.doubleRound.doubleRound.doubleRound

/-- The sum of two blocks, word by word. -/
def add (x y : Block) : Block :=
  ⟨x.first.add y.first, x.second.add y.second, x.third.add y.third, x.fourth.add y.fourth⟩

/-- The row at a place; places from the fourth on hold the last row. -/
@[inline] def row (x : Block) : Nat → Row
  | 0 => x.first
  | 1 => x.second
  | 2 => x.third
  | _ => x.fourth

/-- The word at a place below sixteen, counted row after row. -/
def word (x : Block) (i : Nat) : UInt32 := (x.row (i / 4)).word (i % 4)

end Block

/-- Eight words that fix a key stream. -/
structure Key where
  low : Row
  high : Row
  deriving DecidableEq, Repr

/-- The words of every block's first row. -/
def constants : Row := ⟨0x61707865, 0x3320646e, 0x79622d32, 0x6b206574⟩

/-- The row that numbers a block by 64 bits, low word first. -/
def counter (n : Nat) : Row := ⟨UInt32.ofNat n, UInt32.ofNat (n / UInt32.size), 0, 0⟩

/-- A block before it is mixed. -/
def initialBlock (key : Key) (n : Nat) : Block := ⟨constants, key.low, key.high, counter n⟩

/-- Block number `n` of the stream of a key. -/
def keyBlock (key : Key) (n : Nat) : Block :=
  (initialBlock key n).rounds.add (initialBlock key n)

/-- Word number `n` of the stream of a key. -/
def keyWord (key : Key) (n : Nat) : UInt32 := (keyBlock key (n / 16)).word (n % 16)

end DiceSampling.ChaCha
