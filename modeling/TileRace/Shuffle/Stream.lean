namespace TileRace

/-- A stream of random words, of which so many have been drawn. -/
structure Stream where
  words : Nat → UInt32
  next : Nat := 0

namespace Stream

def rotateLeft (x n : UInt32) : UInt32 := (x <<< n) ||| (x >>> (32 - n))

def rotateRight (x n : UInt32) : UInt32 := (x >>> n) ||| (x <<< (32 - n))

def quarterRound (s : Array UInt32) (i j k l : Nat) : Array UInt32 :=
  let a := s.getD i 0
  let b := s.getD j 0
  let c := s.getD k 0
  let d := s.getD l 0
  let a := a + b
  let d := rotateLeft (d ^^^ a) 16
  let c := c + d
  let b := rotateLeft (b ^^^ c) 12
  let a := a + b
  let d := rotateLeft (d ^^^ a) 8
  let c := c + d
  let b := rotateLeft (b ^^^ c) 7
  (((s.setIfInBounds i a).setIfInBounds j b).setIfInBounds k c).setIfInBounds l d

def doubleRound (s : Array UInt32) : Array UInt32 :=
  let s := quarterRound s 0 4 8 12
  let s := quarterRound s 1 5 9 13
  let s := quarterRound s 2 6 10 14
  let s := quarterRound s 3 7 11 15
  let s := quarterRound s 0 5 10 15
  let s := quarterRound s 1 6 11 12
  let s := quarterRound s 2 7 8 13
  quarterRound s 3 4 9 14

def rounds : Nat → Array UInt32 → Array UInt32
  | 0, s => s
  | n + 1, s => rounds n (doubleRound s)

def block (key : Array UInt32) (counter : Nat) : Array UInt32 :=
  let start := #[0x61707865, 0x3320646e, 0x79622d32, 0x6b206574] ++ key ++
    #[UInt32.ofNat counter, UInt32.ofNat (counter / UInt32.size), 0, 0]
  start.zipWith (· + ·) (rounds 6 start)

/-- The words of the ChaCha block function with twelve rounds, a 64-bit block counter and a zero
nonce. -/
def wordAt (key : Array UInt32) (i : Nat) : UInt32 := (block key (i / 16)).getD (i % 16) 0

def draw (s : Stream) : UInt32 × Stream :=
  (s.words s.next, { s with next := s.next + 1 })

def spreadStep (s : UInt64) : UInt64 := s * 6364136223846793005 + 11634580027462260723

def spreadWord (s : UInt64) : UInt32 :=
  rotateRight (((s >>> 18) ^^^ s) >>> 27).toUInt32 (s >>> 59).toUInt32

def spread : Nat → UInt64 → List UInt32
  | 0, _ => []
  | n + 1, s =>
    let s := spreadStep s
    spreadWord s :: spread n s

def ofSeed (seed : UInt64) : Stream := { words := wordAt (spread 8 seed).toArray }

/-- The largest low half of a product that keeps the high half unbiased. -/
def zone (bound : UInt32) : UInt32 := (bound <<< UInt32.ofNat (31 - bound.toNat.log2)) - 1

/-- Draws a number below `bound`: the high half of a product whose low half is in the zone. After
`tries` draws any product will do. -/
def drawBelow (bound : UInt32) : Nat → Stream → UInt32 × Stream
  | 0, s =>
    let (w, s) := s.draw
    (UInt32.ofNat (w.toNat * bound.toNat / UInt32.size), s)
  | tries + 1, s =>
    let (w, s) := s.draw
    let product := w.toNat * bound.toNat
    if UInt32.ofNat product ≤ zone bound then (UInt32.ofNat (product / UInt32.size), s)
    else drawBelow bound tries s

end Stream

end TileRace
