import TileRace.Shuffle.Stream
import TileRace.Summary

namespace TileRace

/-- How lists are rearranged. At random, each game takes its words from outside. -/
inductive ShuffleMode where
  | identity
  | seeded (seed : UInt64)
  | random (words : GameId → Nat → UInt32)
  deriving Inhabited

/-- Rearranges one list after another. -/
inductive Shuffler where
  | identity
  | drawing (stream : Stream)

instance : Inhabited Shuffler := ⟨.identity⟩

/-- Each game has a shuffler of its own: its id is added to the seed. -/
def ShuffleMode.shuffler (mode : ShuffleMode) (game : GameId) : Shuffler :=
  match mode with
  | .identity => .identity
  | .seeded seed => .drawing (Stream.ofSeed (seed + game.toUInt64))
  | .random words => .drawing { words := words game }

/-- The exchanges that shuffle positions `0` to `n`: each position from the last down to the first
but one, with a position drawn from those up to it. -/
def Stream.exchanges : Nat → Stream → List (Nat × Nat) × Stream
  | 0, s => ([], s)
  | n + 1, s =>
    let (j, s) := s.drawBelow (UInt32.ofNat (n + 2)) 1024
    let (rest, s) := exchanges n s
    ((n + 1, j.toNat) :: rest, s)

namespace Shuffler

def exchanges (n : Nat) : Shuffler → List (Nat × Nat) × Shuffler
  | .identity => ([], .identity)
  | .drawing s =>
    let (xs, s) := s.exchanges (n - 1)
    (xs, .drawing s)

def exchange {α : Type} (items : List α) (xs : List (Nat × Nat)) : List α :=
  (xs.foldl (fun a x => a.swapIfInBounds x.1 x.2) items.toArray).toList

def shuffle {α : Type} (s : Shuffler) (items : List α) : List α × Shuffler :=
  let (xs, s) := s.exchanges items.length
  (exchange items xs, s)

end Shuffler

end TileRace
