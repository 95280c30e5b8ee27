namespace TileRace.Time

-- Times are given in nanoseconds, and instants from the zero of the clock.

def millisecond : Nat := 1000000

def second : Nat := 1000 * millisecond

/-- The last instant of the clock, which counts seconds in 63 bits. -/
def last : Nat := 9223372036854775807 * second + (second - 1)

def age : Nat := 30 * 365 * 86400 * second

/-- When a timer runs out that is set to `d` after `start`. One that the clock does not reach is set
far ahead of now. -/
def due (now start d : Nat) : Nat := if start + d ≤ last then start + d else now + age

variable {now start d : Nat}

theorem due_eq (h : start + d ≤ last) : due now start d = start + d := if_pos h

theorem lt_due (now : Nat) (h : 0 < d) : now < due now now d := by
  rw [due]
  split
  · exact Nat.lt_add_of_pos_right h
  · exact Nat.lt_add_of_pos_right (by decide)

end TileRace.Time
