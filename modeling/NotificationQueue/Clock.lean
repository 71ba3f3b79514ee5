import NotificationQueue.Time.Timestamp

/-!
The clock that stamps events. It never gives the same score twice, whatever the wall clock does, and
it remembers the scores whose writes have not ended, so that readers can stop short of them.
-/
namespace NotificationQueue

namespace Score

def greatest : Score := 9223372036854775807

def least : Score := -9223372036854775808

def succ (s : Score) : Score := min (s + 1) greatest

def pred (s : Score) : Score := max (s - 1) least

/-- A score moved back by a number of microseconds, but not beyond the least. -/
def back (s : Score) (micros : Nat) : Score := max (s - min (micros : Int) greatest) least

end Score

structure Clock where
  /-- The last score given. -/
  last : Score := 0
  /-- The reserved scores, in rising order. -/
  pending : List Score := []
  deriving DecidableEq, Inhabited

namespace Clock

/-- Adds a score to a rising list, once. -/
def insert (s : Score) : List Score → List Score
  | [] => [s]
  | t :: rest =>
    if s < t then s :: t :: rest else if s = t then t :: rest else t :: insert s rest

def candidate (c : Clock) (wall : Score) : Score :=
  max wall (Score.succ c.last)

def next (c : Clock) (wall : Score) : Timestamp × Clock :=
  (Timestamp.ofMicros (c.candidate wall), { c with last := c.candidate wall })

/-- Gives the score of the next timestamp and keeps it as pending. -/
def reserve (c : Clock) (wall : Score) : Score × Clock :=
  let (t, after) := c.next wall
  (t.score, { after with pending := insert t.score after.pending })

def release (c : Clock) (s : Score) : Clock :=
  { c with pending := c.pending.filter (· ≠ s) }

def nowScore (c : Clock) (wall : Score) : Score :=
  max wall c.last

/-- The highest score that a reader may include: just below the oldest pending score, or the present
where none is pending. -/
def horizon (c : Clock) (wall : Score) : Score :=
  match c.pending with
  | [] => c.nowScore wall
  | oldest :: _ => Score.pred oldest

end Clock

end NotificationQueue
