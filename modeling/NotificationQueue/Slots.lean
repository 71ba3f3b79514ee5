/-!
Slots for background writes. A slot is taken if one is free at once, and never waited for; a closed
pool gives none, but slots already held stay held.
-/
namespace NotificationQueue

structure Slots where
  capacity : Nat
  held : Nat := 0
  closed : Bool := false
  deriving DecidableEq, Inhabited

namespace Slots

def maxCapacity : Nat := 2305843009213693951

def ofCapacity? (capacity : Nat) : Option Slots :=
  if capacity ≤ maxCapacity then some { capacity } else none

def available (s : Slots) : Nat := s.capacity - s.held

def inFlight (s : Slots) : Nat := s.capacity - s.available

def acquire? (s : Slots) : Option Slots :=
  if s.closed ∨ s.available = 0 then none else some { s with held := s.held + 1 }

def release (s : Slots) : Slots := { s with held := s.held - 1 }

def close (s : Slots) : Slots := { s with closed := true }

theorem inFlight_eq_held {s : Slots} (h : s.held ≤ s.capacity) : s.inFlight = s.held := by
  simp only [inFlight, available]
  omega

end Slots

end NotificationQueue
