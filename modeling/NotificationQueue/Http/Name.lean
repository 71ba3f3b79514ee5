import NotificationQueue.Text.Blank

/-! Methods and header names: texts made of a few characters, and the bytes of a header's value. -/
namespace NotificationQueue.Http

def isNameChar (c : Char) : Bool :=
  c.isAlphanum || "!#$%&'*+-.^_`|~".toList.contains c

def method? (s : String) : Option String :=
  if s ≠ "" ∧ s.toList.all isNameChar then some s else none

def maxNameLength : Nat := 65535

def headerName? (s : String) : Option String :=
  if s ≠ "" ∧ s.toList.all isNameChar ∧ s.length ≤ maxNameLength then some (Text.asciiLower s)
  else none

def isValueByte (b : UInt8) : Bool :=
  (32 ≤ b && b ≠ 127) || b = 9

end NotificationQueue.Http
