import NotificationQueue.Text.Blank
import NotificationQueue.Text.Decimal
import NotificationQueue.Text.Utf8

/-! Settings that come from variables of the environment. A variable whose bytes are no text counts
as not set. -/
namespace NotificationQueue

structure Environment where
  bindings : List (String × List UInt8)

namespace Environment

def text? (env : Environment) (name : String) : Option String :=
  (env.bindings.find? (·.1 = name)).bind fun v => Utf8.decode? v.2

/-- A whole number of at most `max`, with blanks around it ignored. -/
def number? (env : Environment) (name : String) (max : Nat) : Option Nat :=
  (env.text? name).bind fun s => Text.unsigned? max (Text.trim s)

/-- The pieces between commas; a blank variable counts as not set. -/
def list? (env : Environment) (name : String) : Option (List String) :=
  ((env.text? name).filter (! Text.isBlankText ·)).map Text.commaList

end Environment

structure SettingsError where
  message : String
  deriving DecidableEq

end NotificationQueue
