import NotificationQueue.Settings.Environment
import NotificationQueue.Settings.LogFilter

/-! Settings of the log. -/
namespace NotificationQueue

structure LoggingSettings where
  serviceName : String := "pulse"
  filter : Option String := none
  /-- Lines name the module that they come from. -/
  withTarget : Bool := true
  deriving DecidableEq

namespace LoggingSettings

/-- The filter of a log for which none is set, or none that can be read. -/
def defaultFilter : String :=
  "pulse_server=debug,pulse_core=debug,tower_http=debug"

def ofEnvironment (env : Environment) : LoggingSettings where
  serviceName := (env.text? "SERVICE_NAME").getD "pulse"
  filter := ((env.text? "RUST_LOG").or (env.text? "LOG_LEVEL")).filter (· ≠ "")

def logFilter (s : LoggingSettings) : LogFilter :=
  ((s.filter.bind LogFilter.parse?).or (LogFilter.parse? defaultFilter)).getD ⟨[]⟩

def modules : List String :=
  ["pulse_core", "pulse_core::store", "pulse_server", "sqlx", "tower_http"]

def levels (s : LoggingSettings) : List (String × LogLevel) :=
  modules.map fun m => (m, s.logFilter.levelOf m)

end LoggingSettings

end NotificationQueue
