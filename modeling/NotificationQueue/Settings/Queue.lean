import NotificationQueue.Failure
import NotificationQueue.Json.Record
import NotificationQueue.Settings.Environment

/-! Settings of the queue: page size, retention, write slots, and the times of polls. -/
namespace NotificationQueue

structure QueueSettings where
  /-- The events of one poll at most; queues are trimmed to this size. -/
  pageSize : Nat := 50
  /-- The retention of events and of whole queues. -/
  retention : Duration := .ofSeconds 300
  writeSlots : Nat := 100
  /-- How long a client should wait between plain polls. -/
  shortPollInterval : Duration := .ofMillis 5000
  /-- How long a client should wait between long polls. -/
  longPollInterval : Duration := .ofMillis 30000
  /-- How long a long poll waits for events. -/
  longPollTimeout : Duration := .ofMillis 25000
  /-- How often a long poll looks for events. -/
  tickInterval : Duration := .ofMillis 1000
  /-- How long a probe of the store may take. -/
  healthCheckTimeout : Duration := .ofMillis 2000
  shutdownTimeout : Duration := .ofMillis 10000
  deriving DecidableEq, Inhabited

namespace QueueSettings

/-! ## Validity -/

def validate (s : QueueSettings) : Except Failure Unit :=
  if s.pageSize = 0 then .error (.invalidConfig "max_page_size must be greater than zero")
  else if s.writeSlots = 0 then
    .error (.invalidConfig "worker_pool_size must be greater than zero")
  else if s.retention.isZero then
    .error (.invalidConfig "default_ttl must be greater than zero")
  else if s.tickInterval.isZero then
    .error (.invalidConfig "tick_interval must be greater than zero")
  else if s.longPollTimeout.nanoseconds ≤ s.healthCheckTimeout.nanoseconds then
    .error (.invalidConfig "health_check_timeout must be shorter than long_poll_timeout")
  else .ok ()

/-! ## JSON -/

/-- The settings as JSON: the retention in seconds, other times in milliseconds. There is none where
a count of milliseconds exceeds 64 bits. -/
def toJson? (s : QueueSettings) : Option Json :=
  let times := [s.shortPollInterval, s.longPollInterval, s.longPollTimeout, s.tickInterval,
    s.healthCheckTimeout, s.shutdownTimeout]
  if times.all (·.millis ≤ Text.maxWord64) then
    some <| .obj [("max_page_size", .int s.pageSize), ("default_ttl", .int s.retention.seconds),
      ("worker_pool_size", .int s.writeSlots),
      ("short_poll_interval", .int s.shortPollInterval.millis),
      ("long_poll_interval", .int s.longPollInterval.millis),
      ("long_poll_timeout", .int s.longPollTimeout.millis),
      ("tick_interval", .int s.tickInterval.millis),
      ("health_check_timeout", .int s.healthCheckTimeout.millis),
      ("shutdown_timeout", .int s.shutdownTimeout.millis)]
  else none

def fields : List Json.Field :=
  [⟨"max_page_size", false⟩, ⟨"default_ttl", false⟩, ⟨"worker_pool_size", false⟩,
    ⟨"short_poll_interval", false⟩, ⟨"long_poll_interval", false⟩, ⟨"long_poll_timeout", false⟩,
    ⟨"tick_interval", false⟩, ⟨"health_check_timeout", false⟩, ⟨"shutdown_timeout", false⟩]

def decodeMillis : Json.Decode Duration := fun room t =>
  (Json.decodeWord room t).map .ofMillis

def decodeSeconds : Json.Decode Duration := fun room t =>
  (Json.decodeWord room t).map .ofSeconds

def decode : Json.Decode QueueSettings := fun room t => do
  let fs ← Json.fields? fields room t
  return {
    pageSize := ← fs.required "max_page_size" Json.decodeWord
    retention := ← fs.required "default_ttl" decodeSeconds
    writeSlots := ← fs.required "worker_pool_size" Json.decodeWord
    shortPollInterval := ← fs.required "short_poll_interval" decodeMillis
    longPollInterval := ← fs.required "long_poll_interval" decodeMillis
    longPollTimeout := ← fs.required "long_poll_timeout" decodeMillis
    tickInterval := ← fs.required "tick_interval" decodeMillis
    healthCheckTimeout := ← fs.required "health_check_timeout" decodeMillis
    shutdownTimeout := ← fs.required "shutdown_timeout" decodeMillis }

/-! ## Environment -/

/-- The settings that the environment gives; a variable that is not set, or is no number, leaves the
default. -/
def ofEnvironment (env : Environment) : QueueSettings :=
  let count (name : String) (default : Nat) : Nat :=
    (env.number? name Text.maxWord64).getD default
  let time (name : String) (default : Duration) : Duration :=
    ((env.number? name Text.maxWord64).map Duration.ofMillis).getD default
  let defaults : QueueSettings := {}
  { pageSize := count "MAX_EVENTS_PER_POLL" defaults.pageSize
    retention :=
      ((env.number? "DEFAULT_TTL_SECONDS" Text.maxWord64).map Duration.ofSeconds).getD
        defaults.retention
    writeSlots := count "WORKER_POOL_SIZE" defaults.writeSlots
    shortPollInterval := time "SHORT_POLL_INTERVAL_MS" defaults.shortPollInterval
    longPollInterval := time "LONG_POLL_INTERVAL_MS" defaults.longPollInterval
    longPollTimeout := time "LONG_POLL_TIMEOUT_MS" defaults.longPollTimeout
    tickInterval := time "POLL_TICK_INTERVAL_MS" defaults.tickInterval
    healthCheckTimeout := time "HEALTH_CHECK_TIMEOUT_MS" defaults.healthCheckTimeout
    shutdownTimeout := time "SHUTDOWN_TIMEOUT_MS" defaults.shutdownTimeout }

end QueueSettings

end NotificationQueue
