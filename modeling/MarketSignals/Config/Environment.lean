import MarketSignals.Config
import MarketSignals.Keyed
import MarketSignals.Text.Blank
import MarketSignals.Text.Digits

/-!
# Configuration from the environment

The settings that variables of the environment give. A variable that is unset, or whose value is
no text, counts as absent; a number that cannot be read leaves its default. Every setting depends
on its own variable alone.
-/

namespace MarketSignals

/-- The variables of the environment: the bytes of each that is set. -/
abbrev Environment : Type :=
  Keyed ByteArray

namespace Environment

/-- The text of a variable. -/
def text? (env : Environment) (name : String) : Option String :=
  (env.get? name).bind String.fromUTF8?

/-- The text of a variable without blanks around it, if anything is left. -/
def trimmed? (env : Environment) (name : String) : Option String :=
  ((env.text? name).map fun text => String.ofList (Text.trim text.toList)).filter (· ≠ "")

/-- The count below a limit that a variable gives, or a default. -/
def countOr (env : Environment) (limit : Nat) (name : String) (absent : Nat) : Nat :=
  ((env.text? name).bind fun text => Text.count? limit (Text.trim text.toList)).getD absent

/-- The first number of seconds, bars or attempts that is too large for a setting. -/
def wide : Nat := Nat.pow 2 64

/-- The first number of days that is too large for a setting. -/
def narrow : Nat := Nat.pow 2 32

/-- The kind of environment the program runs in. -/
def kind (env : Environment) : String :=
  (env.text? "ENVIRONMENT").getD "sandbox"

/-- Where the cache and the queues are found. -/
def redisUrl (env : Environment) : String :=
  (env.text? "REDIS_URL").getD "redis://127.0.0.1:6379/"

/-- Where the database is found. -/
def questdbUrl (env : Environment) : String :=
  (env.text? "QUESTDB_URL").getD
    "host=127.0.0.1 port=8812 user=admin password=quest dbname=qdb"

/-- Where the remote decision service is found. -/
def decisionServiceUrl? (env : Environment) : Option String :=
  env.trimmed? "DECISION_SERVICE_URL"

/-- The signal line a variable names, or the default. -/
def signalLine (env : Environment) : SignalLine :=
  match (env.text? "MACD_SIGNAL_METHOD").map SignalLine.ofText with
  | some (.ok line) => line
  | _ => .average

/-- The settings that the environment gives. -/
def config (env : Environment) : Config :=
  let defaults : Config := {}
  { decisionServiceUrl := env.decisionServiceUrl?
    decisionTimeout := .ofSeconds
      (env.countOr wide "DECISION_TIMEOUT_SECONDS" defaults.decisionTimeout.seconds)
    priceWindow := max (env.countOr wide "PRICE_WINDOW" defaults.priceWindow) Lookbacks.minBars
    recentSignals := max (env.countOr wide "RECENT_SIGNALS" defaults.recentSignals) 1
    workerConcurrency := max (env.countOr wide "WORKER_CONCURRENCY" defaults.workerConcurrency) 1
    maxAttempts := max (env.countOr wide "MAX_ATTEMPTS" defaults.maxAttempts) 1
    cacheTtl :=
      { price := .ofSeconds
          (env.countOr wide "CACHE_PRICE_TTL_SECONDS" defaults.cacheTtl.price.seconds)
        snapshot := .ofSeconds
          (env.countOr wide "CACHE_INDICATORS_TTL_SECONDS" defaults.cacheTtl.snapshot.seconds)
        signals := .ofSeconds
          (env.countOr wide "CACHE_SIGNALS_TTL_SECONDS" defaults.cacheTtl.signals.seconds) }
    sweepIntervalSeconds :=
      env.countOr wide "SWEEP_INTERVAL_SECONDS" defaults.sweepIntervalSeconds
    retentionDays := env.countOr narrow "RETENTION_DAYS" defaults.retentionDays
    lookbacks := { signalLine := env.signalLine }
    workerName := (env.trimmed? "WORKER_NAME").getD defaults.workerName }

end Environment

/-- Whether a kind of environment is one of production. -/
def isProduction (kind : String) : Bool :=
  kind == "production" || kind == "prod"

end MarketSignals
