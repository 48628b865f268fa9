import Snowbank.Json.Basic
import Snowbank.Text.Quoted

/-!
# Configuration

The settings of a service: their defaults, and the variables of the
environment that override them.
-/

namespace Snowbank

/-- Where the service listens. -/
structure ServerConfig where
  host : String := "127.0.0.1"
  listenPort : Nat := 8080

/-- The store, and how long to wait for it. -/
structure DatabaseConfig where
  /-- The file of the store; without one it is kept in memory. -/
  path : Option String := none
  /-- How many seconds a job may wait before that is noted. -/
  watchdogSeconds : Nat := 10
  /-- How many milliseconds lie between writes of the catalog. -/
  flushMillis : Nat := 1000

/-- What is logged, and where to. -/
structure LoggingConfig where
  level : String := "info"
  format : String := "pretty"
  output : String := "stdout"
  directory : String := "./logs"

/-- The settings of a service. -/
structure Config where
  server : ServerConfig := {}
  database : DatabaseConfig := {}
  logging : LoggingConfig := {}

/-- A variable of the environment has a value that cannot be used. -/
structure ConfigError where
  name : String
  value : String

def ConfigError.message (e : ConfigError) : String :=
  "Invalid value for " ++ e.name ++ ": " ++ Text.quoted e.value

/-- The variables of an environment. -/
abbrev Environment := List (String × String)

namespace Config

/-- A number below a bound: digits, with a plus sign or without. -/
def readBelow? (bound : Nat) (text : String) : Option Nat :=
  let digits :=
    match text.toList with
    | '+' :: rest => rest
    | cs => cs
  if digits.isEmpty || !digits.all Char.isDigit then none
  else
    let n := digits.foldl (fun n c => n * 10 + (c.toNat - '0'.toNat)) 0
    if n < bound then some n else none

/-- The value of a variable. -/
def lookup? (env : Environment) (name : String) : Option String := List.lookup name env

/-- A text, overridden by a variable. -/
def textOr (env : Environment) (name : String) (default : String) : String :=
  (lookup? env name).getD default

/-- A number below a bound, overridden by a variable. -/
def numberOr (env : Environment) (name : String) (bound default : Nat) : Except ConfigError Nat :=
  match lookup? env name with
  | none => .ok default
  | some value =>
    match readBelow? bound value with
    | some n => .ok n
    | none => .error ⟨name, value⟩

/-- The file of the store, overridden by a variable. -/
def pathOr (env : Environment) (name : String) (default : Option String) : Option String :=
  match lookup? env name with
  | none => default
  | some path => if path.isEmpty || path == ":memory:" then none else some path

/-- Settings, overridden by the variables of an environment. -/
def override (c : Config) (env : Environment) : Except ConfigError Config := do
  let listenPort ← numberOr env "JX_SERVER_PORT" 0x10000 c.server.listenPort
  let watchdog ← numberOr env "JX_WATCHDOG_SECS" 0x10000000000000000 c.database.watchdogSeconds
  let flush ← numberOr env "JX_CATALOG_FLUSH_MS" 0x10000000000000000 c.database.flushMillis
  return {
    server := ⟨textOr env "JX_SERVER_HOST" c.server.host, listenPort⟩
    database := ⟨pathOr env "JX_DATABASE_PATH" c.database.path, watchdog, flush⟩
    logging := ⟨textOr env "RUST_LOG" c.logging.level, textOr env "LOG_FORMAT" c.logging.format,
      textOr env "LOG_OUTPUT" c.logging.output, textOr env "LOG_DIR" c.logging.directory⟩ }

/-- The settings of an environment. -/
def ofEnv (env : Environment) : Except ConfigError Config := override {} env

/-- Where the service listens. -/
def address (c : Config) : String := c.server.host ++ ":" ++ toString c.server.listenPort

/-- How many milliseconds a job may wait before that is noted. -/
def watchdogMillis (c : Config) : Nat := c.database.watchdogSeconds * 1000

/-- The settings as JSON. -/
def toJson (c : Config) : Json :=
  .mkObj [
    ("server", .mkObj [("host", .str c.server.host), ("port", .nat c.server.listenPort)]),
    ("database", .mkObj [("path", .optStr c.database.path),
      ("watchdog_secs", .nat c.database.watchdogSeconds),
      ("catalog_flush_ms", .nat c.database.flushMillis)]),
    ("logging", .mkObj [("level", .str c.logging.level), ("format", .str c.logging.format),
      ("output", .str c.logging.output), ("directory", .str c.logging.directory)])]

end Config

end Snowbank
