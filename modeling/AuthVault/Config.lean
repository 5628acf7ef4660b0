import AuthVault.Session
import AuthVault.Snapshot.Storage

/-!
# Configuration

Options come from the command line, as a flag followed by its value, or else from the environment. A
value that cannot be read gives the default. `Config.ofSources` resolves all options.
-/

namespace AuthVault

structure Config where
  httpPort : Nat := 25000
  /-- The snapshot file; without one everything is kept in memory alone. -/
  snapshotPath : Option String := none
  snapshotInterval : Duration := .seconds 5
  sessionTimeout : Duration := Sessions.defaultWindow
  /-- The email and the password of the admin that is registered first. -/
  bootstrapAdmin : Option (String × String) := none
  deriving DecidableEq

namespace Config

inductive Setting
  | httpPort
  | db
  | snapshotInterval
  | sessionTimeout
  | adminEmail
  | adminPassword
  deriving DecidableEq

def Setting.flag : Setting → String
  | httpPort => "--http-port"
  | db => "--db"
  | snapshotInterval => "--snapshot-interval"
  | sessionTimeout => "--session-timeout"
  | adminEmail => "--admin-email"
  | adminPassword => "--admin-password"

def Setting.variable : Setting → String
  | httpPort => "KEYGATE_HTTP_PORT"
  | db => "KEYGATE_DB"
  | snapshotInterval => "KEYGATE_SNAPSHOT_INTERVAL"
  | sessionTimeout => "KEYGATE_SESSION_TIMEOUT"
  | adminEmail => "KEYGATE_ADMIN_EMAIL"
  | adminPassword => "KEYGATE_ADMIN_PASSWORD"

/-- The argument after the first occurrence of a flag that has one after it. -/
def argument? (flag : String) : (args : List String) → Option String
  | a :: b :: rest => if a = flag then some b else argument? flag (b :: rest)
  | _ => none

def hasFlag (flag : String) (args : List String) : Bool := args.contains flag

/-- The text of an option: from the command line, or else from the environment. -/
def pick (env : String → Option String) (args : List String) (s : Setting) : Option String :=
  (argument? s.flag args).or (env s.variable)

/-- A port: decimal digits, after a plus sign or not, for a number below `2 ^ 16`. -/
def port? (s : String) : Option Nat :=
  let cs := s.toList
  let digits := if cs.head? = some '+' then cs.drop 1 else cs
  if digits ≠ [] ∧ digits.all Text.Decimal.isDigit then Text.Decimal.valueBelow? UInt16.size digits
  else none

/-- The configuration in which each option has the text that is chosen for it, and its default where
none is chosen or the text cannot be read. -/
def resolve (chosen : Setting → Option String) : Config :=
  let defaults : Config := {}
  { httpPort := ((chosen .httpPort).bind port?).getD defaults.httpPort
    snapshotPath := (chosen .db).filter (· ≠ "")
    snapshotInterval :=
      (((chosen .snapshotInterval).bind Duration.ofText?).filter fun d => !d.isZero).getD
        defaults.snapshotInterval
    sessionTimeout := ((chosen .sessionTimeout).bind Duration.ofText?).getD defaults.sessionTimeout
    bootstrapAdmin :=
      match chosen .adminEmail, chosen .adminPassword with
      | some email, some password => if email ≠ "" then some (email, password) else none
      | _, _ => none }

def ofSources (env : String → Option String) (args : List String) : Config := resolve (pick env args)

/-- Where snapshots are kept and how often they are written; the interval is cut to 64 bits. -/
def persistence (c : Config) : PersistenceSettings where
  path := c.snapshotPath
  intervalMillis := c.snapshotInterval.toMillis % UInt64.size

def usage : String := String.intercalate "\n" [
  "keygate",
  "",
  "USAGE:",
  "  keygate [--http-port N] [--db PATH] [--snapshot-interval DUR] [--session-timeout DUR]",
  "          [--admin-email EMAIL --admin-password PW]",
  "",
  "OPTIONS:",
  "  --http-port N             HTTP API port (env: KEYGATE_HTTP_PORT, default 25000)",
  "  --db PATH                 Snapshot file for persisted state (env: KEYGATE_DB)",
  "  --snapshot-interval DUR   Background snapshot interval (env: KEYGATE_SNAPSHOT_INTERVAL, default 5s)",
  "  --session-timeout DUR     Sliding session window (env: KEYGATE_SESSION_TIMEOUT, default 5m)",
  "  --admin-email EMAIL       Bootstrap admin email (env: KEYGATE_ADMIN_EMAIL)",
  "  --admin-password PW       Bootstrap admin password (env: KEYGATE_ADMIN_PASSWORD)",
  ""]

end Config

end AuthVault
