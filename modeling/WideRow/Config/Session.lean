import WideRow.Config.Params
import WideRow.Error.Basic
import WideRow.Text.Numeral

/-!
# Session configuration

A configuration is read from connection parameters: contact points and a port are required to make
sense, and everything else may be absent. Contact points are separated by two hyphens.
-/

namespace WideRow

structure SessionConfig where
  hosts : List String
  port : UInt16
  keyspace : Option String
  username : Option String
  password : Option String
  debug : Bool
  sslEnabled : Bool
  verifyServerCertificate : Bool
  loadBalancingPolicy : Option String
  retryPolicy : Option String
  reconnectPolicy : Option String
  deriving DecidableEq, Repr

namespace SessionConfig

def defaultPort : UInt16 := 9042

def hostSeparator : String := "--"

def default : SessionConfig where
  hosts := ["localhost"]
  port := defaultPort
  keyspace := none
  username := none
  password := none
  debug := false
  sslEnabled := false
  verifyServerCertificate := false
  loadBalancingPolicy := none
  retryPolicy := none
  reconnectPolicy := none

/-! ## Reading parameters -/

/-- Cuts at each two hyphens, from left to right. -/
def splitHosts : List Char → List (List Char)
  | [] => [[]]
  | '-' :: '-' :: rest => [] :: splitHosts rest
  | c :: rest =>
    match splitHosts rest with
    | piece :: pieces => (c :: piece) :: pieces
    | [] => [[c]]

/-- The contact points of a host parameter: its pieces without the blanks around them, and without
the pieces that are nothing else. -/
def readHosts (host : String) : List String :=
  ((splitHosts host.toList).map fun piece => String.ofList (Text.trimChars piece)).filter (· != "")

/-- Whether a value says yes: `1`, or `true` in any case. -/
def isTruthy (value : String) : Bool :=
  Text.trim value == "1" || Text.sameIgnoringCase (Text.trim value) "true"

/-- A value without the blanks around it; none if nothing else is there. -/
def nonEmpty (value : Option String) : Option String :=
  (value.map Text.trim).filter (· != "")

/-- The port of a port parameter, which may have blanks around it. -/
def readPort : Option String → Except ConfigError UInt16
  | none => .ok defaultPort
  | some raw =>
    match Text.readNatural 65535 (Text.trimChars raw.toList) with
    | .ok n => .ok (UInt16.ofNat n)
    | .error fault => .error (.invalid Params.portKey raw fault.message)

/-- Whether there is a contact point, and a port. -/
def validate (c : SessionConfig) : Except ConfigError Unit :=
  if c.hosts.isEmpty then
    .error (.invalid Params.hostKey "" "at least one contact point is required")
  else if c.port = 0 then .error (.invalid Params.portKey "0" "port must be non-zero")
  else .ok ()

def ofParams (p : Params) : Except ConfigError SessionConfig := do
  let host ←
    match p.get? Params.hostKey with
    | some host => pure host
    | none => throw (.missing Params.hostKey)
  let port ← readPort (p.get? Params.portKey)
  let config : SessionConfig :=
    { hosts := readHosts host
      port := port
      keyspace := nonEmpty (p.get? Params.keyspaceKey)
      username := nonEmpty (p.get? Params.userKey)
      password := p.get? Params.passwordKey
      debug := (p.get? Params.debugKey).any isTruthy
      sslEnabled := (p.get? Params.sslEnabledKey).any isTruthy
      verifyServerCertificate := (p.get? Params.verifyServerCertificateKey).any isTruthy
      loadBalancingPolicy := nonEmpty (p.get? Params.loadBalancingPolicyKey)
      retryPolicy := nonEmpty (p.get? Params.retryPolicyKey)
      reconnectPolicy := nonEmpty (p.get? Params.reconnectPolicyKey) }
  config.validate
  return config

/-! ## Changing a configuration -/

def withHost (c : SessionConfig) (host : String) : SessionConfig :=
  { c with hosts := [host] }

def addHost (c : SessionConfig) (host : String) : SessionConfig :=
  { c with hosts := c.hosts ++ [host] }

def clearHosts (c : SessionConfig) : SessionConfig :=
  { c with hosts := [] }

def withPort (c : SessionConfig) (port : UInt16) : SessionConfig :=
  { c with port := port }

def withKeyspace (c : SessionConfig) (keyspace : String) : SessionConfig :=
  { c with keyspace := some keyspace }

def withCredentials (c : SessionConfig) (username password : String) : SessionConfig :=
  { c with username := some username, password := some password }

def withSsl (c : SessionConfig) (enabled verify : Bool) : SessionConfig :=
  { c with sslEnabled := enabled, verifyServerCertificate := verify }

def withDebug (c : SessionConfig) (debug : Bool) : SessionConfig :=
  { c with debug := debug }

/-! ## Questions -/

def hasCredentials (c : SessionConfig) : Bool :=
  c.username.any (· != "")

def contactPoints (c : SessionConfig) : List String :=
  c.hosts.map fun host => host ++ ":" ++ toString c.port.toNat

/-- What the configuration shows of itself: everything but the password. -/
def settings (c : SessionConfig) : Settings :=
  [("hosts", .texts c.hosts), ("port", .number c.port.toNat),
    ("keyspace", .ofText? c.keyspace), ("username", .ofText? c.username),
    ("debug", .flag c.debug), ("ssl_enabled", .flag c.sslEnabled),
    ("verify_server_certificate", .flag c.verifyServerCertificate),
    ("load_balancing_policy", .ofText? c.loadBalancingPolicy),
    ("retry_policy", .ofText? c.retryPolicy),
    ("reconnect_policy", .ofText? c.reconnectPolicy)]

end SessionConfig

end WideRow
