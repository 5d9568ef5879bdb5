import Mathlib.Data.Nat.Notation

/-!
# The configuration of the controller

`ReadFromFile` checks the `validate` tags of an unmarshalled configuration, and
those of the database configuration in it. Fields without a check are left out.
-/

namespace Silk.Controller

structure DatabaseConfig where
  type : String
  user : String
  host : String
  port : UInt16
  timeout : Int64

structure Config where
  debugServerPort : Int64
  listenHost : String
  listenPort : Int64
  caCertFile : String
  serverCertFile : String
  serverKeyFile : String
  network : String
  subnetPrefixLength : Int64
  database : DatabaseConfig
  leaseExpirationSeconds : Int64
  metronPort : Int64
  healthCheckPort : Int64
  metricsEmitSeconds : Int64
  stalenessThresholdSeconds : Int64
  logPrefix : String
  maxIdleConnections : Int64
  maxOpenConnections : Int64
  maxConnectionsLifetimeSeconds : Int64

/-- The tags are `nonzero`, `min=0` or `min=1`; `nonzero` accepts every structure. -/
def Config.checks (cfg : Config) : List (String × Bool) :=
  [("DebugServerPort", 1 ≤ cfg.debugServerPort), ("ListenHost", cfg.listenHost ≠ ""),
    ("ListenPort", cfg.listenPort ≠ 0), ("CACertFile", cfg.caCertFile ≠ ""),
    ("ServerCertFile", cfg.serverCertFile ≠ ""), ("ServerKeyFile", cfg.serverKeyFile ≠ ""),
    ("Network", cfg.network ≠ ""), ("SubnetPrefixLength", cfg.subnetPrefixLength ≠ 0),
    ("Database.Type", cfg.database.type ≠ ""), ("Database.User", cfg.database.user ≠ ""),
    ("Database.Host", cfg.database.host ≠ ""), ("Database.Port", cfg.database.port ≠ 0),
    ("Database.Timeout", 1 ≤ cfg.database.timeout),
    ("LeaseExpirationSeconds", 1 ≤ cfg.leaseExpirationSeconds), ("MetronPort", 1 ≤ cfg.metronPort),
    ("HealthCheckPort", 1 ≤ cfg.healthCheckPort),
    ("MetricsEmitSeconds", 1 ≤ cfg.metricsEmitSeconds),
    ("StalenessThresholdSeconds", 1 ≤ cfg.stalenessThresholdSeconds),
    ("LogPrefix", cfg.logPrefix ≠ ""), ("MaxIdleConnections", 0 ≤ cfg.maxIdleConnections),
    ("MaxOpenConnections", 0 ≤ cfg.maxOpenConnections),
    ("MaxConnectionsLifetimeSeconds", 0 ≤ cfg.maxConnectionsLifetimeSeconds)]

def Config.read (cfg : Config) : Except (List String) Config :=
  if cfg.checks.all Prod.snd then .ok cfg
  else .error ((cfg.checks.filter fun c => !c.2).map Prod.fst)

end Silk.Controller
