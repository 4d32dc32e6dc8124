/-!
Log records: the level, the logger and the message of each.
-/
namespace TopologyConfig

inductive LogLevel where
  | debug
  | info
  | warning
  | error
  | critical
deriving DecidableEq, Inhabited

namespace LogLevel

def name : LogLevel → String
  | debug => "DEBUG"
  | info => "INFO"
  | warning => "WARNING"
  | error => "ERROR"
  | critical => "CRITICAL"

def all : List LogLevel := [debug, info, warning, error, critical]

def ofName? (s : String) : Option LogLevel := all.find? (·.name == s)

def number : LogLevel → Int
  | debug => 10
  | info => 20
  | warning => 30
  | error => 40
  | critical => 50

end LogLevel

structure LogRecord where
  level : LogLevel
  logger : String
  message : String
deriving DecidableEq

end TopologyConfig
