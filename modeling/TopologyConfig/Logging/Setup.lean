import TopologyConfig.Logging.Format
import TopologyConfig.Settings

/-!
Setting up the logging of a client: the level below which nothing is logged, a console and, if it is
wanted, a file that is rotated when it has grown too large.
-/
namespace TopologyConfig.Logging

def rootName : String := "stormconf"

def loggerName (name : String) : String :=
  if name == rootName || name.startsWith (rootName ++ ".") then name else rootName ++ "." ++ name

structure Request where
  levelName : String := "INFO"
  toFile : Bool := false
  filePath : String := "logs/stormconf.log"
  rotationSize : Int := 10485760
  retentionCount : Int := 5
  json : Bool := false

/-- The lowest level that is logged; without one, the level of all loggers counts. -/
abbrev Threshold := Option LogLevel

namespace Threshold

def number (t : Threshold) : Int := (t.map LogLevel.number).getD 0

def usual : LogLevel := .warning

def inForce (t : Threshold) : LogLevel := t.getD usual

def named : List (String × Threshold) := [
  ("DEBUG", some .debug), ("INFO", some .info), ("WARNING", some .warning), ("WARN", some .warning),
  ("ERROR", some .error), ("CRITICAL", some .critical), ("FATAL", some .critical), ("NOTSET", none)]

/-- A name that stands for a text and not for a level. -/
def textName : String := "BASIC_FORMAT"

def textOfName : String := "%(levelname)s:%(name)s:%(message)s"

def ofName (name : String) : Except ConfigError Threshold :=
  let raised := Text.upper name
  match named.lookup raised with
  | some t => .ok t
  | none =>
    if raised == textName then .error (.unknownLevel textOfName)
    else .error (.noConstant "logging" raised)

end Threshold

structure LogFile where
  path : Path
  rotationSize : Int
  retentionCount : Int

structure Handler where
  format : Format
  threshold : Threshold
  file : Option LogFile := none

structure Setup where
  threshold : Threshold
  handlers : List Handler
  propagates : Bool := false

def consoleHandler (r : Request) (t : Threshold) : Handler :=
  { format := if r.json then .consoleJson else .coloured, threshold := t }

def fileHandler (r : Request) (t : Threshold) : Handler :=
  { format := if r.json then .fileJson else .plain
    threshold := t
    file := some ⟨(Path.ofText r.filePath).collapsed, r.rotationSize, r.retentionCount⟩ }

def Request.setUp (r : Request) : Except ConfigError Setup := do
  let t ← Threshold.ofName r.levelName
  .ok {
    threshold := t
    handlers := consoleHandler r t :: (if r.toFile then [fileHandler r t] else []) }

/-- The logging that settings ask for. The level of the settings is known by its name once one was chosen;
before, it is known by the name of the choice. -/
def Request.ofSettings (s : Settings) : Request :=
  { levelName := match s.chosenLevel with
      | some l => l.name
      | none => "LogLevel." ++ s.level.name
    toFile := s.logsToFile
    filePath := s.logFile
    json := s.logsJson }

namespace Setup

/-- A set-up on logging as it stands: nothing changes before the level is known, and then the handlers that are there
make room for the new ones. -/
def again (l : Setup) (r : Request) : Except ConfigError Setup := do
  let t ← Threshold.ofName r.levelName
  let l := { l with threshold := t, handlers := [] }
  let l := { l with handlers := l.handlers ++ [consoleHandler r t] }
  let l := if r.toFile then { l with handlers := l.handlers ++ [fileHandler r t] } else l
  .ok { l with propagates := false }

def isEnabled (l : Setup) (level : Int) : Bool := 0 < level && l.threshold.inForce.number ≤ level

def announcements (l : Setup) (r : Request) : List String :=
  if l.isEnabled LogLevel.debug.number then
    ("Logging initialized at " ++ r.levelName ++ " level") ::
      (if r.toFile then ["File logging enabled: " ++ r.filePath] else [])
  else []

end Setup
end TopologyConfig.Logging
