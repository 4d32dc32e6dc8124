import TopologyConfig.Calendar
import TopologyConfig.Logging.Record
import TopologyConfig.Logging.Template
import TopologyConfig.Json.Printer

/-!
The forms of a log line: coloured for a console, plain for a file, as a JSON object, or by a template.
-/
namespace TopologyConfig.Logging

structure Event where
  level : String
  logger : String
  module : String
  function : String
  line : Int
  seconds : Binary64
  message : String

def escape : Char := Char.ofNat 27

def colourOf (level : String) : Option Nat :=
  match LogLevel.ofName? level with
  | some .debug => some 36
  | some .info => some 32
  | some .warning => some 33
  | some .error => some 31
  | some .critical => some 35
  | none => none

def colourCode (colour : Option Nat) : String :=
  String.ofList [escape, '['] ++ toString (colour.getD 0) ++ "m"

def coloured (level : String) : String := colourCode (colourOf level) ++ level ++ colourCode none

/-- Date and time of day; before year one the years count down from zero. -/
def Event.time (e : Event) : String :=
  let cycles := e.seconds.floor / Calendar.secondsPerCycle
  let t := Calendar.timestampAfter (e.seconds.floor % Calendar.secondsPerCycle)
  toString (400 * cycles + Int.ofNat t.date.year) ++ "-" ++ Calendar.padded 2 t.date.month ++ "-" ++ Calendar.padded 2 t.date.day ++
    " " ++ t.clock

def Event.fullTime (e : Event) : String := e.time ++ ",000"

def consoleBody (level logger message : String) : String :=
  coloured level ++ " - " ++ logger ++ " - " ++ message

def consoleLine (e : Event) : String := "[" ++ e.time ++ "] " ++ consoleBody e.level e.logger e.message

def fileLine (e : Event) : String :=
  "[" ++ e.time ++ "] " ++ e.level ++ " - " ++ e.logger ++ " - " ++ e.module ++ ":" ++ e.function ++ ":" ++
    toString e.line ++ " - " ++ e.message

/-- One half of a character beyond the first plane, or the character itself, as four digits. -/
def unitEscape (n : Nat) : List Char := '\\' :: 'u' :: Text.hex 4 n

def asciiEscape (c : Char) : List Char :=
  let n := c.toNat
  if n < 127 then Json.escapeChar c
  else if n < 0x10000 then unitEscape n
  else unitEscape (0xD800 + (n - 0x10000) / 0x400) ++ unitEscape (0xDC00 + (n - 0x10000) % 0x400)

def jsonText : FieldValue → String
  | .text s => String.ofList ('"' :: s.toList.flatMap asciiEscape ++ ['"'])
  | .whole n => toString n
  | .real x => x.text

def jsonObject (fields : List (String × FieldValue)) : String :=
  "\x7b" ++ ", ".intercalate (fields.map (fun f => jsonText (.text f.1) ++ ": " ++ jsonText f.2)) ++ "\x7d"

def consoleFields (level logger message : String) : List (String × FieldValue) :=
  [("name", .text logger), ("levelname", .text level), ("message", .text message)]

def consoleObject (e : Event) : String :=
  jsonObject (("asctime", .text e.fullTime) :: consoleFields e.level e.logger e.message)

def fileObject (e : Event) : String :=
  jsonObject [
    ("asctime", .text e.fullTime), ("name", .text e.logger), ("levelname", .text e.level),
    ("module", .text e.module), ("funcName", .text e.function), ("lineno", .whole e.line),
    ("message", .text e.message)]

def Event.field? (e : Event) (level name : String) : Option FieldValue :=
  match name with
  | "name" => some (.text e.logger)
  | "msg" => some (.text e.message)
  | "message" => some (.text e.message)
  | "levelname" => some (.text level)
  | "levelno" => some (.whole (((LogLevel.ofName? e.level).map LogLevel.number).getD 0))
  | "module" => some (.text e.module)
  | "funcName" => some (.text e.function)
  | "lineno" => some (.whole e.line)
  | "created" => some (.real e.seconds)
  | "msecs" => some (.real (Binary64.zero false))
  | "asctime" => some (.text e.fullTime)
  | _ => none

def colouredLine (template : String) (e : Event) : Except TemplateFault String := do
  Template.fill (e.field? (coloured e.level)) true (← Template.ofText template)

inductive Format where
  | coloured
  | plain
  | consoleJson
  | fileJson
deriving DecidableEq

namespace Format

def line : Format → Event → String
  | .coloured => consoleLine
  | .plain => fileLine
  | .consoleJson => consoleObject
  | .fileJson => fileObject

end Format
end TopologyConfig.Logging
