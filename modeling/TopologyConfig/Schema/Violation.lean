import TopologyConfig.Schema.Shape

/-!
Violations of a key's shape. The message shows the rejected value, so there is none for a value that
cannot be written.
-/
namespace TopologyConfig

structure Violation where
  key : Value
  expected : String
  value : Value
  problem : Option Problem := none
  /-- A wording of the message other than the usual one; empty for the usual one. -/
  wording : String := ""
deriving Inhabited

namespace Violation

def isWritable (v : Violation) : Bool :=
  (v.problem.isNone && !v.wording.isEmpty) || (v.key.isWritable && v.value.isWritable)

def usualWording (v : Violation) : String :=
  "'" ++ v.key.plainText ++ "' must be " ++ v.expected ++ ", got " ++ v.value.tag ++ ": " ++
    v.value.shownText

def problemWording (v : Violation) (p : Problem) : String :=
  "Malformed entry for '" ++ v.key.plainText ++ "': field '" ++ p.field ++ "'" ++
    (if p.reason.isEmpty then "" else " (" ++ p.reason ++ ")") ++
    "; expected " ++ v.expected ++ ", got " ++ v.value.shownText

def message (v : Violation) : String :=
  match v.problem with
  | some p => v.problemWording p
  | none => if v.wording.isEmpty then v.usualWording else v.wording

def checked (v : Violation) : Except NumeralError Violation :=
  if v.isWritable then .ok v else .error .tooLongToWrite

end Violation
end TopologyConfig
