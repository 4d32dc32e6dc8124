import TopologyConfig.Number.Decimal
import TopologyConfig.Text.Quoted
import TopologyConfig.Value.Basic

/-!
Writing JSON: one line, a blank after each comma and colon, and every character as itself unless it must
be escaped.
-/
namespace TopologyConfig.Json

inductive WriteError where
  | notSerializable (typeName : String)
  | badKey (typeName : String)
  | numeral (e : NumeralError)

namespace WriteError

def message : WriteError → String
  | notSerializable name => "Object of type " ++ name ++ " is not JSON serializable"
  | badKey name => "keys must be str, int, float, bool or None, not " ++ name
  | numeral e => e.message

end WriteError

def escapeChar (c : Char) : List Char :=
  match c with
  | '"' => ['\\', '"']
  | '\\' => ['\\', '\\']
  | '\n' => ['\\', 'n']
  | '\r' => ['\\', 'r']
  | '\t' => ['\\', 't']
  | '\x08' => ['\\', 'b']
  | '\x0c' => ['\\', 'f']
  | c => if c.toNat < 32 then '\\' :: 'u' :: Text.hex 4 c.toNat else [c]

def stringText (s : String) : List Char := '"' :: s.toList.flatMap escapeChar ++ ['"']

def specialNames : Binary64.SpecialNames := ⟨"NaN", "Infinity", "-Infinity"⟩

def floatText (x : Binary64) : List Char := (x.textWith specialNames).toList

def intText (n : Int) : Except WriteError (List Char) :=
  match Numeral.write n with
  | .ok s => .ok s.toList
  | .error e => .error (.numeral e)

/-- A key as the text of a string: scalars other than strings are written as they are as values. -/
def keyText : Value → Except WriteError (List Char)
  | .str s => .ok (stringText s)
  | .null => .ok "\"null\"".toList
  | .bool b => .ok (if b then "\"true\"".toList else "\"false\"".toList)
  | .int n => (intText n).map (fun cs => '"' :: cs ++ ['"'])
  | .float x => .ok ('"' :: floatText x ++ ['"'])
  | v => .error (.badKey v.qualifiedTypeName)

mutual

def valueText : Value → Except WriteError (List Char)
  | .null => .ok "null".toList
  | .bool b => .ok (if b then "true".toList else "false".toList)
  | .int n => intText n
  | .float x => .ok (floatText x)
  | .str s => .ok (stringText s)
  | .list xs => itemsIn xs
  | .frozenList xs => itemsIn xs
  | .tuple xs => itemsIn xs
  | .map es => membersIn es
  | .frozenMap es => membersIn es
  | .labelled _ v => valueText v
  | v => .error (.notSerializable v.typeName)

def itemsIn : List Value → Except WriteError (List Char)
  | [] => .ok ['[', ']']
  | x :: xs => do
    let first ← valueText x
    let rest ← moreItems xs
    pure ('[' :: first ++ rest)

def moreItems : List Value → Except WriteError (List Char)
  | [] => .ok [']']
  | x :: xs => do
    let first ← valueText x
    let rest ← moreItems xs
    pure (',' :: ' ' :: first ++ rest)

def membersIn : List (Value × Value) → Except WriteError (List Char)
  | [] => .ok ['\x7b', '\x7d']
  | (k, v) :: es => do
    let key ← keyText k
    let first ← valueText v
    let rest ← moreMembers es
    pure ('\x7b' :: key ++ ':' :: ' ' :: first ++ rest)

def moreMembers : List (Value × Value) → Except WriteError (List Char)
  | [] => .ok ['\x7d']
  | (k, v) :: es => do
    let key ← keyText k
    let first ← valueText v
    let rest ← moreMembers es
    pure (',' :: ' ' :: key ++ ':' :: ' ' :: first ++ rest)

end

def write (v : Value) : Except WriteError String := (valueText v).map String.ofList

end TopologyConfig.Json
