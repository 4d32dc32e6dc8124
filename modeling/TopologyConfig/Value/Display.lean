import TopologyConfig.Number.Decimal
import TopologyConfig.Text.Quoted
import TopologyConfig.Value.Basic

/-!
Values as text: `shown` is the form inside messages, with quoted strings, and `plain` is the form of a
value that is itself a message or a key in one. Neither exists when a whole number is too long to write.
-/
namespace TopologyConfig.Value

mutual

def isWritable : Value → Bool
  | int n => Numeral.isWritable n
  | list xs => areWritable xs
  | frozenList xs => areWritable xs
  | tuple xs => areWritable xs
  | set xs => areWritable xs
  | map es => entriesWritable es
  | frozenMap es => entriesWritable es
  | view es => entriesWritable es
  | config _ _ es => entriesWritable es
  | labelled _ v => isWritable v
  | _ => true

def areWritable : List Value → Bool
  | [] => true
  | x :: xs => isWritable x && areWritable xs

def entriesWritable : List (Value × Value) → Bool
  | [] => true
  | (k, v) :: es => isWritable k && isWritable v && entriesWritable es

end

def braced (s : String) : String := "\x7b" ++ s ++ "\x7d"

def joined (parts : List String) : String := ", ".intercalate parts

mutual

def shownText : Value → String
  | null => "None"
  | bool b => if b then "True" else "False"
  | int n => toString n
  | float x => x.text
  | str s => Text.quoted s
  | bytes bs => Text.quotedBytes bs
  | date d => d.shown
  | timestamp t => t.shown
  | classRef module name => "<class '" ++ module ++ "." ++ name ++ "'>"
  | object name => "<" ++ name ++ ">"
  | list xs => "[" ++ joined (shownItems xs) ++ "]"
  | frozenList xs => "[" ++ joined (shownItems xs) ++ "]"
  | tuple xs => "(" ++ joined (shownItems xs) ++ (if xs.length = 1 then ",)" else ")")
  | set xs => if xs.isEmpty then "set()" else braced (joined (shownItems xs))
  | map es => braced (joined (shownEntries es))
  | frozenMap es => braced (joined (shownEntries es))
  | view es => "mappingproxy(" ++ braced (joined (shownEntries es)) ++ ")"
  | config _ isSealed es =>
    "ConfigMap(" ++ braced (joined (shownEntries es)) ++ (if isSealed then ", sealed)" else ", open)")
  | labelled _ v => shownText v

def shownItems : List Value → List String
  | [] => []
  | x :: xs => shownText x :: shownItems xs

def shownEntries : List (Value × Value) → List String
  | [] => []
  | (k, v) :: es => (shownText k ++ ": " ++ shownText v) :: shownEntries es

end

def shown (v : Value) : Except NumeralError String :=
  if v.isWritable then .ok v.shownText else .error .tooLongToWrite

def plainText : Value → String
  | str s => s
  | date d => d.iso
  | timestamp t => t.isoWith " "
  | v => v.shownText

def plain (v : Value) : Except NumeralError String :=
  if v.isWritable then .ok v.plainText else .error .tooLongToWrite

end TopologyConfig.Value
