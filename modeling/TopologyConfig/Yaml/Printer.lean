import TopologyConfig.Number.Decimal
import TopologyConfig.Text.Base64
import TopologyConfig.Value.Basic
import TopologyConfig.Yaml.Node
import TopologyConfig.Yaml.Sheet

/-!
Writing YAML: block collections in the order of their entries, each scalar in the plainest form that reads
back as it is. A tag is written only where the form does not imply it.
-/
namespace TopologyConfig.Yaml

inductive WriteError where
  | notRepresentable
  | numeral (e : NumeralError)

/-- The text of a floating-point number, with decimals even before an exponent. -/
def floatText (x : Binary64) : String :=
  let text := x.textWith ⟨".nan", ".inf", "-.inf"⟩
  if text.toList.contains '.' then text
  else String.ofList (text.toList.flatMap (fun c => if c == 'e' then ['.', '0', 'e'] else [c]))

namespace Node

mutual

def ofValue : Value → Except WriteError Node
  | .null => .ok (scalar .null "null")
  | .bool b => .ok (scalar .bool (if b then "true" else "false"))
  | .int n =>
    match Numeral.write n with
    | .ok text => .ok (scalar .int text)
    | .error e => .error (.numeral e)
  | .float x => .ok (scalar .float (floatText x))
  | .str s => .ok (scalar .str s)
  | .bytes bs => .ok (scalar .binary (Base64.encodeLines bs))
  | .date d => .ok (scalar .timestamp d.iso)
  | .timestamp t => .ok (scalar .timestamp (t.isoWith " "))
  | .list xs => (ofValues xs).map (sequence .seq)
  | .tuple xs => (ofValues xs).map (sequence .seq)
  | .set xs => (ofValues xs).map (fun ns => mapping .set (ns.map (fun n => (n, scalar .null "null"))))
  | .map es => (ofEntries es).map (mapping .map)
  | .labelled _ v => ofValue v
  | _ => .error .notRepresentable

def ofValues : List Value → Except WriteError (List Node)
  | [] => .ok []
  | x :: xs => do
    let n ← ofValue x
    let ns ← ofValues xs
    pure (n :: ns)

def ofEntries : List (Value × Value) → Except WriteError (List (Node × Node))
  | [] => .ok []
  | (k, v) :: es => do
    let key ← ofValue k
    let n ← ofValue v
    let ns ← ofEntries es
    pure ((key, n) :: ns)

end

inductive Form where
  | plain
  | single
  | double
  | block
deriving DecidableEq

/-- The form of a scalar: bytes stand in a block, and a key keeps to one line. -/
def form (isKey : Bool) (t : Tag) (text : String) : Form :=
  let f := TextForms.ofText text.toList
  if t = .binary then (if !isKey && f.block then .block else .double)
  else if Tag.ofPlain text = t && f.plain && !(isKey && (f.isEmpty || f.multiline)) then .plain
  else if f.singleQuoted && !(isKey && f.multiline) then .single
  else .double

def writeScalar (isKey : Bool) (n : Nat) (t : Tag) (text : String) (s : Sheet) : Sheet :=
  let f := form isKey t text
  let s := if f = .plain || t = .str then s else s.word t.shortName.toList
  match f with
  | .plain => s.plain (!isKey) n text.toList
  | .single => s.single (!isKey) n text.toList
  | .double => s.double (!isKey) n text.toList
  | .block => s.block n text.toList

/-- The node is short enough for a key that stands before its colon on one line. -/
def isSimpleKey : Node → Bool
  | scalar t text =>
    let f := TextForms.ofText text.toList
    t.shortName.length + text.length < 128 && !f.isEmpty && !f.multiline
  | sequence _ items => items.isEmpty
  | mapping _ es => es.isEmpty

def inner (outer : Option Nat) : Nat :=
  match outer with
  | none => 0
  | some n => n + 2

mutual

def write (outer : Option Nat) (inMapping isKey : Bool) : Node → Sheet → Sheet
  | scalar t text, s => writeScalar isKey (outer.getD 0 + 2) t text s
  | sequence _ items, s =>
    if items.isEmpty then (s.word ['[']).mark [']']
    else if inMapping && !s.indenting then writeItems (outer.getD 0) items s
    else writeItems (inner outer) items s
  | mapping t es, s =>
    let s := if t = .map then s else s.word t.shortName.toList
    if es.isEmpty then (s.word ['\x7b']).mark ['\x7d'] else writeEntries (inner outer) es s

def writeItems (n : Nat) : List Node → Sheet → Sheet
  | [], s => s
  | x :: xs, s => writeItems n xs (write (some n) false false x ((s.indent n).indentWord ['-']))

def writeEntries (n : Nat) : List (Node × Node) → Sheet → Sheet
  | [], s => s
  | (k, v) :: es, s =>
    let s := s.indent n
    let s :=
      if k.isSimpleKey then (write (some n) true true k s).mark [':']
      else ((write (some n) true false k (s.indentWord ['?'])).indent n).indentWord [':']
    writeEntries n es (write (some n) true false v s)

end

end Node

def write (v : Value) : Except WriteError String :=
  (Node.ofValue v).map (fun n => ((n.write none false false {}).indent 0).text)

end TopologyConfig.Yaml
