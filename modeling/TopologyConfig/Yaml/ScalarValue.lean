import TopologyConfig.Number.Decimal
import TopologyConfig.Text.Base64
import TopologyConfig.Value.Basic
import TopologyConfig.Yaml.Fault
import TopologyConfig.Yaml.Tag

/-!
The values of scalars, by tag and text. A tag that a document names outright may stand before a text of
another form, which is then a fault.
-/
namespace TopologyConfig.Yaml

namespace ScalarValue

def boolWords : List (String × Bool) := [
  ("yes", true), ("no", false), ("true", true), ("false", false), ("on", true), ("off", false)]

def bool (text : String) : Except Fault Value :=
  let word := Text.lower text
  match boolWords.lookup word with
  | some b => .ok (.bool b)
  | none => .error (.unknownWord word)

def signed : List Char → Except Fault (Bool × List Char)
  | [] => .error .emptyNumber
  | '-' :: cs => .ok (true, cs)
  | '+' :: cs => .ok (false, cs)
  | cs => .ok (false, cs)

def numeral (base : Nat) (cs : List Char) : Except Fault Int :=
  (Numeral.read base (String.ofList cs)).mapError .numeral

/-- The sum of parts that count sixty times more from the last one to the first. -/
def sixties (parts : List Int) : Int := parts.foldl (fun n d => n * 60 + d) 0

def int (text : String) : Except Fault Value := do
  let (negative, cs) ← signed (text.toList.filter (· != '_'))
  let n ← match cs with
    | [] => .error .emptyNumber
    | ['0'] => pure 0
    | '0' :: 'b' :: ds => numeral 2 ds
    | '0' :: 'x' :: ds => numeral 16 ds
    | '0' :: _ => numeral 8 cs
    | cs =>
      if cs.contains ':' then do
        let parts ← (Text.splitAt ':' cs).mapM (numeral 10)
        pure (sixties parts)
      else numeral 10 cs
  pure (.int (if negative then -n else n))

def decimal (cs : List Char) : Except Fault Binary64 :=
  let text := String.ofList cs
  match Binary64.read? text with
  | some x => .ok x
  | none => .error (.notNumber text)

def addSixties (sum : Binary64) (unit : Int) : List Binary64 → Except Fault Binary64
  | [] => .ok sum
  | d :: ds =>
    let scale := Binary64.ofInt unit
    if scale.isInfinite then .error .hugeNumber
    else addSixties (sum.add (d.mul scale)) (unit * 60) ds

def notANumber : Binary64 := Binary64.nan 2

def float (text : String) : Except Fault Value := do
  let (negative, cs) ← signed ((Text.lower text).toList.filter (· != '_'))
  if cs == ".inf".toList then pure (.float (Binary64.infinity negative))
  else if cs == ".nan".toList then pure (.float notANumber)
  else do
    let x ←
      if cs.contains ':' then do
        let parts ← (Text.splitAt ':' cs).mapM decimal
        addSixties (Binary64.zero false) 1 parts.reverse
      else decimal cs
    pure (.float (if negative then x.neg else x))

def binary (text : String) : Except Fault Value :=
  if text.toList.all (·.toNat < 128) then
    match Base64.decode? text with
    | some bytes => .ok (.bytes bytes)
    | none => .error .malformed
  else .error .malformed

def number (cs : List Char) : Nat := Numeral.value 10 cs

def microseconds (fraction : List Char) : Nat := number ((fraction ++ List.replicate 6 '0').take 6)

def offset (z : Plain.Zone) : Except Fault Int :=
  let n : Int := Int.ofNat ((number z.hours * 60 + number z.minutes) * 60 * 1000000)
  let n := if z.negative then -n else n
  if Int.ofNat n.natAbs < Calendar.microsecondsPerDay then .ok n else .error (.range (.offset n))

def timestampOf (p : Plain.TimestampParts) : Except Fault Value := do
  let date : Date := ⟨number p.year, number p.month, number p.day⟩
  match p.clock with
  | none =>
    match date.fault? with
    | some f => .error (.range f)
    | none => pure (.date date)
  | some (hour, minute, second, fraction) =>
    let zone ← match p.zone with
      | none => pure none
      | some z => (offset z).map some
    let t : Timestamp := ⟨date, number hour, number minute, number second, microseconds fraction, zone⟩
    match t.fault? with
    | some f => .error (.range f)
    | none => pure (.timestamp t)

def timestamp (text : String) : Except Fault Value :=
  match (Plain.timestamp? text.toList).or (Plain.date? text.toList) with
  | some p => timestampOf p
  | none => .error .notTimestamp

end ScalarValue

def Tag.valueOf (t : Tag) (text : String) : Except Fault Value :=
  match t with
  | null => .ok .null
  | bool => ScalarValue.bool text
  | int => ScalarValue.int text
  | float => ScalarValue.float text
  | binary => ScalarValue.binary text
  | timestamp => ScalarValue.timestamp text
  | str => .ok (.str text)
  | _ => .error .malformed

end TopologyConfig.Yaml
