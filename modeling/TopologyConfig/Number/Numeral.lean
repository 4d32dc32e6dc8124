import TopologyConfig.Text.Blank
import TopologyConfig.Text.Quoted

/-!
Whole numbers as text. A numeral may be signed, may group its digits with single underscores and may
use the decimal digits of any script; in base ten no more than `maxDigits` digits are read or written.
-/
namespace TopologyConfig

def maxDigits : Nat := 4300

inductive NumeralError where
  | malformed (base : Nat) (text : String)
  | tooLongToRead (digits : Nat)
  | tooLongToWrite

namespace NumeralError

/-- The beginning of a text's quoted form; messages show no more of it. -/
def excerpt (text : String) : String := String.ofList ((Text.quoted text).toList.take 200)

def message : NumeralError → String
  | .malformed base text =>
    "invalid literal for int() with base " ++ toString base ++ ": " ++ excerpt text
  | .tooLongToRead digits =>
    "Exceeds the limit (4300 digits) for integer string conversion: value has " ++
      toString digits ++ " digits; use sys.set_int_max_str_digits() to increase the limit"
  | .tooLongToWrite =>
    "Exceeds the limit (4300 digits) for integer string conversion; " ++
      "use sys.set_int_max_str_digits() to increase the limit"

end NumeralError

namespace Numeral

def decimalZeros : List Nat := [
  48, 1632, 1776, 1984, 2406, 2534, 2662, 2790, 2918, 3046, 3174, 3302,
  3430, 3558, 3664, 3792, 3872, 4160, 4240, 6112, 6160, 6470, 6608, 6784,
  6800, 6992, 7088, 7232, 7248, 42528, 43216, 43264, 43472, 43504, 43600, 44016,
  65296, 66720, 68912, 69734, 69872, 69942, 70096, 70384, 70736, 70864, 71248, 71360,
  71472, 71904, 72016, 72784, 73040, 73120, 92768, 92864, 93008, 120782, 120792, 120802,
  120812, 120822, 123200, 123632, 125264, 130032]

def decimalValue? (c : Char) : Option Nat :=
  (decimalZeros.find? (fun z => z ≤ c.toNat && c.toNat < z + 10)).map (c.toNat - ·)

def digitValue? (c : Char) : Option Nat :=
  if 'a' ≤ c && c ≤ 'z' then some (c.toNat - 87)
  else if 'A' ≤ c && c ≤ 'Z' then some (c.toNat - 55)
  else decimalValue? c

/-- A blank around a numeral: of the ASCII blanks only the usual six. -/
def isPadding (c : Char) : Bool :=
  Text.isBlank c && !(28 ≤ c.toNat && c.toNat ≤ 31)

def isDigitIn (base : Nat) (c : Char) : Bool :=
  match digitValue? c with
  | some d => d < base
  | none => false

def wellGrouped (base : Nat) : List Char → Bool
  | [] => false
  | [c] => isDigitIn base c
  | c :: '_' :: rest => isDigitIn base c && wellGrouped base rest
  | c :: rest => isDigitIn base c && wellGrouped base rest

def value (base : Nat) (cs : List Char) : Nat :=
  cs.foldl (fun n c => match digitValue? c with
    | some d => n * base + d
    | none => n) 0

def baseLetter (base : Nat) : Option Char :=
  if base = 2 then some 'b' else if base = 8 then some 'o' else if base = 16 then some 'x' else none

def dropBaseMark (base : Nat) : List Char → List Char
  | '0' :: c :: rest =>
    if some c.toLower = baseLetter base then
      match rest with
      | '_' :: rest => rest
      | rest => rest
    else '0' :: c :: rest
  | cs => cs

def splitSign : List Char → Bool × List Char
  | '-' :: cs => (true, cs)
  | '+' :: cs => (false, cs)
  | cs => (false, cs)

/-- How many digits a decimal numeral begins with, if its underscores are placed well so far. -/
def leadingDigits (cs : List Char) : Option Nat :=
  let run := cs.takeWhile (fun c => c == '_' || isDigitIn 10 c)
  if wellGrouped 10 run then some (run.countP (· != '_')) else none

def read (base : Nat) (text : String) : Except NumeralError Int :=
  let body := ((text.toList.dropWhile isPadding).reverse.dropWhile isPadding).reverse
  let (negative, rest) := splitSign body
  let digits := dropBaseMark base rest
  match if base = 10 then leadingDigits digits else none with
  | some n =>
    if n > maxDigits then .error (.tooLongToRead n)
    else finish negative digits
  | none => finish negative digits
where
  finish (negative : Bool) (digits : List Char) : Except NumeralError Int :=
    if wellGrouped base digits then
      let n := value base digits
      .ok (if negative then -Int.ofNat n else Int.ofNat n)
    else .error (.malformed base text)

def isWord64 (n : Int) : Bool := -9223372036854775808 ≤ n && n ≤ 9223372036854775807

def isWritable (n : Int) : Bool := n.natAbs < Nat.pow 10 maxDigits

def write (n : Int) : Except NumeralError String :=
  if isWritable n then .ok (toString n) else .error .tooLongToWrite

end Numeral
end TopologyConfig
