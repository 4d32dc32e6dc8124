import TopologyConfig.Number.Decimal
import TopologyConfig.Value.Entries

/-!
Reading JSON. A syntax error tells what was expected and where: the line, the column and the offset all
count characters. Beside the numbers of the standard there are `NaN`, `Infinity` and `-Infinity`, and in a
map that names a key twice the last value counts.
-/
namespace TopologyConfig.Json

inductive Problem where
  | value
  | propertyName
  | colon
  | comma
  | extraData
  | unterminated
  | controlCharacter
  | badEscape
  | badHexEscape
  | byteOrderMark
deriving DecidableEq

namespace Problem

def message : Problem → String
  | value => "Expecting value"
  | propertyName => "Expecting property name enclosed in double quotes"
  | colon => "Expecting ':' delimiter"
  | comma => "Expecting ',' delimiter"
  | extraData => "Extra data"
  | unterminated => "Unterminated string starting at"
  | controlCharacter => "Invalid control character at"
  | badEscape => "Invalid \\escape"
  | badHexEscape => "Invalid \\uXXXX escape"
  | byteOrderMark => "Unexpected UTF-8 BOM (decode using utf-8-sig)"

end Problem

structure SyntaxFault where
  problem : Problem
  line : Nat
  column : Nat
  offset : Nat

namespace SyntaxFault

/-- The place of an offset: lines are counted from one, columns from the last line break. -/
def place (text : List Char) (problem : Problem) (offset : Nat) : SyntaxFault :=
  let before := text.take offset
  ⟨problem, before.count '\n' + 1, (before.reverse.takeWhile (· != '\n')).length + 1, offset⟩

def message (f : SyntaxFault) : String :=
  f.problem.message ++ ": line " ++ toString f.line ++ " column " ++ toString f.column ++
    " (char " ++ toString f.offset ++ ")"

end SyntaxFault

inductive Stop where
  | at (problem : Problem) (offset : Nat)
  | numeral (e : NumeralError)

structure Cursor where
  rest : List Char
  offset : Nat

namespace Cursor

def isSpace (c : Char) : Bool := c == ' ' || c == '\t' || c == '\n' || c == '\r'

def drop (n : Nat) (c : Cursor) : Cursor := ⟨c.rest.drop n, c.offset + n⟩

def skipSpace (c : Cursor) : Cursor := c.drop (c.rest.takeWhile isSpace).length

def fail (c : Cursor) (p : Problem) : Except Stop α := .error (.at p c.offset)

end Cursor

def hexValue? (c : Char) : Option Nat :=
  if c.isDigit then some (c.toNat - 48)
  else if 'a' ≤ c && c ≤ 'f' then some (c.toNat - 87)
  else if 'A' ≤ c && c ≤ 'F' then some (c.toNat - 55)
  else none

def hex4? : List Char → Option Nat
  | a :: b :: c :: d :: _ => do
    pure ((((← hexValue? a) * 16 + (← hexValue? b)) * 16 + (← hexValue? c)) * 16 + (← hexValue? d))
  | _ => none

def isHighSurrogate (n : Nat) : Bool := 0xD800 ≤ n && n < 0xDC00

def isLowSurrogate (n : Nat) : Bool := 0xDC00 ≤ n && n < 0xE000

/-- A code unit as a character. Half of a surrogate pair alone is none, and U+FFFD stands in its place; texts that spell
one are not read exactly. -/
def unitChar (n : Nat) : Char :=
  if 0xD800 ≤ n && n < 0xE000 then Char.ofNat 0xFFFD else Char.ofNat n

def pairChar (high low : Nat) : Char :=
  Char.ofNat (0x10000 + (high - 0xD800) * 1024 + (low - 0xDC00))

def escape? (c : Char) : Option Char :=
  match c with
  | '"' => some '"'
  | '\\' => some '\\'
  | '/' => some '/'
  | 'b' => some '\x08'
  | 'f' => some '\x0c'
  | 'n' => some '\n'
  | 'r' => some '\r'
  | 't' => some '\t'
  | _ => none

def readUnit (c : Cursor) : Except Stop (Char × Cursor) :=
  let digits := c.drop 2
  if digits.rest.length ≤ 4 then (c.drop 1).fail .badHexEscape
  else
    match hex4? digits.rest with
    | none => (c.drop 1).fail .badHexEscape
    | some high =>
      let next := c.drop 6
      match next.rest with
      | '\\' :: 'u' :: more =>
        if isHighSurrogate high && more.length > 4 then
          match hex4? more with
          | none => (next.drop 1).fail .badHexEscape
          | some low =>
            if isLowSurrogate low then .ok (pairChar high low, next.drop 6) else .ok (unitChar high, next)
        else .ok (unitChar high, next)
      | _ => .ok (unitChar high, next)

/-- Reads the characters of a string up to its closing quote; `start` is where the string began. -/
def readChars (start : Nat) : Nat → Cursor → Except Stop (List Char × Cursor)
  | 0, _ => .error (.at .unterminated start)
  | fuel + 1, c =>
    match c.rest with
    | [] => .error (.at .unterminated start)
    | '"' :: _ => .ok ([], c.drop 1)
    | '\\' :: [] => .error (.at .unterminated start)
    | '\\' :: 'u' :: _ => do
      let (x, next) ← readUnit c
      let (xs, next) ← readChars start fuel next
      pure (x :: xs, next)
    | '\\' :: e :: _ =>
      match escape? e with
      | none => c.fail .badEscape
      | some x => do
        let (xs, next) ← readChars start fuel (c.drop 2)
        pure (x :: xs, next)
    | x :: _ =>
      if x.toNat < 32 then c.fail .controlCharacter
      else do
        let (xs, next) ← readChars start fuel (c.drop 1)
        pure (x :: xs, next)

def readString (c : Cursor) : Except Stop (String × Cursor) :=
  (readChars c.offset (c.rest.length + 1) (c.drop 1)).map (fun (xs, next) => (String.ofList xs, next))

structure NumberParts where
  negative : Bool
  whole : List Char
  decimals : List Char
  exponent : List Char

def wholeDigits : List Char → List Char
  | '0' :: _ => ['0']
  | cs => cs.takeWhile Char.isDigit

def decimalDigits : List Char → List Char
  | '.' :: d :: rest => if d.isDigit then '.' :: d :: rest.takeWhile Char.isDigit else []
  | _ => []

def exponentDigits (cs : List Char) : List Char :=
  match cs with
  | e :: sign :: rest =>
    if e == 'e' || e == 'E' then
      if sign == '+' || sign == '-' then
        let ds := rest.takeWhile Char.isDigit
        if ds.isEmpty then [] else e :: sign :: ds
      else
        let ds := (sign :: rest).takeWhile Char.isDigit
        if ds.isEmpty then [] else e :: ds
    else []
  | _ => []

def splitNumber? (cs : List Char) : Option NumberParts :=
  let negative := cs.head? == some '-'
  let body := if negative then cs.drop 1 else cs
  let whole := wholeDigits body
  if whole.isEmpty then none
  else
    let decimals := decimalDigits (body.drop whole.length)
    some ⟨negative, whole, decimals, exponentDigits (body.drop (whole.length + decimals.length))⟩

namespace NumberParts

def length (p : NumberParts) : Nat :=
  (if p.negative then 1 else 0) + p.whole.length + p.decimals.length + p.exponent.length

/-- A number with neither decimals nor an exponent is whole. -/
def value (p : NumberParts) : Except NumeralError Value :=
  if p.decimals.isEmpty && p.exponent.isEmpty then
    (Numeral.read 10 (String.ofList ((if p.negative then ['-'] else []) ++ p.whole))).map Value.int
  else
    match Binary64.Literal.read? (p.whole ++ p.decimals ++ p.exponent) with
    | some l => .ok (.float (l.toBinary64 p.negative))
    | none => .ok (.float (Binary64.zero p.negative))

end NumberParts

def nan : Value := .float (Binary64.nan 1)

def words : List (List Char × Value) := [
  ("null".toList, .null), ("true".toList, .bool true), ("false".toList, .bool false), ("NaN".toList, nan),
  ("Infinity".toList, .float (Binary64.infinity false)),
  ("-Infinity".toList, .float (Binary64.infinity true))]

def readScalar (c : Cursor) : Except Stop (Value × Cursor) :=
  match words.find? (fun w => w.1.isPrefixOf c.rest) with
  | some (word, v) => .ok (v, c.drop word.length)
  | none =>
    match splitNumber? c.rest with
    | none => c.fail .value
    | some p =>
      match p.value with
      | .ok v => .ok (v, c.drop p.length)
      | .error e => .error (.numeral e)

mutual

def readValue : Nat → Cursor → Except Stop (Value × Cursor)
  | 0, c => c.fail .value
  | fuel + 1, c =>
    match c.rest with
    | '"' :: _ => (readString c).map (fun (s, next) => (.str s, next))
    | '\x7b' :: _ =>
      let next := (c.drop 1).skipSpace
      match next.rest with
      | '\x7d' :: _ => .ok (.map [], next.drop 1)
      | _ => (readMembers fuel [] next).map (fun (es, next) => (.map es, next))
    | '[' :: _ =>
      let next := (c.drop 1).skipSpace
      match next.rest with
      | ']' :: _ => .ok (.list [], next.drop 1)
      | _ => (readItems fuel next).map (fun (xs, next) => (.list xs, next))
    | _ => readScalar c

def readMembers : Nat → Entries → Cursor → Except Stop (Entries × Cursor)
  | 0, _, c => c.fail .propertyName
  | fuel + 1, es, c =>
    match c.rest with
    | '"' :: _ => do
      let (key, next) ← readString c
      let next := next.skipSpace
      match next.rest with
      | ':' :: _ =>
        let (v, next) ← readValue fuel (next.drop 1).skipSpace
        let es := Entries.put (.str key) v es
        let next := next.skipSpace
        match next.rest with
        | '\x7d' :: _ => .ok (es, next.drop 1)
        | ',' :: _ => readMembers fuel es (next.drop 1).skipSpace
        | _ => next.fail .comma
      | _ => next.fail .colon
    | _ => c.fail .propertyName

def readItems : Nat → Cursor → Except Stop (List Value × Cursor)
  | 0, c => c.fail .value
  | fuel + 1, c => do
    let (v, next) ← readValue fuel c
    let next := next.skipSpace
    match next.rest with
    | ']' :: _ => .ok ([v], next.drop 1)
    | ',' :: _ =>
      let (vs, next) ← readItems fuel (next.drop 1).skipSpace
      pure (v :: vs, next)
    | _ => next.fail .comma

end

inductive ReadError where
  | malformed (f : SyntaxFault)
  | numeral (e : NumeralError)

def readAll (cs : List Char) : Except Stop Value :=
  if cs.head? == some (Char.ofNat 0xFEFF) then .error (.at .byteOrderMark 0)
  else do
    let (v, next) ← readValue (2 * cs.length + 2) (Cursor.mk cs 0).skipSpace
    let next := next.skipSpace
    if next.rest.isEmpty then .ok v else next.fail .extraData

def read (text : String) : Except ReadError Value :=
  match readAll text.toList with
  | .ok v => .ok v
  | .error (.at p offset) => .error (.malformed (SyntaxFault.place text.toList p offset))
  | .error (.numeral e) => .error (.numeral e)

end TopologyConfig.Json
