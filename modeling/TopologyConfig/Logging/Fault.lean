import TopologyConfig.Text.Quoted

/-!
Why a template of log lines cannot be used, or cannot be filled in.
-/
namespace TopologyConfig.Logging

inductive TemplateFault where
  /-- No field of a record stands anywhere in the template. -/
  | noField (template : String)
  | unknownField (name : String)
  | incompleteKey
  | incomplete
  | widthTooBig
  | precisionTooBig
  | precisionTooLarge
  | unknownConversion (conversion : Char) (position : Nat)
  /-- A whole number is wanted, or for a decimal form at least a number. -/
  | notWhole (conversion : Char) (typeName : String)
  | notNumber (typeName : String)
  | beyondReal
  | notCharacter
  | characterRange
  | widthNotWhole
  | tooFewValues
deriving DecidableEq

namespace TemplateFault

def isDecimal (conversion : Char) : Bool := ['d', 'i', 'u'].contains conversion

def message : TemplateFault → String
  | noField template => "Invalid format '" ++ template ++ "' for '%' style"
  | unknownField name => "Formatting field not found in record: " ++ Text.quoted name
  | incompleteKey => "incomplete format key"
  | incomplete => "incomplete format"
  | widthTooBig => "width too big"
  | precisionTooBig => "precision too big"
  | precisionTooLarge => "precision too large"
  | unknownConversion c position =>
    "unsupported format character '" ++
      String.ofList [if 31 ≤ c.toNat && c.toNat ≤ 126 then c else '?'] ++ "' (0x" ++
      String.ofList (Nat.toDigits 16 c.toNat) ++ ") at index " ++ toString position
  | notWhole c typeName =>
    "%" ++ String.ofList [c] ++ " format: " ++
      (if isDecimal c then "a real number" else "an integer") ++ " is required, not " ++ typeName
  | notNumber typeName => "must be real number, not " ++ typeName
  | beyondReal => "int too large to convert to float"
  | notCharacter => "%c requires int or char"
  | characterRange => "%c arg not in range(0x110000)"
  | widthNotWhole => "* wants int"
  | tooFewValues => "not enough arguments for format string"

end TemplateFault
end TopologyConfig.Logging
