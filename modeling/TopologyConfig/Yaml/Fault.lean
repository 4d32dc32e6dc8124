import TopologyConfig.Calendar
import TopologyConfig.Number.Numeral

/-!
Why a text is no YAML document. Whatever is wrong with its form counts as malformed, wherever it is. A
scalar whose tag asks for a number, a truth value or a time that its text does not spell has a cause of
its own, and so have an escape that names no character and a document that contains itself.
-/
namespace TopologyConfig.Yaml

inductive Fault where
  | malformed
  | numeral (e : NumeralError)
  | notNumber (text : String)
  | hugeNumber
  | emptyNumber
  | unknownWord (word : String)
  | notTimestamp
  | timestampNotText
  | range (f : Calendar.RangeFault)
  | codePoint
  | codePointSize
  /-- An alias stands within the node of its own anchor. The value of such a document contains itself, unless the
  alias is only merged, and is none of the values here: whatever comes of the document, this fault stands for it. -/
  | recursive

namespace Fault

def message : Fault → String
  | malformed => ""
  | numeral e => e.message
  | notNumber text => "could not convert string to float: " ++ Text.quoted text
  | hugeNumber => "int too large to convert to float"
  | emptyNumber => "string index out of range"
  | unknownWord word => Text.quoted word
  | notTimestamp => "'NoneType' object has no attribute 'groupdict'"
  | timestampNotText => "expected string or bytes-like object, got 'list'"
  | range f => f.message
  | codePoint => "chr() arg not in range(0x110000)"
  | codePointSize => "Python int too large to convert to C int"
  | recursive => "maximum recursion depth exceeded"

end Fault
end TopologyConfig.Yaml
