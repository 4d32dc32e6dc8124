/-!
Line ends. A text that is read from a file has one line feed at the end of each line, however the file
marks it.
-/
namespace TopologyConfig.Text

/-- The characters with each carriage return, and the line feed that may follow it, as one line feed. -/
def unifyNewlines : List Char → List Char
  | [] => []
  | '\r' :: '\n' :: rest => '\n' :: unifyNewlines rest
  | '\r' :: rest => '\n' :: unifyNewlines rest
  | c :: rest => c :: unifyNewlines rest

def withUnifiedNewlines (s : String) : String := String.ofList (unifyNewlines s.toList)

end TopologyConfig.Text
