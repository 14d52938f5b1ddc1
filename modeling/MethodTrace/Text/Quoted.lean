import MethodTrace.Text.Digits
import MethodTrace.Text.Unseen

/-!
# Quoted text

How diagnostics write a name: between quotes, with a backslash before a quote or a backslash, the usual
letters for the common controls, and the number of any other character that does not show by itself.
-/

namespace MethodTrace.Text

/-- One character of a quoted text. -/
def quotedChar (c : Char) : String :=
  match c with
  | '\x00' => "\\0"
  | '\t' => "\\t"
  | '\n' => "\\n"
  | '\r' => "\\r"
  | '\x22' => "\\\""
  | '\x5c' => "\\\\"
  | c => if showsItself c then c.toString else "\\u\x7b" ++ hex c.toNat ++ "\x7d"

/-- A text between quotes. -/
def quoted (s : String) : String :=
  "\"" ++ String.join (s.toList.map quotedChar) ++ "\""

end MethodTrace.Text
