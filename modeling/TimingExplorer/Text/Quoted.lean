import TimingExplorer.Text.Hidden

/-!
Texts between double quotes, in which quotes, backslashes and hidden characters are escaped.
-/

namespace TimingExplorer.Text

/-- The number of a character in base sixteen, between braces. -/
def escapeByNumber (c : Char) : String :=
  "\\u\x7b" ++ String.ofList (Nat.toDigits 16 c.toNat) ++ "\x7d"

def quotedChar (c : Char) : String :=
  match c with
  | '\x00' => "\\0"
  | '\t' => "\\t"
  | '\r' => "\\r"
  | '\n' => "\\n"
  | '"' => "\\\""
  | '\\' => "\\\\"
  | c => if isHidden c then escapeByNumber c else c.toString

def quoted (text : String) : String :=
  "\"" ++ String.join (text.toList.map quotedChar) ++ "\""

end TimingExplorer.Text
