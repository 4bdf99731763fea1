import WordMachine.Text.Invisible
import WordMachine.Text.Mark
import WordMachine.Text.Numeral
import WordMachine.Text.Unassigned

namespace WordMachine

/-- Whether the character shows itself when it stands alone. -/
def isPrintable (c : Char) : Bool :=
  !(isInvisible c || isMark c || isUnassigned c)

/-- How one character is written between double quotes. -/
def quotedChar (c : Char) : String :=
  match c with
  | '"' => "\\\""
  | '\\' => "\\\\"
  | '\n' => "\\n"
  | '\r' => "\\r"
  | '\t' => "\\t"
  | '\x00' => "\\0"
  | c => if isPrintable c then c.toString else "\\u\x7b" ++ hexText c.toNat ++ "\x7d"

/-- The text between double quotes, with quotes, backslashes and unprintable characters escaped. -/
def quoted (text : String) : String :=
  "\"" ++ String.join (text.toList.map quotedChar) ++ "\""

end WordMachine
