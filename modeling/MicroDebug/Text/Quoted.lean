import MicroDebug.Text.Hex
import MicroDebug.Text.Unseen

/-! Text in quotes, as it is shown in messages. Quotes and backslashes, and characters that do not show by
    themselves, are written as escapes. -/

namespace MicroDebug.Text

/-- A character as it stands between quotes. -/
def quoteChar (c : Char) : List Char :=
  if c = '\t' then ['\\', 't']
  else if c = '\r' then ['\\', 'r']
  else if c = '\n' then ['\\', 'n']
  else if c = '\x00' then ['\\', '0']
  else if c = '"' ∨ c = '\\' then ['\\', c]
  else if c.toNat < 0x20 ∨ c.toNat = 0x7f ∨ isUnseen c then
    ['\\', 'u', '\x7b'] ++ Hex.digits c.toNat ++ ['\x7d']
  else [c]

/-- A text in quotes. -/
def quote (text : String) : String := String.ofList ('"' :: (text.toList.flatMap quoteChar ++ ['"']))

end MicroDebug.Text
