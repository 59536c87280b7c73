import ScriptPlugins.Text.Blank
import ScriptPlugins.Text.Decimal

/-!
# Quoted text — a text in double quotes that shows every blank

Tabs, line breaks, quotes and backslashes have short escapes; control characters and all blanks
but the space are written by their code, as in `\u{a0}`.
-/

namespace ScriptPlugins.Text

/-- A character as it stands between the quotes. -/
def showChar (c : Char) : List Char :=
  if c = '"' then ['\\', '"']
  else if c = '\\' then ['\\', '\\']
  else if c = '\n' then ['\\', 'n']
  else if c = '\r' then ['\\', 'r']
  else if c = '\t' then ['\\', 't']
  else if c = '\x00' then ['\\', '0']
  else if (isBlank c ∧ c ≠ ' ') ∨ c.toNat < 0x20 ∨ c.toNat = 0x7F then
    ['\\', 'u', '{'] ++ Nat.toDigits 16 c.toNat ++ ['}']
  else [c]

/-- A text in quotes. -/
def quoted (s : String) : String := String.ofList ('"' :: s.toList.flatMap showChar ++ ['"'])

end ScriptPlugins.Text
