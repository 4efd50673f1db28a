import FrameGraph.Text.Printable

/-! Quoted text. A text inside a debugging text stands between double quotes; the
quote, the backslash and the common controls have two-character escapes, other
hidden characters are written by their code point in hexadecimal. -/

namespace FrameGraph.Text

/-- One character inside quotes. -/
def escaped (c : Char) : List Char :=
  if c = '"' then ['\\', '"']
  else if c = '\\' then ['\\', '\\']
  else if c = '\n' then ['\\', 'n']
  else if c = '\r' then ['\\', 'r']
  else if c = '\t' then ['\\', 't']
  else if c = '\x00' then ['\\', '0']
  else if isHidden c then ['\\', 'u', '\x7b'] ++ Nat.toDigits 16 c.toNat ++ ['\x7d']
  else [c]

def quoted (text : String) : String :=
  String.ofList ('"' :: text.toList.flatMap escaped ++ ['"'])

end FrameGraph.Text
