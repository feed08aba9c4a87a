import DocClient.Text.Unprintable

/-!
Text between double quotes, as messages show it: quotes and backslashes escaped, the common controls by
letter, everything unprintable by its code.
-/
namespace DocClient.Text

/-- The lower-case hexadecimal digits of a code, without leading zeros. -/
def codeDigits (c : Char) : List Char := Nat.toDigits 16 c.toNat

def escape (c : Char) : List Char :=
  match c with
  | '"' => ['\\', '"']
  | '\\' => ['\\', '\\']
  | '\n' => ['\\', 'n']
  | '\r' => ['\\', 'r']
  | '\t' => ['\\', 't']
  | c =>
    if c.toNat = 0 then ['\\', '0']
    else if isUnprintable c then ['\\', 'u', '\x7b'] ++ codeDigits c ++ ['\x7d']
    else [c]

def quoted (s : String) : String :=
  String.ofList ('"' :: s.toList.flatMap escape ++ ['"'])

/-- A single character between single quotes; of the two quotes only the single one is escaped. -/
def quotedChar (c : Char) : String :=
  let inner := if c.toNat = 39 then ['\\', c] else if c = '"' then [c] else escape c
  String.ofList (Char.ofNat 39 :: inner ++ [Char.ofNat 39])

end DocClient.Text
