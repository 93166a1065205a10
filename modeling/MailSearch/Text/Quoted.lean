import MailSearch.Text.Invisible

/-! # Texts in quotes

A text is shown between double quotes, so that its end and its unprintable characters can be seen.
-/

namespace MailSearch

/-- A number in lower-case hexadecimal digits. -/
def hexDigits (n : Nat) : List Char := Nat.toDigits 16 n

/-- How a character is written inside quotes. -/
def quotedChar (c : Char) : List Char :=
  match c with
  | '\x00' => ['\\', '0']
  | '\t' => ['\\', 't']
  | '\r' => ['\\', 'r']
  | '\n' => ['\\', 'n']
  | '"' => ['\\', '"']
  | '\\' => ['\\', '\\']
  | _ => if isInvisible c then '\\' :: 'u' :: '\x7b' :: hexDigits c.toNat ++ ['\x7d'] else [c]

def quoted (s : String) : String :=
  String.ofList ('"' :: s.toList.flatMap quotedChar ++ ['"'])

end MailSearch
