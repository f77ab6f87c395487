import UtmTiles.Text.Unseen

/-!
# Quoted texts

A quoted text stands between double quotes. Quotes and backslashes inside get a backslash in front,
and characters without a shape of their own are written as codes.
-/

namespace UtmTiles
namespace Text

def codeDigits (n : Nat) : List Char := Nat.toDigits 16 n

def quotedChar (c : Char) : List Char :=
  match c with
  | '\x00' => ['\\', '0']
  | '\t' => ['\\', 't']
  | '\r' => ['\\', 'r']
  | '\n' => ['\\', 'n']
  | '"' => ['\\', '"']
  | '\\' => ['\\', '\\']
  | c => if isUnseen c then '\\' :: 'u' :: '\x7b' :: codeDigits c.toNat ++ ['\x7d'] else [c]

def quoted (s : String) : String := String.ofList ('"' :: s.toList.flatMap quotedChar ++ ['"'])

end Text
end UtmTiles
