/-
  ExpertRouting.Text.Quoted — a file name as messages quote it.

  Names stand between double quotes. Double quotes and backslashes get a backslash (single
  quotes do not), the common controls a letter, and a character that would not show as
  one mark by itself (a control, an odd space, a format or private character, a mark that
  joins the character before it) is written by its code point, as in `\u{200b}`.
-/

import ExpertRouting.Text.Hidden

namespace ExpertRouting.Text

def codePoint (c : Char) : List Char := Nat.toDigits 16 c.toNat

def quoteChar (c : Char) : List Char :=
  match c with
  | '\x00' => ['\\', '0']
  | '\t' => ['\\', 't']
  | '\n' => ['\\', 'n']
  | '\r' => ['\\', 'r']
  | '"' => ['\\', '"']
  | '\\' => ['\\', '\\']
  | c => if isHidden c then ['\\', 'u', '\x7b'] ++ codePoint c ++ ['\x7d'] else [c]

def quoted (name : String) : String := String.ofList ('"' :: (name.toList.flatMap quoteChar ++ ['"']))

end ExpertRouting.Text
