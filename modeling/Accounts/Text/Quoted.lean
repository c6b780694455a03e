import Accounts.Text.Hidden

/-!
# Quoted text

A text between quotation marks in which nothing is invisible: the common control characters have
short escapes, every other hidden character is given by its code.
-/
namespace Accounts.Text

def hexChar (d : Nat) : Char :=
  if d < 10 then Char.ofNat ('0'.toNat + d) else Char.ofNat ('a'.toNat + (d - 10))

def hexDigits (n : Nat) : List Char :=
  if n < 16 then [hexChar n] else hexDigits (n / 16) ++ [hexChar (n % 16)]

def quoteChar (c : Char) : List Char :=
  match c with
  | '\x00' => ['\\', '0']
  | '\t' => ['\\', 't']
  | '\n' => ['\\', 'n']
  | '\r' => ['\\', 'r']
  | '"' => ['\\', '"']
  | '\\' => ['\\', '\\']
  | c => if isHidden c then ['\\', 'u', '{'] ++ hexDigits c.toNat ++ ['}'] else [c]

def quote (s : List Char) : List Char :=
  '"' :: (s.flatMap quoteChar ++ ['"'])

end Accounts.Text
