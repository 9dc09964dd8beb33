import ChainWatch.Text.Digit
import ChainWatch.Text.Unprintable

/-!
# Quoted text

A text in double quotes for messages: quotes, backslashes and control characters are escaped, and
characters that cannot be seen are written by their number.
-/

namespace ChainWatch.Text

def numbered (c : Char) : List Char :=
  "\\u\x7b".toList ++ hexadecimal c.toNat ++ ['\x7d']

def quoteChar (c : Char) : List Char :=
  match c with
  | '\t' => ['\\', 't']
  | '\r' => ['\\', 'r']
  | '\n' => ['\\', 'n']
  | '"' => ['\\', '"']
  | '\\' => ['\\', '\\']
  | c =>
    if c.toNat = 0 then ['\\', '0']
    else if c.toNat < 32 ∨ c.toNat = 127 then numbered c
    else if c.toNat < 127 then [c]
    else if isUnprintable c then numbered c
    else [c]

def quoted (text : String) : String :=
  String.ofList ('"' :: text.toList.flatMap quoteChar ++ ['"'])

end ChainWatch.Text
