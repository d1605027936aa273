import ClusterConfig.Text.Printable

/-!
# Quoted names in messages

A quoted text is set in double quotes. Quotes, backslashes and the common controls are escaped by
a backslash, characters that would not show by their code point in hexadecimal.
-/

set_option autoImplicit false

namespace ClusterConfig.Text

def quoteChar (c : Char) : List Char :=
  if c = '"' then ['\\', '"']
  else if c = '\\' then ['\\', '\\']
  else if c = '\n' then ['\\', 'n']
  else if c = '\r' then ['\\', 'r']
  else if c = '\t' then ['\\', 't']
  else if c.toNat = 0 then ['\\', '0']
  else if isPrintable c && !isExtending c then [c]
  else ['\\', 'u', '\x7b'] ++ Nat.toDigits 16 c.toNat ++ ['\x7d']

def quoted (s : String) : String :=
  String.ofList ('"' :: s.toList.flatMap quoteChar ++ ['"'])

/-- A quoted path, in which single quotes are escaped too. -/
def quotedPath (path : String) : String :=
  let escape (c : Char) := if c = '\'' then ['\\', '\''] else quoteChar c
  String.ofList ('"' :: path.toList.flatMap escape ++ ['"'])

end ClusterConfig.Text
