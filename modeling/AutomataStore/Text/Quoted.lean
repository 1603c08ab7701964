import AutomataStore.Text.Invisible

/-
  Quoted text.

  A text is shown between double quotes.  Quotes, backslashes
  and line controls have escapes of two characters.  Every
  other character that shows nothing of its own is written as
  its code point in hexadecimal.

  Key definitions include:
    * `Text.escapeQuoted`
    * `Text.quoted`
-/

------------------------------------------------------------
-- Quoting
------------------------------------------------------------

namespace AutomataStore

namespace Text

/- A code point between braces. -/
def codePointEscape (c : Char) : List Char :=
  "\\u\x7b".toList ++ Nat.toDigits 16 c.toNat ++ ['\x7d']

/- A character as it stands between quotes. -/
def escapeQuoted (c : Char) : List Char :=
  if c = '"' then ['\\', '"']
  else if c = '\\' then ['\\', '\\']
  else if c = '\n' then ['\\', 'n']
  else if c = '\r' then ['\\', 'r']
  else if c = '\t' then ['\\', 't']
  else if c = '\x00' then ['\\', '0']
  else if isInvisible c then codePointEscape c
  else [c]

/- A text between quotes. -/
def quoted (s : String) : String :=
  String.ofList
    (['"'] ++ s.toList.flatMap escapeQuoted ++ ['"'])

end Text

end AutomataStore
