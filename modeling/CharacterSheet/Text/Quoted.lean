import CharacterSheet.Text.Unprintable
import CharacterSheet.Text.GraphemeExtend

/-!
# Quoted text in messages

A message shows offending text between quotes, in a form that cannot be misread: the quote itself,
the backslash and whatever has no visible form of its own are escaped.

* `quotedChar` — one character between single quotes;
* `quotedString` — a text between double quotes.
-/

namespace CharacterSheet.Text

/-- A character by its code point, in hexadecimal. -/
def codePointEscape (c : Char) : List Char :=
  '\\' :: 'u' :: '\x7b' :: (Nat.toDigits 16 c.toNat ++ ['\x7d'])

/-- A character as it stands inside quotes of the kind `quote`. -/
def escaped (quote c : Char) : List Char :=
  if c = '\x00' then ['\\', '0']
  else if c = '\t' then ['\\', 't']
  else if c = '\r' then ['\\', 'r']
  else if c = '\n' then ['\\', 'n']
  else if c = '\\' || c = quote then ['\\', c]
  else if isGraphemeExtend c || isUnprintable c then codePointEscape c
  else [c]

/-- Text between two quotes. -/
def quoted (quote : Char) (cs : List Char) : String :=
  String.ofList (quote :: (cs.flatMap (escaped quote) ++ [quote]))

/-- A character between single quotes. -/
def quotedChar (c : Char) : String := quoted '\x27' [c]

/-- A text between double quotes. -/
def quotedString (s : String) : String := quoted '\x22' s.toList

end CharacterSheet.Text
