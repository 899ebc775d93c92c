import FrontEnd.Unicode.Classes

/-!
Quoted presentation of text in messages: the enclosing quote, the backslash and
the usual controls get a backslash, and a character that does not print by
itself, or that attaches to the one before it, is written by its code point in
braces.
-/

namespace FrontEnd.Quoted

/-- The code point in lower-case hexadecimal, as in `\u{301}`. -/
def codePoint (c : Char) : List Char :=
  ['\\', 'u', '{'] ++ Nat.toDigits 16 c.toNat ++ ['}']

/-- The halfwidth voiced and semi-voiced sound marks. They extend the character
before them, but are letters with a place of their own. -/
def isSoundMark (c : Char) : Bool := c = '\uFF9E' || c = '\uFF9F'

/-- Characters that would be drawn onto the one before them. -/
def attaches (c : Char) : Bool := Unicode.isGraphemeExtend c && !isSoundMark c

def escape (quote c : Char) : List Char :=
  if c = '\x00' then ['\\', '0']
  else if c = '\t' then ['\\', 't']
  else if c = '\r' then ['\\', 'r']
  else if c = '\n' then ['\\', 'n']
  else if c = '\\' || c = quote then ['\\', c]
  else if attaches c || !Unicode.isPrintable c then codePoint c
  else [c]

def text (s : String) : String :=
  String.ofList ('"' :: s.toList.flatMap (escape '"') ++ ['"'])

def char (c : Char) : String := String.ofList ('\'' :: escape '\'' c ++ ['\''])

end FrontEnd.Quoted
