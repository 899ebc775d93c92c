import FrontEnd.Token.Kind
import FrontEnd.Unicode.Classes

/-!
The characters that lexemes are told apart by.
-/

namespace FrontEnd

def byteOrderMark : Char := '\uFEFF'

def isWordStart (c : Char) : Bool := Unicode.isAlphabetic c || c = '_'

def isWordPart (c : Char) : Bool := Unicode.isAlphanumeric c || c = '_'

def isLineEnd (c : Char) : Bool := c = '\n' || c = '\r'

def trim (cs : List Char) : List Char :=
  ((cs.dropWhile Unicode.isBlank).reverse.dropWhile Unicode.isBlank).reverse

/-- A base other than ten, with the letters that select it. -/
structure Radix where
  letters : List Char
  isDigit : Char → Bool
  kind : TokenKind
  lead : String
  expected : String

namespace Radix

def hexadecimal : Radix :=
  ⟨['x', 'X'], fun c => c.isDigit || ('a' ≤ c && c ≤ 'f') || ('A' ≤ c && c ≤ 'F'), .hexInteger,
    "0x", "hexadecimal digits [0-9A-Fa-f]"⟩

def binary : Radix :=
  ⟨['b', 'B'], fun c => c = '0' || c = '1', .binaryInteger, "0b", "binary digits [0-1]"⟩

def octal : Radix :=
  ⟨['o', 'O'], fun c => '0' ≤ c && c ≤ '7', .octalInteger, "0o", "octal digits [0-7]"⟩

def ofLetter? (c : Char) : Option Radix :=
  [hexadecimal, binary, octal].find? fun r => r.letters.contains c

end Radix

end FrontEnd
