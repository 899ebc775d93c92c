import FrontEnd.Text.Quoted

/-!
What can be wrong with the text of a source. An error stops reading, a warning
does not.
-/

namespace FrontEnd

/-- `found` is the character in the way, or nothing at the end of the source. -/
inductive LexicalError where
  | unterminatedString
  | unterminatedRawString
  | unterminatedRune
  | emptyRune
  | missingDigits (lead expected : String)
  | missingExponentSign (found : Option Char)
  | missingExponentDigits (found : Option Char)
  | unsupportedRadix (letter : Char)
  | missingBuiltinName
  | invalidCharacter (c : Char)
  deriving DecidableEq, Repr

/-- Words and numbers longer than this draw a warning. -/
def longestLexeme : Nat := 256

inductive LexicalWarning where
  | lexemeTooLong (length : Nat)
  | unterminatedBlockComment
  | unbalancedBraces (depth : Int)
  deriving DecidableEq, Repr

private def found : Option Char → String
  | some c => Quoted.char c
  | none => "end of file"

def LexicalError.message : LexicalError → String
  | .unterminatedString => "unterminated string literal"
  | .unterminatedRawString => "unterminated raw string literal"
  | .unterminatedRune => "unterminated rune literal"
  | .emptyRune => "empty rune literal"
  | .missingDigits lead expected => s!"expected {expected} after `{lead}`"
  | .missingExponentSign c => s!"expected `+` or `-` after exponent, got {found c}"
  | .missingExponentDigits c => s!"expected a digit after exponent sign, got {found c}"
  | .unsupportedRadix c => s!"unsupported base prefix `0{c}`; expected one of [xXbBoO] after `0`"
  | .missingBuiltinName => "expected a macro name after `@`"
  | .invalidCharacter c => s!"invalid character {Quoted.char c}"

def LexicalWarning.message : LexicalWarning → String
  | .lexemeTooLong n => s!"lexeme is {n} characters long (expected at most {longestLexeme})"
  | .unterminatedBlockComment => "unterminated block comment"
  | .unbalancedBraces d => s!"unbalanced braces at end of file (nesting depth {d})"

end FrontEnd
