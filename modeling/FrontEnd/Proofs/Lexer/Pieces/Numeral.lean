import FrontEnd.Lexer.Characters
import FrontEnd.Proofs.Lexer.Pieces.Basic

/-!
Numbers. A run of digits may hold single underscores between digits. A decimal
number is a run, a fraction `.` run, an exponent `e` sign run and the mark `j`
of an imaginary number, all but the first optional. The prefixes `0x`, `0b` and
`0o` open a run of digits of another base, with underscores anywhere.
-/

namespace FrontEnd

/-- The number behind `0` and a letter that selects its base. -/
def Radix.number (r : Radix) (letter : Char) (cs : List Char) : Piece :=
  let inRun := fun c => r.isDigit c || c = '_'
  let text := '0' :: letter :: cs.takeWhile inRun
  if (cs.takeWhile inRun).any r.isDigit then ⟨.token r.kind text, text, cs.dropWhile inRun⟩
  else ⟨.fault (.missingDigits r.lead r.expected), text, cs.dropWhile inRun⟩

namespace Numeral

/-- What continues a run behind a digit, and the text after it. -/
def run : List Char → List Char × List Char
  | [] => ([], [])
  | c :: cs =>
    if c.isDigit then (c :: (run cs).1, (run cs).2)
    else if c = '_' then
      match cs with
      | [] => ([], [c])
      | d :: ds => if d.isDigit then (c :: d :: (run ds).1, (run ds).2) else ([], c :: cs)
    else ([], c :: cs)

def startsRun (cs : List Char) : Bool := cs.head?.any Char.isDigit

def fraction : List Char → List Char × List Char
  | '.' :: cs => if startsRun cs then ('.' :: (run cs).1, (run cs).2) else ([], '.' :: cs)
  | cs => ([], cs)

inductive Exponent where
  | absent
  | present (text rest : List Char)
  | broken (cause : LexicalError) (taken rest : List Char)
  deriving DecidableEq, Repr

def exponent : List Char → Exponent
  | [] => .absent
  | e :: cs =>
    if e = 'e' || e = 'E' then
      match cs with
      | [] => .broken (.missingExponentSign none) [e] []
      | s :: ds =>
        if s = '+' || s = '-' then
          if startsRun ds then .present (e :: s :: (run ds).1) (run ds).2
          else .broken (.missingExponentDigits ds.head?) [e, s] ds
        else .broken (.missingExponentSign (some s)) [e] cs
    else .absent

/-- A decimal number of the given kind, or an imaginary one if `j` follows. -/
def marked (kind : TokenKind) (text : List Char) : List Char → Piece
  | [] => ⟨.token kind text, text, []⟩
  | j :: cs =>
    if j = 'j' || j = 'J' then ⟨.token .imaginary (text ++ [j]), text ++ [j], cs⟩
    else ⟨.token kind text, text, j :: cs⟩

def decimal (first : Char) (cs : List Char) : Piece :=
  let whole := run cs
  let part := fraction whole.2
  let text := first :: whole.1 ++ part.1
  match exponent part.2 with
  | .absent => marked (if part.1.isEmpty then .decimalInteger else .float) text part.2
  | .present more rest => marked .float (text ++ more) rest
  | .broken cause taken rest => ⟨.fault cause, text ++ taken, rest⟩

/-- The number that begins with the digit `first`. -/
def scan (first : Char) (cs : List Char) : Piece :=
  match cs with
  | [] => decimal first []
  | c :: rest =>
    if first = '0' then
      match Radix.ofLetter? c with
      | some r => r.number c rest
      | none =>
        if Unicode.isAlphabetic c then ⟨.fault (.unsupportedRadix c), [first], cs⟩
        else decimal first cs
    else decimal first cs

end Numeral

end FrontEnd
