import FrontEnd.Proofs.Lexer.Pieces.Enclosed
import FrontEnd.Proofs.Lexer.Pieces.Numeral

/-!
The first piece of a text, and the division of a whole source into pieces. Which
piece comes first depends on the text alone and not on what stands before it,
but for the opening of a source: a byte order mark and then a line that names an
interpreter.
-/

namespace FrontEnd

namespace TokenKind

/-- Kinds spelled with punctuation, a longer spelling before a shorter one. -/
def marks : List TokenKind :=
  [.shiftLeftAssign, .shiftRightAssign, .ellipsis, .percentPercent, .plusPlus, .minusMinus,
   .starStar, .greaterEqual, .lessEqual, .equal, .notEqual, .plusAssign, .minusAssign,
   .starAssign, .slashAssign, .percentAssign, .andAssign, .orAssign, .xorAssign, .tildeAssign,
   .fatArrow, .arrow, .leftArrow, .shiftLeft, .shiftRight, .andNot, .andAnd, .orOr, .colonColon,
   .dotDot, .plus, .minus, .star, .slash, .percent, .question, .greater, .less, .assign,
   .ampersand, .pipe, .bang, .caret, .tilde, .leftParen, .rightParen, .leftBrace, .rightBrace,
   .leftBracket, .rightBracket, .colon, .semicolon, .comma, .dot, .backslash]

/-- The longest mark that the text begins with. -/
def mark? (cs : List Char) : Option TokenKind := marks.find? fun k => k.name.toList.isPrefixOf cs

end TokenKind

namespace Piece

def word (c : Char) (cs : List Char) : Piece :=
  let text := c :: cs.takeWhile isWordPart
  let kind := (TokenKind.keyword? (String.ofList text)).getD .identifier
  ⟨.token kind text, text, cs.dropWhile isWordPart⟩

/-- The name of a builtin behind `@`. -/
def builtin (cs : List Char) : Piece :=
  let name := cs.takeWhile isWordPart
  ⟨if name.isEmpty then .fault .missingBuiltinName else .token .builtinName name,
    '@' :: name, cs.dropWhile isWordPart⟩

/-- A comment that runs to the end of the line. A blank one is no token. -/
def lineComment (kind : TokenKind) (opening cs : List Char) : Piece :=
  let body := cs.takeWhile (!isLineEnd ·)
  ⟨if (trim body).isEmpty then .trivia else .token kind (trim body),
    opening ++ body, cs.dropWhile (!isLineEnd ·)⟩

def mark (c : Char) (cs : List Char) : Piece :=
  match TokenKind.mark? (c :: cs) with
  | some k => ⟨.token k k.name.toList, k.name.toList, (c :: cs).drop k.name.length⟩
  | none => ⟨.fault (.invalidCharacter c), [c], cs⟩

/-- The piece behind a slash. -/
def slash : List Char → Piece
  | '/' :: '/' :: cs => lineComment .docComment ['/', '/', '/'] cs
  | '/' :: cs => lineComment .comment ['/', '/'] cs
  | '*' :: cs => blockComment cs
  | cs => mark '/' cs

/-- The first piece of the text `c :: cs`. -/
def first (c : Char) (cs : List Char) : Piece :=
  if Unicode.isBlank c then ⟨.trivia, [c], cs⟩
  else if isWordStart c then word c cs
  else if c.isDigit then Numeral.scan c cs
  else if c = '"' then quotedString cs
  else if c = '`' then rawString cs
  else if c = '\'' then rune cs
  else if c = '/' then slash cs
  else if c = '#' then lineComment .comment ['#'] cs
  else if c = '@' then builtin cs
  else mark c cs

/-- The pieces of a text, up to the first fault. Each takes at least one
character, so that as many steps as there are characters are enough. -/
def divideWithin : Nat → List Char → List Piece
  | 0, _ => []
  | _ + 1, [] => []
  | n + 1, c :: cs =>
    if (first c cs).isFault then [first c cs]
    else first c cs :: divideWithin n (first c cs).rest

def divide (cs : List Char) : List Piece := divideWithin cs.length cs

end Piece

/-- What a source may open with, and the text behind it. -/
def opening (source : List Char) : List Char × List Char :=
  let front := if source.head? = some byteOrderMark then [byteOrderMark] else []
  let text := source.drop front.length
  if ['#', '!', '/'].isPrefixOf text then
    (front ++ text.takeWhile (!isLineEnd ·), text.dropWhile (!isLineEnd ·))
  else (front, text)

end FrontEnd
