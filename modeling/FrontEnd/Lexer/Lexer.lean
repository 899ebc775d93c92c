import FrontEnd.Lexer.Characters
import FrontEnd.Lexer.Marks
import FrontEnd.Lexer.Problem
import FrontEnd.Source.Buffer
import FrontEnd.Token.Stream

/-!
From a source to its token stream. The lexer goes over a buffer once. Each of
its scanners begins behind the first character of a token and leaves the buffer
behind the last one, or where it met the fault that ends reading.
-/

namespace FrontEnd

/-- Offsets in tokens stop here. -/
def greatestOffset : Nat := 4294967295

/-- Repeats a step until it gives a result, but `n` times at most. -/
def iterate {σ α : Type} (step : σ → Option α × σ) : Nat → σ → Option α × σ
  | 0, s => (none, s)
  | n + 1, s =>
    match step s with
    | (none, s) => iterate step n s
    | (some a, s) => (some a, s)

/-- Where a token starts. -/
structure Start where
  offset : Nat
  location : Location
  deriving DecidableEq, Repr

def Start.token (start : Start) (kind : TokenKind) (text : String) : Token :=
  ⟨kind, text, min start.offset greatestOffset, start.location⟩

def LexicalWarning.at (w : LexicalWarning) (l : Location) : Diagnostic := ⟨.warning, l, w.message⟩

structure Lexer where
  buffer : Buffer
  fileName : String
  /-- Latest first, as the warnings are. -/
  tokens : List Token
  warnings : List Diagnostic
  /-- Opening braces less closing ones. -/
  depth : Int
  /-- No loop takes more steps. Each step but the last one reads a character. -/
  steps : Nat
  deriving DecidableEq, Repr

namespace Lexer

def ofString (source fileName : String) : Lexer :=
  ⟨.ofString source, fileName, [], [], 0, source.length + 1⟩

def advance (l : Lexer) : Lexer := { l with buffer := l.buffer.advance.2 }

def advanceBy (l : Lexer) (n : Nat) : Lexer := { l with buffer := (l.buffer.advanceBy n).2 }

def location (l : Lexer) : Location :=
  ⟨l.buffer.place.line, l.buffer.place.column, l.fileName⟩

/-- The text from an offset up to the buffer. -/
def textFrom (l : Lexer) (offset : Nat) : String :=
  String.ofList (l.buffer.slice offset l.buffer.offset)

def warn (l : Lexer) (w : LexicalWarning) (location : Location) : Lexer :=
  { l with warnings := w.at location :: l.warnings }

def checkLength (l : Lexer) (text : String) (start : Start) : Lexer :=
  if longestLexeme < text.length then l.warn (.lexemeTooLong text.length) start.location else l

/-- Takes a character if it is of the given ones. -/
def eat (p : Char → Bool) (b : Buffer) : Option Unit × Buffer :=
  if (b.peek 0).any p then (none, b.advance.2) else (some (), b)

def eatWhile (l : Lexer) (p : Char → Bool) : Lexer :=
  { l with buffer := (iterate (eat p) l.steps l.buffer).2 }

def skipLine (l : Lexer) : Lexer := l.eatWhile (!isLineEnd ·)

/-! ## Words -/

def lexWord (l : Lexer) (start : Start) : Token × Lexer :=
  let l := l.eatWhile isWordPart
  let text := l.textFrom start.offset
  let kind := (TokenKind.keyword? text).getD .identifier
  (start.token kind text, l.checkLength text start)

/-- The name of a builtin behind `@`. -/
def lexBuiltin (l : Lexer) (start : Start) : Except LexicalError Token × Lexer :=
  let name := l.buffer.offset
  let l := l.eatWhile isWordPart
  let text := l.textFrom name
  if text.isEmpty then (.error .missingBuiltinName, l)
  else (.ok (start.token .builtinName text), l.checkLength text start)

/-! ## Numbers -/

def numberToken (l : Lexer) (kind : TokenKind) (start : Start) :
    Except LexicalError Token × Lexer :=
  let text := l.textFrom start.offset
  (.ok (start.token kind text), l.checkLength text start)

/-- Takes a digit, which is counted, or an underscore. -/
def digitStep (r : Radix) (s : Nat × Buffer) : Option Unit × Nat × Buffer :=
  match s.2.peek 0 with
  | none => (some (), s)
  | some c =>
    if r.isDigit c then (none, s.1 + 1, s.2.advance.2)
    else if c ≠ '_' then (some (), s)
    else (none, s.1, s.2.advance.2)

/-- The number behind the letter that selects its base. -/
def lexBased (l : Lexer) (r : Radix) (start : Start) : Except LexicalError Token × Lexer :=
  let (digits, buffer) := (iterate (digitStep r) l.steps (0, l.buffer)).2
  let l := { l with buffer := buffer }
  if digits = 0 then (.error (.missingDigits r.lead r.expected), l)
  else l.numberToken r.kind start

/-- A decimal number that is being read. -/
structure Decimal where
  kind : TokenKind
  exponent : Bool
  buffer : Buffer
  deriving DecidableEq, Repr

namespace Decimal

def advance (d : Decimal) : Decimal := { d with buffer := d.buffer.advance.2 }

/-- The sign of the exponent and its first digit. -/
def beginExponent (d : Decimal) : Option (Except LexicalError Unit) × Decimal :=
  let d := { d.advance with kind := .float, exponent := true }
  match d.buffer.peek 0 with
  | some c =>
    if c = '+' || c = '-' then
      let d := d.advance
      if (d.buffer.peek 0).any Char.isDigit then (none, d.advance)
      else (some (.error (.missingExponentDigits (d.buffer.peek 0))), d)
    else (some (.error (.missingExponentSign (some c))), d)
  | none => (some (.error (.missingExponentSign none)), d)

/-- A point or an underscore belongs to the number only if a digit follows. -/
def step (d : Decimal) : Option (Except LexicalError Unit) × Decimal :=
  let nextIsDigit := (d.buffer.peek 1).any Char.isDigit
  match d.buffer.peek 0 with
  | none => (some (.ok ()), d)
  | some c =>
    if c.isDigit then (none, d.advance)
    else if c = '_' && nextIsDigit then (none, d.advance)
    else if c = '.' && d.kind == .decimalInteger && nextIsDigit then
      (none, { d.advance with kind := .float })
    else if (c = 'e' || c = 'E') && !d.exponent then d.beginExponent
    else (some (.ok ()), d)

end Decimal

def lexDecimal (l : Lexer) (start : Start) : Except LexicalError Token × Lexer :=
  match iterate Decimal.step l.steps ⟨.decimalInteger, false, l.buffer⟩ with
  | (some (.error e), d) => (.error e, { l with buffer := d.buffer })
  | (_, d) =>
    let l := { l with buffer := d.buffer }
    if (l.buffer.peek 0).any fun c => c = 'j' || c = 'J' then
      l.advance.numberToken .imaginary start
    else l.numberToken d.kind start

def lexNumber (l : Lexer) (first : Char) (start : Start) : Except LexicalError Token × Lexer :=
  match if first = '0' then l.buffer.peek 0 else none with
  | none => l.lexDecimal start
  | some c =>
    match Radix.ofLetter? c with
    | some r => l.advance.lexBased r start
    | none =>
      if Unicode.isAlphabetic c then (.error (.unsupportedRadix c), l) else l.lexDecimal start

/-! ## Quoted texts and comments -/

/-- The mark has begun with `c`, and the rest of it is ahead. -/
def closes (q : Closing) (c : Char) (b : Buffer) : Bool :=
  q.mark.head? == some c && q.mark.tail.zipIdx.all fun (d, i) => b.peek i == some d

/-- Goes on to the first character of the mark that closes the text. -/
def closingStep (q : Closing) (b : Buffer) : Option Bool × Buffer :=
  match b.advance with
  | (none, b) => (some false, b)
  | (some c, b) =>
    if q.oneLine && isLineEnd c then (some false, b)
    else if q.escapes && c = '\\' then
      match b.advance with
      | (none, b) => (some false, b)
      | (some _, b) => (none, b)
    else if closes q c b then (some true, b)
    else (none, b)

/-- The literal behind the mark that opens it. Its text ends before the first character of the
mark that closes it. -/
def lexLiteral (l : Lexer) (q : Closing) (kind : TokenKind) (unclosed : LexicalError)
    (start : Start) : Except LexicalError Token × Lexer :=
  let content := l.buffer.offset
  match iterate (closingStep q) l.steps l.buffer with
  | (some true, b) =>
    let text := String.ofList (b.slice content (b.offset - 1))
    (.ok (start.token kind text), { l with buffer := b }.advanceBy (q.mark.length - 1))
  | (_, b) => (.error unclosed, { l with buffer := b })

/-- Two quotes are an empty string, unless a third one follows. -/
def lexString (l : Lexer) (start : Start) : Except LexicalError Token × Lexer :=
  if l.buffer.peek 0 = some '"' then
    if l.buffer.peek 1 = some '"' then
      (l.advanceBy 2).lexLiteral .ofTriple .tripleString .unterminatedString start
    else (.ok (start.token .string ""), l.advance)
  else l.lexLiteral .ofString .string .unterminatedString start

def lexRawString (l : Lexer) (start : Start) : Except LexicalError Token × Lexer :=
  l.lexLiteral .ofRaw .rawString .unterminatedRawString start

def lexRune (l : Lexer) (start : Start) : Except LexicalError Token × Lexer :=
  if l.buffer.peek 0 = some '\'' then (.error .emptyRune, l.advance)
  else l.lexLiteral .ofRune .rune .unterminatedRune start

/-- The comment behind `//` or `#`. A blank one is no token. -/
def lexLineComment (l : Lexer) (start : Start) : Option Token × Lexer :=
  let isDoc := l.buffer.peek 0 = some '/' && l.buffer.previous 1 = some '/'
  let l := if isDoc then l.advance else l
  let body := l.buffer.offset
  let l := l.skipLine
  let text := String.ofList (trim (l.buffer.slice body l.buffer.offset))
  if text.isEmpty then (none, l)
  else (some (start.token (if isDoc then .docComment else .comment) text), l)

/-- The comment behind the slash of `/*`. -/
def lexBlockComment (l : Lexer) (start : Start) : Lexer :=
  match iterate (closingStep .ofComment) l.steps l.advance.buffer with
  | (some true, b) => { l with buffer := b.advance.2 }
  | (_, b) => { l with buffer := b }.warn .unterminatedBlockComment start.location

/-! ## Marks -/

/-- Counts a brace. -/
def count (l : Lexer) : TokenKind → Lexer
  | .leftBrace => { l with depth := l.depth + 1 }
  | .rightBrace => { l with depth := l.depth - 1 }
  | _ => l

def lexMark (l : Lexer) (c : Char) (start : Start) : Except LexicalError Token × Lexer :=
  match Mark.find? c (l.buffer.peek 0) (l.buffer.peek 1) with
  | none => (.error (.invalidCharacter c), l)
  | some m =>
    let l := (l.count m.kind).advanceBy m.extra
    (.ok (start.token m.kind (l.textFrom start.offset)), l)

/-! ## Tokens -/

/-- The first character of the source, but for a byte order mark. -/
def atFirstCharacter (l : Lexer) (start : Start) : Bool :=
  start.offset = 0 ||
    start.offset = byteOrderMark.utf8Size && l.buffer.previous 2 = some byteOrderMark

/-- A token that was read, as what may be none. -/
def found (result : Except LexicalError Token × Lexer) :
    Except LexicalError (Option Token) × Lexer :=
  (result.1.map some, result.2)

/-- What begins with the character `c`, behind which the buffer stands. -/
def lexToken (l : Lexer) (c : Char) (start : Start) :
    Except LexicalError (Option Token) × Lexer :=
  if c = byteOrderMark && start.offset = 0 then (.ok none, l)
  else if isLineEnd c then (.ok none, l)
  else if Unicode.isBlank c then (.ok none, l)
  else if isWordStart c then
    let word := l.lexWord start
    (.ok (some word.1), word.2)
  else if c.isDigit then found (l.lexNumber c start)
  else if c = '"' then found (l.lexString start)
  else if c = '`' then found (l.lexRawString start)
  else if c = '\'' then found (l.lexRune start)
  else if c = '/' && l.buffer.peek 0 = some '/' then
    let comment := l.advance.lexLineComment start
    (.ok comment.1, comment.2)
  else if c = '/' && l.buffer.peek 0 = some '*' then (.ok none, l.lexBlockComment start)
  else if c = '#' && l.atFirstCharacter start && l.buffer.peek 0 = some '!' &&
      l.buffer.peek 1 = some '/' then (.ok none, l.skipLine)
  else if c = '#' then
    let comment := l.lexLineComment start
    (.ok comment.1, comment.2)
  else if c = '@' then found (l.lexBuiltin start)
  else found (l.lexMark c start)

/-- Where the buffer stands, and what begins there, unless it is at the end. -/
def next (l : Lexer) : Option (Start × Except LexicalError (Option Token)) × Lexer :=
  let offset := l.buffer.offset
  match l.buffer.advance with
  | (none, _) => (none, l)
  | (some c, buffer) =>
    let l := { l with buffer := buffer }
    let start : Start := ⟨offset, l.location⟩
    let (result, l) := l.lexToken c start
    (some (start, result), l)

/-- Reads on by one token or by text that is none. A fault is the last token. -/
def step (l : Lexer) : Option Bool × Lexer :=
  match l.next with
  | (none, l) => (some false, l)
  | (some (_, .ok none), l) => (none, l)
  | (some (_, .ok (some token)), l) => (none, { l with tokens := token :: l.tokens })
  | (some (start, .error e), l) =>
    (some true, { l with tokens := start.token .illegal e.message :: l.tokens })

/-- Whether a fault ended reading, and the lexer where reading ended. -/
def run (l : Lexer) : Bool × Lexer :=
  match iterate step l.steps l with
  | (failed, l) => (failed.getD false, l)

/-- The location of the end, one column behind what was read last. -/
def stop (l : Lexer) : Location :=
  ⟨l.buffer.place.line, l.buffer.place.column + 1, l.fileName⟩

/-- The stream of what was read. Braces that do not match are reported of a source that was read
to its end. -/
def finish (failed : Bool) (l : Lexer) : TokenStream :=
  let l := if !failed && l.depth != 0 then l.warn (.unbalancedBraces l.depth) l.stop else l
  ⟨l.fileName, l.tokens.reverse, (min l.buffer.offset greatestOffset, l.stop), l.warnings.reverse⟩

end Lexer

def lex (source fileName : String) : TokenStream :=
  let (failed, l) := (Lexer.ofString source fileName).run
  l.finish failed

end FrontEnd
