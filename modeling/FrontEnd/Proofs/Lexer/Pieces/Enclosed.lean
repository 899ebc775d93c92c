import FrontEnd.Lexer.Characters
import FrontEnd.Lexer.Marks
import FrontEnd.Proofs.Lexer.Pieces.Basic

/-!
Text between an opening and a closing mark: strings, runes and block comments.
A unit of the text is a single character, or a backslash with the character
after it where the backslash escapes. The text ends at the first unit boundary
at which the closing mark stands.
-/

namespace FrontEnd

/-- A text cut off by the end of the source or of the line keeps what was read. -/
inductive Enclosed where
  | closed (text rest : List Char)
  | cut (taken rest : List Char)
  deriving DecidableEq, Repr

namespace Enclosed

def behind (front : List Char) : Enclosed → Enclosed
  | closed text rest => closed (front ++ text) rest
  | cut taken rest => cut (front ++ taken) rest

end Enclosed

namespace Closing

def read (q : Closing) : List Char → Enclosed
  | [] => .cut [] []
  | c :: cs =>
    if q.mark.isPrefixOf (c :: cs) then .closed [] ((c :: cs).drop q.mark.length)
    else if q.escapes && c = '\\' then
      match cs with
      | [] => .cut [c] []
      | d :: ds => (q.read ds).behind [c, d]
    else if q.oneLine && isLineEnd c then .cut [c] cs
    else (q.read cs).behind [c]

/-- The literal that begins with `opening` and goes on with `cs`. -/
def literal (q : Closing) (kind : TokenKind) (unclosed : LexicalError)
    (opening cs : List Char) : Piece :=
  match q.read cs with
  | .closed text rest => ⟨.token kind text, opening ++ text ++ q.mark, rest⟩
  | .cut taken rest => ⟨.fault unclosed, opening ++ taken, rest⟩

end Closing

/-- The literal behind a double quote. Three quotes open a text that may hold
single and double ones. -/
def quotedString (cs : List Char) : Piece :=
  if ['"', '"'].isPrefixOf cs then
    Closing.ofTriple.literal .tripleString .unterminatedString ['"', '"', '"'] (cs.drop 2)
  else Closing.ofString.literal .string .unterminatedString ['"'] cs

def rawString (cs : List Char) : Piece :=
  Closing.ofRaw.literal .rawString .unterminatedRawString ['`'] cs

def rune : List Char → Piece
  | '\'' :: cs => ⟨.fault .emptyRune, ['\'', '\''], cs⟩
  | cs => Closing.ofRune.literal .rune .unterminatedRune ['\''] cs

/-- The comment behind `/*`. -/
def blockComment (cs : List Char) : Piece :=
  match Closing.ofComment.read cs with
  | .closed text rest => ⟨.trivia, ['/', '*'] ++ text ++ ['*', '/'], rest⟩
  | .cut taken rest => ⟨.openComment, ['/', '*'] ++ taken, rest⟩

end FrontEnd
