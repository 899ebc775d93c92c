import FrontEnd.Lexer.Lexer
import FrontEnd.Proofs.Lexer.Pieces.Scan

/-!
The token stream of a source, put together from its pieces: they are put in place
one after the other, and tokens and warnings are read off them.
-/

namespace FrontEnd

namespace Place

def location (p : Place) (fileName : String) : Location := ⟨p.line, p.column + 1, fileName⟩

def tokenStart (p : Place) : Nat := min p.offset greatestOffset

end Place

namespace Piece

/-- The pieces with their places, the first of them at `p`. -/
def placed (p : Place) : List Piece → List (Place × Piece)
  | [] => []
  | x :: xs => (p, x) :: placed (p.after x.lexeme x.rest) xs

def stop (p : Place) (pieces : List Piece) : Place :=
  pieces.foldl (fun q x => q.after x.lexeme x.rest) p

def token? (fileName : String) (p : Place) (x : Piece) : Option Token :=
  match x.reading with
  | .token kind text => some ⟨kind, String.ofList text, p.tokenStart, p.location fileName⟩
  | .fault cause => some ⟨.illegal, cause.message, p.tokenStart, p.location fileName⟩
  | _ => none

/-- The tokens among pieces of which the first stands at `p`. -/
def tokensAt (fileName : String) (p : Place) (pieces : List Piece) : List Token :=
  (placed p pieces).filterMap fun (q, x) => x.token? fileName q

theorem tokensAt_cons (fileName : String) (p : Place) (x : Piece) (xs : List Piece) :
    tokensAt fileName p (x :: xs) =
      (x.token? fileName p).toList ++ tokensAt fileName (p.after x.lexeme x.rest) xs := by
  simp only [tokensAt, placed, List.filterMap_cons]
  cases x.token? fileName p <;> rfl

theorem stop_cons (p : Place) (x : Piece) (xs : List Piece) :
    stop p (x :: xs) = stop (p.after x.lexeme x.rest) xs := rfl

theorem mem_of_mem_placed {p q : Place} {x : Piece} {xs : List Piece} (h : (q, x) ∈ placed p xs) :
    x ∈ xs := by
  induction xs generalizing p with
  | nil => cases h
  | cons y ys ih =>
    rcases List.mem_cons.mp h with h | h
    · cases h
      exact List.mem_cons_self
    · exact List.mem_cons_of_mem _ (ih h)

/-- Kinds whose texts are as long as the writer of the source likes. -/
def isMeasured (k : TokenKind) : Bool :=
  [.identifier, .builtinName, .decimalInteger, .binaryInteger, .hexInteger, .octalInteger,
    .float, .imaginary].contains k

def warning? (x : Piece) : Option LexicalWarning :=
  match x.reading with
  | .token kind text =>
    if isMeasured kind && decide (longestLexeme < text.length) then
      some (.lexemeTooLong text.length)
    else none
  | .openComment => some .unterminatedBlockComment
  | _ => none

end Piece

/-- Opening braces less closing ones. -/
def braceDepth (tokens : List Token) : Int :=
  (tokens.countP (·.kind == .leftBrace) : Int) - tokens.countP (·.kind == .rightBrace)

/-- The imbalance is reported only of a source that was read to its end. -/
def braceWarning? (tokens : List Token) : Option LexicalWarning :=
  if tokens.any (·.kind == .illegal) || braceDepth tokens == 0 then none
  else some (.unbalancedBraces (braceDepth tokens))

def TokenStream.ofPieces (source fileName : String) : TokenStream :=
  let opened := opening source.toList
  let begin := Place.start.after opened.1 opened.2
  let pieces := Piece.divide opened.2
  let placed := Piece.placed begin pieces
  let stop := Piece.stop begin pieces
  let tokens := placed.filterMap fun (p, x) => x.token? fileName p
  let warnings := placed.filterMap fun (p, x) => x.warning?.map (·.at (p.location fileName))
  let last := (braceWarning? tokens).map (·.at (stop.location fileName))
  ⟨fileName, tokens, (stop.tokenStart, stop.location fileName), warnings ++ last.toList⟩

end FrontEnd
