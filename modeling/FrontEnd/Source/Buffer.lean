import FrontEnd.Source.Place

/-!
A source read character by character. The characters already read stand in
`behind`, latest first, and the others in `ahead`; the place is that of the
boundary between them.
-/

namespace FrontEnd

structure Buffer where
  behind : List Char
  ahead : List Char
  place : Place
  deriving DecidableEq, Repr

namespace Buffer

def ofString (source : String) : Buffer := ⟨[], source.toList, .start⟩

def source (b : Buffer) : List Char := b.behind.reverse ++ b.ahead

def advance (b : Buffer) : Option Char × Buffer :=
  match b.ahead with
  | [] => (none, b)
  | c :: rest => (some c, ⟨c :: b.behind, rest, b.place.step c rest.head?⟩)

/-- Advances `n` times, without a check for the end. -/
def skip : Nat → Buffer → Buffer
  | 0, b => b
  | n + 1, b => skip n b.advance.2

def peek (b : Buffer) (n : Nat) : Option Char := b.ahead[n]?

/-- Moves over `n` characters if that many remain, and shows the next one. -/
def advanceBy (n : Nat) (b : Buffer) : Option Char × Buffer :=
  if n ≤ b.ahead.length then ((skip n b).peek 0, skip n b) else (none, b)

/-- The character `n` places back; the next one for `n = 0`. -/
def previous (b : Buffer) : Nat → Option Char
  | 0 => b.peek 0
  | n + 1 => b.behind[n]?

def offset (b : Buffer) : Nat := b.place.offset

/-- The first `n` bytes of a text and what follows them, if they end a character. -/
def splitBytes : Nat → List Char → Option (List Char × List Char)
  | 0, cs => some ([], cs)
  | _ + 1, [] => none
  | n + 1, c :: cs =>
    if c.utf8Size ≤ n + 1 then
      (splitBytes (n + 1 - c.utf8Size) cs).map fun (front, back) => (c :: front, back)
    else none

/-- The text between two byte offsets, empty unless both are character
boundaries of the source in this order. -/
def slice (b : Buffer) (start stop : Nat) : List Char :=
  if start ≤ stop then
    match splitBytes start b.source with
    | some (_, back) => ((splitBytes (stop - start) back).map (·.1)).getD []
    | none => []
  else []

end Buffer

end FrontEnd
