/-!
JSON values and their text. Objects keep the order of their fields. One writer
serves both layouts: compact, and with one item a line, two blanks a level.
-/

namespace FrontEnd

inductive Json where
  | null
  | bool (value : Bool)
  | num (value : Nat)
  | str (value : String)
  | arr (items : List Json)
  | obj (fields : List (String × Json))
  deriving Inhabited, Repr

namespace Json

def hexDigit (n : Nat) : Char := (Nat.toDigits 16 n).headD '0'

/-- Quotes, backslashes and controls are escaped, all else stands for itself. -/
def escape (c : Char) : List Char :=
  if c = '"' || c = '\\' then ['\\', c]
  else if c = '\x08' then ['\\', 'b']
  else if c = '\t' then ['\\', 't']
  else if c = '\n' then ['\\', 'n']
  else if c = '\x0c' then ['\\', 'f']
  else if c = '\r' then ['\\', 'r']
  else if c.toNat < 32 then ['\\', 'u', '0', '0', hexDigit (c.toNat / 16), hexDigit (c.toNat % 16)]
  else [c]

def quote (s : String) : String := String.ofList ('"' :: s.toList.flatMap escape ++ ['"'])

/-- What stands before an item or a closing bracket at a depth, and between a
key and its value. -/
structure Layout where
  lead : Nat → String
  colon : String

def Layout.compact : Layout := ⟨fun _ => "", ":"⟩

def Layout.pretty : Layout :=
  ⟨fun depth => String.ofList ('\n' :: List.replicate (2 * depth) ' '), ": "⟩

/-- Items between brackets, written at the depth of the brackets. -/
def Layout.enclose (l : Layout) (depth : Nat) (first last : String) : List String → String
  | [] => first ++ last
  | items =>
    first ++ ",".intercalate (items.map (l.lead (depth + 1) ++ ·)) ++ l.lead depth ++ last

mutual

def write (l : Layout) (depth : Nat) : Json → String
  | .null => "null"
  | .bool true => "true"
  | .bool false => "false"
  | .num n => toString n
  | .str s => quote s
  | .arr items => l.enclose depth "[" "]" (writeItems l (depth + 1) items)
  | .obj fields => l.enclose depth "\x7b" "\x7d" (writeFields l (depth + 1) fields)

def writeItems (l : Layout) (depth : Nat) : List Json → List String
  | [] => []
  | j :: rest => write l depth j :: writeItems l depth rest

def writeFields (l : Layout) (depth : Nat) : List (String × Json) → List String
  | [] => []
  | (key, value) :: rest =>
    (quote key ++ l.colon ++ write l depth value) :: writeFields l depth rest

end

def compact (j : Json) : String := write .compact 0 j

def pretty (j : Json) : String := write .pretty 0 j

def ofOption (f : α → Json) : Option α → Json
  | none => .null
  | some a => f a

def bool? : Json → Option Bool
  | .bool value => some value
  | _ => none

def num? : Json → Option Nat
  | .num value => some value
  | _ => none

def str? : Json → Option String
  | .str value => some value
  | _ => none

def arr? : Json → Option (List Json)
  | .arr items => some items
  | _ => none

/-- The first field of that name; null if the object has none. -/
def field? (key : String) : Json → Option Json
  | .obj fields => some (((fields.find? fun f => f.1 == key).map (·.2)).getD .null)
  | _ => none

/-- Reads null as an absent value. -/
def option? (f : Json → Option α) : Json → Option (Option α)
  | .null => some none
  | j => (f j).map some

mutual

/-- Levels of nesting, at least one. -/
def depth : Json → Nat
  | .arr items => depthItems items + 1
  | .obj fields => depthFields fields + 1
  | _ => 1

def depthItems : List Json → Nat
  | [] => 0
  | j :: rest => max (depth j) (depthItems rest)

def depthFields : List (String × Json) → Nat
  | [] => 0
  | (_, j) :: rest => max (depth j) (depthFields rest)

end

end Json

end FrontEnd
