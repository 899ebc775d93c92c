import FrontEnd.Unicode.Alphabetic
import FrontEnd.Unicode.GraphemeExtend
import FrontEnd.Unicode.Numeric
import FrontEnd.Unicode.Unprintable

/-!
Character classes of Unicode 17. ASCII is decided by arithmetic, the rest by a
sorted list of the points at which membership of the class changes.
-/

namespace FrontEnd.Unicode

/-- Whether `n` lies at or after an odd number of the sorted points. -/
def switched : List Nat → Nat → Bool
  | [], _ => false
  | [on], n => decide (on ≤ n)
  | on :: off :: rest, n =>
    if n < on then false else if n < off then true else switched rest n

def isAscii (c : Char) : Bool := decide (c.toNat < 128)

def isAlphabetic (c : Char) : Bool :=
  if isAscii c then c.isAlpha else switched alphabetic c.toNat

def isNumeric (c : Char) : Bool :=
  if isAscii c then c.isDigit else switched numeric c.toNat

def isAlphanumeric (c : Char) : Bool := isAlphabetic c || isNumeric c

/-- The property White_Space. -/
def isBlank (c : Char) : Bool :=
  let n := c.toNat
  (9 ≤ n && n ≤ 13) || n == 0x20 || n == 0x85 || n == 0xA0 || n == 0x1680 ||
    (0x2000 ≤ n && n ≤ 0x200A) || n == 0x2028 || n == 0x2029 || n == 0x202F ||
    n == 0x205F || n == 0x3000

/-- Characters that show themselves when printed, the space included. -/
def isPrintable (c : Char) : Bool :=
  if isAscii c then decide (32 ≤ c.toNat) && decide (c.toNat < 127)
  else !switched unprintable c.toNat

def isGraphemeExtend (c : Char) : Bool := !isAscii c && switched graphemeExtend c.toNat

end FrontEnd.Unicode
