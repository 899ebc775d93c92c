import FrontEnd.Proofs.Parser.Eval
import FrontEnd.Proofs.Tree.Shape

/-!
What rules read has the shape that the grammar says. The contract `shapes` tells it of
every rule; the laws below lead from what the scripts of rules call to what they give.
-/

namespace FrontEnd

/-- The category of an expression of the level. -/
def Level.category : Level → Category
  | .assignment => .assignment
  | _ => .expression

/-- The category of what stands between the operators of the level. -/
def Level.operandCategory : Level → Category
  | .assignment => .deeper .expression
  | _ => .expression

def Suffix.children : Suffix → List Tree
  | .access _ => []
  | .index position => [position]
  | .slice start stop sentinel => start :: stop :: sentinel.toList
  | .call args => args

variable (symbols : Symbols) (limit : Nat)

/-- Two names in a row, of which the first is a type. -/
def Symbols.namesTwice (p : Nat) : Prop :=
  (symbols.symbolAt p).kind = .identifier ∧ (symbols.symbolAt (p + 1)).kind = .identifier

def Symbols.nameAt (p : Nat) : Tree := .node p (.identifier (symbols.symbolAt p).text)

/-- What the rule, called at a depth, read from a position up to another has its shape. -/
def Rule.Shapes (depth : Nat) : (r : Rule) → Nat → r.Result → Nat → Prop
  | .unit, _, v, _ | .statements, _, v, _ =>
    ∀ t ∈ v, Shaped symbols limit (.deeper .statement) depth t
  | .statement, _, v, _ | .labelled, _, v, _ => ∀ t ∈ v, Shaped symbols limit .statement depth t
  | .function, p, v, _ =>
    (symbols.sight p).opensFunction = true → Shaped symbols limit .statement depth v
  | .prototype isExport isExtern, _, v, _ =>
    Shaped symbols limit (.prototype isExport isExtern) depth v
  | .params, _, v, _ =>
    (∀ x ∈ v, Shaped symbols limit .type depth x.type) ∧ ∀ x ∈ v.dropLast, x.variadic = false
  | .record, _, v, _ | .enumeration, _, v, _ | .loop _, _, v, _ | .whileLoop _, _, v, _ =>
    Shaped symbols limit .statement depth v
  | .fields, _, v, _ => ∀ t ∈ v, Shaped symbols limit .field depth t
  | .variants, _, v, _ =>
    v ≠ [] ∧ ∀ x ∈ v, ∀ t ∈ x.value, Shaped symbols limit (.deeper .expression) depth t
  | .declaration, p, v, _ =>
    (symbols.sight p).opensVariable = true → Shaped symbols limit .declaration depth v
  | .modifiers, p, v, q =>
    v.1 = true ∨ v.2 = true ∨
      q = p ∧ (symbols.symbolAt p).kind ≠ .kwMutable ∧ (symbols.symbolAt p).kind ≠ .kwConst
  | .block label, _, v, _ => ∀ t ∈ v, Shaped symbols limit (.block label) depth t
  | .body, _, v, _ => Shaped symbols limit .body depth v
  | .conditional, p, v, _ =>
    Shaped symbols limit (.conditional (symbols.symbolAt p).kind) depth v
  | .selection, _, v, _ | .operand, _, v, _ => Shaped symbols limit .expression depth v
  | .branches, _, v, _ =>
    v ≠ [] ∧
      (∀ b ∈ v, ∀ i ∈ b.items, ∀ t ∈ i.children,
        Shaped symbols limit (.deeper .expression) depth t) ∧
      ∀ b ∈ v, Shaped symbols limit .body depth b.body
  | .branch, _, v, _ =>
    (∀ i ∈ v.items, ∀ t ∈ i.children, Shaped symbols limit (.deeper .expression) depth t) ∧
      Shaped symbols limit .body depth v.body
  | .items, _, v, _ =>
    ∀ i ∈ v, ∀ t ∈ i.children, Shaped symbols limit (.deeper .expression) depth t
  | .attempts, _, _, _ => True
  | .expression, _, v, _ | .recovery, _, v, _ | .unary, _, v, _ =>
    ∀ t ∈ v, Shaped symbols limit .expression depth t
  | .level l, _, v, _ => ∀ t ∈ v, Shaped symbols limit l.category depth t
  | .operands l, _, v, _ =>
    (l = .assignment → v.length ≤ 1) ∧
      ∀ x ∈ v, (∃ kind, l.operator? kind = some x.2.1) ∧
        Shaped symbols limit l.operandCategory depth x.2.2
  | .handlers, _, v, _ =>
    ∀ x ∈ v, Shaped symbols limit .expression depth x.2.2 ∨
      Shaped symbols limit (.block none) depth x.2.2
  | .primary, p, v, q =>
    (∀ t ∈ v, Shaped symbols limit .expression depth t) ∧
      ((symbols.symbolAt p).kind = .identifier → v = some (symbols.nameAt p) ∧ q = p + 1)
  | .suffixed, p, v, _ =>
    (∀ t ∈ v, Shaped symbols limit .expression depth t) ∧
      (symbols.namesTwice p → v = some (symbols.nameAt p))
  | .suffixes, p, v, _ =>
    (∀ x ∈ v, ∀ t ∈ x.2.children, Shaped symbols limit (.deeper .expression) depth t) ∧
      ((symbols.symbolAt p).kind = .identifier → v = [])
  | .listed _, _, v, _ => ∀ t ∈ v, Shaped symbols limit (.deeper .expression) depth t
  | .type, p, v, _ =>
    (∀ t ∈ v, Shaped symbols limit .type depth t) ∧
      ((symbols.symbolAt p).kind = .question ∨ (symbols.symbolAt p).kind = .leftBracket →
        ∀ t ∈ v, Shaped symbols limit .typeMark depth t) ∧
      (symbols.namesTwice p → v = some (symbols.nameAt p))
  | .innerType, _, v, _ => Shaped symbols limit .type depth v

/-- The contract that all rules have their shapes. -/
def shapes : Contract := .graded fun depth r => r.Shapes symbols limit depth

namespace Script

variable {α β : Type} {symbols : Symbols} {limit depth p : Nat}

/-- Where the scripts of all rules that it calls give their shapes, the script gives `Q`. -/
def Shapes (symbols : Symbols) (limit depth p : Nat) (x : Script α) (Q : α → Nat → Prop) : Prop :=
  x.Ensures (shapes symbols limit) symbols limit depth p Q

theorem shapes_any (x : Script α) : Shapes symbols limit depth p x fun _ _ => True :=
  ensures_any (fun _ _ => trivial) x

theorem shapes_any_bind {x : Script α} {f : α → Script β} {Q : β → Nat → Prop}
    (hf : ∀ v q, Shapes symbols limit depth q (f v) Q) :
    Shapes symbols limit depth p (x >>= f) Q := Ensures.any_bind (fun _ _ => trivial) hf

theorem shapes_run (r : Rule) :
    Shapes symbols limit depth p (run r) (r.Shapes symbols limit depth p) :=
  ⟨trivial, fun _ _ h => h⟩

/-- One level further in there is a level. -/
theorem shapes_deeper (r : Rule) :
    Shapes symbols limit depth p (deeper r) fun v q =>
      depth < limit ∧ r.Shapes symbols limit (depth + 1) p v q :=
  fun hd => ⟨trivial, fun _ _ h => ⟨hd, h⟩⟩

end Script

/-- The script of the rule gives what has the rule's shape. -/
def Rule.GivesShape (symbols : Symbols) (limit : Nat) (r : Rule) : Prop :=
  ∀ depth p, Script.Shapes symbols limit depth p r.script (r.Shapes symbols limit depth p)

end FrontEnd
