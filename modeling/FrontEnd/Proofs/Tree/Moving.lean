import FrontEnd.Parser.Grammar.Primaries
import FrontEnd.Proofs.Tree.Names

/-!
Moving the anchors of trees and of what productions give. Moves are composed by
composing the functions that they are made with.
-/

namespace FrontEnd

attribute [simp] Form.mapTokens

theorem Form.mapTokens_mapTokens {T : Type} (f g : Nat → Nat) (form : Form T) :
    (form.mapTokens f).mapTokens g = form.mapTokens (g ∘ f) := by
  cases form <;> simp

theorem MatchItem.map_id {T : Type} (i : MatchItem T) : i.map id = i := by
  cases i <;> rfl

theorem Form.map_id {T : Type} (form : Form T) : form.map id = form := by
  have hitem : MatchItem.map (id : T → T) = id := funext MatchItem.map_id
  cases form <;> simp [map, Param.map, Variant.map, MatchBranch.map, hitem]

namespace Tree

variable (f g : Nat → Nat)

@[simp] theorem mapTokens_node (token : Nat) (form : Form Tree) :
    (Tree.node token form).mapTokens g =
      .node (g token) ((form.map (mapTokens g)).mapTokens g) := fold_node _ _ _

theorem mapTokens_mapTokens (t : Tree) :
    (t.mapTokens f).mapTokens g = t.mapTokens (g ∘ f) := by
  apply eq_fold (F := fun t => (t.mapTokens f).mapTokens g)
  intro token form
  rw [mapTokens_node, mapTokens_node, Form.map_mapTokens, Form.map_map, Form.mapTokens_mapTokens]
  rfl

/-- Anchors that stay where they are. -/
theorem mapTokens_id (t : Tree) : t.mapTokens id = t := by
  induction t using induct with
  | h token form ih =>
    rw [mapTokens_node, Form.map_congr (g := id) ih, Form.map_id]
    cases form <;> simp

/-- Moving the anchors of a tree that is built up step by step. -/
theorem mapTokens_foldl {β : Type} {g : Nat → Nat} {f : Tree → β → Tree} {m : β → β}
    (h : ∀ t x, (f t x).mapTokens g = f (t.mapTokens g) (m x)) (xs : List β) (t : Tree) :
    (xs.foldl f t).mapTokens g = (xs.map m).foldl f (t.mapTokens g) := by
  induction xs generalizing t with
  | nil => rfl
  | cons x xs ih => rw [List.foldl_cons, ih, h, List.map_cons, List.foldl_cons]

theorem mapTokens_foldr {β : Type} {g : Nat → Nat} {f : β → Tree → Tree} {m : β → β}
    (h : ∀ x t, (f x t).mapTokens g = f (m x) (t.mapTokens g)) (xs : List β) (t : Tree) :
    (xs.foldr f t).mapTokens g = (xs.map m).foldr f (t.mapTokens g) := by
  induction xs with
  | nil => rfl
  | cons x xs ih => rw [List.foldr_cons, h, ih, List.map_cons, List.foldr_cons]

end Tree

/-- A leaf has no anchor but its own. -/
theorem Symbol.leaf?_move {s : Symbol} {form : Form Tree} (h : s.leaf? = some form)
    (f : Tree → Tree) (g : Nat → Nat) : (form.map f).mapTokens g = form := by
  obtain ⟨kind, text⟩ := s
  cases kind <;> first | cases h; done | (cases h; rfl)

/-! ## What productions give -/

variable (g : Nat → Nat)

def Param.move (p : Param Tree) : Param Tree :=
  ⟨g p.token, p.name, p.type.mapTokens g, p.variadic⟩

theorem Tree.mapTokens_prototype (token : Nat) (name : Option String) (params : List (Param Tree))
    (result : Tree) (isExport isExtern : Bool) :
    (Tree.node token (.prototype name params result isExport isExtern)).mapTokens g =
      .node (g token) (.prototype name (params.map (·.move g)) (result.mapTokens g) isExport
        isExtern) := by
  simp [Form.map, Function.comp_def, Param.map, Param.move]

def Variant.move (v : Variant Tree) : Variant Tree :=
  ⟨g v.token, v.name, v.value.map (·.mapTokens g)⟩

def MatchItem.move (i : MatchItem Tree) : MatchItem Tree := i.map (·.mapTokens g)

def MatchBranch.move (b : MatchBranch Tree) : MatchBranch Tree :=
  ⟨g b.token, b.items.map (·.move g), b.body.mapTokens g⟩

def Suffix.move : Suffix → Suffix
  | .access name => .access name
  | .index position => .index (position.mapTokens g)
  | .slice start stop sentinel =>
    .slice (start.mapTokens g) (stop.mapTokens g) (sentinel.map (·.mapTokens g))
  | .call args => .call (args.map (·.mapTokens g))

/-- Moves the anchors of what the rule gives. -/
def Rule.move (g : Nat → Nat) : (r : Rule) → r.Result → r.Result
  | .unit, v | .fields, v | .statements, v | .listed _, v => v.map (·.mapTokens g)
  | .statement, v | .labelled, v | .block _, v | .expression, v | .level _, v | .recovery, v
  | .unary, v | .suffixed, v | .primary, v | .type, v => v.map (·.mapTokens g)
  | .function, v | .prototype _ _, v | .record, v | .enumeration, v | .declaration, v | .body, v
  | .conditional, v | .loop _, v | .whileLoop _, v | .selection, v | .operand, v
  | .innerType, v => v.mapTokens g
  | .params, v => v.map (·.move g)
  | .variants, v => v.map (·.move g)
  | .modifiers, v => v
  | .branches, v => v.map (·.move g)
  | .branch, v => v.move g
  | .items, v => v.map (·.move g)
  | .attempts, v => v.map g
  | .operands _, v => v.map fun (token, op, rhs) => (g token, op, rhs.mapTokens g)
  | .handlers, v => v.map fun (token, name, rhs) => (g token, name, rhs.mapTokens g)
  | .suffixes, v => v.map fun (token, suffix) => (g token, suffix.move g)

end FrontEnd
