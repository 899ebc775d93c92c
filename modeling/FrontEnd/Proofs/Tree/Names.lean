import FrontEnd.Parser.Script
import FrontEnd.Proofs.Tree.Induction

/-!
The names and literals of a tree in source order, each with the kind of token that
it is read from. Where a tree is anchored does not matter to them.
-/

namespace FrontEnd

def Base.kind : Base → TokenKind
  | .decimal => .decimalInteger
  | .binary => .binaryInteger
  | .hexadecimal => .hexInteger
  | .octal => .octalInteger

def StringForm.kind : StringForm → TokenKind
  | .plain => .string
  | .raw => .rawString
  | .triple => .tripleString

/-- Kinds of names and literals, `nil` and `unreachable` among them. -/
def TokenKind.isName (k : TokenKind) : Bool := k.isLiteral || k == .kwNil || k == .kwUnreachable

namespace Symbol

def name (text : String) : Symbol := ⟨.identifier, text⟩

/-- The word that is the name of the kind. -/
def word (kind : TokenKind) : Symbol := ⟨kind, kind.name⟩

end Symbol

/-- The name that an optional name is, or none. -/
def labelNames (label : Option String) : List Symbol := label.toList.map .name

@[simp] theorem labelNames_none : labelNames none = [] := rfl

@[simp] theorem labelNames_some (text : String) : labelNames (some text) = [.name text] := rfl

def MatchItem.names : MatchItem (List Symbol) → List Symbol
  | .single value => value
  | .range start stop => start ++ stop

@[simp] def Param.names (p : Param (List Symbol)) : List Symbol := p.type ++ [.name p.name]

@[simp] def Variant.names (v : Variant (List Symbol)) : List Symbol :=
  .name v.name :: v.value.getD []

@[simp] def MatchBranch.names (b : MatchBranch (List Symbol)) : List Symbol :=
  b.items.flatMap (·.names) ++ b.body

/-- The names of a layer, its children being told by their names. -/
@[simp] def Form.names : Form (List Symbol) → List Symbol
  | .root items | .elements items => items.flatten
  | .identifier name => [.name name]
  | .block label statements => labelNames label ++ statements.flatten
  | .prototype name params result _ _ =>
    labelNames name ++ params.flatMap (·.names) ++ result
  | .function signature body => signature ++ body
  | .integer text base => [⟨base.kind, text⟩]
  | .float text imaginary => [⟨if imaginary then .imaginary else .float, text⟩]
  | .rune text => [⟨.rune, text⟩]
  | .string text form => [⟨form.kind, text⟩]
  | .bool value => [.word (if value then .litTrue else .litFalse)]
  | .nil => [.word .kwNil]
  | .unreachable => [.word .kwUnreachable]
  | .builtin name => [⟨.builtinName, name⟩]
  | .enumeration name _ variants => .name name :: variants.flatMap (·.names)
  | .record name _ _ fields => .name name :: fields.flatten
  | .field name type default => type ++ .name name :: default.getD []
  | .declaration name type init _ _ _ => type.getD [] ++ .name name :: init.getD []
  | .call callee args => callee ++ args.flatten
  | .access target name => target ++ [.name name]
  | .index target position => target ++ position
  | .slice target start stop sentinel => target ++ start ++ stop ++ sentinel.getD []
  | .conditional condition thenBody elseBody => condition ++ thenBody ++ elseBody.getD []
  | .loop label condition body => labelNames label ++ condition.getD [] ++ body
  | .steppedLoop label init condition step body =>
    labelNames label ++ init.getD [] ++ condition.getD [] ++ step.getD [] ++ body
  | .eachLoop label binding iterable body =>
    labelNames label ++ .name binding :: (iterable ++ body)
  | .selection subject branches => subject ++ branches.flatMap (·.names)
  | .recovery lhs payload rhs => lhs ++ labelNames payload ++ rhs
  | .binary _ lhs rhs => lhs ++ rhs
  | .unary _ child | .optional child | .deferral child | .raising child => child
  | .array kind size sentinel element =>
    (if kind = .inferred then [.name "_"] else []) ++ size.getD [] ++ sentinel.getD [] ++ element
  | .returning value => value.getD []
  | .breaking label value => labelNames label ++ value.getD []
  | .continuing label => labelNames label

/-- The names and literals of a tree in source order. -/
def Tree.names : Tree → List Symbol := Tree.fold fun _ form => form.names

@[simp] theorem Tree.names_node (token : Nat) (form : Form Tree) :
    (Tree.node token form).names = (form.map Tree.names).names := fold_node _ _ _

attribute [simp] Form.map Param.map Variant.map MatchBranch.map

namespace Form

variable {T U V : Type}

theorem map_map (f : T → U) (g : U → V) (form : Form T) :
    (form.map f).map g = form.map (g ∘ f) := by
  have hitem (i : MatchItem T) : (i.map f).map g = i.map (g ∘ f) := by
    cases i <;> rfl
  cases form <;> simp [hitem]

theorem map_mapTokens (f : T → U) (g : Nat → Nat) (form : Form T) :
    (form.mapTokens g).map f = (form.map f).mapTokens g := by
  cases form <;> simp [mapTokens]

theorem names_mapTokens (g : Nat → Nat) (form : Form (List Symbol)) :
    (form.mapTokens g).names = form.names := by
  cases form <;> simp [mapTokens, List.flatMap_map]

end Form

/-- Moving the anchors of a tree leaves its names alone. -/
theorem Tree.names_mapTokens (g : Nat → Nat) (t : Tree) : (t.mapTokens g).names = t.names := by
  apply eq_fold (F := fun t => (t.mapTokens g).names)
  intro token form
  rw [mapTokens, fold_node, names_node, Form.map_mapTokens, Form.names_mapTokens, Form.map_map]
  rfl

theorem names_foldl {β : Type} {f : Tree → β → Tree} {g : β → List Symbol}
    (h : ∀ t x, (f t x).names = t.names ++ g x) (xs : List β) (t : Tree) :
    (xs.foldl f t).names = t.names ++ xs.flatMap g := by
  induction xs generalizing t with
  | nil => simp
  | cons x xs ih => rw [List.foldl_cons, ih, h, List.flatMap_cons, List.append_assoc]

end FrontEnd
