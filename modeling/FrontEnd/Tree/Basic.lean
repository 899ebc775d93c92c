import FrontEnd.Tree.Operator

/-!
Syntax trees. A form is one layer of a tree over subtrees of any type; a tree is
a form over trees with the token that it is anchored at. Functions on trees are
folds of functions on forms, and `fold_node` is all that proofs need of `fold`.
-/

namespace FrontEnd

inductive Base where
  | decimal | binary | hexadecimal | octal
  deriving DecidableEq, Repr

inductive StringForm where
  | plain | raw | triple
  deriving DecidableEq, Repr

/-- `[]T`, `[_]T` and `[N]T`. -/
inductive ArrayKind where
  | slice | inferred | sized
  deriving DecidableEq, Repr

structure Param (T : Type) where
  token : Nat
  name : String
  type : T
  variadic : Bool
  deriving DecidableEq, Repr

structure Variant (T : Type) where
  token : Nat
  name : String
  value : Option T
  deriving DecidableEq, Repr

inductive MatchItem (T : Type) where
  | single (value : T)
  | range (start stop : T)
  deriving DecidableEq, Repr

/-- A branch without items takes whatever the others leave. -/
structure MatchBranch (T : Type) where
  token : Nat
  items : List (MatchItem T)
  body : T
  deriving DecidableEq, Repr

/-- One layer of syntax. `loop` repeats while its condition holds, `steppedLoop`
has the three parts `init; condition; step`, and `eachLoop` binds the elements
of what it iterates over. -/
inductive Form (T : Type) where
  | root (items : List T)
  | identifier (name : String)
  | block (label : Option String) (statements : List T)
  | prototype (name : Option String) (params : List (Param T)) (result : T)
      (isExport isExtern : Bool)
  | function (signature body : T)
  | integer (text : String) (base : Base)
  | float (text : String) (imaginary : Bool)
  | rune (text : String)
  | string (text : String) (form : StringForm)
  | bool (value : Bool)
  | nil
  | unreachable
  | builtin (name : String)
  | enumeration (name : String) (isExport : Bool) (variants : List (Variant T))
  | record (name : String) (isExport isUnion : Bool) (fields : List T)
  | field (name : String) (type : T) (default : Option T)
  | declaration (name : String) (type init : Option T) (isExport isMutable isConst : Bool)
  | call (callee : T) (args : List T)
  | access (target : T) (name : String)
  | index (target position : T)
  | slice (target start stop : T) (sentinel : Option T)
  | elements (items : List T)
  | conditional (condition thenBody : T) (elseBody : Option T)
  | loop (label : Option String) (condition : Option T) (body : T)
  | steppedLoop (label : Option String) (init condition step : Option T) (body : T)
  | eachLoop (label : Option String) (binding : String) (iterable body : T)
  | selection (subject : T) (branches : List (MatchBranch T))
  | recovery (lhs : T) (payload : Option String) (rhs : T)
  | binary (op : BinaryOp) (lhs rhs : T)
  | unary (op : UnaryOp) (operand : T)
  | optional (child : T)
  | array (kind : ArrayKind) (size sentinel : Option T) (element : T)
  | deferral (body : T)
  | returning (value : Option T)
  | raising (value : T)
  | breaking (label : Option String) (value : Option T)
  | continuing (label : Option String)

/-- `token` counts the tokens of the stream before the anchor, comments included. -/
inductive Tree where
  | node (token : Nat) (form : Form Tree)

variable {T U : Type}

def Param.map (f : T → U) (p : Param T) : Param U := ⟨p.token, p.name, f p.type, p.variadic⟩

def Variant.map (f : T → U) (v : Variant T) : Variant U := ⟨v.token, v.name, v.value.map f⟩

def MatchItem.map (f : T → U) : MatchItem T → MatchItem U
  | .single value => .single (f value)
  | .range start stop => .range (f start) (f stop)

def MatchBranch.map (f : T → U) (b : MatchBranch T) : MatchBranch U :=
  ⟨b.token, b.items.map (·.map f), f b.body⟩

namespace Form

def map (f : T → U) : Form T → Form U
  | .root items => .root (items.map f)
  | .identifier name => .identifier name
  | .block label statements => .block label (statements.map f)
  | .prototype name params result isExport isExtern =>
    .prototype name (params.map (·.map f)) (f result) isExport isExtern
  | .function signature body => .function (f signature) (f body)
  | .integer text base => .integer text base
  | .float text imaginary => .float text imaginary
  | .rune text => .rune text
  | .string text form => .string text form
  | .bool value => .bool value
  | .nil => .nil
  | .unreachable => .unreachable
  | .builtin name => .builtin name
  | .enumeration name isExport variants => .enumeration name isExport (variants.map (·.map f))
  | .record name isExport isUnion fields => .record name isExport isUnion (fields.map f)
  | .field name type default => .field name (f type) (default.map f)
  | .declaration name type init isExport isMutable isConst =>
    .declaration name (type.map f) (init.map f) isExport isMutable isConst
  | .call callee args => .call (f callee) (args.map f)
  | .access target name => .access (f target) name
  | .index target position => .index (f target) (f position)
  | .slice target start stop sentinel =>
    .slice (f target) (f start) (f stop) (sentinel.map f)
  | .elements items => .elements (items.map f)
  | .conditional condition thenBody elseBody =>
    .conditional (f condition) (f thenBody) (elseBody.map f)
  | .loop label condition body => .loop label (condition.map f) (f body)
  | .steppedLoop label init condition step body =>
    .steppedLoop label (init.map f) (condition.map f) (step.map f) (f body)
  | .eachLoop label binding iterable body => .eachLoop label binding (f iterable) (f body)
  | .selection subject branches => .selection (f subject) (branches.map (·.map f))
  | .recovery lhs payload rhs => .recovery (f lhs) payload (f rhs)
  | .binary op lhs rhs => .binary op (f lhs) (f rhs)
  | .unary op operand => .unary op (f operand)
  | .optional child => .optional (f child)
  | .array kind size sentinel element => .array kind (size.map f) (sentinel.map f) (f element)
  | .deferral body => .deferral (f body)
  | .returning value => .returning (value.map f)
  | .raising value => .raising (f value)
  | .breaking label value => .breaking label (value.map f)
  | .continuing label => .continuing label

/-- Moves the anchors of parameters, variants and branches. -/
def mapTokens (g : Nat → Nat) : Form T → Form T
  | .prototype name params result isExport isExtern =>
    .prototype name (params.map fun p => ⟨g p.token, p.name, p.type, p.variadic⟩) result
      isExport isExtern
  | .enumeration name isExport variants =>
    .enumeration name isExport (variants.map fun v => ⟨g v.token, v.name, v.value⟩)
  | .selection subject branches =>
    .selection subject (branches.map fun b => ⟨g b.token, b.items, b.body⟩)
  | form => form

end Form

namespace Tree

variable {α : Type}

mutual

/-- Computes a value from the bottom up, `g` taking the anchor and the layer. -/
def fold (g : Nat → Form α → α) : Tree → α
  | .node token form => g token (foldForm g form)

private def foldForm (g : Nat → Form α → α) : Form Tree → Form α
  | .root items => .root (foldList g items)
  | .identifier name => .identifier name
  | .block label statements => .block label (foldList g statements)
  | .prototype name params result isExport isExtern =>
    .prototype name (foldParams g params) (fold g result) isExport isExtern
  | .function signature body => .function (fold g signature) (fold g body)
  | .integer text base => .integer text base
  | .float text imaginary => .float text imaginary
  | .rune text => .rune text
  | .string text form => .string text form
  | .bool value => .bool value
  | .nil => .nil
  | .unreachable => .unreachable
  | .builtin name => .builtin name
  | .enumeration name isExport variants => .enumeration name isExport (foldVariants g variants)
  | .record name isExport isUnion fields => .record name isExport isUnion (foldList g fields)
  | .field name type default => .field name (fold g type) (foldOption g default)
  | .declaration name type init isExport isMutable isConst =>
    .declaration name (foldOption g type) (foldOption g init) isExport isMutable isConst
  | .call callee args => .call (fold g callee) (foldList g args)
  | .access target name => .access (fold g target) name
  | .index target position => .index (fold g target) (fold g position)
  | .slice target start stop sentinel =>
    .slice (fold g target) (fold g start) (fold g stop) (foldOption g sentinel)
  | .elements items => .elements (foldList g items)
  | .conditional condition thenBody elseBody =>
    .conditional (fold g condition) (fold g thenBody) (foldOption g elseBody)
  | .loop label condition body => .loop label (foldOption g condition) (fold g body)
  | .steppedLoop label init condition step body =>
    .steppedLoop label (foldOption g init) (foldOption g condition) (foldOption g step)
      (fold g body)
  | .eachLoop label binding iterable body =>
    .eachLoop label binding (fold g iterable) (fold g body)
  | .selection subject branches => .selection (fold g subject) (foldBranches g branches)
  | .recovery lhs payload rhs => .recovery (fold g lhs) payload (fold g rhs)
  | .binary op lhs rhs => .binary op (fold g lhs) (fold g rhs)
  | .unary op operand => .unary op (fold g operand)
  | .optional child => .optional (fold g child)
  | .array kind size sentinel element =>
    .array kind (foldOption g size) (foldOption g sentinel) (fold g element)
  | .deferral body => .deferral (fold g body)
  | .returning value => .returning (foldOption g value)
  | .raising value => .raising (fold g value)
  | .breaking label value => .breaking label (foldOption g value)
  | .continuing label => .continuing label

private def foldList (g : Nat → Form α → α) : List Tree → List α
  | [] => []
  | t :: rest => fold g t :: foldList g rest

private def foldOption (g : Nat → Form α → α) : Option Tree → Option α
  | none => none
  | some t => some (fold g t)

private def foldParam (g : Nat → Form α → α) : Param Tree → Param α
  | ⟨token, name, type, variadic⟩ => ⟨token, name, fold g type, variadic⟩

private def foldParams (g : Nat → Form α → α) : List (Param Tree) → List (Param α)
  | [] => []
  | p :: rest => foldParam g p :: foldParams g rest

private def foldVariant (g : Nat → Form α → α) : Variant Tree → Variant α
  | ⟨token, name, value⟩ => ⟨token, name, foldOption g value⟩

private def foldVariants (g : Nat → Form α → α) : List (Variant Tree) → List (Variant α)
  | [] => []
  | v :: rest => foldVariant g v :: foldVariants g rest

private def foldItem (g : Nat → Form α → α) : MatchItem Tree → MatchItem α
  | .single value => .single (fold g value)
  | .range start stop => .range (fold g start) (fold g stop)

private def foldItems (g : Nat → Form α → α) : List (MatchItem Tree) → List (MatchItem α)
  | [] => []
  | i :: rest => foldItem g i :: foldItems g rest

private def foldBranch (g : Nat → Form α → α) : MatchBranch Tree → MatchBranch α
  | ⟨token, items, body⟩ => ⟨token, foldItems g items, fold g body⟩

private def foldBranches (g : Nat → Form α → α) : List (MatchBranch Tree) → List (MatchBranch α)
  | [] => []
  | b :: rest => foldBranch g b :: foldBranches g rest

end

private theorem foldList_eq (g : Nat → Form α → α) (ts : List Tree) :
    foldList g ts = ts.map (fold g) := by
  induction ts with
  | nil => rfl
  | cons t rest ih => simp [foldList, ih]

private theorem foldOption_eq (g : Nat → Form α → α) (t : Option Tree) :
    foldOption g t = t.map (fold g) := by
  cases t <;> rfl

private theorem foldParams_eq (g : Nat → Form α → α) (ps : List (Param Tree)) :
    foldParams g ps = ps.map (·.map (fold g)) := by
  induction ps with
  | nil => rfl
  | cons p rest ih => cases p; simp [foldParams, foldParam, Param.map, ih]

private theorem foldVariants_eq (g : Nat → Form α → α) (vs : List (Variant Tree)) :
    foldVariants g vs = vs.map (·.map (fold g)) := by
  induction vs with
  | nil => rfl
  | cons v rest ih => cases v; simp [foldVariants, foldVariant, Variant.map, foldOption_eq, ih]

private theorem foldItems_eq (g : Nat → Form α → α) (is : List (MatchItem Tree)) :
    foldItems g is = is.map (·.map (fold g)) := by
  induction is with
  | nil => rfl
  | cons i rest ih => cases i <;> simp [foldItems, foldItem, MatchItem.map, ih]

private theorem foldBranches_eq (g : Nat → Form α → α) (bs : List (MatchBranch Tree)) :
    foldBranches g bs = bs.map (·.map (fold g)) := by
  induction bs with
  | nil => rfl
  | cons b rest ih => cases b; simp [foldBranches, foldBranch, MatchBranch.map, foldItems_eq, ih]

theorem fold_node (g : Nat → Form α → α) (token : Nat) (form : Form Tree) :
    fold g (.node token form) = g token (form.map (fold g)) := by
  cases form <;>
    simp only [fold, foldForm, Form.map, foldList_eq, foldOption_eq, foldParams_eq, foldVariants_eq,
      foldBranches_eq]

/-- Moves every anchor of the tree. -/
def mapTokens (g : Nat → Nat) : Tree → Tree :=
  fold fun token form => .node (g token) (form.mapTokens g)

end Tree

end FrontEnd
