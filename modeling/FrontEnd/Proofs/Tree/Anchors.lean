import FrontEnd.Proofs.Parser.Assignments

/-!
Where the layers of a tree are anchored. The limbs of a layer are its children and its parts
with anchors of their own, in source order. An anchor fits what stands at it, lies before the
anchors in it, or between them for operators and suffixes, and limbs do not overlap.
-/

namespace FrontEnd

namespace TokenKind

/-- Whether an operand may begin with a token of the kind, operators in front of it apart. -/
def beginsOperand (k : TokenKind) : Bool := k.isName || [.kwFunc, .kwMatch, .leftParen].contains k

def beginsType (k : TokenKind) : Bool := k.beginsOperand || [.question, .leftBracket].contains k

def beginsExpression (k : TokenKind) : Bool :=
  k.beginsOperand || k == .leftBrace || (UnaryOp.ofKind? k).isSome

def beginsBranch (k : TokenKind) : Bool :=
  k.beginsExpression || [.kwCase, .kwElse, .kwDefault].contains k

end TokenKind

/-- A child of a layer, or a part of it that has an anchor and children of its own. -/
inductive Limb (T : Type) where
  | child (t : T)
  | param (p : Param T)
  | variant (v : Variant T)
  | branch (b : MatchBranch T)

namespace Limb

variable {T : Type}

def token? : Limb T → Option Nat
  | .child _ => none
  | .param p => some p.token
  | .variant v => some v.token
  | .branch b => some b.token

def children : Limb T → List T
  | .child t => [t]
  | .param p => [p.type]
  | .variant v => v.value.toList
  | .branch b => b.children

/-- What the anchor of a part has to be. -/
def Fits : Limb T → Symbol → Prop
  | .child _, _ => True
  | .param _, a => a.kind.beginsType = true
  | .variant v, a => a = .name v.name
  | .branch _, a => a.kind.beginsBranch = true

def map {U : Type} (f : T → U) : Limb T → Limb U
  | .child t => .child (f t)
  | .param p => .param (p.map f)
  | .variant v => .variant (v.map f)
  | .branch b => .branch (b.map f)

/-- Moves the anchors of the limb and of the trees in it. -/
def move (g : Nat → Nat) : Limb Tree → Limb Tree
  | .child t => .child (t.mapTokens g)
  | .param p => .param (p.move g)
  | .variant v => .variant (v.move g)
  | .branch b => .branch (b.move g)

end Limb

/-- What a function with the signature begins with. -/
def Tree.opener : Tree → TokenKind
  | .node _ (.prototype _ _ _ isExport isExtern) =>
    if isExport then .kwExport else if isExtern then .kwExtern else .kwFunc
  | _ => .kwFunc

theorem Tree.opener_mapTokens (g : Nat → Nat) (t : Tree) : (t.mapTokens g).opener = t.opener := by
  obtain ⟨token, form⟩ := t
  rw [mapTokens_node]
  cases form <;> rfl

namespace Form

variable {T U : Type}

/-- The children and the parts of the layer in source order. -/
def limbs : Form T → List (Limb T)
  | .prototype _ params result _ _ => params.map .param ++ [.child result]
  | .enumeration _ _ variants => variants.map .variant
  | .selection subject branches => .child subject :: branches.map .branch
  | form => form.children.map .child

/-- Whether the layer is anchored behind its first child. -/
def trails : Form T → Bool
  | .binary .. | .recovery .. | .call .. | .access .. | .index .. | .slice .. => true
  | _ => false

/-- What the anchor of the layer has to be. -/
def Fits : Form Tree → Symbol → Prop
  | .root _, _ => True
  | .identifier name, a => a = .name name
  | .integer text base, a => a = ⟨base.kind, text⟩
  | .float text imaginary, a => a = ⟨if imaginary then .imaginary else .float, text⟩
  | .rune text, a => a = ⟨.rune, text⟩
  | .string text form, a => a = ⟨form.kind, text⟩
  | .builtin name, a => a = ⟨.builtinName, name⟩
  | .bool value, a => a.kind = if value then .litTrue else .litFalse
  | .nil, a => a.kind = .kwNil
  | .unreachable, a => a.kind = .kwUnreachable
  | .block .., a | .elements _, a => a.kind = .leftBrace
  | .prototype .., a => a.kind = .kwFunc
  | .function signature _, a => a.kind = signature.opener
  | .record _ isExport isUnion _, a =>
    a.kind = if isExport then .kwExport else if isUnion then .kwUnion else .kwStruct
  | .enumeration _ isExport _, a => a.kind = if isExport then .kwExport else .kwEnum
  | .field .., a => a.kind.beginsType = true
  | .declaration _ _ _ isExport isMutable isConst, a =>
    if isExport then a.kind = .kwExport
    else if isMutable || isConst then
      (a.kind = .kwMutable ∧ isMutable = true) ∨ (a.kind = .kwConst ∧ isConst = true)
    else a.kind.beginsType = true
  | .call .., a => a.kind = .leftParen
  | .access .., a => a.kind = .dot
  | .index .., a | .slice .., a | .array .., a => a.kind = .leftBracket
  | .optional _, a => a.kind = .question
  | .recovery .., a => a.kind = .kwCatch
  | .binary op _ _, a => ∃ l : Level, l.operator? a.kind = some op
  | .unary op _, a => UnaryOp.ofKind? a.kind = some op
  | .conditional .., a => a.kind ∈ [.kwIf, .kwElseIf]
  | .loop _ (some _) _, a => a.kind ∈ [.kwFor, .kwWhile]
  | .loop _ none _, a | .steppedLoop .., a | .eachLoop .., a => a.kind = .kwFor
  | .selection .., a => a.kind = .kwMatch
  | .deferral _, a => a.kind = .kwDefer
  | .returning _, a => a.kind = .kwReturn
  | .raising _, a => a.kind = .kwRaise
  | .breaking .., a => a.kind = .kwBreak
  | .continuing _, a => a.kind = .kwContinue

theorem children_limbs (form : Form T) : form.limbs.flatMap (·.children) = form.children := by
  cases form with
  | prototype name params result =>
    have hparams : params.flatMap (fun p => [p.type]) = params.map (·.type) :=
      List.map_eq_flatMap.symm
    simp [limbs, children, Limb.children, List.flatMap_map, hparams]
  | _ => simp [limbs, children, Limb.children, List.flatMap_map]

theorem limbs_map (f : T → U) (form : Form T) : (form.map f).limbs = form.limbs.map (·.map f) := by
  have hchildren := form.children_map f
  cases form <;> simp_all [limbs, map, Limb.map, children, Function.comp_def]

/-- Moving a layer with the trees in it moves its limbs. -/
theorem limbs_move (g : Nat → Nat) (form : Form Tree) :
    ((form.map (·.mapTokens g)).mapTokens g).limbs = form.limbs.map (·.move g) := by
  have hchildren := form.children_map (·.mapTokens g)
  cases form <;> simp_all [limbs, map, Limb.move, children, Function.comp_def]
  all_goals exact fun _ _ => rfl

/-- What an anchor has to be does not depend on where the trees around it are anchored. -/
theorem fits_move (g : Nat → Nat) (form : Form Tree) :
    ((form.map (·.mapTokens g)).mapTokens g).Fits = form.Fits := by
  cases form with
  | function signature body =>
    funext a
    exact congrArg (a.kind = ·) (signature.opener_mapTokens g)
  | loop label condition body => cases condition <;> rfl
  | _ => rfl

theorem trails_map (f : T → U) (form : Form T) : (form.map f).trails = form.trails := by
  cases form <;> rfl

theorem trails_mapTokens (g : Nat → Nat) (form : Form T) :
    (form.mapTokens g).trails = form.trails := by
  cases form <;> rfl

end Form

/-! ## The anchors of a tree -/

/-- The anchors of a layer, its children being told by theirs. -/
def Form.anchors (form : Form (List Nat)) : List Nat :=
  form.limbs.flatMap fun limb => limb.token?.toList ++ limb.children.flatten

/-- All anchors in the tree, those of its parts among them. -/
def Tree.anchors : Tree → List Nat := Tree.fold fun token form => token :: form.anchors

def Limb.anchors (limb : Limb Tree) : List Nat :=
  limb.token?.toList ++ limb.children.flatMap Tree.anchors

theorem Limb.token?_map {T U : Type} (f : T → U) (limb : Limb T) :
    (limb.map f).token? = limb.token? := by
  cases limb <;> rfl

theorem Limb.children_map {T U : Type} (f : T → U) (limb : Limb T) :
    (limb.map f).children = limb.children.map f := by
  cases limb with
  | variant v => exact Option.toList_map
  | branch b => exact b.children_map f
  | _ => rfl

theorem Limb.mem_anchors {limb : Limb Tree} {i : Nat} :
    i ∈ limb.anchors ↔ i ∈ limb.token? ∨ ∃ t ∈ limb.children, i ∈ t.anchors := by
  simp [anchors, List.mem_append, List.mem_flatMap]

namespace Tree

variable {token : Nat} {form : Form Tree} {i : Nat}

theorem anchors_node (token : Nat) (form : Form Tree) :
    (Tree.node token form).anchors = token :: form.limbs.flatMap Limb.anchors := by
  rw [anchors, fold_node]
  simp only [Form.anchors, Form.limbs_map, List.flatMap_map, Limb.token?_map, Limb.children_map]
  rfl

theorem mem_anchors_node : i ∈ (Tree.node token form).anchors ↔
    i = token ∨ ∃ limb ∈ form.limbs, i ∈ limb.anchors := by
  rw [anchors_node, List.mem_cons, List.mem_flatMap]

theorem mem_anchors_of_mem {t : Tree} (ht : t ∈ form.children) (hi : i ∈ t.anchors) :
    i ∈ (Tree.node token form).anchors := by
  rw [← Form.children_limbs] at ht
  obtain ⟨limb, hlimb, ht⟩ := List.mem_flatMap.mp ht
  exact mem_anchors_node.mpr (.inr ⟨limb, hlimb, Limb.mem_anchors.mpr (.inr ⟨t, ht, hi⟩)⟩)

end Tree

/-- Moving a layer depends on where its own anchors are moved to. -/
theorem Form.mapTokens_congr {T : Type} {f g : Nat → Nat} {form : Form T}
    (h : ∀ limb ∈ form.limbs, ∀ k ∈ limb.token?, f k = g k) :
    form.mapTokens f = form.mapTokens g := by
  cases form with
  | prototype name params =>
    simp only [limbs, List.forall_mem_append, List.forall_mem_map, Limb.token?,
      Option.mem_some_iff, forall_eq'] at h
    simpa using h.1
  | enumeration name isExport variants =>
    simp only [limbs, List.forall_mem_map, Limb.token?, Option.mem_some_iff, forall_eq'] at h
    simpa using h
  | selection subject branches =>
    simp only [limbs, List.forall_mem_cons, List.forall_mem_map, Limb.token?, Option.mem_some_iff,
      forall_eq'] at h
    simpa using h.2
  | _ => rfl

/-- Moving a tree depends on where its anchors are moved to. -/
theorem Tree.mapTokens_congr {f g : Nat → Nat} {t : Tree} (h : ∀ i ∈ t.anchors, f i = g i) :
    t.mapTokens f = t.mapTokens g := by
  induction t using induct with
  | h token form ih =>
    have htoken : f token = g token := h token (mem_anchors_node.mpr (.inl rfl))
    have hchildren : form.map (mapTokens f) = form.map (mapTokens g) :=
      Form.map_congr fun t ht => ih t ht fun i hi => h i (mem_anchors_of_mem ht hi)
    rw [mapTokens_node, mapTokens_node, htoken, hchildren]
    refine congrArg (Tree.node (g token)) (Form.mapTokens_congr ?_)
    rw [Form.limbs_map, List.forall_mem_map]
    intro limb hlimb k hk
    rw [Limb.token?_map] at hk
    exact h k (mem_anchors_node.mpr (.inr ⟨limb, hlimb, Limb.mem_anchors.mpr (.inl hk)⟩))

/-- All of the one come before all of the other. -/
def Precedes (is js : List Nat) : Prop := ∀ i ∈ is, ∀ j ∈ js, i < j

section Anchored

variable (A : (Symbol → Prop) → Nat → Prop)

/-- The limb is anchored where `A` tells what it has to be, before its children, and these
stand one after the other. -/
structure Limb.Anchored (limb : Limb Tree) : Prop where
  fits : ∀ k ∈ limb.token?, A limb.Fits k
  before : ∀ k ∈ limb.token?, ∀ t ∈ limb.children, ∀ i ∈ t.anchors, k ≤ i
  apart : limb.children.Pairwise fun t u => Precedes t.anchors u.anchors

/-- The layer is anchored where `A` tells what it has to be. Its anchor is between those of its
first child and the others, or else before all, and its limbs stand one after the other. -/
structure Form.Anchored (token : Nat) (form : Form Tree) : Prop where
  fits : A form.Fits token
  between : form.trails = true → (∀ t ∈ form.children.head?, ∀ i ∈ t.anchors, i < token) ∧
    ∀ t ∈ form.children.tail, ∀ i ∈ t.anchors, token < i
  before : form.trails = false → ∀ limb ∈ form.limbs, ∀ i ∈ limb.anchors, token ≤ i
  apart : form.limbs.Pairwise fun a b => Precedes a.anchors b.anchors
  limbs : ∀ limb ∈ form.limbs, limb.Anchored A

/-- All layers of the tree are anchored as they have to be. -/
def Tree.Anchored : Tree → Prop := Tree.Everywhere (Form.Anchored A)

end Anchored

/-! ## Moving -/

section Moving

variable (g : Nat → Nat)

namespace Limb

variable (limb : Limb Tree)

theorem token?_move : (limb.move g).token? = limb.token?.map g := by
  cases limb <;> rfl

theorem fits_move : (limb.move g).Fits = limb.Fits := by
  cases limb <;> rfl

theorem children_move : (limb.move g).children = limb.children.map (·.mapTokens g) := by
  cases limb with
  | variant v => exact Option.toList_map
  | branch b => exact b.children_map _
  | _ => rfl

end Limb

theorem Tree.anchors_mapTokens (t : Tree) : (t.mapTokens g).anchors = t.anchors.map g := by
  induction t using induct with
  | h token form ih =>
    have hlimb : ∀ limb ∈ form.limbs, (limb.move g).anchors = limb.anchors.map g := by
      intro limb hlimb
      have hchildren : limb.children.flatMap (fun t => (t.mapTokens g).anchors) =
          limb.children.flatMap fun t => t.anchors.map g := by
        refine congrArg List.flatten (List.map_congr_left fun t ht => ih t ?_)
        rw [← Form.children_limbs]
        exact List.mem_flatMap.mpr ⟨limb, hlimb, ht⟩
      have htoken : (limb.token?.map g).toList = limb.token?.toList.map g := Option.toList_map
      rw [Limb.anchors, Limb.anchors, Limb.token?_move, Limb.children_move, List.flatMap_map,
        List.map_append, List.map_flatMap, htoken, hchildren]
    have hlimbs := congrArg List.flatten (List.map_congr_left hlimb)
    rw [mapTokens_node, anchors_node, anchors_node, Form.limbs_move, List.flatMap_map,
      List.map_cons, List.map_flatMap]
    exact congrArg (g token :: ·) hlimbs

theorem Limb.anchors_move (limb : Limb Tree) : (limb.move g).anchors = limb.anchors.map g := by
  have htoken : (limb.token?.map g).toList = limb.token?.toList.map g := Option.toList_map
  simp only [anchors, token?_move, children_move, List.flatMap_map, List.map_append,
    List.map_flatMap, htoken, Tree.anchors_mapTokens]

/-- Below the bound, moving keeps the order and what stands at the anchors. -/
structure Moves (A A' : (Symbol → Prop) → Nat → Prop) (bound : Nat) : Prop where
  lt : ∀ {i j}, i < j → j < bound → g i < g j
  holds : ∀ {P i}, i < bound → A P i → A' P (g i)

variable {g} {A A' : (Symbol → Prop) → Nat → Prop} {bound : Nat}

theorem Moves.le (h : Moves g A A' bound) {i j : Nat} (hij : i ≤ j) (hj : j < bound) :
    g i ≤ g j := by
  rcases Nat.eq_or_lt_of_le hij with rfl | hlt
  · exact Nat.le_refl _
  · exact Nat.le_of_lt (h.lt hlt hj)

theorem Precedes.move (h : Moves g A A' bound) {is js : List Nat} (hlt : Precedes is js)
    (hjs : ∀ j ∈ js, j < bound) : Precedes (is.map g) (js.map g) := by
  refine List.forall_mem_map.mpr fun i hi => List.forall_mem_map.mpr fun j hj => ?_
  exact h.lt (hlt i hi j hj) (hjs j hj)

theorem Limb.Anchored.move (h : Moves g A A' bound) {limb : Limb Tree}
    (hlimb : limb.Anchored A) (hbound : ∀ i ∈ limb.anchors, i < bound) :
    (limb.move g).Anchored A' := by
  have htoken : ∀ k ∈ limb.token?, k < bound := fun k hk => hbound k (mem_anchors.mpr (.inl hk))
  have hchild : ∀ t ∈ limb.children, ∀ i ∈ t.anchors, i < bound := fun t ht i hi =>
    hbound i (mem_anchors.mpr (.inr ⟨t, ht, hi⟩))
  refine ⟨?_, ?_, ?_⟩
  · rw [token?_move, fits_move]
    intro j hj
    obtain ⟨k, hk, rfl⟩ := Option.map_eq_some_iff.mp hj
    exact h.holds (htoken k hk) (hlimb.fits k hk)
  · rw [token?_move, children_move]
    intro j hj
    obtain ⟨k, hk, rfl⟩ := Option.map_eq_some_iff.mp hj
    refine List.forall_mem_map.mpr fun t ht => ?_
    rw [Tree.anchors_mapTokens]
    refine List.forall_mem_map.mpr fun i hi => ?_
    exact h.le (hlimb.before k hk t ht i hi) (hchild t ht i hi)
  · rw [children_move, List.pairwise_map]
    refine hlimb.apart.imp_of_mem fun {t u} _ hu hlt => ?_
    rw [Tree.anchors_mapTokens, Tree.anchors_mapTokens]
    exact hlt.move h (hchild u hu)

theorem Form.Anchored.move (h : Moves g A A' bound) {token : Nat} {form : Form Tree}
    (hform : form.Anchored A token)
    (hbound : ∀ i ∈ (Tree.node token form).anchors, i < bound) :
    ((form.map (·.mapTokens g)).mapTokens g).Anchored A' (g token) := by
  have htoken : token < bound := hbound token (Tree.mem_anchors_node.mpr (.inl rfl))
  have hlimb : ∀ limb ∈ form.limbs, ∀ i ∈ limb.anchors, i < bound := fun limb hlimb i hi =>
    hbound i (Tree.mem_anchors_node.mpr (.inr ⟨limb, hlimb, hi⟩))
  refine ⟨?_, ?_, ?_, ?_, ?_⟩
  · rw [fits_move]
    exact h.holds htoken hform.fits
  · rw [trails_mapTokens, trails_map, children_mapTokens, children_map, List.head?_map,
      ← List.map_tail]
    intro htrails
    obtain ⟨hfirst, hrest⟩ := hform.between htrails
    refine ⟨fun u hu => ?_, List.forall_mem_map.mpr fun t ht => ?_⟩
    · obtain ⟨t, ht, rfl⟩ := Option.map_eq_some_iff.mp hu
      rw [Tree.anchors_mapTokens]
      exact List.forall_mem_map.mpr fun i hi => h.lt (hfirst t ht i hi) htoken
    · rw [Tree.anchors_mapTokens]
      refine List.forall_mem_map.mpr fun i hi => h.lt (hrest t ht i hi) ?_
      exact hbound i (Tree.mem_anchors_of_mem (List.mem_of_mem_tail ht) hi)
  · rw [trails_mapTokens, trails_map, limbs_move]
    refine fun htrails => List.forall_mem_map.mpr fun limb hl => ?_
    rw [Limb.anchors_move]
    refine List.forall_mem_map.mpr fun i hi => ?_
    exact h.le (hform.before htrails limb hl i hi) (hlimb limb hl i hi)
  · rw [limbs_move, List.pairwise_map]
    refine hform.apart.imp_of_mem fun {a b} _ hb hlt => ?_
    rw [Limb.anchors_move, Limb.anchors_move]
    exact hlt.move h (hlimb b hb)
  · rw [limbs_move]
    exact List.forall_mem_map.mpr fun limb hl => (hform.limbs limb hl).move h (hlimb limb hl)

/-- Moving the anchors of a tree keeps it anchored if it keeps their order. -/
theorem Tree.Anchored.move (h : Moves g A A' bound) {t : Tree} (ht : t.Anchored A)
    (hbound : ∀ i ∈ t.anchors, i < bound) : (t.mapTokens g).Anchored A' := by
  induction t using induct with
  | h token form ih =>
    rw [mapTokens_node]
    refine everywhere_node ((ht token form .here).move h hbound) ?_
    rw [Form.children_mapTokens, Form.children_map]
    refine List.forall_mem_map.mpr fun u hu => ih u hu (Everywhere.of_mem ht hu) fun i hi => ?_
    exact hbound i (mem_anchors_of_mem hu hi)

end Moving

end FrontEnd
