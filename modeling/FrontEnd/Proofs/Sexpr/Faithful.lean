import Mathlib.Logic.Function.Basic
import FrontEnd.Proofs.Parser.Regular
import FrontEnd.Proofs.Parser.Reprinting
import FrontEnd.Proofs.Sexpr.Layers
import FrontEnd.Proofs.Tree.Paths

/-!
Written trees are told apart. A tree is read, layer by layer, from the nested list that it is
written as, and that from its text; so two sources whose trees have one text have one tree, but
for the anchors, if no name in them is an underscore.
-/

namespace FrontEnd

/-! ## Names of layers -/

section Names

variable {a : Symbol}

theorem mem_getD {o : Option (List Symbol)} : a ∈ o.getD [] ↔ ∃ l ∈ o.toList, a ∈ l := by
  cases o <;> simp

theorem getD_map_nil {T : Type} (o : Option T) :
    (o.map fun _ => ([] : List Symbol)).getD [] = [] := by
  cases o <;> rfl

theorem MatchItem.mem_names {i : MatchItem (List Symbol)} :
    a ∈ i.names ↔ ∃ l ∈ i.children, a ∈ l := by
  cases i <;> simp [names, children]

theorem MatchItem.names_map_nil {T : Type} (i : MatchItem T) :
    (i.map fun _ => ([] : List Symbol)).names = [] := by
  cases i <;> rfl

/-- The names of a layer are its own and those of its subtrees. -/
theorem Form.mem_names {form : Form (List Symbol)} :
    a ∈ form.names ↔ a ∈ form.own ∨ ∃ l ∈ form.children, a ∈ l := by
  cases form with
  | selection subject branches =>
    simp [own, List.flatMap_map, MatchItem.names_map_nil, children, MatchBranch.children,
      MatchItem.mem_names, or_and_right, exists_or]
    grind
  | prototype name params result =>
    simp [own, children, List.flatMap_map, or_and_right, exists_or, or_assoc]
    grind
  | enumeration name isExport variants =>
    simp [own, children, List.flatMap_map, mem_getD, getD_map_nil, or_assoc]
    grind
  | _ =>
    simp [own, children, mem_getD, getD_map_nil, List.map_const', or_and_right, exists_or, or_assoc,
      or_comm, or_left_comm]

@[simp]
theorem Form.own_map {T U : Type} (f : T → U) (form : Form T) : (form.map f).own = form.own := by
  rw [own, map_map]
  rfl

/-- The own names of the layers of a tree are names of the tree. -/
theorem Tree.everywhere_names (t : Tree) : t.Everywhere fun _ form => form.own ⊆ t.names := by
  induction t using induct with
  | h token form ih =>
    refine everywhere_node (fun a ha => ?_) fun u hu token' form' hin a ha => ?_
    · rw [names_node, Form.mem_names, Form.own_map]
      exact .inl ha
    · rw [names_node, Form.mem_names, Form.children_map]
      exact .inr ⟨u.names, List.mem_map_of_mem hu, ih u hu token' form' hin ha⟩

end Names

/-! ## Trees as nested lists -/

/-- Where subtrees that `f` does not tell apart are not told apart by `g` either, layers that
are the same under `f` are so under `g`. -/
theorem Form.mapTokens_map_congr {T U V : Type} [Inhabited V] {f : T → U} {g : T → V}
    {h : Nat → Nat} {form form' : Form T}
    (heq : (form.map f).mapTokens h = (form'.map f).mapTokens h)
    (hchildren : ∀ t ∈ form.children, ∀ u ∈ form'.children, f t = f u → g t = g u) :
    (form.map g).mapTokens h = (form'.map g).mapTokens h := by
  have hsame : form.children.map f = form'.children.map f := by
    have hlists := congrArg Form.children heq
    rwa [children_mapTokens, children_mapTokens, children_map, children_map] at hlists
  have hpartner {t : T} (ht : t ∈ form.children) : ∃ u ∈ form'.children, f u = f t :=
    List.mem_map.mp (hsame ▸ List.mem_map_of_mem ht)
  have hpartner' {u : T} (hu : u ∈ form'.children) : ∃ t ∈ form.children, f t = f u :=
    List.mem_map.mp (hsame ▸ List.mem_map_of_mem hu)
  -- On what the subtrees are under `f`, what they are under `g` is a function.
  let through : U → V := Function.extend (fun t : {t // t ∈ form.children} => f t)
    (fun t => g t) fun _ => default
  have hfactors : Function.FactorsThrough (fun t : {t // t ∈ form.children} => g t)
      (fun t => f t) := by
    intro t t' ht
    obtain ⟨u, hu, hfu⟩ := hpartner t'.2
    exact (hchildren t t.2 u hu (ht.trans hfu.symm)).trans (hchildren t' t'.2 u hu hfu.symm).symm
  have hform : ∀ t ∈ form.children, g t = through (f t) := fun t ht =>
    (hfactors.extend_apply _ ⟨t, ht⟩).symm
  have hform' : ∀ u ∈ form'.children, g u = through (f u) := by
    intro u hu
    obtain ⟨t, ht, hfu⟩ := hpartner' hu
    rw [← hchildren t ht u hu hfu, ← hfu, hform t ht]
  have hmap : form.map g = (form.map f).map through := by
    rw [map_map]
    exact map_congr hform
  have hmap' : form'.map g = (form'.map f).map through := by
    rw [map_map]
    exact map_congr hform'
  rw [hmap, hmap', ← map_mapTokens through, ← map_mapTokens through, heq]

/-- A layer that is told by what it is written as. -/
structure Form.Legible {T : Type} (form : Form T) : Prop where
  inner : ∀ ts, form ≠ .root ts
  holds : form.Holds
  readable : ∀ a ∈ form.own, a.Readable
  named : .name "_" ∉ form.own

theorem Form.Legible.map {T U : Type} {form : Form T} (h : form.Legible) (f : T → U) :
    (form.map f).Legible := by
  refine ⟨fun us hus => ?_, (form.holds_map f).mpr h.holds, ?_, ?_⟩
  · cases form with
    | root ts => exact h.inner ts rfl
    | _ => cases hus
  · rw [own_map]
    exact h.readable
  · rw [own_map]
    exact h.named

namespace Tree

/-- The nested list that a tree is written as. -/
def nest : Tree → Nest := fold fun _ form => form.nest

theorem nest_node (token : Nat) (form : Form Tree) :
    (node token form).nest = (form.map nest).nest := fold_node _ _ _

theorem sexpr_node (token : Nat) (form : Form Tree) :
    (node token form).sexpr = (form.map sexpr).sexpr := fold_node _ _ _

/-- All layers of the tree are told by what they are written as. -/
def Legible (t : Tree) : Prop := t.Everywhere fun _ form => form.Legible

variable {token : Nat} {form : Form Tree} {t u : Tree}

theorem Legible.of_mem (h : (node token form).Legible) (ht : t ∈ form.children) : t.Legible :=
  Everywhere.of_mem h ht

theorem proper_map (h : ∀ t ∈ form.children, t.nest.Proper) :
    ∀ n ∈ (form.map nest).children, n.Proper := by
  rw [Form.children_map]
  exact List.forall_mem_map.mpr h

theorem Legible.proper (h : t.Legible) : t.nest.Proper := by
  induction t using induct with
  | h token form ih =>
    have hform := (h token form .here).map nest
    rw [nest_node]
    exact Form.proper_nest hform.inner hform.holds hform.readable
      (proper_map fun t ht => ih t ht (h.of_mem ht)) hform.named

/-- A layer of a tree is read from the nested list that it is written as. -/
theorem Legible.ofNest? (h : (node token form).Legible) :
    Form.ofNest? (node token form).nest = some ((form.map nest).mapTokens fun _ => 0) := by
  have hform := (h token form .here).map nest
  rw [nest_node]
  exact Form.ofNest?_nest hform.inner hform.holds hform.readable
    (proper_map fun t ht => (h.of_mem ht).proper)

/-- The text of a tree is read as the nested list. -/
theorem Legible.told (h : t.Legible) : Told t.sexpr t.nest := by
  induction t using induct with
  | h token form ih =>
    have hform := h token form .here
    rw [sexpr_node, nest_node]
    exact Form.told hform.inner hform.readable fun t ht => ih t ht (h.of_mem ht)

instance : Inhabited Tree := ⟨.node 0 .nil⟩

/-- The nested list tells the tree but for its anchors. -/
theorem unanchored_of_nest (ht : t.Legible) (hu : u.Legible) (h : t.nest = u.nest) :
    t.unanchored = u.unanchored := by
  induction t using induct generalizing u with
  | h token form ih =>
    obtain ⟨token', form'⟩ := u
    have hlayers := ht.ofNest?
    rw [h, hu.ofNest?, Option.some.injEq] at hlayers
    rw [unanchored_node, unanchored_node, Form.mapTokens_map_congr hlayers.symm]
    intro t hin u hin' hnest
    exact ih t hin (ht.of_mem hin) (hu.of_mem hin') hnest

theorem unanchored_of_nests {ts us : List Tree} (hts : ∀ t ∈ ts, t.Legible)
    (hus : ∀ u ∈ us, u.Legible) (h : ts.map nest = us.map nest) :
    ts.map unanchored = us.map unanchored := by
  induction ts generalizing us with
  | nil =>
    obtain rfl : us = [] := List.map_eq_nil_iff.mp h.symm
    rfl
  | cons t ts ih =>
    cases us with
    | nil => cases h
    | cons u us =>
      rw [List.forall_mem_cons] at hts hus
      obtain ⟨hnest, hrest⟩ := List.cons.inj h
      exact congrArg₂ List.cons (unanchored_of_nest hts.1 hus.1 hnest) (ih hts.2 hus.2 hrest)

/-- Items that are written alike, each on a line of its own, are the same but for their
anchors. -/
theorem unanchored_of_lines {ts us : List Tree} (hts : ∀ t ∈ ts, t.Legible)
    (hus : ∀ u ∈ us, u.Legible)
    (h : "\n".intercalate (ts.map sexpr) = "\n".intercalate (us.map sexpr)) :
    ts.map unanchored = us.map unanchored := by
  have hread {items : List Tree} (hitems : ∀ t ∈ items, t.Legible) :
      Glyph.read ("\n".intercalate (items.map sexpr)).toList =
        Nest.glyphsOf (items.map nest) ++ [] := by
    have hcalm : Glyph.isCalm [] = true := rfl
    have hlines := read_intercalate (fun t ht => (hitems t ht).told)
      (fun t ht => (hitems t ht).told.below) hcalm
    rwa [List.append_nil] at hlines
  have hglyphs := hread hts
  rw [h, hread hus] at hglyphs
  exact unanchored_of_nests hts hus (Nest.glyphsOf_inj hglyphs.symm nofun nofun).1

/-- Trees that fill a slot are no roots, and none of their layers is. -/
theorem Fills.inner {slot : Slot} (h : t.Fills slot) :
    t.Everywhere fun _ form => form.Holds ∧ ∀ ts, form ≠ .root ts := by
  induction t using induct generalizing slot with
  | h token form ih =>
    obtain ⟨hplace, hregular⟩ := h
    obtain ⟨hform, hslots⟩ := hregular token form .here
    refine everywhere_node ⟨hform, ?_⟩ fun u hu => ?_
    · rintro ts rfl
      cases hplace
    · rw [← Form.map_slots] at hu
      obtain ⟨x, hx, rfl⟩ := List.mem_map.mp hu
      have hchild : x.2 ∈ form.children := Form.map_slots form ▸ List.mem_map_of_mem hx
      exact ih x.2 hchild ⟨hslots x hx, Everywhere.of_mem hregular hchild⟩

end Tree

/-- The stream has no name that is an underscore. -/
def TokenStream.Named (s : TokenStream) : Prop :=
  ∀ x ∈ s.tokens, ¬(x.kind = .identifier ∧ x.text = "_")

/-- A parsed tree is a root over trees that are told by what they are written as. -/
theorem legible_of_parse {source fileName : String} {root : Tree}
    (h : parse (lex source fileName) = .ok root) (hnamed : (lex source fileName).Named) :
    ∃ token items, root = .node token (.root items) ∧ ∀ t ∈ items, t.Legible := by
  obtain ⟨items, q, hunit, hroot⟩ := TokenStream.eval_of_parse h
  have hshapes := Rule.shapes_of_eval hunit
  rw [Tree.mapTokens_node] at hroot
  refine ⟨_, _, hroot, fun t ht token form hin => ?_⟩
  obtain ⟨item, hitem, rfl⟩ := List.mem_map.mp ht
  have hfilled := (hshapes item hitem).filled .statement (by decide)
  obtain ⟨hform, hinner⟩ := (hfilled.mapTokens _).inner token form hin
  have hnames : form.own ⊆ root.names := by
    refine root.everywhere_names token form ?_
    rw [hroot]
    exact .inside ht hin
  refine ⟨hinner, hform, fun a ha => (readable_of_names h (hnames ha)).1, fun hblank => ?_⟩
  obtain ⟨-, x, hx, hsymbol⟩ := readable_of_names h (hnames hblank)
  exact hnamed x hx (Symbol.mk.inj hsymbol)

/-- Sources without underscores for names whose trees are written alike have the same tree, but
for its anchors. -/
theorem parse_told {source fileName source' fileName' : String} {root root' : Tree}
    (h : parse (lex source fileName) = .ok root) (h' : parse (lex source' fileName') = .ok root')
    (hnamed : (lex source fileName).Named) (hnamed' : (lex source' fileName').Named)
    (hsexpr : root.sexpr = root'.sexpr) : root.Like root' := by
  obtain ⟨token, items, rfl, hitems⟩ := legible_of_parse h hnamed
  obtain ⟨token', items', rfl, hitems'⟩ := legible_of_parse h' hnamed'
  rw [Tree.sexpr_node, Tree.sexpr_node] at hsexpr
  have hlines := Tree.unanchored_of_lines hitems hitems' hsexpr
  rw [Tree.Like, Tree.unanchored_node, Tree.unanchored_node]
  simp [hlines]

/-- Parentheses that change nothing move anchors only. -/
theorem parse_told_of_parentheses : ∃ t u,
    parse (lex "f((a), -b);" "a.hz") = .ok t ∧ parse (lex "f(a, (-b));" "b.hz") = .ok u ∧
      t.sexpr = "(call f a (- b))" ∧ t.Like u := by
  have ht : (parse (lex "f((a), -b);" "a.hz")).toOption.map Tree.sexpr =
      some "(call f a (- b))" := by decide +kernel
  have hu : (parse (lex "f(a, (-b));" "b.hz")).toOption.map Tree.sexpr =
      some "(call f a (- b))" := by decide +kernel
  have hnamed : (lex "f((a), -b);" "a.hz").Named := by
    unfold TokenStream.Named
    decide +kernel
  have hnamed' : (lex "f(a, (-b));" "b.hz").Named := by
    unfold TokenStream.Named
    decide +kernel
  obtain ⟨t, h, ht⟩ := Tree.exists_of_parse_map ht
  obtain ⟨u, h', hu⟩ := Tree.exists_of_parse_map hu
  exact ⟨t, u, h, h', ht, parse_told h h' hnamed hnamed' (ht.trans hu.symm)⟩

-- An underscore is also written for a type that is left out.
example : (parse (lex "export _ x;" "a.hz")).toOption.map Tree.sexpr =
    (parse (lex "export x;" "a.hz")).toOption.map Tree.sexpr := by decide +kernel

end FrontEnd
