import FrontEnd.Proofs.Tree.Anchors

/-!
Trees between two positions. A limb spans what its anchors lie in, limbs that follow each
other form a chain, and a layer over a chain of limbs spans what the chain does. So a tree
is anchored as it has to be if all layers are built over chains.
-/

namespace FrontEnd

/-- The tree is anchored as it has to be, from the first position on and before the second. -/
structure Tree.Spans (A : (Symbol → Prop) → Nat → Prop) (p : Nat) (t : Tree) (q : Nat) :
    Prop where
  anchored : t.Anchored A
  within : ∀ i ∈ t.anchors, p ≤ i ∧ i < q

namespace Limb

/-- The same of a limb and the trees in it. -/
structure Spans (A : (Symbol → Prop) → Nat → Prop) (p : Nat) (limb : Limb Tree) (q : Nat) :
    Prop where
  anchored : limb.Anchored A
  children : ∀ t ∈ limb.children, t.Anchored A
  within : ∀ i ∈ limb.anchors, p ≤ i ∧ i < q

/-- The limbs follow each other between the positions. -/
def Chain (A : (Symbol → Prop) → Nat → Prop) : Nat → List (Limb Tree) → Nat → Prop
  | p, [], q => p ≤ q
  | p, limb :: rest, q => ∃ m, limb.Spans A p m ∧ Chain A m rest q

variable {A : (Symbol → Prop) → Nat → Prop} {limb : Limb Tree} {limbs : List (Limb Tree)}
  {p q r : Nat}

theorem anchors_ne_nil (limb : Limb Tree) : limb.anchors ≠ [] := by
  cases limb with
  | child t =>
    obtain ⟨token, form⟩ := t
    simp [anchors, children, Tree.anchors_node]
  | _ => simp [anchors, token?]

theorem Spans.lt (h : limb.Spans A p q) : p < q := by
  obtain ⟨i, hi⟩ := List.exists_mem_of_ne_nil _ limb.anchors_ne_nil
  have hwithin := h.within i hi
  omega

theorem Spans.mono (h : limb.Spans A p q) {p' q' : Nat} (hp : p' ≤ p) (hq : q ≤ q') :
    limb.Spans A p' q' := by
  refine ⟨h.anchored, h.children, fun i hi => ?_⟩
  have hwithin := h.within i hi
  omega

theorem anchors_child (t : Tree) : (Limb.child t).anchors = t.anchors := by
  simp [anchors, token?, children]

theorem spans_child {t : Tree} : (Limb.child t).Spans A p q ↔ t.Spans A p q := by
  constructor
  · intro h
    exact ⟨h.children t List.mem_cons_self, anchors_child t ▸ h.within⟩
  · intro h
    refine ⟨⟨nofun, nofun, List.pairwise_singleton _ _⟩, ?_, (anchors_child t).symm ▸ h.within⟩
    exact List.forall_mem_singleton.mpr h.anchored

namespace Chain

theorem nil (p : Nat) : Chain A p [] p := Nat.le_refl p

theorem le (h : Chain A p limbs q) : p ≤ q := by
  induction limbs generalizing p with
  | nil => exact h
  | cons limb limbs ih =>
    obtain ⟨m, hlimb, hrest⟩ := h
    have hlt := hlimb.lt
    have hle := ih hrest
    omega

theorem mono_right (h : Chain A p limbs q) (hq : q ≤ r) : Chain A p limbs r := by
  induction limbs generalizing p with
  | nil => exact Nat.le_trans h hq
  | cons limb limbs ih =>
    obtain ⟨m, hlimb, hrest⟩ := h
    exact ⟨m, hlimb, ih hrest⟩

theorem mono_left (h : Chain A p limbs q) (hr : r ≤ p) : Chain A r limbs q := by
  cases limbs with
  | nil => exact Nat.le_trans hr h
  | cons limb limbs =>
    obtain ⟨m, hlimb, hrest⟩ := h
    exact ⟨m, hlimb.mono hr (Nat.le_refl m), hrest⟩

theorem append {more : List (Limb Tree)} (h : Chain A p limbs q) (hmore : Chain A q more r) :
    Chain A p (limbs ++ more) r := by
  induction limbs generalizing p with
  | nil => exact hmore.mono_left h
  | cons limb limbs ih =>
    obtain ⟨m, hlimb, hrest⟩ := h
    exact ⟨m, hlimb, ih hrest⟩

theorem singleton (h : limb.Spans A p q) : Chain A p [limb] q := ⟨q, h, nil q⟩

theorem spans (h : Chain A p limbs q) : ∀ limb ∈ limbs, limb.Spans A p q := by
  induction limbs generalizing p with
  | nil => exact nofun
  | cons limb limbs ih =>
    obtain ⟨m, hlimb, hrest⟩ := h
    refine List.forall_mem_cons.mpr ⟨hlimb.mono (Nat.le_refl p) hrest.le, fun l hl => ?_⟩
    exact (ih hrest l hl).mono (Nat.le_of_lt hlimb.lt) (Nat.le_refl q)

theorem apart (h : Chain A p limbs q) : limbs.Pairwise fun a b => Precedes a.anchors b.anchors := by
  induction limbs generalizing p with
  | nil => exact .nil
  | cons limb limbs ih =>
    obtain ⟨m, hlimb, hrest⟩ := h
    refine .cons (fun l hl i hi j hj => ?_) (ih hrest)
    have hbefore := hlimb.within i hi
    have hbehind := (hrest.spans l hl).within j hj
    omega

/-- A chain that is not empty takes up room. -/
theorem lt (h : Chain A p limbs q) (hne : limbs ≠ []) : p < q := by
  obtain ⟨limb, hlimb⟩ := List.exists_mem_of_ne_nil _ hne
  exact (h.spans limb hlimb).lt

end Chain

theorem chain_child {t : Tree} : Chain A p [.child t] q ↔ t.Spans A p q := by
  rw [← spans_child]
  exact ⟨fun h => h.spans _ List.mem_cons_self, Chain.singleton⟩

/-- A part over its children. -/
theorem spans_of_chain (htoken : limb.token? = some p) (hfits : A limb.Fits p)
    (h : Chain A p (limb.children.map .child) q) (hlt : p < q) : limb.Spans A p q := by
  have hchild : ∀ t ∈ limb.children, t.Spans A p q := fun t ht =>
    spans_child.mp (h.spans _ (List.mem_map_of_mem ht))
  refine ⟨⟨?_, ?_, ?_⟩, fun t ht => (hchild t ht).anchored, fun i hi => ?_⟩
  · rw [htoken]
    rintro _ ⟨⟩
    exact hfits
  · rw [htoken]
    rintro _ ⟨⟩ t ht i hi
    exact ((hchild t ht).within i hi).1
  · have hapart := h.apart
    rw [List.pairwise_map] at hapart
    simpa only [anchors_child] using hapart
  · rcases mem_anchors.mp hi with hi | ⟨t, ht, hi⟩
    · rw [htoken] at hi
      cases hi
      exact ⟨Nat.le_refl p, hlt⟩
    · exact (hchild t ht).within i hi

end Limb

/-! ## Layers -/

namespace Tree

variable {A : (Symbol → Prop) → Nat → Prop} {form : Form Tree} {t : Tree} {p q k : Nat}

/-- A layer of which the limbs span what they have to. -/
theorem spans_node (hform : form.Anchored A k) (h : ∀ limb ∈ form.limbs, limb.Spans A p q)
    (hp : p ≤ k) (hq : k < q) : (Tree.node k form).Spans A p q := by
  refine ⟨everywhere_node hform fun t ht => ?_, fun i hi => ?_⟩
  · rw [← Form.children_limbs] at ht
    obtain ⟨limb, hlimb, ht⟩ := List.mem_flatMap.mp ht
    exact (h limb hlimb).children t ht
  · rcases mem_anchors_node.mp hi with rfl | ⟨limb, hlimb, hi⟩
    · exact ⟨hp, hq⟩
    · exact (h limb hlimb).within i hi

/-- A layer that is anchored before its limbs. -/
theorem spans_of_chain (htrails : form.trails = false) (hfits : A form.Fits p)
    (h : Limb.Chain A p form.limbs q) (hlt : p < q) : (Tree.node p form).Spans A p q := by
  have hlimb := h.spans
  refine spans_node ⟨hfits, ?_, ?_, h.apart, ?_⟩ hlimb (Nat.le_refl p) hlt
  · rw [htrails]
    exact nofun
  · exact fun _ limb hl i hi => ((hlimb limb hl).within i hi).1
  · exact fun limb hl => (hlimb limb hl).anchored

/-- A layer that is anchored behind its first child. -/
theorem spans_of_operand {rest : List Tree} (htrails : form.trails = true)
    (hchildren : form.children = t :: rest) (hfits : A form.Fits k) (ht : t.Spans A p k)
    (h : Limb.Chain A (k + 1) (rest.map .child) q) : (Tree.node k form).Spans A p q := by
  have hlimbs : form.limbs = (t :: rest).map .child := by
    rw [← hchildren]
    cases form <;> first | rfl | cases htrails
  have hchain : Limb.Chain A p form.limbs q := by
    rw [hlimbs]
    exact ⟨k, Limb.spans_child.mpr ht, h.mono_left (Nat.le_succ k)⟩
  have hp : p < k := (Limb.spans_child.mpr ht).lt
  refine spans_node ⟨hfits, fun _ => ?_, ?_, hchain.apart, ?_⟩ hchain.spans (Nat.le_of_lt hp) h.le
  · rw [hchildren]
    refine ⟨?_, fun u hu i hi => ?_⟩
    · rintro _ ⟨⟩ i hi
      exact (ht.within i hi).2
    · have hspans := Limb.spans_child.mp (h.spans _ (List.mem_map_of_mem hu))
      exact (hspans.within i hi).1
  · rw [htrails]
    exact nofun
  · exact fun limb hl => (hchain.spans limb hl).anchored

end Tree

end FrontEnd
