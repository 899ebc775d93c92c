import FrontEnd.Proofs.Tree.Places

/-!
The trees of sources are regular. By induction on their shapes: a tree of a category fills
every slot that the grammar reads the category in.
-/

namespace FrontEnd

/-- The slots that trees of the category are read in. Nothing is read as a signature that is
both exported and external. -/
def Category.slots : Category → List Slot
  | .expression => Slot.valued
  | .assignment => [.statement, .body, .initial, .value]
  | .typeMark | .type => [.type]
  | .prototype false false => .signature :: Slot.valued
  | .prototype true true => []
  | .prototype _ _ => [.statement, .signature]
  | .block none => [.statement, .enclosure, .body]
  | .block (some _) | .conditional _ | .statement => [.statement]
  | .body => [.body]
  | .declaration => [.statement, .initial]
  | .initial => [.initial]
  | .field => [.field]
  | .deeper c => c.slots

/-- The tree fills all slots of the category. -/
def Category.Filled (c : Category) (t : Tree) : Prop := ∀ slot ∈ c.slots, t.Fills slot

variable {symbols : Symbols} {limit depth token : Nat} {c c' : Category} {t : Tree}
  {form : Form Tree}

theorem Category.Filled.mono (h : c.Filled t) (hslots : c'.slots ⊆ c.slots) : c'.Filled t :=
  fun slot hslot => h slot (hslots hslot)

/-- A layer that holds what it has to over trees that fill its slots. -/
theorem Category.filled_node (hplaces : c.slots ⊆ form.places) (hform : form.Holds)
    (h : ∀ x ∈ form.slots, x.2.Fills x.1) : c.Filled (.node token form) :=
  fun _ hslot => ⟨hplaces hslot, Tree.regular_node hform h⟩

/-- A prototype that fills the slots of its flags has no flags where a value may stand. -/
theorem Tree.Fills.not_flagged (h : t.Fills .value) : t.layer.flagged = false := by
  obtain ⟨token, form⟩ := t
  have hplace := h.place
  cases form with
  | prototype name params result isExport isExtern =>
    cases isExport <;> cases isExtern <;> first | rfl | simp [Form.places] at hplace
  | _ => rfl

/-- Every rule of shapes gives trees that fill the slots of its category. -/
theorem Shaped.filled (h : Shaped symbols limit c depth t) : c.Filled t := by
  induction h with
  | deeper _ h ih => exact ih
  | enclosed h ih | signature h ih | unassigned h ih | marked h ih | unmarked h ih
  | bodyBlock h ih | bodyAssignment h ih | declared h ih | conditional h ih | declares h ih
  | assigns h ih | performed h ih | selected h ih => exact ih.mono (by decide)
  | @declaredSignature _ isExport isExtern t hboth h ih =>
    refine ih.mono ?_
    cases isExport <;> cases isExtern <;> first | decide | exact absurd ⟨rfl, rfl⟩ hboth
  | @labelled _ label t h ih =>
    cases label with
    | none => exact ih.mono (by decide)
    | some label => exact ih.mono (List.Subset.refl _)
  -- values
  | leaf h =>
    unfold Symbol.leaf? at h
    split at h <;> cases h <;>
      exact Category.filled_node (List.Subset.refl _) trivial (List.forall_mem_nil _)
  | access h ih | unary h ih | attempt h ih =>
    exact Category.filled_node (List.Subset.refl _) trivial
      (List.forall_mem_singleton.mpr (ih .value (by decide)))
  | elements h ih =>
    exact Category.filled_node (List.Subset.refl _) trivial
      (Tree.fills_list fun t ht => ih t ht .value (by decide))
  | index hl hr ihl ihr | binary _ _ hl hr ihl ihr =>
    exact Category.filled_node (List.Subset.refl _) trivial (List.forall_mem_cons.mpr
      ⟨ihl .value (by decide), List.forall_mem_singleton.mpr (ihr .value (by decide))⟩)
  | assignment _ hl hr ihl ihr =>
    have hslots : Category.assignment.slots ⊆ Slot.valued := by decide
    exact Category.filled_node hslots trivial (List.forall_mem_cons.mpr
      ⟨ihl .value (by decide), List.forall_mem_singleton.mpr (ihr .value (by decide))⟩)
  | recovery hl hr ihl ihr | recoveryBlock hl hr ihl ihr =>
    exact Category.filled_node (List.Subset.refl _) trivial (List.forall_mem_cons.mpr
      ⟨ihl .value (by decide), List.forall_mem_singleton.mpr (ihr .body (by decide))⟩)
  | call h hargs ih ihargs =>
    exact Category.filled_node (List.Subset.refl _) trivial (List.forall_mem_cons.mpr
      ⟨ih .value (by decide), Tree.fills_list fun t ht => ihargs t ht .value (by decide)⟩)
  | slice h hstart hstop hsentinel ih ihstart ihstop ihsentinel =>
    refine Category.filled_node (List.Subset.refl _) trivial ?_
    simp only [Form.slots, Form.children, List.map_append, List.map_cons, List.forall_mem_append,
      List.forall_mem_cons]
    exact ⟨⟨ih .value (by decide), ihstart .value (by decide), ihstop .value (by decide),
      List.forall_mem_nil _⟩, Tree.fills_option fun t ht => ihsentinel t ht .value (by decide)⟩
  | function ht hbody iht ihbody =>
    refine Category.filled_node ?_ trivial (List.forall_mem_cons.mpr
      ⟨iht .signature (by decide), List.forall_mem_singleton.mpr (ihbody .enclosure (by decide))⟩)
    rw [Form.places, (iht .value (by decide)).not_flagged]
    exact List.Subset.refl _
  | selection hsubject hne hitems hbodies ihsubject ihitems ihbodies =>
    refine Category.filled_node (List.Subset.refl _) hne (List.forall_mem_cons.mpr
      ⟨ihsubject .value (by decide), fun x hx => ?_⟩)
    obtain ⟨b, hb, hx⟩ := List.mem_flatMap.mp hx
    rcases List.mem_append.mp hx with hx | hx
    · obtain ⟨i, hi, hx⟩ := List.mem_flatMap.mp hx
      exact Tree.fills_list (fun t ht => ihitems b hb i hi t ht .value (by decide)) x hx
    · obtain rfl := List.mem_singleton.mp hx
      exact ihbodies b hb .body (by decide)
  -- types
  | optional h ih =>
    exact Category.filled_node (List.Subset.refl _) trivial
      (List.forall_mem_singleton.mpr (ih .type (by decide)))
  | slices h ih =>
    exact Category.filled_node (List.Subset.refl _) ⟨rfl, rfl⟩
      (List.forall_mem_singleton.mpr (ih .type (by decide)))
  | inferred hsentinel h ihsentinel ih =>
    exact Category.filled_node (List.Subset.refl _) rfl (List.forall_mem_append.mpr
      ⟨Tree.fills_option fun t ht => ihsentinel t ht .value (by decide),
        List.forall_mem_singleton.mpr (ih .type (by decide))⟩)
  | sized hsize hsentinel h ihsize ihsentinel ih =>
    refine Category.filled_node (List.Subset.refl _) (Option.some_ne_none _) ?_
    exact List.forall_mem_cons.mpr
      ⟨ihsize .value (by decide), List.forall_mem_append.mpr
        ⟨Tree.fills_option fun t ht => ihsentinel t ht .value (by decide),
          List.forall_mem_singleton.mpr (ih .type (by decide))⟩⟩
  | @prototype _ _ name result isExport isExtern params _ hlast _ ihparams ihresult =>
    have htypes : ∀ x ∈ (Form.prototype name params result isExport isExtern).slots,
        x.2.Fills x.1 := by
      refine List.forall_mem_append.mpr
        ⟨?_, List.forall_mem_singleton.mpr (ihresult .type (by decide))⟩
      exact List.forall_mem_map.mpr fun p hp => ihparams p hp .type (by decide)
    cases isExport <;> cases isExtern
    · exact Category.filled_node (List.Subset.refl _) ⟨hlast, by decide⟩ htypes
    · exact Category.filled_node (List.Subset.refl _) ⟨hlast, by decide⟩ htypes
    · exact Category.filled_node (List.Subset.refl _) ⟨hlast, by decide⟩ htypes
    · exact fun slot h => absurd h List.not_mem_nil
  -- bodies and declarations
  | @block _ _ label statements h ih =>
    have hitems : ∀ x ∈ (Form.block label statements).slots, x.2.Fills x.1 :=
      Tree.fills_list fun t ht => ih t ht .statement (by decide)
    cases label <;> exact Category.filled_node (List.Subset.refl _) trivial hitems
  | deferral h ih =>
    exact Category.filled_node (List.Subset.refl _) trivial
      (List.forall_mem_singleton.mpr (ih .body (by decide)))
  | field htype hdefault ih iho =>
    exact Category.filled_node (List.Subset.refl _) trivial (List.forall_mem_cons.mpr
      ⟨ih .type (by decide), Tree.fills_option fun t ht => iho t ht .value (by decide)⟩)
  | typed htype hinit ih iho | named htype hinit ih iho =>
    have htyped {P : Prop} {t : Tree} (h : some t = none) : P := absurd h (Option.some_ne_none t)
    refine Category.filled_node (List.Subset.refl _) ⟨by decide, htyped⟩ (List.forall_mem_cons.mpr
      ⟨ih .type (by decide), Tree.fills_option fun t ht => iho t ht .value (by decide)⟩)
  | flagged hflags hboth htype hinit ihtype ihinit =>
    exact Category.filled_node (List.Subset.refl _) ⟨hboth, fun _ => hflags⟩
      (List.forall_mem_append.mpr
        ⟨Tree.fills_option fun t ht => ihtype t ht .type (by decide),
          Tree.fills_option fun t ht => ihinit t ht .value (by decide)⟩)
  | @declaredFunction _ _ isExport isExtern t _ hboth ht hbody iht ihbody =>
    have hsignature : Slot.signature ∈ (Category.prototype isExport isExtern).slots := by
      cases isExport <;> cases isExtern <;> first | decide | exact absurd ⟨rfl, rfl⟩ hboth
    refine Category.filled_node ?_ trivial (List.forall_mem_cons.mpr
      ⟨iht .signature hsignature, List.forall_mem_singleton.mpr (ihbody .enclosure (by decide))⟩)
    rw [Form.places]
    split <;> decide
  | record h ih =>
    exact Category.filled_node (List.Subset.refl _) trivial
      (Tree.fills_list fun t ht => ih t ht .field (by decide))
  | enumeration hne h ih =>
    refine Category.filled_node (List.Subset.refl _) hne
      (Tree.fills_list fun t ht => ?_)
    obtain ⟨v, hv, ht⟩ := List.mem_flatMap.mp ht
    exact ih v hv t (Option.mem_toList.mp ht) .value (by decide)
  -- statements
  | branch _ hcondition hthen helse ihcondition ihthen ihelse =>
    exact Category.filled_node (List.Subset.refl _) trivial (List.forall_mem_cons.mpr
      ⟨ihcondition .value (by decide), List.forall_mem_cons.mpr ⟨ihthen .body (by decide),
        Tree.fills_option fun t ht => ihelse t ht .statement (by decide)⟩⟩)
  | chain _ hcondition hthen helse ihcondition ihthen ihelse =>
    exact Category.filled_node (List.Subset.refl _) trivial (List.forall_mem_cons.mpr
      ⟨ihcondition .value (by decide), List.forall_mem_cons.mpr ⟨ihthen .body (by decide),
        List.forall_mem_singleton.mpr (ihelse .statement (by decide))⟩⟩)
  | whileLoop hl hr ihl ihr | eachLoop hl hr ihl ihr =>
    exact Category.filled_node (List.Subset.refl _) trivial (List.forall_mem_cons.mpr
      ⟨ihl .value (by decide), List.forall_mem_singleton.mpr (ihr .enclosure (by decide))⟩)
  | loop _ hcondition hbody ihcondition ihbody =>
    exact Category.filled_node (List.Subset.refl _) trivial (List.forall_mem_append.mpr
      ⟨Tree.fills_option fun t ht => ihcondition t ht .value (by decide),
        List.forall_mem_singleton.mpr (ihbody .enclosure (by decide))⟩)
  | steppedLoop hinit hcondition hstep hbody ihinit ihcondition ihstep ihbody =>
    refine Category.filled_node (List.Subset.refl _) trivial ?_
    simp only [Form.slots, List.forall_mem_append]
    exact ⟨⟨⟨Tree.fills_option fun t ht => ihinit t ht .initial (by decide),
      Tree.fills_option fun t ht => ihcondition t ht .value (by decide)⟩,
      Tree.fills_option fun t ht => ihstep t ht .value (by decide)⟩,
      List.forall_mem_singleton.mpr (ihbody .enclosure (by decide))⟩
  | breaking h ih | returning h ih =>
    exact Category.filled_node (List.Subset.refl _) trivial
      (Tree.fills_option fun t ht => ih t ht .value (by decide))
  | continuing =>
    exact Category.filled_node (List.Subset.refl _) trivial (List.forall_mem_nil _)
  | raising h ih =>
    exact Category.filled_node (List.Subset.refl _) trivial
      (List.forall_mem_singleton.mpr (ih .value (by decide)))

/-! ## The trees of sources -/

/-- A tree that parsing gives is a root, and none of its layers stands where it must not. -/
theorem Cursor.parse_regular {c : Cursor} {root : Tree} (h : c.parse.1 = .ok root) :
    (∃ token items, root = .node token (.root items)) ∧ root.Regular := by
  obtain ⟨items, ⟨q, depth⟩, g, hunit, rfl⟩ := Cursor.parseWithin_eq_ok h
  have hkeeps := Rule.unit.eval_keeps c.stream.symbols nestingLimit ⟨c.position, c.depth⟩
  rw [hunit] at hkeeps
  obtain rfl : depth = c.depth := hkeeps.2.2
  have hitems := Rule.shapes_of_eval hunit
  refine ⟨⟨_, _, rfl⟩, Tree.Regular.mapTokens g (Tree.regular_node trivial ?_)⟩
  exact Tree.fills_list fun t ht => (hitems t ht).filled .statement (by decide)

/-- An exported function is read as a statement, where alone it may stand. -/
theorem Cursor.parse_regular_of_export : ∃ root token form,
    (Cursor.start (lex "export func f(int a, ?int... b) []int {}" "a.hz")).parse.1 = .ok root ∧
      Tree.Occurs (.node token form) root ∧ form.places = [.statement] ∧
      (∃ token items, root = .node token (.root items)) ∧ root.Regular := by
  have hplaces : ((FrontEnd.parse (lex "export func f(int a, ?int... b) []int {}"
      "a.hz")).toOption.bind Tree.sole?).map Form.places = some [Slot.statement] := by
    decide +kernel
  obtain ⟨root, token, form, hparse, hin, hplaces⟩ := Tree.exists_occurs_of_parse hplaces
  exact ⟨root, token, form, hparse, hin, hplaces, Cursor.parse_regular hparse⟩

end FrontEnd
