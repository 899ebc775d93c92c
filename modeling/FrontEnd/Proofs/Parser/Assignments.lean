import FrontEnd.Proofs.Parser.Nesting
import FrontEnd.Proofs.Tree.Printing

/-!
Where assignments stand in the tree of a source. The subtrees of a layer are its actions,
which may be assignments, and the others, which have values. The shapes of trees keep
assignments among the actions, but for the condition of a loop that `for` opens.
-/

namespace FrontEnd

/-! ## Actions and others -/

namespace Form

variable {T U : Type}

/-- The subtrees that stand where an assignment may. -/
def actions : Form T → List T
  | .root items | .block _ items => items
  | .conditional _ thenBody elseBody => thenBody :: elseBody.toList
  | .steppedLoop _ init _ step _ => init.toList ++ step.toList
  | .selection _ branches => branches.map (·.body)
  | .deferral body => [body]
  | _ => []

/-- The subtrees that stand anywhere else. -/
def others : Form T → List T
  | .root _ | .block _ _ | .deferral _ => []
  | .conditional condition _ _ => [condition]
  | .steppedLoop _ _ condition _ body => condition.toList ++ [body]
  | .selection subject branches => subject :: branches.flatMap (·.items.flatMap (·.children))
  | form => form.children

theorem mem_children_iff {form : Form T} {t : T} :
    t ∈ form.children ↔ t ∈ form.actions ∨ t ∈ form.others := by
  cases form <;> simp [children, actions, others, MatchBranch.children] <;> grind

theorem others_mapTokens (g : Nat → Nat) (form : Form T) :
    (form.mapTokens g).others = form.others := by
  cases form <;> simp [others, children, List.flatMap_map]

theorem others_map (f : T → U) (form : Form T) : (form.map f).others = form.others.map f := by
  have hbranch (b : MatchBranch T) :
      (b.map f).items.flatMap (·.children) = (b.items.flatMap (·.children)).map f := by
    simp [MatchBranch.map, List.map_flatMap, List.flatMap_map, MatchItem.children_map]
  have hchildren := form.children_map f
  cases form with
  | selection subject branches =>
    simp only [map, others, List.map_cons, List.map_flatMap, List.flatMap_map, hbranch]
  | root | block | deferral => rfl
  | conditional => rfl
  | steppedLoop => simp [others, Option.toList_map]
  | _ => exact hchildren

end Form

namespace Tree

/-- Whether the tree is an assignment. -/
def assigns : Tree → Bool
  | .node _ (.binary op _ _) => op.assigns
  | _ => false

/-- The one tree is the other or stands somewhere in it. -/
inductive Occurs (t : Tree) : Tree → Prop where
  | here : Occurs t t
  | inside {token : Nat} {form : Form Tree} {u : Tree} (hu : u ∈ form.children)
    (h : Occurs t u) : Occurs t (.node token form)

section Everywhere

variable {P : Nat → Form Tree → Prop} {token : Nat} {form : Form Tree}

/-- All layers of the tree have the property, which may depend on their anchors. -/
def Everywhere (P : Nat → Form Tree → Prop) (t : Tree) : Prop :=
  ∀ token form, Occurs (.node token form) t → P token form

theorem everywhere_node (h : P token form) (hchildren : ∀ u ∈ form.children, u.Everywhere P) :
    (Tree.node token form).Everywhere P := by
  intro token' form' hin
  cases hin with
  | here => exact h
  | inside hu hin => exact hchildren _ hu token' form' hin

theorem Everywhere.of_mem (h : (Tree.node token form).Everywhere P) {u : Tree}
    (hu : u ∈ form.children) : u.Everywhere P :=
  fun token' form' hin => h token' form' (.inside hu hin)

end Everywhere

/-- The layer of the statement of a source that holds no other. -/
def sole? : Tree → Option (Form Tree)
  | .node _ (.root [.node _ form]) => some form
  | _ => none

theorem exists_occurs_of_sole {t : Tree} {form : Form Tree} (h : t.sole? = some form) :
    ∃ token, Occurs (.node token form) t := by
  unfold sole? at h
  split at h
  · cases h
    exact ⟨_, .inside List.mem_cons_self .here⟩
  · cases h

/-- A value that is computed from the tree of a source is that of a tree. -/
theorem exists_of_parse_map {α : Type} {s : TokenStream} {f : Tree → α} {value : α}
    (h : (parse s).toOption.map f = some value) : ∃ root, parse s = .ok root ∧ f root = value := by
  obtain ⟨root, hroot, hvalue⟩ := Option.map_eq_some_iff.mp h
  cases hparse : parse s with
  | error fault =>
    rw [hparse] at hroot
    cases hroot
  | ok root' =>
    rw [hparse] at hroot
    cases hroot
    exact ⟨root, rfl, hvalue⟩

/-- The layer of the only statement of a source is one of its tree. -/
theorem exists_occurs_of_parse {α : Type} {s : TokenStream} {f : Form Tree → α} {value : α}
    (h : ((parse s).toOption.bind sole?).map f = some value) : ∃ root token form,
      parse s = .ok root ∧ Occurs (.node token form) root ∧ f form = value := by
  obtain ⟨form, hsole, hvalue⟩ := Option.map_eq_some_iff.mp h
  cases hparse : parse s with
  | error fault =>
    rw [hparse] at hsole
    cases hsole
  | ok root =>
    rw [hparse] at hsole
    obtain ⟨token, hin⟩ := exists_occurs_of_sole hsole
    exact ⟨root, token, form, rfl, hin, hvalue⟩

/-- Where the layer is a loop that stands at one of the anchors, the tree is its condition. -/
def Repeats (anchors : Nat → Prop) (token : Nat) (form : Form Tree) (t : Tree) : Prop :=
  ∃ label body, form = .loop label (some t) body ∧ anchors token

/-- Assignments are actions everywhere in the tree, or conditions of loops at the anchors. -/
def Orderly (anchors : Nat → Prop) (t : Tree) : Prop :=
  ∀ token form, Occurs (.node token form) t →
    ∀ u ∈ form.others, u.assigns = true → Repeats anchors token form u

variable {anchors : Nat → Prop} {token : Nat} {form : Form Tree}

theorem orderly_node (hothers : ∀ u ∈ form.others, u.assigns = true → Repeats anchors token form u)
    (hchildren : ∀ u ∈ form.children, u.Orderly anchors) :
    (Tree.node token form).Orderly anchors := everywhere_node hothers hchildren

theorem Orderly.of_mem (h : (Tree.node token form).Orderly anchors) {u : Tree}
    (hu : u ∈ form.children) : u.Orderly anchors := Everywhere.of_mem h hu

theorem assigns_mapTokens (g : Nat → Nat) (t : Tree) : (t.mapTokens g).assigns = t.assigns := by
  obtain ⟨token, form⟩ := t
  rw [mapTokens_node]
  cases form <;> rfl

/-- Moving the anchors of a tree moves those of its loops. -/
theorem Orderly.mapTokens {g : Nat → Nat} {t : Tree} (h : t.Orderly fun i => anchors (g i)) :
    (t.mapTokens g).Orderly anchors := by
  induction t using induct with
  | h token form ih =>
    rw [mapTokens_node]
    refine orderly_node ?_ ?_
    · rw [Form.others_mapTokens, Form.others_map]
      intro u hu hassigns
      obtain ⟨t, ht, rfl⟩ := List.mem_map.mp hu
      rw [assigns_mapTokens] at hassigns
      obtain ⟨label, body, rfl, hanchor⟩ := h token form .here t ht hassigns
      exact ⟨label, body.mapTokens g, rfl, hanchor⟩
    · rw [Form.children_mapTokens, Form.children_map]
      intro u hu
      obtain ⟨t, ht, rfl⟩ := List.mem_map.mp hu
      exact ih t ht (h.of_mem ht)

end Tree

/-! ## Shapes -/

/-- Whether a tree of the category may be an assignment. -/
def Category.mayAssign : Category → Bool
  | .assignment | .body | .initial | .statement => true
  | .deeper c => c.mayAssign
  | _ => false

/-- The tree is orderly, and no assignment unless its category allows one. -/
def Tree.Suits (anchors : Nat → Prop) (c : Category) (t : Tree) : Prop :=
  t.Orderly anchors ∧ (c.mayAssign = false → t.assigns = false)

namespace Tree

variable {anchors : Nat → Prop} {token : Nat} {form : Form Tree} {c : Category}

theorem Suits.valued {t : Tree} (h : t.Suits anchors c) (hc : c.mayAssign = false) :
    t.Orderly anchors ∧ t.assigns = false := ⟨h.1, h.2 hc⟩

/-- A layer with actions. -/
theorem suits_of_parts (hc : c.mayAssign = false → (Tree.node token form).assigns = false)
    (hothers : ∀ u ∈ form.others, u.assigns = false)
    (hchildren : ∀ u ∈ form.children, u.Orderly anchors) :
    (Tree.node token form).Suits anchors c := by
  refine ⟨orderly_node (fun u hu hassigns => ?_) hchildren, hc⟩
  rw [hothers u hu] at hassigns
  cases hassigns

/-- A layer without actions. -/
theorem suits_of_values (hc : c.mayAssign = false → (Tree.node token form).assigns = false)
    (h : ∀ u ∈ form.children, u.Orderly anchors ∧ u.assigns = false) :
    (Tree.node token form).Suits anchors c :=
  suits_of_parts hc (fun u hu => (h u (Form.mem_children_iff.mpr (.inr hu))).2)
    fun u hu => (h u hu).1

end Tree

theorem Option.forall_mem_toList {α : Type} {P : α → Prop} {o : Option α} (h : ∀ t ∈ o, P t) :
    ∀ t ∈ o.toList, P t := fun t ht => h t (Option.mem_toList.mp ht)

/-- Every rule of shapes keeps assignments among the actions. -/
theorem Shaped.suits {symbols : Symbols} {limit depth : Nat} {c : Category} {t : Tree}
    (h : Shaped symbols limit c depth t) :
    t.Suits (fun i => (symbols.symbolAt i).kind = .kwFor) c := by
  induction h with
  | deeper _ h ih => exact ih
  | @leaf _ _ form h =>
    have hchildren := Symbol.children_of_leaf h
    refine Tree.suits_of_values (fun _ => ?_) (by simp [hchildren])
    cases form <;> first | rfl | cases hchildren
  | enclosed h ih | signature h ih | unassigned h ih | marked h ih | unmarked h ih
  | bodyBlock h ih | declared h ih | declaredSignature _ h ih | labelled h ih | conditional h ih
  | declares h ih | selected h ih => exact ⟨ih.1, fun _ => ih.2 rfl⟩
  | bodyAssignment h ih | assigns h ih | performed h ih => exact ⟨ih.1, nofun⟩
  -- layers without actions
  | continuing => exact Tree.suits_of_values (fun _ => rfl) nofun
  | access h ih | unary h ih | attempt h ih | optional h ih | slices h ih | raising h ih =>
    exact Tree.suits_of_values (fun _ => rfl) (List.forall_mem_singleton.mpr (ih.valued rfl))
  | elements h ih | record h ih =>
    exact Tree.suits_of_values (fun _ => rfl) fun t ht => (ih t ht).valued rfl
  | breaking h ih | returning h ih =>
    exact Tree.suits_of_values (fun _ => rfl)
      (Option.forall_mem_toList fun t ht => (ih t ht).valued rfl)
  | function hl hr ihl ihr | declaredFunction _ hl hr ihl ihr | index hl hr ihl ihr
  | recovery hl hr ihl ihr | recoveryBlock hl hr ihl ihr | eachLoop hl hr ihl ihr
  | whileLoop hl hr ihl ihr =>
    exact Tree.suits_of_values (fun _ => rfl)
      (List.forall_mem_cons.mpr ⟨ihl.valued rfl, List.forall_mem_singleton.mpr (ihr.valued rfl)⟩)
  | binary hlevel hop hl hr ihl ihr =>
    have hassigns := Level.assigns_of_operator hop
    rw [decide_eq_false hlevel] at hassigns
    exact Tree.suits_of_values (fun _ => hassigns)
      (List.forall_mem_cons.mpr ⟨ihl.valued rfl, List.forall_mem_singleton.mpr (ihr.valued rfl)⟩)
  | assignment hop hl hr ihl ihr =>
    exact Tree.suits_of_values nofun
      (List.forall_mem_cons.mpr ⟨ihl.valued rfl, List.forall_mem_singleton.mpr (ihr.valued rfl)⟩)
  | call h hargs ih ihargs =>
    exact Tree.suits_of_values (fun _ => rfl)
      (List.forall_mem_cons.mpr ⟨ih.valued rfl, fun t ht => (ihargs t ht).valued rfl⟩)
  | field htype hdefault ih iho | typed htype hinit ih iho | named htype hinit ih iho =>
    exact Tree.suits_of_values (fun _ => rfl) (List.forall_mem_cons.mpr
      ⟨ih.valued rfl, Option.forall_mem_toList fun t ht => (iho t ht).valued rfl⟩)
  | flagged _ _ htype hinit ihtype ihinit =>
    exact Tree.suits_of_values (fun _ => rfl) (List.forall_mem_append.mpr
      ⟨Option.forall_mem_toList fun t ht => (ihtype t ht).valued rfl,
        Option.forall_mem_toList fun t ht => (ihinit t ht).valued rfl⟩)
  | slice h hstart hstop hsentinel ih ihstart ihstop ihsentinel =>
    refine Tree.suits_of_values (fun _ => rfl) (List.forall_mem_append.mpr
      ⟨?_, Option.forall_mem_toList fun t ht => (ihsentinel t ht).valued rfl⟩)
    simpa using ⟨ih.valued rfl, ihstart.valued rfl, ihstop.valued rfl⟩
  | inferred hsentinel h ihsentinel ih =>
    exact Tree.suits_of_values (fun _ => rfl) (List.forall_mem_append.mpr
      ⟨Option.forall_mem_toList fun t ht => (ihsentinel t ht).valued rfl,
        List.forall_mem_singleton.mpr (ih.valued rfl)⟩)
  | sized hsize hsentinel h ihsize ihsentinel ih =>
    exact Tree.suits_of_values (fun _ => rfl) (List.forall_mem_cons.mpr
      ⟨ihsize.valued rfl, List.forall_mem_append.mpr
        ⟨Option.forall_mem_toList fun t ht => (ihsentinel t ht).valued rfl,
          List.forall_mem_singleton.mpr (ih.valued rfl)⟩⟩)
  | prototype hparams hlast hresult ihparams ihresult =>
    refine Tree.suits_of_values (fun _ => rfl) (List.forall_mem_append.mpr
      ⟨fun t ht => ?_, List.forall_mem_singleton.mpr (ihresult.valued rfl)⟩)
    obtain ⟨p, hp, rfl⟩ := List.mem_map.mp ht
    exact (ihparams p hp).valued rfl
  | enumeration _ h ih =>
    refine Tree.suits_of_values (fun _ => rfl) fun t ht => ?_
    obtain ⟨v, hv, ht⟩ := List.mem_flatMap.mp ht
    exact (ih v hv t (Option.mem_toList.mp ht)).valued rfl
  -- layers with actions
  | block h ih => exact Tree.suits_of_parts (fun _ => rfl) nofun fun t ht => (ih t ht).1
  | deferral h ih =>
    exact Tree.suits_of_parts (fun _ => rfl) nofun (List.forall_mem_singleton.mpr ih.1)
  | branch _ hcondition hthen helse ihcondition ihthen ihelse =>
    refine Tree.suits_of_parts (fun _ => rfl) (List.forall_mem_singleton.mpr (ihcondition.2 rfl)) ?_
    exact List.forall_mem_cons.mpr ⟨ihcondition.1, List.forall_mem_cons.mpr
      ⟨ihthen.1, Option.forall_mem_toList fun t ht => (ihelse t ht).1⟩⟩
  | chain _ hcondition hthen helse ihcondition ihthen ihelse =>
    refine Tree.suits_of_parts (fun _ => rfl) (List.forall_mem_singleton.mpr (ihcondition.2 rfl)) ?_
    exact List.forall_mem_cons.mpr ⟨ihcondition.1, List.forall_mem_cons.mpr
      ⟨ihthen.1, List.forall_mem_singleton.mpr ihelse.1⟩⟩
  | selection hsubject _ hitems hbodies ihsubject ihitems ihbodies =>
    refine Tree.suits_of_parts (fun _ => rfl) ?_ ?_
    · refine List.forall_mem_cons.mpr ⟨ihsubject.2 rfl, fun t ht => ?_⟩
      obtain ⟨b, hb, ht⟩ := List.mem_flatMap.mp ht
      obtain ⟨i, hi, ht⟩ := List.mem_flatMap.mp ht
      exact (ihitems b hb i hi t ht).2 rfl
    · refine List.forall_mem_cons.mpr ⟨ihsubject.1, fun t ht => ?_⟩
      obtain ⟨b, hb, ht⟩ := List.mem_flatMap.mp ht
      rcases List.mem_append.mp ht with ht | ht
      · obtain ⟨i, hi, ht⟩ := List.mem_flatMap.mp ht
        exact (ihitems b hb i hi t ht).1
      · obtain rfl := List.mem_singleton.mp ht
        exact (ihbodies b hb).1
  | steppedLoop hinit hcondition hstep hbody ihinit ihcondition ihstep ihbody =>
    refine Tree.suits_of_parts (fun _ => rfl) ?_ ?_
    · exact List.forall_mem_append.mpr
        ⟨Option.forall_mem_toList fun t ht => (ihcondition t ht).2 rfl,
          List.forall_mem_singleton.mpr (ihbody.2 rfl)⟩
    · simp only [Form.children, List.forall_mem_append]
      exact ⟨⟨⟨Option.forall_mem_toList fun t ht => (ihinit t ht).1,
        Option.forall_mem_toList fun t ht => (ihcondition t ht).1⟩,
        Option.forall_mem_toList fun t ht => (ihstep t ht).1⟩,
        List.forall_mem_singleton.mpr ihbody.1⟩
  | loop hopener hcondition hbody ihcondition ihbody =>
    refine ⟨Tree.orderly_node (fun t ht hassigns => ?_) ?_, fun _ => rfl⟩
    · rcases List.mem_append.mp ht with ht | ht
      · exact ⟨_, _, by rw [Option.mem_toList.mp ht], hopener⟩
      · obtain rfl := List.mem_singleton.mp ht
        rw [ihbody.2 rfl] at hassigns
        cases hassigns
    · exact List.forall_mem_append.mpr
        ⟨Option.forall_mem_toList fun t ht => (ihcondition t ht).1,
          List.forall_mem_singleton.mpr ihbody.1⟩

/-! ## The trees of sources -/

/-- In the tree of a source, the subtrees of a layer that are assignments are actions of it,
unless the layer is a loop that `for` opens and the subtree its condition. -/
theorem parse_assignments {s : TokenStream} {root : Tree} (h : parse s = .ok root) {token : Nat}
    {form : Form Tree} (hin : Tree.Occurs (.node token form) root) :
    (∀ t ∈ form.children, t.assigns = true →
      t ∈ form.actions ∨ Tree.Repeats (s.kindAt · = .kwFor) token form t) ∧
    ∀ t ∈ form.others, t.assigns = true →
      Tree.Repeats (s.kindAt · = .kwFor) token form t := by
  obtain ⟨items, q, hunit, rfl⟩ := TokenStream.eval_of_parse h
  have hitems := Rule.shapes_of_eval hunit
  have horderly : ((Tree.node 0 (.root items)).mapTokens
      fun i => ((Cursor.start s).tokenAt i).2).Orderly (s.kindAt · = .kwFor) := by
    refine Tree.Orderly.mapTokens (Tree.orderly_node nofun fun t ht => ?_)
    simp only [TokenStream.kindAt_tokenAt]
    exact (hitems t ht).suits.1
  have hothers := horderly token form hin
  refine ⟨fun t ht hassigns => ?_, hothers⟩
  rcases Form.mem_children_iff.mp ht with ht | ht
  · exact .inl ht
  · exact .inr (hothers t ht hassigns)

theorem parse_assignments_of_steps : ∃ root token form,
    parse (lex "for (i = 0; i < n; i += 1) {}" "a.hz") = .ok root ∧
      Tree.Occurs (.node token form) root ∧ form.actions.map (·.assigns) = [true, true] ∧
      (∀ t ∈ form.children, t.assigns = true → t ∈ form.actions ∨ Tree.Repeats
        ((lex "for (i = 0; i < n; i += 1) {}" "a.hz").kindAt · = .kwFor) token form t) ∧
      ∀ t ∈ form.others, t.assigns = true → Tree.Repeats
        ((lex "for (i = 0; i < n; i += 1) {}" "a.hz").kindAt · = .kwFor) token form t := by
  have hsteps : ((parse (lex "for (i = 0; i < n; i += 1) {}" "a.hz")).toOption.bind
      Tree.sole?).map (fun form => form.actions.map (·.assigns)) = some [true, true] := by
    decide +kernel
  obtain ⟨root, token, form, hparse, hin, hactions⟩ := Tree.exists_occurs_of_parse hsteps
  exact ⟨root, token, form, hparse, hin, hactions, parse_assignments hparse hin⟩

/-- Behind `for` an assignment is read as the condition of a loop. -/
theorem parse_assigning_condition : ∃ root token form t,
    parse (lex "for (x = 1) {}" "a.hz") = .ok root ∧ Tree.Occurs (.node token form) root ∧
      t ∈ form.others ∧ t.assigns = true := by
  have hassigns : ((parse (lex "for (x = 1) {}" "a.hz")).toOption.bind
      Tree.sole?).map (fun form => form.others.any (·.assigns)) = some true := by
    decide +kernel
  obtain ⟨root, token, form, hparse, hin, hany⟩ := Tree.exists_occurs_of_parse hassigns
  obtain ⟨t, ht, hassigns⟩ := List.any_eq_true.mp hany
  exact ⟨root, token, form, t, hparse, hin, ht, hassigns⟩

end FrontEnd
