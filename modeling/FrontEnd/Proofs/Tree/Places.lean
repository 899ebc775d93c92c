import FrontEnd.Proofs.Parser.Assignments

/-!
Which layers of a tree stand where. A layer gives each of its subtrees a slot, and a layer
tells the slots that it may fill; what else a layer has to hold it tells of its own parts.
A tree is regular if all its layers keep to that.
-/

namespace FrontEnd

/-- What a subtree stands for in the layer around it. An enclosure has to be a block without
a label, a body may be one. -/
inductive Slot where
  | statement | field | signature | enclosure | body | initial | type | value
  deriving DecidableEq, Repr

namespace Slot

/-- The slots of anything that has a value. -/
def valued : List Slot := [.statement, .body, .initial, .type, .value]

end Slot

def Tree.layer : Tree → Form Tree
  | .node _ form => form

@[simp] theorem Tree.layer_node (token : Nat) (form : Form Tree) :
    (Tree.node token form).layer = form := rfl

namespace Form

/-- The subtrees in source order, each with its slot. -/
def slots {T : Type} : Form T → List (Slot × T)
  | .root items | .block _ items => items.map (.statement, ·)
  | .record _ _ _ fields => fields.map (.field, ·)
  | .prototype _ params result _ _ => params.map (.type, ·.type) ++ [(.type, result)]
  | .function signature body => [(.signature, signature), (.enclosure, body)]
  | .field _ type default => (.type, type) :: default.toList.map (.value, ·)
  | .declaration _ type init _ _ _ => type.toList.map (.type, ·) ++ init.toList.map (.value, ·)
  | .conditional condition thenBody elseBody =>
    [(.value, condition), (.body, thenBody)] ++ elseBody.toList.map (.statement, ·)
  | .loop _ condition body => condition.toList.map (.value, ·) ++ [(.enclosure, body)]
  | .steppedLoop _ init condition step body =>
    init.toList.map (.initial, ·) ++ condition.toList.map (.value, ·) ++
      step.toList.map (.value, ·) ++ [(.enclosure, body)]
  | .eachLoop _ _ iterable body => [(.value, iterable), (.enclosure, body)]
  | .selection subject branches => (.value, subject) :: branches.flatMap fun b =>
    b.items.flatMap (·.children.map (.value, ·)) ++ [(.body, b.body)]
  | .recovery lhs _ rhs => [(.value, lhs), (.body, rhs)]
  | .optional child => [(.type, child)]
  | .array _ size sentinel element =>
    size.toList.map (.value, ·) ++ sentinel.toList.map (.value, ·) ++ [(.type, element)]
  | .deferral body => [(.body, body)]
  | form => form.children.map (.value, ·)

/-- Whether the layer is a signature with `export` or `extern` before it. -/
def flagged {T : Type} : Form T → Bool
  | .prototype _ _ _ isExport isExtern => isExport || isExtern
  | _ => false

/-- The slots that the layer may fill. -/
def places : Form Tree → List Slot
  | .root _ => []
  | .field .. => [.field]
  | .record .. | .enumeration .. | .conditional .. | .loop .. | .steppedLoop .. | .eachLoop ..
  | .deferral _ | .returning _ | .raising _ | .breaking .. | .continuing _ => [.statement]
  | .declaration .. => [.statement, .initial]
  | .optional _ | .array .. => [.type]
  | .block (some _) _ => [.statement]
  | .block none _ => [.statement, .enclosure, .body]
  | .prototype _ _ _ isExport isExtern =>
    if isExport || isExtern then [.statement, .signature] else .signature :: Slot.valued
  | .function signature _ => if signature.layer.flagged then [.statement] else Slot.valued
  | _ => Slot.valued

/-- What the layer has to hold, wherever it stands. -/
def Holds {T : Type} : Form T → Prop
  | .prototype _ params _ isExport isExtern =>
    (∀ p ∈ params.dropLast, p.variadic = false) ∧ ¬(isExport = true ∧ isExtern = true)
  | .declaration _ type _ isExport isMutable isConst =>
    ¬(isMutable = true ∧ isConst = true) ∧
      (type = none → isExport = true ∨ isMutable = true ∨ isConst = true)
  | .enumeration _ _ variants => variants ≠ []
  | .selection _ branches => branches ≠ []
  | .array .slice size sentinel _ => size = none ∧ sentinel = none
  | .array .inferred size _ _ => size = none
  | .array .sized size _ _ => size ≠ none
  | _ => True

variable {T U : Type}

theorem map_slots (form : Form T) : form.slots.map (·.2) = form.children := by
  cases form <;> simp [slots, children, Function.comp_def, List.map_flatMap, MatchBranch.children]

theorem slots_mapTokens (g : Nat → Nat) (form : Form T) :
    (form.mapTokens g).slots = form.slots := by
  cases form <;> simp [slots, children, List.flatMap_map, Function.comp_def]

theorem holds_mapTokens (g : Nat → Nat) (form : Form T) :
    (form.mapTokens g).Holds ↔ form.Holds := by
  cases form with
  | array kind => cases kind <;> rfl
  | _ => simp [Holds, ← List.map_dropLast]

theorem slots_map (f : T → U) (form : Form T) :
    (form.map f).slots = form.slots.map fun x => (x.1, f x.2) := by
  have hchildren := form.children_map f
  cases form <;>
    simp_all [slots, map, children, Option.toList_map, Function.comp_def, List.map_flatMap,
      List.flatMap_map, MatchItem.children_map, MatchBranch.map, Param.map, Variant.map]

theorem holds_map (f : T → U) (form : Form T) : (form.map f).Holds ↔ form.Holds := by
  cases form with
  | array kind => cases kind <;> simp [map, Holds]
  | _ => simp [map, Holds, ← List.map_dropLast, Param.map]

end Form

namespace Tree

/-- Every layer of the tree holds what it has to, and its subtrees may fill their slots. -/
def Regular : Tree → Prop :=
  Everywhere fun _ form => form.Holds ∧ ∀ x ∈ form.slots, x.1 ∈ x.2.layer.places

/-- The tree is regular and may fill the slot. -/
structure Fills (slot : Slot) (t : Tree) : Prop where
  place : slot ∈ t.layer.places
  regular : t.Regular

variable {token : Nat} {form : Form Tree} {slot : Slot} {t : Tree}

/-- A layer that holds what it has to over trees that fill its slots. -/
theorem regular_node (hform : form.Holds) (h : ∀ x ∈ form.slots, x.2.Fills x.1) :
    (Tree.node token form).Regular := by
  refine everywhere_node ⟨hform, fun x hx => (h x hx).place⟩ fun t ht => ?_
  rw [← Form.map_slots] at ht
  obtain ⟨x, hx, rfl⟩ := List.mem_map.mp ht
  exact (h x hx).regular

theorem fills_list {ts : List Tree} (h : ∀ t ∈ ts, t.Fills slot) :
    ∀ x ∈ ts.map (slot, ·), x.2.Fills x.1 := List.forall_mem_map.mpr h

theorem fills_option {o : Option Tree} (h : ∀ t ∈ o, t.Fills slot) :
    ∀ x ∈ o.toList.map (slot, ·), x.2.Fills x.1 := fills_list (Option.forall_mem_toList h)

theorem flagged_mapTokens (g : Nat → Nat) (t : Tree) :
    (t.mapTokens g).layer.flagged = t.layer.flagged := by
  obtain ⟨token, form⟩ := t
  rw [mapTokens_node]
  cases form <;> rfl

theorem places_mapTokens (g : Nat → Nat) (t : Tree) :
    (t.mapTokens g).layer.places = t.layer.places := by
  obtain ⟨token, form⟩ := t
  rw [mapTokens_node]
  cases form with
  | function signature body => simp [Form.map, Form.places, flagged_mapTokens]
  | block label => cases label <;> rfl
  | _ => rfl

/-- Where a tree is anchored does not matter to what stands where. -/
theorem Regular.mapTokens (g : Nat → Nat) (h : t.Regular) : (t.mapTokens g).Regular := by
  induction t using induct with
  | h token form ih =>
    obtain ⟨hform, hplaces⟩ := h token form .here
    rw [mapTokens_node]
    refine regular_node ?_ ?_
    · rwa [Form.holds_mapTokens, Form.holds_map]
    · rw [Form.slots_mapTokens, Form.slots_map]
      intro x hx
      obtain ⟨y, hy, rfl⟩ := List.mem_map.mp hx
      have hchild : y.2 ∈ form.children := Form.map_slots form ▸ List.mem_map_of_mem hy
      refine ⟨?_, ih y.2 hchild (Everywhere.of_mem h hchild)⟩
      rw [places_mapTokens]
      exact hplaces y hy

theorem Fills.mapTokens (g : Nat → Nat) (h : t.Fills slot) : (t.mapTokens g).Fills slot :=
  ⟨places_mapTokens g t ▸ h.place, h.regular.mapTokens g⟩

end Tree

end FrontEnd
