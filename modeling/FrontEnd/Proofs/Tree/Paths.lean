import FrontEnd.Proofs.Tree.Moving

/-!
Paths from the root of a tree to its leaves, and how many layers of some sort a path may
carry. The greatest number is a fold, which the paths justify.
-/

namespace FrontEnd

/-- A layer without its subtrees. -/
def Form.bare {T : Type} (form : Form T) : Form Unit := form.map fun _ => ()

@[simp] theorem Form.bare_map {T U : Type} (f : T → U) (form : Form T) :
    (form.map f).bare = form.bare := form.map_map f _

theorem MatchItem.children_map {T U : Type} (f : T → U) (i : MatchItem T) :
    (i.map f).children = i.children.map f := by
  cases i <;> rfl

theorem MatchBranch.children_map {T U : Type} (f : T → U) (b : MatchBranch T) :
    (b.map f).children = b.children.map f := by
  simp [MatchBranch.children, List.map_flatMap, List.flatMap_map, MatchItem.children_map]

namespace Form

variable {T U : Type}

theorem bare_mapTokens (g : Nat → Nat) (form : Form T) :
    (form.mapTokens g).bare = form.bare.mapTokens g := form.map_mapTokens _ g

theorem children_mapTokens (g : Nat → Nat) (form : Form T) :
    (form.mapTokens g).children = form.children := by
  cases form <;> simp [children, List.flatMap_map, MatchBranch.children]

theorem children_map (f : T → U) (form : Form T) :
    (form.map f).children = form.children.map f := by
  cases form with
  | selection subject branches =>
    simp only [map, children, List.map_cons, List.map_flatMap, List.flatMap_map,
      MatchBranch.children_map]
  | _ => simp [children, List.map_flatMap, List.flatMap_map, Option.toList_map]

end Form

namespace Tree

/-- The layers on a path from the root of a tree to a leaf, each with its anchor. -/
inductive Path : Tree → List (Nat × Form Unit) → Prop where
  | leaf {token : Nat} {form : Form Tree} (h : form.children = []) :
    Path (.node token form) [(token, form.bare)]
  | step {token : Nat} {form : Form Tree} {t : Tree} {path : List (Nat × Form Unit)}
    (ht : t ∈ form.children) (h : Path t path) :
    Path (.node token form) ((token, form.bare) :: path)

/-- The greatest number of layers that a path carries and `counts` tells of. -/
def nesting (counts : Nat × Form Unit → Bool) : Tree → Nat :=
  fold fun token form => form.children.max?.getD 0 + (counts (token, form.bare)).toNat

variable {counts : Nat × Form Unit → Bool}

theorem nesting_node (token : Nat) (form : Form Tree) :
    (Tree.node token form).nesting counts =
      (form.children.map (nesting counts)).max?.getD 0 + (counts (token, form.bare)).toNat := by
  rw [nesting, fold_node, Form.children_map, Form.bare_map]

theorem max?_getD_le {xs : List Nat} {n : Nat} (h : ∀ x ∈ xs, x ≤ n) : xs.max?.getD 0 ≤ n := by
  cases hx : xs.max? with
  | none => exact Nat.zero_le n
  | some x => exact h x (List.max?_mem hx)

theorem nesting_le (token : Nat) {depth n : Nat} {form : Form Tree} (hd : depth ≤ n)
    (h : ∀ t ∈ form.children, t.nesting counts + depth ≤ n) :
    (Tree.node token form).nesting counts + depth ≤ n + (counts (token, form.bare)).toNat := by
  have hmax : (form.children.map (nesting counts)).max?.getD 0 ≤ n - depth := by
    apply max?_getD_le
    intro x hx
    obtain ⟨t, ht, rfl⟩ := List.mem_map.mp hx
    have htree := h t ht
    omega
  rw [nesting_node]
  omega

theorem Path.countP_le {t : Tree} {path : List (Nat × Form Unit)} (h : t.Path path) :
    path.countP counts ≤ t.nesting counts := by
  induction h with
  | leaf h =>
    rw [nesting_node, List.countP_singleton]
    cases counts _ <;> simp
  | step ht h ih =>
    rw [nesting_node, List.countP_cons]
    have hle := List.le_max?_getD_of_mem (k := 0) (List.mem_map_of_mem (f := nesting counts) ht)
    cases counts _ <;> simp <;> omega

/-- Some path carries as many layers as there may be. -/
theorem exists_path (t : Tree) (counts : Nat × Form Unit → Bool) :
    ∃ path, t.Path path ∧ path.countP counts = t.nesting counts := by
  induction t using induct with
  | h token form ih =>
    cases hmax : (form.children.map (nesting counts)).max? with
    | none =>
      have hchildren : form.children = [] := by simpa using hmax
      refine ⟨_, .leaf hchildren, ?_⟩
      rw [nesting_node, hmax, List.countP_singleton]
      cases counts _ <;> simp
    | some n =>
      obtain ⟨t, ht, hn⟩ := List.mem_map.mp (List.max?_mem hmax)
      obtain ⟨path, hpath, hcount⟩ := ih t ht
      refine ⟨_, .step ht hpath, ?_⟩
      rw [nesting_node, hmax, List.countP_cons, hcount, hn]
      cases counts _ <;> simp

/-- Moving the anchors of a tree moves those that are counted. -/
theorem nesting_mapTokens (g : Nat → Nat) (t : Tree) :
    (t.mapTokens g).nesting counts = t.nesting fun x => counts (g x.1, x.2.mapTokens g) := by
  apply eq_fold (F := fun t => (t.mapTokens g).nesting counts)
  intro token form
  rw [mapTokens_node, nesting_node, Form.children_mapTokens, Form.bare_mapTokens, Form.bare_map,
    Form.bare_map, Form.children_map, Form.children_map, List.map_map]
  rfl

end Tree

end FrontEnd
