import FrontEnd.Tree.Basic

/-!
Induction on trees. The children of a layer are its subtrees in source order; what
holds of a tree whenever it holds of its children holds of all trees, and a function
that computes a tree from its children is a fold.
-/

namespace FrontEnd

variable {T U α : Type}

def MatchItem.children : MatchItem T → List T
  | .single value => [value]
  | .range start stop => [start, stop]

def MatchBranch.children (b : MatchBranch T) : List T := b.items.flatMap (·.children) ++ [b.body]

namespace Form

def children : Form T → List T
  | .root items | .block _ items | .record _ _ _ items | .elements items => items
  | .identifier _ | .integer _ _ | .float _ _ | .rune _ | .string _ _ | .bool _ | .nil
  | .unreachable | .builtin _ | .continuing _ => []
  | .prototype _ params result _ _ => params.map (·.type) ++ [result]
  | .function signature body => [signature, body]
  | .enumeration _ _ variants => variants.flatMap (·.value.toList)
  | .field _ type default => type :: default.toList
  | .declaration _ type init _ _ _ => type.toList ++ init.toList
  | .call callee args => callee :: args
  | .access target _ => [target]
  | .index target position => [target, position]
  | .slice target start stop sentinel => [target, start, stop] ++ sentinel.toList
  | .conditional condition thenBody elseBody => [condition, thenBody] ++ elseBody.toList
  | .loop _ condition body => condition.toList ++ [body]
  | .steppedLoop _ init condition step body =>
    init.toList ++ condition.toList ++ step.toList ++ [body]
  | .eachLoop _ _ iterable body => [iterable, body]
  | .selection subject branches => subject :: branches.flatMap (·.children)
  | .recovery lhs _ rhs | .binary _ lhs rhs => [lhs, rhs]
  | .unary _ child | .optional child | .deferral child | .raising child => [child]
  | .array _ size sentinel element => size.toList ++ sentinel.toList ++ [element]
  | .returning value | .breaking _ value => value.toList

end Form

theorem Variant.map_congr {f g : T → U} {v : Variant T} (h : ∀ t ∈ v.value.toList, f t = g t) :
    v.map f = v.map g := by
  have hvalue : v.value.map f = v.value.map g :=
    Option.map_congr fun t ht => h t (Option.mem_toList.mpr ht)
  simp only [map, hvalue]

theorem MatchItem.map_congr {f g : T → U} {i : MatchItem T} (h : ∀ t ∈ i.children, f t = g t) :
    i.map f = i.map g := by
  cases i <;> simp_all [children, map]

theorem MatchBranch.map_congr {f g : T → U} {b : MatchBranch T}
    (h : ∀ t ∈ b.children, f t = g t) : b.map f = b.map g := by
  have hitems : b.items.map (·.map f) = b.items.map (·.map g) := by
    apply List.map_congr_left
    intro i hi
    apply MatchItem.map_congr
    intro t ht
    exact h t (List.mem_append_left _ (List.mem_flatMap.mpr ⟨i, hi, ht⟩))
  have hbody : f b.body = g b.body := h b.body (by simp [children])
  simp only [map, hitems, hbody]

theorem Form.map_congr {f g : T → U} {form : Form T} (h : ∀ t ∈ form.children, f t = g t) :
    form.map f = form.map g := by
  cases form with
  | selection subject branches =>
    have hbranches : branches.map (·.map f) = branches.map (·.map g) := by
      apply List.map_congr_left
      intro b hb
      apply MatchBranch.map_congr
      intro t ht
      exact h t (List.mem_cons_of_mem _ (List.mem_flatMap.mpr ⟨b, hb, ht⟩))
    have hsubject : f subject = g subject := h subject (by simp [children])
    simp only [map, hbranches, hsubject]
  | enumeration name isExport variants =>
    have hvariants : variants.map (·.map f) = variants.map (·.map g) := by
      apply List.map_congr_left
      intro v hv
      exact Variant.map_congr fun t ht => h t (List.mem_flatMap.mpr ⟨v, hv, ht⟩)
    simp only [map, hvariants]
  | _ =>
    have hoption {o : Option T} (h : ∀ t ∈ o.toList, f t = g t) : o.map f = o.map g :=
      Option.map_congr fun t ht => h t (Option.mem_toList.mpr ht)
    simp_all [children, map, Param.map, List.map_inj_left, or_imp, forall_and]

/-! ## Induction -/

theorem Option.sizeOf_lt_of_eq_some {o : Option Tree} {t : Tree} (h : o = some t) :
    sizeOf t < sizeOf o := by
  subst h
  simp

theorem MatchItem.sizeOf_lt_of_mem_children {i : MatchItem Tree} {t : Tree}
    (h : t ∈ i.children) : sizeOf t < sizeOf i := by
  cases i with
  | single value =>
    obtain rfl : t = value := by simpa [children] using h
    simp
  | range start stop =>
    have ht : t = start ∨ t = stop := by simpa [children] using h
    rcases ht with rfl | rfl
    · simp only [MatchItem.range.sizeOf_spec]
      omega
    · simp only [MatchItem.range.sizeOf_spec]
      omega

theorem MatchBranch.sizeOf_lt_of_mem_children {b : MatchBranch Tree} {t : Tree}
    (h : t ∈ b.children) : sizeOf t < sizeOf b := by
  obtain ⟨token, items, body⟩ := b
  simp only [children, List.mem_append, List.mem_flatMap, List.mem_singleton] at h
  rcases h with ⟨i, hi, ht⟩ | rfl
  · have hitem := MatchItem.sizeOf_lt_of_mem_children ht
    have hitems := List.sizeOf_lt_of_mem hi
    simp only [MatchBranch.mk.sizeOf_spec]
    omega
  · simp only [MatchBranch.mk.sizeOf_spec]
    omega

theorem Form.sizeOf_lt_of_mem_children {form : Form Tree} {t : Tree} (h : t ∈ form.children) :
    sizeOf t < sizeOf form := by
  have hlist {ts : List Tree} (ht : t ∈ ts) : sizeOf t < sizeOf ts := List.sizeOf_lt_of_mem ht
  have hoption {o : Option Tree} (ht : o = some t) : sizeOf t < sizeOf o :=
    Option.sizeOf_lt_of_eq_some ht
  cases form with
  | identifier | integer | float | rune | string | bool | nil | unreachable | builtin
  | continuing => cases h
  | prototype name params result isExport isExtern =>
    simp only [children, List.mem_append, List.mem_map, List.mem_singleton] at h
    rcases h with ⟨⟨token, name, type, variadic⟩, hp, rfl⟩ | rfl
    · have hparams := List.sizeOf_lt_of_mem hp
      simp at hparams ⊢
      omega
    · simp
      omega
  | enumeration name isExport variants =>
    simp only [children, List.mem_flatMap, Option.mem_toList] at h
    obtain ⟨⟨token, name, value⟩, hv, ht⟩ := h
    have hvalue := hoption ht
    have hvariants := List.sizeOf_lt_of_mem hv
    simp at hvariants hvalue ⊢
    omega
  | selection subject branches =>
    simp only [children, List.mem_cons, List.mem_flatMap] at h
    rcases h with rfl | ⟨b, hb, ht⟩
    · simp
      omega
    · have hbranch := MatchBranch.sizeOf_lt_of_mem_children ht
      have hbranches := List.sizeOf_lt_of_mem hb
      simp
      omega
  | _ =>
    simp only [children, List.mem_append, List.mem_cons, Option.mem_toList, List.not_mem_nil,
      or_false] at h
    simp
    grind

namespace Tree

/-- What holds of a tree whenever it holds of its children holds of every tree. -/
theorem induct {P : Tree → Prop}
    (h : ∀ token form, (∀ t ∈ form.children, P t) → P (.node token form)) : ∀ t, P t
  | .node token form => h token form fun t ht =>
    have := Form.sizeOf_lt_of_mem_children ht
    induct h t
termination_by t => sizeOf t
decreasing_by
  simp
  omega

/-- A function that computes a tree from its children is a fold. -/
theorem eq_fold {g : Nat → Form α → α} {F : Tree → α}
    (hF : ∀ token form, F (.node token form) = g token (form.map F)) (t : Tree) :
    F t = t.fold g := by
  induction t using induct with
  | h token form ih => rw [hF, fold_node, Form.map_congr ih]

end Tree

end FrontEnd
