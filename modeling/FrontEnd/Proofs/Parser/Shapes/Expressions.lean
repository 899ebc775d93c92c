import FrontEnd.Proofs.Parser.Shapes

/-!
The shapes of what the productions of expressions and types read.
-/

namespace FrontEnd

variable {symbols : Symbols} {limit depth p : Nat}

/-- What is built from the left on the rest of a row keeps a property that each step keeps. -/
theorem foldl_shaped {β : Type} {P : Tree → Prop} {f : Tree → β → Tree} {rest : List β} {t : Tree}
    (ht : P t) (hf : ∀ u x, x ∈ rest → P u → P (f u x)) : P (rest.foldl f t) := by
  induction rest generalizing t with
  | nil => exact ht
  | cons x rest ih =>
    exact ih (hf t x List.mem_cons_self ht) fun u y hy => hf u y (List.mem_cons_of_mem x hy)

theorem Suffix.form_shaped {token : Nat} {target : Tree} {s : Suffix}
    (h : Shaped symbols limit .expression depth target)
    (hs : ∀ t ∈ s.children, Shaped symbols limit (.deeper .expression) depth t) :
    Shaped symbols limit .expression depth (.node token (s.form target)) := by
  cases s with
  | access name => exact .access h
  | index position => exact .index h (hs position (by simp [children]))
  | slice start stop sentinel =>
    refine .slice h (hs start (by simp [children])) (hs stop (by simp [children])) fun t ht => ?_
    exact hs t (by simp [children, Option.mem_toList.mpr ht])
  | call args => exact .call h hs

namespace Grammar

open Script

theorem expression_shapes : Shapes symbols limit depth p expression fun v _ =>
    ∀ t ∈ v, Shaped symbols limit (.deeper .expression) depth t :=
  (shapes_deeper .expression).mono fun _ _ h t ht => .deeper h.1 (h.2 t ht)

theorem require_expression_shapes {what : Expectation} :
    Shapes symbols limit depth p (require what expression) fun v _ =>
      Shaped symbols limit (.deeper .expression) depth v :=
  Ensures.require expression_shapes

theorem assignment_shapes : Shapes symbols limit depth p assignment fun v _ =>
    ∀ t ∈ v, Shaped symbols limit .assignment depth t := shapes_run (.level .assignment)

variable (symbols limit)

/-! ## Operators -/

theorem attempted_shapes : Rule.expression.GivesShape symbols limit := by
  intro depth p
  refine shapes_any_bind fun tries q => ?_
  refine Ensures.bind (shapes_run (.level .conjunction)) fun operand q h => ?_
  cases operand with
  | none =>
    dsimp only
    split
    · exact Ensures.pure nofun
    · exact Ensures.failing
  | some operand =>
    refine Ensures.pure ?_
    rintro t ⟨⟩
    induction tries with
    | nil => exact h operand rfl
    | cons token tries ih => exact .attempt ih

theorem attempts_shapes : Rule.attempts.GivesShape symbols limit := fun _ _ => shapes_any _

theorem operandOf_shapes (l : Level) : Shapes symbols limit depth p (operandOf l) fun v _ =>
    ∀ t ∈ v, Shaped symbols limit l.operandCategory depth t := by
  cases l with
  | assignment => exact expression_shapes
  | conjunction => exact shapes_run (.level .disjunction)
  | disjunction => exact shapes_run (.level .comparison)
  | comparison => exact shapes_run .recovery
  | bitwise => exact shapes_run (.level .shift)
  | shift => exact shapes_run (.level .sum)
  | sum => exact shapes_run (.level .product)
  | product => exact shapes_run .unary

variable {symbols limit} in
theorem binary_shaped {l : Level} {token : Nat} {op : BinaryOp} {lhs rhs : Tree}
    (hl : l ≠ .assignment) (hop : ∃ kind, l.operator? kind = some op)
    (hlhs : Shaped symbols limit l.category depth lhs)
    (hrhs : Shaped symbols limit l.operandCategory depth rhs) :
    Shaped symbols limit l.category depth (.node token (.binary op lhs rhs)) := by
  obtain ⟨kind, hop⟩ := hop
  cases l with
  | assignment => exact absurd rfl hl
  | _ => exact .binary hl hop hlhs hrhs

theorem level_shapes (l : Level) : (Rule.level l).GivesShape symbols limit := by
  intro depth p
  refine Ensures.bind (operandOf_shapes symbols limit l) fun first q hfirst => ?_
  cases first with
  | none => exact Ensures.pure nofun
  | some first =>
    refine Ensures.bind (shapes_run (.operands l)) fun rest q ⟨hshort, hrest⟩ => ?_
    refine Ensures.pure ?_
    rintro t ⟨⟩
    have hoperand := hfirst first rfl
    by_cases hl : l = .assignment
    · subst hl
      -- Assignments do not chain: at most one operator stands behind the first operand.
      match rest, hshort rfl with
      | [], _ => exact .unassigned hoperand
      | [(token, op, rhs)], _ =>
        obtain ⟨⟨kind, hop⟩, hrhs⟩ := hrest _ List.mem_cons_self
        exact .assignment hop hoperand hrhs
    · have hcategory : l.operandCategory = l.category := by
        cases l <;> first | rfl | exact absurd rfl hl
      rw [hcategory] at hoperand
      exact foldl_shaped hoperand fun u x hx hu => binary_shaped hl (hrest x hx).1 hu (hrest x hx).2

theorem operands_shapes (l : Level) : (Rule.operands l).GivesShape symbols limit := by
  intro depth p
  refine Ensures.bind (P := fun _ _ => True) trivial fun s q _ => ?_
  dsimp only
  split
  · exact Ensures.pure ⟨fun _ => Nat.zero_le 1, nofun⟩
  · rename_i op hop
    refine shapes_any_bind fun _ q => ?_
    refine Ensures.bind (Ensures.require (operandOf_shapes symbols limit l)) fun rhs q hrhs => ?_
    cases hc : l.chains with
    | true =>
      refine Ensures.bind (shapes_run (.operands l)) fun rest q ⟨_, hrest⟩ => ?_
      refine Ensures.pure ⟨?_, List.forall_mem_cons.mpr ⟨⟨⟨_, hop⟩, hrhs⟩, hrest⟩⟩
      rintro rfl
      cases hc
    | false =>
      exact Ensures.pure ⟨fun _ => Nat.le_refl 1, List.forall_mem_cons.mpr ⟨⟨⟨_, hop⟩, hrhs⟩, nofun⟩⟩

theorem recovery_shapes : Rule.recovery.GivesShape symbols limit := by
  intro depth p
  refine Ensures.bind (shapes_run (.level .bitwise)) fun first q hfirst => ?_
  cases first with
  | none => exact Ensures.pure nofun
  | some first =>
    refine Ensures.bind (shapes_run .handlers) fun rest q hrest => ?_
    refine Ensures.pure ?_
    rintro t ⟨⟩
    refine foldl_shaped (hfirst first rfl) fun u x hx hu => ?_
    rcases hrest x hx with hx | hx
    · exact .recovery hu hx
    · exact .recoveryBlock hu hx

theorem handlers_shapes : Rule.handlers.GivesShape symbols limit := by
  intro depth p
  refine shapes_any_bind fun token q => ?_
  refine shapes_any_bind fun found q => ?_
  cases found with
  | false => exact Ensures.pure nofun
  | true =>
    refine shapes_any_bind fun name q => ?_
    refine Ensures.bind (shapes_run (.block none)) fun block q hblock => ?_
    cases block with
    | some block =>
      refine Ensures.pure_bind (Ensures.bind (shapes_run .handlers) fun rest q hrest => ?_)
      exact Ensures.pure (List.forall_mem_cons.mpr ⟨.inr (hblock block rfl), hrest⟩)
    | none =>
      refine Ensures.bind (Ensures.require (shapes_run (.level .bitwise))) fun rhs q hrhs => ?_
      refine Ensures.bind (shapes_run .handlers) fun rest q hrest => ?_
      exact Ensures.pure (List.forall_mem_cons.mpr ⟨.inl hrhs, hrest⟩)

theorem elements_shapes : Shapes symbols limit depth p elements fun v _ =>
    ∀ t ∈ v, Shaped symbols limit .expression depth t := by
  refine shapes_any_bind fun token q => ?_
  refine shapes_any_bind fun found q => ?_
  cases found with
  | false => exact Ensures.pure nofun
  | true =>
    refine Ensures.bind (shapes_run (.listed .curly)) fun items q hitems => ?_
    refine Ensures.pure ?_
    rintro t ⟨⟩
    exact .elements hitems

theorem simple_shapes : Shapes symbols limit depth p simple fun v _ =>
    ∀ t ∈ v, Shaped symbols limit .expression depth t := by
  refine shapes_any_bind fun s q => ?_
  split
  · exact elements_shapes symbols limit
  · exact (shapes_run .suffixed).mono fun v q h => h.1

theorem unary_shapes : Rule.unary.GivesShape symbols limit := by
  intro depth p
  refine shapes_any_bind fun s q => ?_
  split
  · refine shapes_any_bind fun _ q => ?_
    refine Ensures.bind (shapes_deeper .operand) fun operand q ⟨hd, hoperand⟩ => ?_
    refine Ensures.pure ?_
    rintro t ⟨⟩
    exact .unary (.deeper hd hoperand)
  · exact simple_shapes symbols limit

theorem operand_shapes : Rule.operand.GivesShape symbols limit := fun _ _ =>
  Ensures.require (shapes_run .unary)

theorem listed_shapes (bracket : Bracket) : (Rule.listed bracket).GivesShape symbols limit := by
  intro depth p
  refine shapes_any_bind fun closed q => ?_
  cases closed with
  | true => exact Ensures.pure nofun
  | false =>
    refine Ensures.bind require_expression_shapes fun item q hitem => ?_
    refine shapes_any_bind fun more q => ?_
    cases more with
    | true =>
      refine Ensures.bind (shapes_run (.listed bracket)) fun rest q hrest => ?_
      exact Ensures.pure (List.forall_mem_cons.mpr ⟨hitem, hrest⟩)
    | false =>
      refine shapes_any_bind fun _ q => ?_
      exact Ensures.pure (List.forall_mem_cons.mpr ⟨hitem, nofun⟩)

/-! ## Primaries -/

theorem functionValue_shapes : Shapes symbols limit depth p functionValue fun v _ =>
    Shaped symbols limit .expression depth v := by
  refine shapes_any_bind fun token q => ?_
  refine Ensures.bind (shapes_run (.prototype false false)) fun signature q hsignature => ?_
  refine Ensures.bind (shapes_run (.block none)) fun body q hbody => ?_
  cases body with
  | none => exact Ensures.pure (.signature hsignature)
  | some body => exact Ensures.pure (.function hsignature (hbody body rfl))

theorem primary_shapes : Rule.primary.GivesShape symbols limit := by
  intro depth p
  refine Ensures.sight_bind ?_
  simp only [Symbols.sight_current, Symbols.sight_kind, Symbols.sight_position]
  split
  · rename_i form h
    refine Ensures.bind (P := fun _ r => r = symbols.next p) rfl ?_
    rintro _ r rfl
    refine Ensures.pure ⟨?_, fun hk => ?_⟩
    · rintro t ⟨⟩
      exact .leaf h
    · have hform : form = .identifier (symbols.symbolAt p).text := by
        simpa [Symbol.leaf?, hk] using h.symm
      subst hform
      exact ⟨rfl, Symbols.next_of_kind hk (by decide)⟩
  · rename_i h
    have hname : (symbols.symbolAt p).kind ≠ .identifier := fun hk => by
      simp [Symbol.leaf?, hk] at h
    split
    · refine Ensures.bind (functionValue_shapes symbols limit) fun t r ht => ?_
      refine Ensures.pure ⟨?_, fun hk => absurd hk hname⟩
      rintro t ⟨⟩
      exact ht
    · refine Ensures.bind (shapes_run .selection) fun t r ht => ?_
      refine Ensures.pure ⟨?_, fun hk => absurd hk hname⟩
      rintro t ⟨⟩
      exact ht
    · refine shapes_any_bind fun _ r => ?_
      refine Ensures.bind require_expression_shapes fun inner r hinner => ?_
      refine shapes_any_bind fun _ r => ?_
      refine Ensures.pure ⟨?_, fun hk => absurd hk hname⟩
      rintro t ⟨⟩
      exact .enclosed hinner
    · exact Ensures.pure ⟨by simp, fun hk => absurd hk hname⟩

theorem suffixed_shapes : Rule.suffixed.GivesShape symbols limit := by
  intro depth p
  refine Ensures.bind (shapes_run .primary) fun first q ⟨hfirst, hname⟩ => ?_
  cases first with
  | none => exact Ensures.pure ⟨nofun, fun h => nomatch (hname h.1).1⟩
  | some first =>
    refine Ensures.bind (shapes_run .suffixes) fun rest r ⟨hrest, hnone⟩ => ?_
    refine Ensures.pure ⟨?_, fun h => ?_⟩
    · rintro t ⟨⟩
      exact foldl_shaped (hfirst first rfl) fun u x hx hu => Suffix.form_shaped hu (hrest x hx)
    · obtain ⟨hfirst, rfl⟩ := hname h.1
      obtain rfl := hnone h.2
      exact hfirst

theorem sentinel_shapes : Shapes symbols limit depth p sentinel fun v _ =>
    (∀ t ∈ v, Shaped symbols limit (.deeper .expression) depth t) ∧
      ((symbols.symbolAt p).kind ≠ .colon → v = none) := by
  refine Ensures.accept_bind (fun hk => ?_) fun _ => Ensures.pure ⟨nofun, fun _ => rfl⟩
  refine Ensures.bind require_expression_shapes fun value q hvalue => ?_
  refine Ensures.pure ⟨?_, fun h => absurd hk h⟩
  rintro t ⟨⟩
  exact hvalue

theorem subscript_shapes : Shapes symbols limit depth p subscript fun v _ =>
    ∀ t ∈ v.children, Shaped symbols limit (.deeper .expression) depth t := by
  refine Ensures.bind require_expression_shapes fun start q hstart => ?_
  refine shapes_any_bind fun more q => ?_
  cases more with
  | true =>
    refine Ensures.bind require_expression_shapes fun stop q hstop => ?_
    refine Ensures.bind (sentinel_shapes symbols limit) fun last q ⟨hlast, _⟩ => ?_
    refine shapes_any_bind fun _ q => ?_
    refine Ensures.pure (List.forall_mem_cons.mpr ⟨hstart, List.forall_mem_cons.mpr ⟨hstop, ?_⟩⟩)
    exact fun t ht => hlast t (Option.mem_toList.mp ht)
  | false =>
    refine shapes_any_bind fun _ q => ?_
    exact Ensures.pure (List.forall_mem_cons.mpr ⟨hstart, nofun⟩)

theorem suffixes_shapes : Rule.suffixes.GivesShape symbols limit := by
  intro depth p
  have hrest (token : Nat) {suffix : Suffix} {q : Nat}
      (hk : (symbols.symbolAt p).kind ≠ .identifier)
      (hs : ∀ t ∈ suffix.children, Shaped symbols limit (.deeper .expression) depth t) :
      Shapes symbols limit depth q (return (token, suffix) :: (← run .suffixes))
        (Rule.suffixes.Shapes symbols limit depth p) := by
    refine Ensures.bind (shapes_run .suffixes) fun rest r ⟨hrest, _⟩ => ?_
    exact Ensures.pure ⟨List.forall_mem_cons.mpr ⟨hs, hrest⟩, fun h => absurd h hk⟩
  have hmark {kind : TokenKind} (h : (symbols.symbolAt p).kind = kind) (hk : kind ≠ .identifier) :
      (symbols.symbolAt p).kind ≠ .identifier := fun hname => hk (h.symm.trans hname)
  refine Ensures.sight_bind ?_
  simp only [Symbols.sight_kind]
  split
  · rename_i h
    refine shapes_any_bind fun _ r => ?_
    refine shapes_any_bind fun name r => ?_
    exact hrest _ (hmark h (by decide)) nofun
  · rename_i h
    refine shapes_any_bind fun _ r => ?_
    refine Ensures.bind (subscript_shapes symbols limit) fun suffix r hs => ?_
    exact hrest _ (hmark h (by decide)) hs
  · rename_i h
    refine shapes_any_bind fun _ r => ?_
    refine Ensures.bind (shapes_run (.listed .round)) fun args r hargs => ?_
    exact hrest _ (hmark h (by decide)) hargs
  · exact Ensures.pure ⟨nofun, fun _ => rfl⟩

/-! ## Types -/

theorem innerType_shapes : Rule.innerType.GivesShape symbols limit := fun _ _ =>
  Ensures.require ((shapes_run .type).mono fun _ _ h => h.1)

/-- Kinds of array types with their sizes; behind a slice's bracket the closing one stands. -/
theorem arraySize_shapes : Shapes symbols limit depth p arraySize fun v q =>
    (v = (.slice, none) ∧ (symbols.symbolAt q).kind = .rightBracket) ∨ v = (.inferred, none) ∨
      ∃ size, v = (.sized, some size) ∧
        Shaped symbols limit (.deeper .expression) depth size := by
  refine Ensures.sight_bind (Ensures.ite (fun h => Ensures.pure (.inl ⟨rfl, h⟩)) fun _ => ?_)
  refine Ensures.ite (fun _ => ?_) fun _ => ?_
  · exact shapes_any_bind fun _ q => Ensures.pure (.inr (.inl rfl))
  · refine Ensures.bind require_expression_shapes fun size q hsize => ?_
    exact Ensures.pure (.inr (.inr ⟨size, rfl, hsize⟩))

/-- What follows the opening bracket of an array type. -/
theorem array_shapes (token : Nat) :
    Shapes symbols limit depth p (do
      let (kind, size) ← arraySize
      let sentinel ← sentinel
      let _ ← expect .rightBracket
      return some (.node token (.array kind size sentinel (← deeper .innerType)))) fun v _ =>
        ∀ t ∈ v, Shaped symbols limit .typeMark depth t := by
  refine Ensures.bind (arraySize_shapes symbols limit) fun v q hv => ?_
  refine Ensures.bind (sentinel_shapes symbols limit) fun last q ⟨hlast, hnone⟩ => ?_
  refine shapes_any_bind fun _ q => ?_
  refine Ensures.bind (shapes_deeper .innerType) fun t q ⟨hd, ht⟩ => ?_
  refine Ensures.pure ?_
  rintro _ ⟨⟩
  have helement : Shaped symbols limit (.deeper .type) depth t := .deeper hd ht
  rcases hv with ⟨rfl, hk⟩ | rfl | ⟨size, rfl, hsize⟩
  · obtain rfl := hnone (by rw [hk]; decide)
    exact .slices helement
  · exact .inferred hlast helement
  · exact .sized hsize hlast helement

theorem type_shapes : Rule.type.GivesShape symbols limit := by
  intro depth p
  have hmarked {v : Option Tree} {kind : TokenKind} {q : Nat}
      (hk : (symbols.symbolAt p).kind = kind) (hname : kind ≠ .identifier)
      (h : ∀ t ∈ v, Shaped symbols limit .typeMark depth t) :
      Rule.type.Shapes symbols limit depth p v q :=
    ⟨fun t ht => .marked (h t ht), fun _ => h, fun hnames => absurd (hk.symm.trans hnames.1) hname⟩
  refine Ensures.here_bind ?_
  refine Ensures.accept_bind (fun hk => ?_) fun hquestion => ?_
  · refine Ensures.bind (shapes_deeper .innerType) fun t q ⟨hd, ht⟩ => ?_
    refine Ensures.pure (hmarked hk (by decide) ?_)
    rintro _ ⟨⟩
    exact .optional (.deeper hd ht)
  refine Ensures.accept_bind (fun hk => ?_) fun hbracket => ?_
  · exact (array_shapes symbols limit p).mono fun v q h => hmarked hk (by decide) h
  · refine (shapes_run .suffixed).mono fun v q ⟨hv, hnames⟩ => ?_
    exact ⟨fun t ht => .unmarked (hv t ht), fun hk => absurd hk (by simp [hquestion, hbracket]),
      hnames⟩

end Grammar

end FrontEnd
