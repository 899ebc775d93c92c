import FrontEnd.Proofs.Parser.Spans

/-!
Productions of expressions and types give what spans what they have read.
-/

namespace FrontEnd.Grammar

open Script

variable (symbols : Symbols) (limit : Nat) {depth p : Nat}

/-! ## Operators -/

theorem expression_chains :
    Script.Chains symbols limit depth p expression fun v => v.toList.map .child :=
  chains_deeper .expression

theorem requiredExpression_chains {what : Expectation} :
    Script.Chains symbols limit depth p (require what expression) fun t => [.child t] :=
  chains_require (chains_deeper .expression)

theorem attempted_chains : Rule.expression.Chains symbols limit := by
  intro depth p
  refine Ensures.bind (spans_run .attempts) fun tries q htries => ?_
  refine Ensures.bind (spans_run (.level .conjunction)) fun operand r hoperand => ?_
  cases operand with
  | none =>
    refine Ensures.ite (fun _ => ?_) fun _ => Ensures.failing
    exact htries.chain.append hoperand.chain
  | some operand =>
    exact Limb.chain_child.mpr (htries.folds operand r (Limb.chain_child.mp hoperand.chain))

/-- Every `try` is anchored before the operand behind them all. -/
theorem attempts_folds :
    Script.Spans symbols limit depth p attempts fun v q =>
      Rule.attempts.Folds symbols p v q := by
  refine Ensures.here_bind (Ensures.accept_bind (fun htry => ?_) fun _ t r ht => ht)
  refine Ensures.bind (spans_run .attempts) fun tries q htries t r ht => ?_
  have hbehind := Limb.Chain.behind htry (by decide)
  have hinner := Limb.chain_child.mpr (htries.folds t r ht)
  refine Limb.chain_child.mp ((hbehind.append hinner).node rfl rfl ?_)
  rw [Form.Fits, htry]
  rfl

theorem operandOf_chains (l : Level) :
    Script.Chains symbols limit depth p (operandOf l) fun v => v.toList.map .child := by
  cases l with
  | assignment => exact chains_deeper .expression
  | conjunction => exact chains_run (.level .disjunction)
  | disjunction => exact chains_run (.level .comparison)
  | comparison => exact chains_run .recovery
  | bitwise => exact chains_run (.level .shift)
  | shift => exact chains_run (.level .sum)
  | sum => exact chains_run (.level .product)
  | product => exact chains_run .unary

variable {symbols limit} in
/-- An operand, and what the rule reads behind it and makes of it. -/
theorem chains_fold {r : Rule} {fold : Tree → r.Result → Tree} {x : Script (Option Tree)}
    (hx : Script.Chains symbols limit depth p x fun v => v.toList.map .child)
    (hfold : ∀ {p v q}, r.Folds symbols p v q → ∀ t k, t.Spans symbols.Tells k p →
      (fold t v).Spans symbols.Tells k q) :
    Script.Chains symbols limit depth p (do
      match ← x with
      | none => return none
      | some first =>
        let rest ← run r
        return some (fold first rest)) fun v => v.toList.map .child := by
  refine Ensures.bind hx fun first q hfirst => ?_
  cases first with
  | none => exact hfirst
  | some first =>
    refine Ensures.bind (spans_run r) fun rest m hrest => ?_
    exact Limb.chain_child.mpr (hfold hrest.folds first p (Limb.chain_child.mp hfirst))

theorem level_chains (l : Level) : (Rule.level l).Chains symbols limit :=
  fun _ _ => chains_fold (operandOf_chains symbols limit l) id

/-- The operators of a row are anchored between what is before them and their own operands. -/
theorem operands_folds (l : Level) :
    Script.Spans symbols limit depth p (operands l) fun v q =>
      (Rule.operands l).Folds symbols p v q := by
  refine Ensures.sight_bind ?_
  split
  · exact fun t k ht => ht
  · rename_i op hop
    rw [Symbols.sight_kind] at hop
    have hbehind := Limb.Chain.behind rfl (kind_ne_endOfFile_of_operator hop)
    refine Ensures.take_bind (chains_bind hbehind
      (chains_require (operandOf_chains symbols limit l)) fun rhs q hrhs => ?_)
    have hfirst : ∀ t k, t.Spans symbols.Tells k p →
        (Tree.node p (.binary op t rhs)).Spans symbols.Tells k q := fun t k ht =>
      Tree.spans_of_operand rfl rfl ⟨l, hop⟩ ht hrhs
    split
    · refine Ensures.bind (spans_run (.operands l)) fun rest r hrest t k ht => ?_
      exact hrest.folds _ k (hfirst t k ht)
    · exact hfirst

theorem recovery_chains : Rule.recovery.Chains symbols limit :=
  fun _ _ => chains_fold (chains_run (.level .bitwise)) id

theorem handlers_folds :
    Script.Spans symbols limit depth p handlers fun v q =>
      Rule.handlers.Folds symbols p v q := by
  refine Ensures.here_bind (Ensures.accept_bind (fun hcatch => ?_) fun _ t k ht => ht)
  have hbehind := Limb.Chain.behind hcatch (by decide)
  -- whatever is read behind `catch`, further handlers take the layer as their operand
  have hrest (name : Option String) {rhs : Tree} {q : Nat}
      (hrhs : Limb.Chain symbols.Tells (p + 1) [.child rhs] q) :
      Script.Spans symbols limit depth q
        (do return (p, name, rhs) :: (← run .handlers)) fun v r =>
          Rule.handlers.Folds symbols p v r := by
    refine Ensures.bind (spans_run .handlers) fun rest r hrest t k ht => ?_
    exact hrest.folds _ k (Tree.spans_of_operand rfl rfl hcatch ht hrhs)
  refine chains_skip hbehind fun name q hbehind => ?_
  refine chains_bind hbehind (chains_run (.block none)) fun block q hblock => ?_
  cases block with
  | some block => exact Ensures.pure_bind (hrest name hblock)
  | none =>
    refine chains_bind hblock (chains_require (chains_run (.level .bitwise))) fun rhs q hrhs => ?_
    exact hrest name hrhs

theorem elements_chains :
    Script.Chains symbols limit depth p elements fun v => v.toList.map .child := by
  refine Ensures.here_bind (Ensures.accept_bind (fun hopen => ?_) fun _ => Nat.le_refl p)
  have h := Limb.Chain.behind hopen (by decide)
  refine chains_bind h (chains_run (.listed .curly)) fun items q h => ?_
  exact h.node rfl rfl hopen

theorem unary_chains : Rule.unary.Chains symbols limit := by
  intro depth p
  refine Ensures.sight_bind ?_
  split
  · rename_i op hop
    rw [Symbols.sight_kind] at hop
    have h := Limb.Chain.behind rfl (kind_ne_endOfFile_of_unary hop)
    refine Ensures.take_bind (chains_bind h (chains_deeper .operand) fun operand q h => ?_)
    exact h.node rfl rfl hop
  · exact Ensures.sight_bind (Ensures.ite (fun _ => elements_chains symbols limit) fun _ =>
      chains_run .suffixed)

theorem operand_chains : Rule.operand.Chains symbols limit := fun _ _ =>
  chains_require (chains_run .unary)

theorem listed_chains (bracket : Bracket) : (Rule.listed bracket).Chains symbols limit := by
  intro depth p
  refine chains_skip (.nil p) fun closed q h => ?_
  refine Ensures.ite (fun _ => h) fun _ => ?_
  refine chains_bind h (requiredExpression_chains symbols limit) fun item q h => ?_
  refine chains_skip h fun more q h => ?_
  refine Ensures.ite (fun _ => ?_) fun _ => ?_
  · exact chains_bind h (chains_run (.listed bracket)) fun rest q h => h
  · exact chains_skip h fun _ q h => h

/-! ## Primaries -/

/-- What a symbol that is an operand by itself is anchored at, and that it holds no limbs. -/
theorem fits_of_leaf {s : Symbol} {form : Form Tree} (h : s.leaf? = some form) :
    form.Fits s ∧ form.trails = false ∧ form.limbs = [] := by
  obtain ⟨kind, text⟩ := s
  cases kind <;> cases h <;> exact ⟨rfl, rfl, rfl⟩

theorem functionValue_chains :
    Script.Chains symbols limit depth p functionValue fun t => [.child t] := by
  refine Ensures.here_bind ?_
  refine Ensures.bind (spans_run (.prototype false false)) fun signature q hsignature => ?_
  obtain ⟨hfunc, hopener⟩ := hsignature.begins
  refine chains_bind hsignature.chain (chains_run (.block none)) fun body q h => ?_
  cases body with
  | some body => exact h.node_of_first rfl (List.cons_ne_nil _ _) rfl (hfunc.trans hopener.symm)
  | none => exact h

theorem primary_chains : Rule.primary.Chains symbols limit := by
  intro depth p
  refine Ensures.sight_bind ?_
  split
  · rename_i form hleaf
    obtain ⟨hfits, htrails, hlimbs⟩ := fits_of_leaf hleaf
    have h := Limb.Chain.behind rfl (kind_ne_endOfFile_of_leaf hleaf)
    exact Ensures.take_bind (h.node hlimbs htrails hfits)
  · split
    · exact chains_bind (.nil p) (functionValue_chains symbols limit) fun value q h => h
    · exact chains_bind (.nil p) (chains_run .selection) fun value q h => h
    · refine chains_skip (.nil p) fun _ q h => ?_
      refine chains_bind h (requiredExpression_chains symbols limit) fun inner q h => ?_
      exact chains_skip h fun _ q h => h
    · exact Nat.le_refl p

theorem suffixed_chains : Rule.suffixed.Chains symbols limit :=
  fun _ _ => chains_fold (chains_run .primary) id

theorem sentinel_chains :
    Script.Chains symbols limit depth p sentinel fun v => v.toList.map .child := by
  refine chains_skip (.nil p) fun found q h => ?_
  refine Ensures.ite (fun _ => ?_) fun _ => h
  exact chains_bind h (requiredExpression_chains symbols limit) fun value q h => h

/-- What stands between brackets is anchored at the opening one. -/
theorem subscript_chains :
    Script.Spans symbols limit depth p subscript fun v q =>
      (∀ t a, a.kind = .leftBracket → (v.form t).Fits a) ∧
        Limb.Chain symbols.Tells p (v.children.map .child) q := by
  refine chains_bind (.nil p) (requiredExpression_chains symbols limit) fun start q h => ?_
  refine chains_skip h fun isSlice q h => ?_
  refine Ensures.ite (fun _ => ?_) fun _ => ?_
  · refine chains_bind h (requiredExpression_chains symbols limit) fun stop q h => ?_
    refine chains_bind h (sentinel_chains symbols limit) fun sentinel q h => ?_
    exact chains_skip h fun _ q h => ⟨fun _ _ => id, h⟩
  · exact chains_skip h fun _ q h => ⟨fun _ _ => id, h⟩

/-- What a suffix makes of its target. -/
theorem suffix_form (target : Tree) (suffix : Suffix) :
    (suffix.form target).trails = true ∧
      (suffix.form target).children = target :: suffix.children := by
  cases suffix <;> exact ⟨rfl, rfl⟩

theorem suffixes_folds :
    Script.Spans symbols limit depth p suffixes fun v q =>
      Rule.suffixes.Folds symbols p v q := by
  -- a suffix that is anchored at `p`, and those behind it
  have hmore {suffix : Suffix} {q : Nat}
      (hfits : ∀ t, (suffix.form t).Fits (symbols.symbolAt p))
      (h : Limb.Chain symbols.Tells (p + 1) (suffix.children.map .child) q) :
      Script.Spans symbols limit depth q (do return (p, suffix) :: (← run .suffixes)) fun v r =>
        Rule.suffixes.Folds symbols p v r := by
    refine Ensures.bind (spans_run .suffixes) fun rest r hrest t k ht => ?_
    obtain ⟨htrails, hchildren⟩ := suffix_form t suffix
    exact hrest.folds _ k (Tree.spans_of_operand htrails hchildren (hfits t) ht h)
  refine Ensures.sight_bind ?_
  split
  · rename_i hdot
    rw [Symbols.sight_kind] at hdot
    refine Ensures.take_bind (chains_skip (.behind hdot (by decide)) fun name q h => ?_)
    exact hmore (fun _ => hdot) h
  · rename_i hopen
    rw [Symbols.sight_kind] at hopen
    refine Ensures.take_bind (Ensures.bind (subscript_chains symbols limit) fun suffix q h => ?_)
    have hbehind := Limb.Chain.behind hopen (by decide)
    exact hmore (fun t => h.1 t _ hopen) (hbehind.append h.2)
  · rename_i hopen
    rw [Symbols.sight_kind] at hopen
    have h := Limb.Chain.behind hopen (by decide)
    refine Ensures.take_bind (chains_bind h (chains_run (.listed .round)) fun args q h => ?_)
    exact hmore (fun _ => hopen) h
  · exact fun t k ht => ht

theorem arraySize_chains :
    Script.Chains symbols limit depth p arraySize fun v => v.2.toList.map .child := by
  refine Ensures.sight_bind (Ensures.ite (fun _ => Nat.le_refl p) fun _ =>
    Ensures.ite (fun _ => ?_) fun _ => ?_)
  · exact chains_skip (.nil p) fun _ q h => h
  · exact chains_bind (.nil p) (requiredExpression_chains symbols limit) fun length q h => h

theorem type_chains : Rule.type.Chains symbols limit := by
  intro depth p
  refine Ensures.here_bind (Ensures.accept_bind (fun hmark => ?_) fun _ => ?_)
  · have h := Limb.Chain.behind hmark (by decide)
    refine chains_bind h (chains_deeper .innerType) fun child q h => ?_
    exact h.node rfl rfl hmark
  refine Ensures.accept_bind (fun hopen => ?_) fun _ => chains_run .suffixed
  have h := Limb.Chain.behind hopen (by decide)
  refine chains_bind h (arraySize_chains symbols limit) fun found q h => ?_
  obtain ⟨kind, size⟩ := found
  refine chains_bind h (sentinel_chains symbols limit) fun sentinel q h => ?_
  refine chains_skip h fun _ q h => ?_
  refine chains_bind h (chains_deeper .innerType) fun element q h => ?_
  exact h.node (by simp [Form.limbs, Form.children]) rfl hopen

theorem innerType_chains : Rule.innerType.Chains symbols limit := fun _ _ =>
  chains_require (chains_run .type)

end FrontEnd.Grammar
