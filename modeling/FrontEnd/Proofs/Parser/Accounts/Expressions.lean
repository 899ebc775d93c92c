import FrontEnd.Proofs.Parser.Accounts

/-!
Productions of expressions and types account for the names that they read.
-/

namespace FrontEnd.Grammar

open Script

variable (symbols : Symbols) {p : Nat}

/-! ## Operators -/

theorem attempted_accounts : Rule.expression.Accounts symbols := by
  intro p
  refine accounts_bind (accounts_run .attempts) fun tries q => ?_
  refine accounts_bind (accounts_run (.level .conjunction)) fun operand q => ?_
  cases operand with
  | none =>
    dsimp only
    split
    · exact accounts_pure rfl
    · exact accounts_failing
  | some operand =>
    have htries : (tries.foldr (fun token inner => Tree.node token (.unary .attempt inner))
        operand).names = operand.names := by
      induction tries with
      | nil => rfl
      | cons token tries ih => simpa using ih
    exact accounts_pure (by simp [htries])

theorem attempts_accounts : Rule.attempts.Accounts symbols := by
  intro p
  refine accounts_bind accounts_here fun token q => ?_
  refine accounts_bind (accounts_accept rfl) fun found q => ?_
  split
  · exact accounts_bind (accounts_run .attempts) fun _ _ => accounts_pure rfl
  · exact accounts_pure rfl

theorem operandOf_accounts (l : Level) :
    Script.Accounts symbols p (operandOf l) [] fun v => (v.map Tree.names).getD [] := by
  cases l with
  | assignment => exact accounts_deeper .expression
  | conjunction => exact accounts_run (.level .disjunction)
  | disjunction => exact accounts_run (.level .comparison)
  | comparison => exact accounts_run .recovery
  | bitwise => exact accounts_run (.level .shift)
  | shift => exact accounts_run (.level .sum)
  | sum => exact accounts_run (.level .product)
  | product => exact accounts_run .unary

theorem level_accounts (l : Level) : (Rule.level l).Accounts symbols := by
  intro p
  refine accounts_bind (operandOf_accounts symbols l) fun first q => ?_
  cases first with
  | none => exact accounts_pure rfl
  | some first =>
    refine accounts_bind (accounts_run (.operands l)) fun rest q => ?_
    have hfold := names_foldl (g := fun x => x.2.2.names)
      (f := fun lhs (x : Nat × BinaryOp × Tree) => .node x.1 (.binary x.2.1 lhs x.2.2))
      (by simp) rest first
    exact accounts_pure (by simpa using hfold)

theorem isName_of_operator {l : Level} {kind : TokenKind} {op : BinaryOp}
    (h : l.operator? kind = some op) : kind.isName = false := by
  cases kind <;> first | rfl | (cases l <;> cases h)

theorem operands_accounts (l : Level) : (Rule.operands l).Accounts symbols := by
  intro p
  refine accounts_sight_bind ?_
  split
  · exact accounts_pure rfl
  · rename_i op h
    refine accounts_bind (accounts_take (isName_of_operator h)) fun _ q => ?_
    refine accounts_bind (accounts_require (operandOf_accounts symbols l)) fun rhs q => ?_
    split
    · refine accounts_bind (accounts_run (.operands l)) fun rest q => ?_
      exact accounts_pure (by simp)
    · exact accounts_pure (by simp)

theorem recovery_accounts : Rule.recovery.Accounts symbols := by
  intro p
  refine accounts_bind (accounts_run (.level .bitwise)) fun first q => ?_
  cases first with
  | none => exact accounts_pure rfl
  | some first =>
    refine accounts_bind (accounts_run .handlers) fun rest q => ?_
    have hfold := names_foldl (g := fun x => labelNames x.2.1 ++ x.2.2.names)
      (f := fun lhs (x : Nat × Option String × Tree) => .node x.1 (.recovery lhs x.2.1 x.2.2))
      (by simp) rest first
    exact accounts_pure (by simpa using hfold)

theorem payload_accounts : Script.Accounts symbols p payload [] labelNames := by
  refine accounts_bind (accounts_accept rfl) fun found q => ?_
  split
  · refine accounts_bind accounts_expect_name fun name q => ?_
    refine accounts_bind (accounts_expect rfl) fun _ q => ?_
    exact accounts_pure rfl
  · exact accounts_pure rfl

theorem handlers_accounts : Rule.handlers.Accounts symbols := by
  intro p
  refine accounts_bind accounts_here fun token q => ?_
  refine accounts_bind (accounts_accept rfl) fun found q => ?_
  split
  · refine accounts_bind (payload_accounts symbols) fun name q => ?_
    refine accounts_bind (accounts_run (.block none)) fun block q => ?_
    cases block with
    | some block =>
      refine accounts_pure_bind (accounts_bind (accounts_run .handlers) fun rest q => ?_)
      exact accounts_pure (by simp)
    | none =>
      refine accounts_bind (accounts_require (accounts_run (.level .bitwise))) fun rhs q => ?_
      refine accounts_bind (accounts_run .handlers) fun rest q => ?_
      exact accounts_pure (by simp)
  · exact accounts_pure rfl

theorem elements_accounts :
    Script.Accounts symbols p elements [] fun v => (v.map Tree.names).getD [] := by
  refine accounts_bind accounts_here fun token q => ?_
  refine accounts_bind (accounts_accept rfl) fun found q => ?_
  split
  · refine accounts_bind (accounts_run (.listed .curly)) fun items q => ?_
    exact accounts_pure (by simp)
  · exact accounts_pure rfl

theorem simple_accounts :
    Script.Accounts symbols p simple [] fun v => (v.map Tree.names).getD [] := by
  refine accounts_bind accounts_sight fun s q => ?_
  split
  · exact elements_accounts symbols
  · exact accounts_run .suffixed

theorem isName_of_unary {kind : TokenKind} {op : UnaryOp} (h : UnaryOp.ofKind? kind = some op) :
    kind.isName = false := by
  cases kind <;> first | rfl | cases h

theorem unary_accounts : Rule.unary.Accounts symbols := by
  intro p
  refine accounts_sight_bind ?_
  split
  · rename_i op h
    refine accounts_bind (accounts_take (isName_of_unary h)) fun _ q => ?_
    refine accounts_bind (accounts_deeper .operand) fun operand q => ?_
    exact accounts_pure (by simp)
  · exact simple_accounts symbols

theorem operand_accounts : Rule.operand.Accounts symbols := fun _ =>
  accounts_require (accounts_run .unary)

theorem listed_accounts (bracket : Bracket) : (Rule.listed bracket).Accounts symbols := by
  intro p
  have hc : bracket.closing.isName = false := by cases bracket <;> rfl
  refine accounts_bind (accounts_accept hc) fun closed q => ?_
  split
  · exact accounts_pure rfl
  · refine accounts_bind (accounts_require (accounts_deeper .expression)) fun item q => ?_
    refine accounts_bind (accounts_accept rfl) fun more q => ?_
    split
    · refine accounts_bind (accounts_run (.listed bracket)) fun rest q => ?_
      exact accounts_pure (by simp)
    · refine accounts_bind (accounts_expect hc) fun _ q => ?_
      exact accounts_pure (by simp)

/-! ## Primaries -/

theorem isName_of_leaf {s : Symbol} {form : Form Tree} (h : s.leaf? = some form) :
    s.kind.isName = true := by
  obtain ⟨kind, text⟩ := s
  cases kind <;> first | rfl | cases h

/-- A symbol that is an operand by itself is the one name of its form. -/
theorem names_of_leaf {s : Symbol} {form : Form Tree} (h : s.leaf? = some form)
    (hs : s.kind.isFixed = true → s.text = s.kind.name) (token : Nat) :
    (Tree.node token form).names = [s] := by
  obtain ⟨kind, text⟩ := s
  have hword (hk : kind.isFixed = true) : [Symbol.word kind] = [⟨kind, text⟩] := by
    rw [Symbol.word, ← hs hk]
  cases kind <;> cases h <;> first | rfl | exact hword rfl

theorem functionValue_accounts : Script.Accounts symbols p functionValue [] Tree.names := by
  refine accounts_bind accounts_here fun token q => ?_
  refine accounts_bind (accounts_run (.prototype false false)) fun signature q => ?_
  refine accounts_bind (accounts_run (.block none)) fun body q => ?_
  cases body with
  | some body => exact accounts_pure (by simp)
  | none => exact accounts_pure (by simp)

theorem primary_accounts (hs : symbols.Regular) : Rule.primary.Accounts symbols := by
  intro p
  refine accounts_sight_bind ?_
  split
  · rename_i form h
    refine accounts_bind (accounts_take_name (isName_of_leaf h)) fun _ q => ?_
    exact accounts_pure (by simpa using names_of_leaf h (hs p) p)
  · split
    · refine accounts_bind (functionValue_accounts symbols) fun value q => ?_
      exact accounts_pure (by simp)
    · refine accounts_bind (accounts_run .selection) fun value q => ?_
      exact accounts_pure (by simp)
    · rename_i h
      refine accounts_bind (accounts_take ?_) fun _ q => ?_
      · rw [← Symbols.sight_kind, h]
        rfl
      refine accounts_bind (accounts_require (accounts_deeper .expression)) fun inner q => ?_
      refine accounts_bind (accounts_expect rfl) fun _ q => ?_
      exact accounts_pure (by simp)
    · exact accounts_pure rfl

theorem suffixed_accounts : Rule.suffixed.Accounts symbols := by
  intro p
  refine accounts_bind (accounts_run .primary) fun first q => ?_
  cases first with
  | none => exact accounts_pure rfl
  | some first =>
    refine accounts_bind (accounts_run .suffixes) fun rest q => ?_
    have hform (target : Tree) (x : Nat × Suffix) :
        (Tree.node x.1 (x.2.form target)).names = target.names ++ x.2.names := by
      obtain ⟨token, suffix⟩ := x
      cases suffix <;> simp [Suffix.form]
    have hfold := names_foldl hform rest first
    exact accounts_pure (by simpa using hfold)

theorem sentinel_accounts :
    Script.Accounts symbols p sentinel [] fun v => (v.map Tree.names).getD [] := by
  refine accounts_bind (accounts_accept rfl) fun found q => ?_
  split
  · refine accounts_bind (accounts_require (accounts_deeper .expression)) fun value q => ?_
    exact accounts_pure (by simp)
  · exact accounts_pure rfl

theorem subscript_accounts : Script.Accounts symbols p subscript [] Suffix.names := by
  refine accounts_bind (accounts_require (accounts_deeper .expression)) fun start q => ?_
  refine accounts_bind (accounts_accept rfl) fun isSlice q => ?_
  split
  · refine accounts_bind (accounts_require (accounts_deeper .expression)) fun stop q => ?_
    refine accounts_bind (sentinel_accounts symbols) fun sentinel q => ?_
    refine accounts_bind (accounts_expect rfl) fun _ q => ?_
    exact accounts_pure (by simp)
  · refine accounts_bind (accounts_expect rfl) fun _ q => ?_
    exact accounts_pure (by simp)

theorem suffixes_accounts : Rule.suffixes.Accounts symbols := by
  intro p
  refine accounts_sight_bind ?_
  have htake {kind : TokenKind} (h : (symbols.sight p).kind = kind) (hk : kind.isName = false) :
      Script.Accounts symbols p (take (done ())) [] fun _ => [] :=
    accounts_take (by rw [← Symbols.sight_kind, h, hk])
  split
  · rename_i h
    refine accounts_bind (htake h rfl) fun _ q => ?_
    refine accounts_bind accounts_expect_name fun name q => ?_
    refine accounts_bind (accounts_run .suffixes) fun rest q => ?_
    exact accounts_pure (by simp)
  · rename_i h
    refine accounts_bind (htake h rfl) fun _ q => ?_
    refine accounts_bind (subscript_accounts symbols) fun suffix q => ?_
    refine accounts_bind (accounts_run .suffixes) fun rest q => ?_
    exact accounts_pure (by simp)
  · rename_i h
    refine accounts_bind (htake h rfl) fun _ q => ?_
    refine accounts_bind (accounts_run (.listed .round)) fun args q => ?_
    refine accounts_bind (accounts_run .suffixes) fun rest q => ?_
    exact accounts_pure (by simp)
  · exact accounts_pure rfl

/-- The length of an array that is to be inferred is a name, `_`. -/
theorem arraySize_accounts :
    Script.Accounts symbols p arraySize [] fun v =>
      (if v.1 = .inferred then [.name "_"] else []) ++ (v.2.map Tree.names).getD [] := by
  refine accounts_sight_bind ?_
  split
  · exact accounts_pure rfl
  split
  · rename_i h
    simp only [Sight.infersLength, Symbols.sight_kind, Bool.and_eq_true, decide_eq_true_eq] at h
    obtain ⟨⟨hdecide, htext⟩, -⟩ := h
    have hkind : (symbols.symbolAt p).kind = .identifier := of_decide_eq_true hdecide
    refine accounts_bind (accounts_take_name (by rw [hkind]; rfl)) fun _ q => ?_
    have hat : symbols.symbolAt p = .name "_" := by
      rw [Symbol.name, ← hkind, ← htext]
      rfl
    exact accounts_pure (by simp [hat])
  · refine accounts_bind (accounts_require (accounts_deeper .expression)) fun length q => ?_
    exact accounts_pure (by simp)

theorem type_accounts : Rule.type.Accounts symbols := by
  intro p
  refine accounts_bind accounts_here fun token q => ?_
  refine accounts_bind (accounts_accept rfl) fun isOptional q => ?_
  split
  · refine accounts_bind (accounts_deeper .innerType) fun child q => ?_
    exact accounts_pure (by simp)
  refine accounts_bind (accounts_accept rfl) fun isArray q => ?_
  split
  · refine accounts_bind (arraySize_accounts symbols) fun found q => ?_
    obtain ⟨kind, size⟩ := found
    refine accounts_bind (sentinel_accounts symbols) fun sentinel q => ?_
    refine accounts_bind (accounts_expect rfl) fun _ q => ?_
    refine accounts_bind (accounts_deeper .innerType) fun element q => ?_
    exact accounts_pure (by simp)
  · exact accounts_run .suffixed

theorem innerType_accounts : Rule.innerType.Accounts symbols := fun _ =>
  accounts_require (accounts_run .type)

end FrontEnd.Grammar
