import FrontEnd.Proofs.Parser.Contract

/-!
Reading makes progress, and comes to an end. A production that finds a tree has
taken a symbol, one that finds none has taken nothing, and between two symbols
taken rules call each other in the order of their ranks only. So the budget of a
run is never exhausted.
-/

namespace FrontEnd

/-- From `p` to `q` at least one symbol was taken. -/
def Symbols.Forward (symbols : Symbols) (p q : Nat) : Prop := p < q ∧ q ≤ symbols.size

/-- What was looked for at `p` was found and taken up to `q`, or nothing was taken. -/
def Symbols.Finds {α : Type} (symbols : Symbols) (p : Nat) (found : Option α) (q : Nat) : Prop :=
  if found.isSome then symbols.Forward p q else q = p

/-- How far a rule has gone that read a value. -/
def Rule.Advances (symbols : Symbols) : (r : Rule) → Nat → r.Result → Nat → Prop
  | .statement, p, v, q | .labelled, p, v, q | .expression, p, v, q | .level _, p, v, q
  | .recovery, p, v, q | .unary, p, v, q | .suffixed, p, v, q | .primary, p, v, q
  | .type, p, v, q | .block _, p, v, q => symbols.Finds p v q
  | .attempts, p, v, q => symbols.Finds p v.head? q
  | .unit, p, _, q | .params, p, _, q | .modifiers, p, _, q | .operands _, p, _, q
  | .handlers, p, _, q | .suffixes, p, _, q | .listed _, p, _, q => q = p ∨ symbols.Forward p q
  | _, p, _, q => symbols.Forward p q

/-- A rule calls only rules of smaller rank before it takes a symbol. -/
def Rule.rank : Rule → Nat
  | .primary | .function | .labelled => 1
  | .suffixed => 2
  | .unary | .type => 3
  | .operand | .innerType | .params | .fields | .declaration | .level .product => 4
  | .level .sum => 5
  | .level .shift => 6
  | .level .bitwise => 7
  | .recovery => 8
  | .level .comparison => 9
  | .level .disjunction => 10
  | .level .conjunction => 11
  | .expression => 12
  | .level .assignment | .listed _ | .items => 13
  | .branch | .body | .statement => 14
  | .branches | .statements | .unit => 15
  | _ => 0

/-- Rule `r`, called at `p`, may call `r'` at `q`. -/
def Rule.Descends (symbols : Symbols) (r : Rule) (p : Nat) (r' : Rule) (q : Nat) : Prop :=
  symbols.Forward p q ∨ q = p ∧ r'.rank < r.rank

/-- What the rule `r` called at `p` relies on and keeps. -/
def progress (symbols : Symbols) (r : Rule) (p : Nat) : Contract where
  allows := r.Descends symbols p
  reads _ r p v q := r.Advances symbols p v q

namespace Symbols

variable {symbols : Symbols} {p q r : Nat}

theorem Forward.trans (h : symbols.Forward p q) (h' : symbols.Forward q r) :
    symbols.Forward p r := by
  unfold Forward at *
  omega

theorem Forward.next (h : symbols.Forward p q) : symbols.Forward p (symbols.next q) := by
  have hle := symbols.le_next q
  have hsize := next_le h.2
  unfold Forward at *
  omega

theorem forward_next (h : (symbols.symbolAt p).kind ≠ .endOfFile) :
    symbols.Forward p (symbols.next p) := by
  have hlt := lt_size_of_kind h
  rw [next_eq h]
  unfold Forward
  omega

theorem forward_of_kind {kind : TokenKind} (h : (symbols.symbolAt p).kind = kind)
    (hk : kind ≠ .endOfFile) : symbols.Forward p (symbols.next p) :=
  forward_next (h ▸ hk)

theorem next_eq_or_forward (symbols : Symbols) (p : Nat) :
    symbols.next p = p ∨ symbols.Forward p (symbols.next p) := by
  by_cases h : (symbols.symbolAt p).kind = .endOfFile
  · unfold next Forward
    split <;> omega
  · exact .inr (forward_next h)

end Symbols

theorem Symbols.Finds.eq_or_forward {α : Type} {symbols : Symbols} {p q : Nat}
    {found : Option α} (h : symbols.Finds p found q) : q = p ∨ symbols.Forward p q := by
  unfold Finds at h
  split at h
  · exact .inr h
  · exact .inl h

theorem Symbols.Finds.forward {α : Type} {symbols : Symbols} {p q : Nat} {found : Option α}
    (h : symbols.Finds p found q) (hsome : found.isSome = true) : symbols.Forward p q := by
  unfold Finds at h
  rwa [if_pos hsome] at h

theorem Rule.Advances.eq_or_forward {symbols : Symbols} {r : Rule} {p q : Nat} {v : r.Result}
    (h : r.Advances symbols p v q) : q = p ∨ symbols.Forward p q := by
  cases r with
  | statement | labelled | expression | level | recovery | unary | suffixed | primary | type
  | block | attempts => exact Symbols.Finds.eq_or_forward h
  | unit | params | modifiers | operands | handlers | suffixes | listed => exact h
  | _ => exact .inr h

namespace Script

variable {α β : Type} {symbols : Symbols} {limit depth p₀ p : Nat} {o : Rule}

/-- Behind a symbol that was taken, all calls are allowed. -/
theorem ensures_of_forward (x : Script α) (h : symbols.Forward p₀ p) :
    x.Ensures (progress symbols o p₀) symbols limit depth p fun _ q => symbols.Forward p₀ q := by
  have hreads : ∀ {r : Rule} {p q : Nat} {v : r.Result}, symbols.Forward p₀ p →
      r.Advances symbols p v q → symbols.Forward p₀ q := by
    intro r p q v hp hv
    rcases hv.eq_or_forward with rfl | hq
    · exact hp
    · exact hp.trans hq
  induction x generalizing p with
  | done value => exact h
  | fail cause => trivial
  | look next ih => exact ih _ h
  | take next ih => exact ih h.next
  | call r next ih => exact ⟨.inl h, fun v q hv => ih v (hreads h hv)⟩
  | nest r next ih => exact fun _ => ⟨.inl h, fun v q hv => ih v (hreads h hv)⟩

theorem ensures_run {r : Rule} (hr : r.rank < o.rank) :
    (run r).Ensures (progress symbols o p) symbols limit depth p (r.Advances symbols p) :=
  ⟨.inr ⟨rfl, hr⟩, fun _ _ h => h⟩

theorem ensures_deeper {r : Rule} (hr : r.rank < o.rank) :
    (deeper r).Ensures (progress symbols o p) symbols limit depth p (r.Advances symbols p) :=
  fun _ => ⟨.inr ⟨rfl, hr⟩, fun _ _ h => h⟩

/-- The same where it is not known whether a symbol was taken. -/
theorem ensures_run_of {r : Rule} (hp : p = p₀ ∨ symbols.Forward p₀ p) (hr : r.rank < o.rank) :
    (run r).Ensures (progress symbols o p₀) symbols limit depth p (r.Advances symbols p) :=
  ⟨hp.symm.imp_right fun h => ⟨h, hr⟩, fun _ _ h => h⟩

/-- A script that begins with a symbol it must take goes forward. -/
theorem ensures_expect_bind {kind : TokenKind} (f : String → Script α) (hk : kind ≠ .endOfFile) :
    (expect kind >>= f).Ensures (progress symbols o p) symbols limit depth p fun _ q =>
      symbols.Forward p q := by
  rw [ensures_bind, ensures_expect]
  intro h
  exact ensures_of_forward _ (Symbols.forward_of_kind h hk)

/-- A symbol that may be taken leaves to say what happens where it is not. -/
theorem ensures_accept_bind {kind : TokenKind} {f : Bool → Script α} {Q : α → Nat → Prop}
    (hk : kind ≠ .endOfFile) (hQ : ∀ v q, symbols.Forward p q → Q v q)
    (hf : (f false).Ensures (progress symbols o p) symbols limit depth p Q) :
    (accept kind >>= f).Ensures (progress symbols o p) symbols limit depth p Q := by
  rw [ensures_bind, ensures_accept]
  exact ⟨fun h => (ensures_of_forward _ (Symbols.forward_of_kind h hk)).mono hQ, fun _ => hf⟩

/-- The same of a script that looks for something, and finds it behind the symbol. -/
theorem ensures_accept_find {kind : TokenKind} {f : Bool → Script (Option α)}
    (hk : kind ≠ .endOfFile)
    (ht : ∀ q, symbols.Forward p q →
      (f true).Ensures (progress symbols o p) symbols limit depth q (symbols.Finds p))
    (hf : (f false).Ensures (progress symbols o p) symbols limit depth p (symbols.Finds p)) :
    (accept kind >>= f).Ensures (progress symbols o p) symbols limit depth p
      (symbols.Finds p) := by
  rw [ensures_bind, ensures_accept]
  exact ⟨fun h => ht _ (Symbols.forward_of_kind h hk), fun _ => hf⟩

/-- What must be found is found behind a symbol taken. -/
theorem ensures_require_of {what : Expectation} {x : Script (Option α)}
    (hx : x.Ensures (progress symbols o p) symbols limit depth p (symbols.Finds p)) :
    (require what x).Ensures (progress symbols o p) symbols limit depth p fun _ q =>
      symbols.Forward p q := by
  rw [ensures_require]
  refine hx.mono fun v q h t ht => ?_
  subst ht
  exact h

theorem ensures_require_bind {what : Expectation} {x : Script (Option α)} (f : α → Script β)
    (hx : x.Ensures (progress symbols o p) symbols limit depth p (symbols.Finds p)) :
    (require what x >>= f).Ensures (progress symbols o p) symbols limit depth p fun _ q =>
      symbols.Forward p q :=
  Ensures.bind (ensures_require_of hx) fun _ _ h => ensures_of_forward _ h

/-- What follows something found goes on; where nothing is found the script turns to `y`. -/
theorem ensures_find_bind {x : Script (Option α)} {f : Option α → Script (Option β)}
    (hx : x.Ensures (progress symbols o p) symbols limit depth p (symbols.Finds p))
    (hsome : ∀ v q, symbols.Forward p q →
      (f (some v)).Ensures (progress symbols o p) symbols limit depth q (symbols.Finds p))
    (hnone : (f none).Ensures (progress symbols o p) symbols limit depth p (symbols.Finds p)) :
    (x >>= f).Ensures (progress symbols o p) symbols limit depth p (symbols.Finds p) := by
  rw [ensures_bind]
  refine hx.mono fun v q h => ?_
  cases v with
  | none =>
    obtain rfl : q = p := h
    exact hnone
  | some v => exact hsome v q h

/-- A tree read behind a symbol taken is found. -/
theorem ensures_some_of_forward {x : Script α} {g : α → β} (h : symbols.Forward p₀ p) :
    (x >>= fun v => pure (some (g v))).Ensures (progress symbols o p₀) symbols limit depth p
      (symbols.Finds p₀) :=
  Ensures.bind (ensures_of_forward x h) fun _ _ hq => hq

end Script

/-- The script of the rule keeps the contract of progress. -/
def Rule.Progresses (symbols : Symbols) (r : Rule) : Prop :=
  ∀ limit depth p,
    r.script.Ensures (progress symbols r p) symbols limit depth p (r.Advances symbols p)

namespace Grammar

open Script

variable (symbols : Symbols)

/-! ## Declarations -/

theorem function_progresses : Rule.function.Progresses symbols := fun _ _ _ =>
  ensures_accept_bind (by decide) (fun _ _ => id) <|
    ensures_accept_bind (by decide) (fun _ _ => id) <|
      Ensures.bind (ensures_run (r := .prototype false false) (by decide)) fun _ _ h =>
        ensures_of_forward _ h

theorem prototype_progresses (isExport isExtern : Bool) :
    (Rule.prototype isExport isExtern).Progresses symbols := fun _ _ _ =>
  ensures_expect_bind _ (by decide)

theorem params_progresses : Rule.params.Progresses symbols := by
  intro limit depth p
  simp only [Rule.script, params]
  rw [ensures_bind, ensures_here]
  refine Ensures.bind (ensures_run (r := .type) (by decide)) fun type q h => ?_
  cases type with
  | none => exact .inl h
  | some type => exact (ensures_of_forward _ h).mono fun _ _ => .inr

theorem record_progresses : Rule.record.Progresses symbols := fun _ _ _ =>
  ensures_accept_bind (by decide) (fun _ _ => id) <|
    ensures_accept_bind (by decide) (fun _ _ => id) <| ensures_expect_bind _ (by decide)

theorem fields_progresses : Rule.fields.Progresses symbols := fun _ _ _ =>
  ensures_accept_bind (by decide) (fun _ _ => id) <|
    Ensures.bind
      (ensures_require_bind _ (ensures_run (o := .fields) (r := .type) (by decide)))
      fun _ _ h => ensures_of_forward _ h

theorem enumeration_progresses : Rule.enumeration.Progresses symbols := fun _ _ _ =>
  ensures_accept_bind (by decide) (fun _ _ => id) <| ensures_expect_bind _ (by decide)

theorem variants_progresses : Rule.variants.Progresses symbols :=
  fun _ _ _ => ensures_expect_bind _ (by decide)

theorem modifiers_progresses : Rule.modifiers.Progresses symbols := fun _ _ _ =>
  ensures_accept_bind (by decide) (fun _ _ => .inr) <|
    ensures_accept_bind (by decide) (fun _ _ => .inr) <| .inl rfl

theorem declaration_progresses : Rule.declaration.Progresses symbols := by
  intro limit depth p
  refine ensures_accept_bind (by decide) (fun _ _ => id) ?_
  refine Ensures.bind (ensures_run (o := .declaration) (r := .modifiers) (by decide))
    fun found q h => ?_
  rcases h with rfl | h
  · obtain ⟨isMutable, isConst⟩ := found
    dsimp only
    split
    · trivial
    · rw [ensures_bind, ensures_sight]
      split
      · exact ensures_expect_bind _ (by decide)
      · refine Ensures.bind (P := fun _ => symbols.Forward q) ?_ fun _ _ h =>
          ensures_of_forward _ h
        rw [ensures_map]
        exact ensures_require_of (ensures_run (r := .type) (by decide))
  · exact ensures_of_forward _ h

/-! ## Operators -/

theorem operandOf_finds {limit depth p : Nat} (l : Level) :
    (operandOf l).Ensures (progress symbols (.level l) p) symbols limit depth p
      (symbols.Finds p) := by
  cases l with
  | assignment => exact ensures_deeper (r := .expression) (by decide)
  | conjunction => exact ensures_run (r := .level .disjunction) (by decide)
  | disjunction => exact ensures_run (r := .level .comparison) (by decide)
  | comparison => exact ensures_run (r := .recovery) (by decide)
  | bitwise => exact ensures_run (r := .level .shift) (by decide)
  | shift => exact ensures_run (r := .level .sum) (by decide)
  | sum => exact ensures_run (r := .level .product) (by decide)
  | product => exact ensures_run (r := .unary) (by decide)

theorem attempted_progresses : Rule.expression.Progresses symbols := by
  intro limit depth p
  refine Ensures.bind (ensures_run (r := .attempts) (by decide)) fun tries q h => ?_
  cases tries with
  | nil =>
    obtain rfl : q = p := h
    exact ensures_find_bind (ensures_run (r := .level .conjunction) (by decide))
      (fun v q h => h) rfl
  | cons token tries =>
    refine Ensures.bind (ensures_of_forward _ h) fun v q h => ?_
    cases v with
    | none => trivial
    | some v => exact h

theorem attempts_progresses : Rule.attempts.Progresses symbols := by
  intro limit depth p
  simp only [Rule.script, attempts]
  rw [ensures_bind, ensures_here, ensures_bind, ensures_accept]
  refine ⟨fun h => ?_, fun _ => rfl⟩
  exact Ensures.bind (ensures_of_forward _ (Symbols.forward_of_kind h (by decide)))
    fun _ _ h => h

theorem level_progresses (l : Level) : (Rule.level l).Progresses symbols := fun _ _ _ =>
  ensures_find_bind (operandOf_finds symbols l) (fun _ _ h => ensures_some_of_forward h) rfl

theorem kind_ne_endOfFile_of_operator {l : Level} {kind : TokenKind} {op : BinaryOp}
    (h : l.operator? kind = some op) : kind ≠ .endOfFile := by
  rintro rfl
  cases l <;> cases h

theorem operands_progresses (l : Level) : (Rule.operands l).Progresses symbols := by
  intro limit depth p
  simp only [Rule.script, operands]
  rw [ensures_bind, ensures_sight]
  split
  · exact .inl rfl
  · rename_i op h
    have hp := Symbols.forward_next (kind_ne_endOfFile_of_operator h)
    exact (ensures_of_forward _ hp).mono fun _ _ => .inr

theorem recovery_progresses : Rule.recovery.Progresses symbols := fun _ _ _ =>
  ensures_find_bind (ensures_run (r := .level .bitwise) (by decide))
    (fun _ _ h => ensures_some_of_forward h) rfl

theorem handlers_progresses : Rule.handlers.Progresses symbols := fun _ _ _ =>
  ensures_accept_bind (by decide) (fun _ _ => .inr) <| .inl rfl

theorem elements_finds {limit depth p : Nat} :
    elements.Ensures (progress symbols .unary p) symbols limit depth p (symbols.Finds p) := by
  simp only [elements]
  rw [ensures_bind, ensures_here, ensures_bind, ensures_accept]
  refine ⟨fun h => ?_, fun h => rfl⟩
  exact ensures_some_of_forward (Symbols.forward_of_kind h (by decide))

theorem simple_finds {limit depth p : Nat} :
    simple.Ensures (progress symbols .unary p) symbols limit depth p (symbols.Finds p) := by
  simp only [simple]
  rw [ensures_bind, ensures_sight, ensures_ite]
  exact ⟨fun _ => elements_finds symbols, fun _ => ensures_run (r := .suffixed) (by decide)⟩

theorem kind_ne_endOfFile_of_unary {kind : TokenKind} {op : UnaryOp}
    (h : UnaryOp.ofKind? kind = some op) : kind ≠ .endOfFile := by
  rintro rfl
  cases h

theorem unary_progresses : Rule.unary.Progresses symbols := by
  intro limit depth p
  simp only [Rule.script, unary]
  rw [ensures_bind, ensures_sight]
  split
  · rename_i op h
    rw [ensures_bind, ensures_take]
    exact ensures_some_of_forward (Symbols.forward_next (kind_ne_endOfFile_of_unary h))
  · exact simple_finds symbols

theorem operand_progresses : Rule.operand.Progresses symbols := fun _ _ _ =>
  ensures_require_of (ensures_run (r := .unary) (by decide))

theorem listed_progresses (bracket : Bracket) : (Rule.listed bracket).Progresses symbols := by
  intro limit depth p
  simp only [Rule.script, listed]
  rw [ensures_bind, ensures_accept]
  refine ⟨fun _ => symbols.next_eq_or_forward p, fun _ => ?_⟩
  have hrank : Rule.rank .expression < (Rule.listed bracket).rank := by
    change 12 < 13
    decide
  exact (ensures_require_bind _ (ensures_deeper hrank)).mono fun _ _ => .inr

/-! ## Primaries -/

theorem kind_ne_endOfFile_of_leaf {s : Symbol} {form : Form Tree} (h : s.leaf? = some form) :
    s.kind ≠ .endOfFile := by
  intro he
  simp [Symbol.leaf?, he] at h

theorem functionValue_progresses {limit depth p : Nat} :
    functionValue.Ensures (progress symbols .primary p) symbols limit depth p fun _ q =>
      symbols.Forward p q := by
  rw [functionValue, ensures_bind, ensures_here]
  exact Ensures.bind (ensures_run (r := .prototype false false) (by decide)) fun _ _ h =>
    ensures_of_forward _ h

theorem primary_progresses : Rule.primary.Progresses symbols := by
  intro limit depth p
  simp only [Rule.script, primary]
  rw [ensures_bind, ensures_sight]
  split
  · rename_i form h
    change symbols.Forward p (symbols.next p)
    exact Symbols.forward_next (kind_ne_endOfFile_of_leaf h)
  · split
    · exact Ensures.bind (functionValue_progresses symbols) fun _ _ h => h
    · exact Ensures.bind (ensures_run (r := .selection) (by decide)) fun _ _ h => h
    · rename_i h
      have hp := Symbols.forward_of_kind h (by decide)
      rw [ensures_bind, ensures_take]
      exact Ensures.bind (ensures_of_forward (require .expression expression) hp)
        fun _ _ hq => ensures_some_of_forward (g := fun _ => _) hq
    · rfl

theorem suffixed_progresses : Rule.suffixed.Progresses symbols := fun _ _ _ =>
  ensures_find_bind (ensures_run (r := .primary) (by decide))
    (fun _ _ h => ensures_some_of_forward h) rfl

theorem suffixes_progresses : Rule.suffixes.Progresses symbols := by
  intro limit depth p
  simp only [Rule.script, suffixes]
  rw [ensures_bind, ensures_sight]
  have htaken {kind : TokenKind} (h : (symbols.symbolAt p).kind = kind) (hk : kind ≠ .endOfFile)
      (x : Script (List (Nat × Suffix))) :
      (take x).Ensures (progress symbols .suffixes p) symbols limit depth p fun _ q =>
        q = p ∨ symbols.Forward p q :=
    (ensures_of_forward x (Symbols.forward_of_kind h hk)).mono fun _ _ => .inr
  split
  · rename_i h
    exact htaken h (by decide) _
  · rename_i h
    exact htaken h (by decide) _
  · rename_i h
    exact htaken h (by decide) _
  · exact .inl rfl

theorem type_progresses : Rule.type.Progresses symbols := fun _ _ _ =>
  ensures_accept_find (by decide) (fun _ h => ensures_some_of_forward h) <|
    ensures_accept_find (by decide)
      (fun _ h => Ensures.bind (ensures_of_forward arraySize h) fun _ _ h =>
        Ensures.bind (ensures_of_forward sentinel h) fun _ _ h =>
          Ensures.bind (ensures_of_forward (expect .rightBracket) h) fun _ _ h =>
            ensures_some_of_forward h) <|
      ensures_run (r := .suffixed) (by decide)

theorem innerType_progresses : Rule.innerType.Progresses symbols := fun _ _ _ =>
  ensures_require_of (ensures_run (r := .type) (by decide))

/-! ## Statements -/

theorem unit_progresses : Rule.unit.Progresses symbols := by
  intro limit depth p
  simp only [Rule.script, unit]
  rw [ensures_bind, ensures_sight]
  split
  · exact .inl rfl
  · exact (ensures_require_bind _ (ensures_deeper (r := .statement) (by decide))).mono
      fun _ _ => .inr

theorem block_progresses (label : Option String) : (Rule.block label).Progresses symbols := by
  intro limit depth p
  simp only [Rule.script, block]
  rw [ensures_bind, ensures_here, ensures_bind, ensures_accept]
  refine ⟨fun h => ?_, fun h => rfl⟩
  exact ensures_some_of_forward (Symbols.forward_of_kind h (by decide))

theorem statements_progresses : Rule.statements.Progresses symbols := fun _ _ _ =>
  ensures_accept_bind (by decide) (fun _ _ => id) <|
    ensures_require_bind _ (ensures_deeper (r := .statement) (by decide))

theorem blockOrAssignment_progresses {limit depth p : Nat} {o : Rule}
    (ho : Rule.rank (.level .assignment) < o.rank) :
    blockOrAssignment.Ensures (progress symbols o p) symbols limit depth p fun _ q =>
      symbols.Forward p q := by
  have hblock : Rule.rank (.block none) < o.rank := Nat.lt_of_le_of_lt (Nat.zero_le _) ho
  refine Ensures.bind (ensures_run hblock) fun block q h => ?_
  cases block with
  | some block => exact h
  | none =>
    obtain rfl : q = p := h
    exact ensures_require_bind _ (ensures_run ho)

theorem body_progresses : Rule.body.Progresses symbols := by
  intro limit depth p
  exact Ensures.bind (blockOrAssignment_progresses symbols (by decide)) fun _ _ h =>
    ensures_of_forward _ h

theorem conditional_progresses : Rule.conditional.Progresses symbols := fun _ _ _ =>
  ensures_accept_bind (by decide) (fun _ _ => id) <| ensures_expect_bind _ (by decide)

theorem loop_progresses (label : Option String) : (Rule.loop label).Progresses symbols :=
  fun _ _ _ => ensures_expect_bind _ (by decide)

theorem whileLoop_progresses (label : Option String) :
    (Rule.whileLoop label).Progresses symbols := fun _ _ _ =>
  ensures_expect_bind _ (by decide)

theorem selection_progresses : Rule.selection.Progresses symbols := fun _ _ _ =>
  ensures_expect_bind _ (by decide)

theorem branches_progresses : Rule.branches.Progresses symbols := fun _ _ _ =>
  Ensures.bind (ensures_run (r := .branch) (by decide)) fun _ _ h => ensures_of_forward _ h

theorem items_progresses : Rule.items.Progresses symbols := by
  intro limit depth p
  have hitem : item.Ensures (progress symbols .items p) symbols limit depth p fun _ q =>
      symbols.Forward p q :=
    ensures_require_bind _ (ensures_deeper (r := .expression) (by decide))
  exact Ensures.bind hitem fun _ _ h => ensures_of_forward _ h

theorem branch_progresses : Rule.branch.Progresses symbols := fun _ _ _ =>
  ensures_accept_bind (by decide) (fun _ _ => id) <|
    ensures_accept_bind (by decide) (fun _ _ => id) <|
      ensures_accept_bind (by decide) (fun _ _ => id) <|
        Ensures.bind (ensures_run (r := .items) (by decide)) fun _ _ h =>
          ensures_of_forward _ h

theorem label_finds {limit depth p : Nat} {o : Rule} :
    label.Ensures (progress symbols o p) symbols limit depth p (symbols.Finds p) := by
  simp only [label]
  rw [ensures_bind, ensures_sight, ensures_ite]
  refine ⟨fun h => ?_, fun _ => rfl⟩
  have hp : symbols.Forward p (symbols.next p) := by
    apply Symbols.forward_of_kind _ (by decide : TokenKind.identifier ≠ .endOfFile)
    simp only [Bool.and_eq_true, decide_eq_true_eq] at h
    exact h.1
  exact hp.next

theorem loopIfAny_finds {limit depth p q : Nat} (label : Option String)
    (hq : q = p ∨ symbols.Forward p q) :
    (loopIfAny label).Ensures (progress symbols .labelled p) symbols limit depth q
      (symbols.Finds q) := by
  simp only [loopIfAny]
  rw [ensures_bind, ensures_sight]
  have hloop : Rule.rank (.loop label) < Rule.rank .labelled := Nat.zero_lt_one
  have hwhile : Rule.rank (.whileLoop label) < Rule.rank .labelled := Nat.zero_lt_one
  split
  · exact Ensures.bind (ensures_run_of hq hloop) fun _ _ h => h
  · exact Ensures.bind (ensures_run_of hq hwhile) fun _ _ h => h
  · rfl

theorem labelled_progresses : Rule.labelled.Progresses symbols := by
  intro limit depth p
  refine Ensures.bind (label_finds symbols) fun label q h => ?_
  have hq := h.eq_or_forward
  have hthen {q' : Nat} (h' : symbols.Forward q q') : symbols.Forward p q' := by
    rcases hq with rfl | hq
    · exact h'
    · exact hq.trans h'
  have hblock : Rule.rank (.block label) < Rule.rank .labelled := Nat.zero_lt_one
  refine Ensures.bind (ensures_run_of hq hblock) fun block r hb => ?_
  cases block with
  | some block => exact hthen hb
  | none =>
    obtain rfl : r = q := hb
    refine Ensures.bind (loopIfAny_finds symbols label hq) fun loop t hl => ?_
    cases loop with
    | some loop => exact hthen hl
    | none =>
      obtain rfl : t = r := hl
      cases label with
      | some label => trivial
      | none => exact h

theorem expressionStatement_finds {limit depth p : Nat} :
    expressionStatement.Ensures (progress symbols .statement p) symbols limit depth p
      (symbols.Finds p) :=
  ensures_find_bind (ensures_run (r := .level .assignment) (by decide))
    (fun v _ h => ensures_some_of_forward (g := fun _ => v) h) rfl

/-- A tree that begins with a symbol taken is found. -/
theorem ensures_some_of {limit depth p : Nat} {o : Rule} {x : Script Tree}
    (hx : x.Ensures (progress symbols o p) symbols limit depth p fun _ q =>
      symbols.Forward p q) :
    (x >>= fun t => pure (some t)).Ensures (progress symbols o p) symbols limit depth p
      (symbols.Finds p) :=
  Ensures.bind hx fun _ _ h => h

theorem containerIfAny_finds {limit depth p : Nat} :
    containerIfAny.Ensures (progress symbols .statement p) symbols limit depth p
      (symbols.Finds p) := by
  simp only [containerIfAny]
  rw [ensures_bind, ensures_sight]
  split
  · exact ensures_some_of symbols (ensures_run (r := .function) (by decide))
  split
  · exact ensures_some_of symbols (ensures_run (r := .record) (by decide))
  split
  · exact ensures_some_of symbols (ensures_run (r := .enumeration) (by decide))
  · rfl

theorem variableIfAny_finds {limit depth p : Nat} :
    variableIfAny.Ensures (progress symbols .statement p) symbols limit depth p
      (symbols.Finds p) := by
  simp only [variableIfAny]
  rw [ensures_bind, ensures_sight]
  split
  · exact ensures_some_of symbols (ensures_run (r := .declaration) (by decide))
  · rfl

theorem statement_progresses : Rule.statement.Progresses symbols := by
  intro limit depth p
  refine ensures_find_bind (containerIfAny_finds symbols) (fun _ _ h => h) ?_
  refine ensures_find_bind (variableIfAny_finds symbols) (fun _ _ h => h) ?_
  rw [ensures_bind, ensures_sight]
  split
  · exact ensures_some_of symbols (ensures_expect_bind _ (by decide))
  · exact ensures_some_of symbols (ensures_run (r := .conditional) (by decide))
  · exact Ensures.bind (ensures_run (r := .selection) (by decide)) fun v _ h =>
      ensures_some_of_forward (g := fun _ => v) h
  · exact ensures_some_of symbols (ensures_expect_bind _ (by decide))
  · exact ensures_some_of symbols (ensures_expect_bind _ (by decide))
  · exact ensures_some_of symbols (ensures_expect_bind _ (by decide))
  · exact ensures_some_of symbols (ensures_expect_bind _ (by decide))
  · exact ensures_find_bind (ensures_run (r := .labelled) (by decide)) (fun _ _ h => h)
      (expressionStatement_finds symbols)

end Grammar

open Grammar in
theorem Rule.progresses (symbols : Symbols) (r : Rule) : r.Progresses symbols := by
  cases r with
  | unit => exact unit_progresses symbols
  | statement => exact statement_progresses symbols
  | labelled => exact labelled_progresses symbols
  | function => exact function_progresses symbols
  | prototype isExport isExtern => exact prototype_progresses symbols isExport isExtern
  | params => exact params_progresses symbols
  | record => exact record_progresses symbols
  | fields => exact fields_progresses symbols
  | enumeration => exact enumeration_progresses symbols
  | variants => exact variants_progresses symbols
  | declaration => exact declaration_progresses symbols
  | modifiers => exact modifiers_progresses symbols
  | block label => exact block_progresses symbols label
  | statements => exact statements_progresses symbols
  | body => exact body_progresses symbols
  | conditional => exact conditional_progresses symbols
  | loop label => exact loop_progresses symbols label
  | whileLoop label => exact whileLoop_progresses symbols label
  | selection => exact selection_progresses symbols
  | branches => exact branches_progresses symbols
  | branch => exact branch_progresses symbols
  | items => exact items_progresses symbols
  | expression => exact attempted_progresses symbols
  | attempts => exact attempts_progresses symbols
  | level l => exact level_progresses symbols l
  | operands l => exact operands_progresses symbols l
  | recovery => exact recovery_progresses symbols
  | handlers => exact handlers_progresses symbols
  | unary => exact unary_progresses symbols
  | operand => exact operand_progresses symbols
  | suffixed => exact suffixed_progresses symbols
  | suffixes => exact suffixes_progresses symbols
  | listed bracket => exact listed_progresses symbols bracket
  | primary => exact primary_progresses symbols
  | type => exact type_progresses symbols
  | innerType => exact innerType_progresses symbols

end FrontEnd
