import FrontEnd.Proofs.Parser.Mirror

/-!
Productions of expressions and types read the same in both sources of a passage.
-/

namespace FrontEnd

namespace Grammar

open Script

variable (w : Passage) (limit : Nat) {p : Nat} {pre : Prop}

/-! ## Operators -/

theorem attempted_mirrors : Rule.expression.Mirrors w limit p := by
  refine mirrors_bind (mirrors_run .attempts rfl) fun tries q => ?_
  refine mirrors_bind (mirrors_run (.level .conjunction) rfl) fun operand q => ?_
  cases operand with
  | none =>
    cases tries with
    | nil => exact mirrors_pure rfl fun h => h
    | cons token tries => exact mirrors_failing
  | some operand =>
    refine mirrors_pure (congrArg some (Tree.mapTokens_foldr ?_ tries operand)) fun h => ⟨rfl, h.2⟩
    simp

theorem attempts_mirrors : Rule.attempts.Mirrors w limit p := by
  refine mirrors_bind mirrors_here fun token q => ?_
  refine mirrors_bind (mirrors_accept (by decide)) fun found q => ?_
  cases found with
  | true => exact mirrors_bind (mirrors_run .attempts rfl) fun _ _ => mirrors_pure rfl False.elim
  | false => exact mirrors_pure rfl False.elim

theorem operandOf_mirrors (l : Level) :
    Script.Mirrors w limit p pre (operandOf l) (operandOf l) (Option.map (·.mapTokens w.move))
      w.Completes := by
  cases l with
  | assignment => exact mirrors_deeper .expression rfl
  | conjunction => exact mirrors_run (.level .disjunction) rfl
  | disjunction => exact mirrors_run (.level .comparison) rfl
  | comparison => exact mirrors_run .recovery rfl
  | bitwise => exact mirrors_run (.level .shift) rfl
  | shift => exact mirrors_run (.level .sum) rfl
  | sum => exact mirrors_run (.level .product) rfl
  | product => exact mirrors_run .unary rfl

/-- What follows an operand, which is read to its end. -/
theorem operands_mirrors_run (l : Level) {t : Tree} :
    Script.Mirrors w limit p (w.Completes (some t)) (run (.operands l)) (run (.operands l))
      ((Rule.operands l).move w.move) fun _ => w.EndsOperand :=
  mirrors_run_on (.operands l) (fun _ => trivial) fun _ h => ⟨rfl, h⟩

theorem level_mirrors (l : Level) : (Rule.level l).Mirrors w limit p := by
  refine mirrors_bind (operandOf_mirrors w limit l) fun first q => ?_
  cases first with
  | none => exact mirrors_pure rfl fun h => h
  | some first =>
    refine mirrors_bind (operands_mirrors_run w limit l) fun rest q => ?_
    refine mirrors_pure (congrArg some (Tree.mapTokens_foldl ?_ rest first)) fun h => h.2
    simp

theorem operands_mirrors (l : Level) : (Rule.operands l).Mirrors w limit p := by
  refine mirrors_of_cases (fun hp => mirrors_sight_bind hp fun hs => ?_) ?_
  · simp only [Symbols.sight_kind, Symbols.sight_position]
    rw [w.same_move hs hp]
    split
    · exact mirrors_pure rfl fun _ => trivial
    · refine mirrors_bind (mirrors_take hp) fun _ q => ?_
      refine mirrors_bind (mirrors_require (operandOf_mirrors w limit l)) fun rhs q => ?_
      split
      · refine mirrors_bind (operands_mirrors_run w limit l) fun rest q => ?_
        exact mirrors_pure rfl fun h => h
      · exact mirrors_pure rfl fun h => ⟨rfl, h⟩
  · rintro rfl
    refine mirrors_sight_bind_at ?_
    simp only [Symbols.sight_kind, Symbols.sight_position]
    split
    · intro hs hp depth
      refine ⟨Nat.le_refl _, fun _ hends => ⟨fun _ => trivial, ?_⟩⟩
      have hop : l.operator? (w.target.symbolAt (w.stop + w.shift)).kind = none :=
        (hends rfl).operator l
      rw [hop]
      exact obtains_pure _
    · rename_i op hop
      refine mirrors_of_reaches (Nat.lt_succ_self _) (reaches_bind_left ?_)
      exact reaches_take (kind_ne_endOfFile_of_operator hop) _

theorem recovery_mirrors : Rule.recovery.Mirrors w limit p := by
  refine mirrors_bind (mirrors_run (.level .bitwise) rfl) fun first q => ?_
  cases first with
  | none => exact mirrors_pure rfl fun h => h
  | some first =>
    refine mirrors_bind (mirrors_run_on .handlers (fun _ => trivial) fun _ h => ⟨rfl, h⟩)
      fun rest q => ?_
    refine mirrors_pure (congrArg some (Tree.mapTokens_foldl ?_ rest first)) fun h => h.2
    simp

theorem payload_mirrors :
    Script.Mirrors w limit p pre payload payload id fun _ => False := by
  refine mirrors_bind (mirrors_accept (by decide)) fun found q => ?_
  cases found with
  | true =>
    refine mirrors_bind (mirrors_expect (by decide)) fun name q => ?_
    refine mirrors_bind (mirrors_expect (by decide)) fun _ q => ?_
    exact mirrors_pure rfl False.elim
  | false => exact mirrors_pure rfl False.elim

theorem handlers_mirrors (hp : p < w.stop) : Rule.handlers.Mirrors w limit p := by
  refine mirrors_bind mirrors_here fun token q => ?_
  refine mirrors_bind (mirrors_accept (by decide)) fun found q => ?_
  cases found with
  | true =>
    refine mirrors_bind (payload_mirrors w limit) fun name q => ?_
    refine mirrors_bind (mirrors_block none) fun block q => ?_
    cases block with
    | some block =>
      refine mirrors_bind (g := (·.mapTokens w.move)) (mirrors_found rfl rfl) fun rhs q => ?_
      refine mirrors_bind (mirrors_run_on .handlers (fun _ => trivial) fun _ _ => trivial)
        fun rest q => ?_
      exact mirrors_pure rfl fun h => h
    | none =>
      refine mirrors_bind (mirrors_require (mirrors_run (.level .bitwise) rfl)) fun rhs q => ?_
      refine mirrors_bind (mirrors_run_on .handlers (fun _ => trivial) fun _ h => ⟨rfl, h⟩)
        fun rest q => ?_
      exact mirrors_pure rfl fun h => h
  | false => exact mirrors_pure rfl fun h => .inr ⟨hp, h.handler⟩

theorem handlers_mirrors_stop : Rule.handlers.Mirrors w limit w.stop := by
  intro hs hp depth
  change handlers.Ensures _ _ _ _ _ _
  rw [handlers, ensures_bind, ensures_here, ensures_bind, ensures_accept]
  refine ⟨fun h => ?_, fun _ => ⟨Nat.le_refl _, fun _ hends => ⟨fun _ => trivial, ?_⟩⟩⟩
  · rw [Symbols.next_of_kind h (by decide)]
    exact (ensures_le _).of_exact.mono fun v q hq => ⟨by omega, fun hq' => by omega⟩
  · exact obtains_bind obtains_here
      (obtains_bind (obtains_accept_of_ne (hends rfl).handler) (obtains_pure _))

theorem elements_mirrors :
    Script.Mirrors w limit p pre elements elements (Option.map (·.mapTokens w.move))
      w.Completes := by
  refine mirrors_bind mirrors_here fun token q => ?_
  refine mirrors_bind (mirrors_accept (by decide)) fun found q => ?_
  cases found with
  | true =>
    refine mirrors_bind (mirrors_run_on (.listed .curly) (fun _ => trivial) fun _ _ => .inl rfl)
      fun items q => ?_
    exact mirrors_pure (by simp [Rule.move]) fun _ => trivial
  | false => exact mirrors_pure rfl fun h => (w.not_completes_none h).elim

theorem simple_mirrors (hp : p < w.stop) :
    Script.Mirrors w limit p pre simple simple (Option.map (·.mapTokens w.move))
      w.Completes := by
  refine mirrors_sight_bind hp fun hs => ?_
  refine mirrors_ite ?_ (fun _ => elements_mirrors w limit) fun _ => mirrors_run .suffixed rfl
  rw [Symbols.sight_kind, Symbols.sight_kind, w.same_move hs hp]

theorem unary_mirrors (hp : p < w.stop) : Rule.unary.Mirrors w limit p := by
  refine mirrors_sight_bind hp fun hs => ?_
  simp only [Symbols.sight_kind, Symbols.sight_position]
  rw [w.same_move hs hp]
  split
  · refine mirrors_bind (mirrors_take hp) fun _ q => ?_
    refine mirrors_bind (mirrors_deeper .operand rfl) fun inner q => ?_
    exact mirrors_pure (by simp [Rule.move]) fun h => h.2
  · exact simple_mirrors w limit hp

theorem operand_mirrors : Rule.operand.Mirrors w limit p :=
  (mirrors_require (mirrors_run .unary rfl)).imp fun _ h => ⟨rfl, h⟩

theorem expression_mirrors :
    Script.Mirrors w limit p pre expression expression (Option.map (·.mapTokens w.move))
      w.Completes :=
  mirrors_deeper .expression rfl

theorem listed_mirrors (bracket : Bracket) : (Rule.listed bracket).Mirrors w limit p := by
  have hclosing : bracket.closing ≠ .endOfFile := by cases bracket <;> decide
  refine mirrors_bind (mirrors_accept hclosing) fun closed q => ?_
  cases closed with
  | true => exact mirrors_pure rfl fun _ => .inl rfl
  | false =>
    refine mirrors_bind (mirrors_require (expression_mirrors w limit)) fun item q => ?_
    refine mirrors_bind (mirrors_accept (by decide)) fun more q => ?_
    cases more with
    | true =>
      refine mirrors_bind (mirrors_run_on (.listed bracket) (fun _ => trivial) fun _ _ => .inl rfl)
        fun items q => ?_
      exact mirrors_pure rfl fun _ => trivial
    | false =>
      refine mirrors_bind (mirrors_expect hclosing) fun _ q => ?_
      exact mirrors_pure rfl fun _ => trivial

/-! ## Primaries -/

/-- A function is a value with its body, which a brace behind the passage must not begin. -/
theorem functionValue_mirrors (hp : p < w.stop)
    (hfunc : (w.source.symbolAt p).kind = .kwFunc) :
    Script.Mirrors w limit p pre functionValue functionValue (·.mapTokens w.move)
      fun _ => w.EndsOperand := by
  intro hs
  have hbrace (h : w.EndsOperand) : w.behind ≠ .leftBrace := fun hbehind =>
    h.block hbehind p hs hp hfunc
  have hblock {q : Nat} : Script.Mirrors w limit q w.EndsOperand (run (.block none))
      (run (.block none)) ((Rule.block none).move w.move) fun _ => w.EndsOperand :=
    mirrors_run_of (.block none) fun v r hv hr hends =>
      ⟨fun heq => .inr (hbrace (hends heq)), trivial, fun hq =>
        hends (Nat.le_antisymm hr (hq ▸ hv.le))⟩
  revert hs
  refine mirrors_bind mirrors_here fun token q => ?_
  refine mirrors_bind (mirrors_run (.prototype false false) rfl) fun signature q => ?_
  refine mirrors_bind hblock fun body q => ?_
  cases body with
  | some body => exact mirrors_pure (by simp [Rule.move]) fun h => h
  | none => exact mirrors_pure rfl fun h => h

theorem primary_mirrors (hp : p < w.stop) : Rule.primary.Mirrors w limit p := by
  refine mirrors_sight_bind hp fun hs => ?_
  simp only [Symbols.sight_current, Symbols.sight_kind, Symbols.sight_position]
  rw [w.same_move hs hp]
  split
  · rename_i form hform
    refine mirrors_bind (mirrors_take hp) fun _ q => ?_
    refine mirrors_pure ?_ fun _ => trivial
    simp only [Rule.move, Option.map_some, Tree.mapTokens_node, Symbol.leaf?_move hform]
  · split
    · rename_i hfunc
      refine mirrors_bind (functionValue_mirrors w limit hp hfunc) fun v q => ?_
      exact mirrors_pure rfl fun h => h.2
    · refine mirrors_bind (mirrors_run .selection rfl) fun v q => ?_
      exact mirrors_pure rfl fun _ => trivial
    · refine mirrors_bind (mirrors_take hp) fun _ q => ?_
      refine mirrors_bind (mirrors_require (expression_mirrors w limit)) fun inner q => ?_
      refine mirrors_bind (mirrors_expect (by decide)) fun _ q => ?_
      exact mirrors_pure rfl fun _ => trivial
    · exact mirrors_pure rfl fun _ => trivial

theorem suffixed_mirrors : Rule.suffixed.Mirrors w limit p := by
  refine mirrors_bind (mirrors_run .primary rfl) fun first q => ?_
  cases first with
  | none => exact mirrors_pure rfl fun h => h
  | some first =>
    refine mirrors_bind (mirrors_run_on .suffixes (fun _ => trivial) fun _ h => ⟨rfl, h⟩)
      fun rest q => ?_
    refine mirrors_pure (congrArg some (Tree.mapTokens_foldl ?_ rest first)) fun h => h.2
    rintro t ⟨token, suffix⟩
    cases suffix <;> simp [Suffix.form, Suffix.move]

theorem sentinel_mirrors :
    Script.Mirrors w limit p pre sentinel sentinel (Option.map (·.mapTokens w.move))
      fun _ => False := by
  refine mirrors_bind (mirrors_accept (by decide)) fun found q => ?_
  cases found with
  | true =>
    refine mirrors_bind (mirrors_require (expression_mirrors w limit)) fun value q => ?_
    exact mirrors_pure rfl False.elim
  | false => exact mirrors_pure rfl False.elim

theorem subscript_mirrors :
    Script.Mirrors w limit p pre subscript subscript (Suffix.move w.move) fun _ => True := by
  refine mirrors_bind (mirrors_require (expression_mirrors w limit)) fun start q => ?_
  refine mirrors_bind (mirrors_accept (by decide)) fun sliced q => ?_
  cases sliced with
  | true =>
    refine mirrors_bind (mirrors_require (expression_mirrors w limit)) fun stop q => ?_
    refine mirrors_bind (sentinel_mirrors w limit) fun sentinel q => ?_
    refine mirrors_bind (mirrors_expect (by decide)) fun _ q => ?_
    exact mirrors_pure rfl fun _ => trivial
  | false =>
    refine mirrors_bind (mirrors_expect (by decide)) fun _ q => ?_
    exact mirrors_pure rfl fun _ => trivial

theorem suffixes_mirrors : Rule.suffixes.Mirrors w limit p := by
  have hrest {q : Nat} : Script.Mirrors w limit q True (run .suffixes) (run .suffixes)
      (Rule.suffixes.move w.move) fun _ => w.EndsOperand :=
    mirrors_run_on .suffixes (fun _ => trivial) fun _ _ => trivial
  refine mirrors_of_cases (fun hp => mirrors_sight_bind hp fun hs => ?_) ?_
  · simp only [Symbols.sight_kind, Symbols.sight_position]
    rw [w.same_move hs hp]
    split
    · refine mirrors_bind (mirrors_take hp) fun _ q => ?_
      refine mirrors_bind (mirrors_expect (by decide)) fun name q => ?_
      refine mirrors_bind hrest fun rest q => ?_
      exact mirrors_pure rfl fun h => h
    · refine mirrors_bind (mirrors_take hp) fun _ q => ?_
      refine mirrors_bind (subscript_mirrors w limit) fun suffix q => ?_
      refine mirrors_bind hrest fun rest q => ?_
      exact mirrors_pure rfl fun h => h
    · refine mirrors_bind (mirrors_take hp) fun _ q => ?_
      refine mirrors_bind (mirrors_run_on (.listed .round) (fun _ => trivial) fun _ _ => trivial)
        fun args q => ?_
      refine mirrors_bind hrest fun rest q => ?_
      exact mirrors_pure rfl fun h => h
    · exact mirrors_pure rfl fun _ => trivial
  · rintro rfl
    have hreach {x : Script (List (Nat × Suffix))} {kind : TokenKind}
        (h : (w.source.symbolAt w.stop).kind = kind) (hk : kind ≠ .endOfFile) :
        Reaches w.source limit (w.stop + 1) w.stop (take (done ()) >>= fun _ => x) :=
      reaches_bind_left (reaches_take (h ▸ hk) _)
    refine mirrors_sight_bind_at ?_
    simp only [Symbols.sight_kind, Symbols.sight_position]
    split
    · exact mirrors_of_reaches (Nat.lt_succ_self _) (hreach ‹_› (by decide))
    · exact mirrors_of_reaches (Nat.lt_succ_self _) (hreach ‹_› (by decide))
    · exact mirrors_of_reaches (Nat.lt_succ_self _) (hreach ‹_› (by decide))
    · intro hs hp depth
      refine ⟨Nat.le_refl _, fun _ hends => ⟨fun _ => trivial, ?_⟩⟩
      exact suffixes_obtained_nil (hends rfl).suffix

/-- Between the brackets of an array type something follows in any case. -/
theorem arraySize_mirrors :
    Script.Mirrors w limit p pre arraySize arraySize
      (fun v => (v.1, v.2.map (·.mapTokens w.move))) fun _ => False := by
  refine mirrors_of_cases (fun hp => mirrors_sight_bind hp fun hs => ?_) fun hp => ?_
  · by_cases hbracket : (w.source.sight p).kind = .rightBracket
    · have hsame : (w.target.sight (w.move p)).kind = .rightBracket := by
        rw [Symbols.sight_kind, w.same_move hs hp]
        exact hbracket
      rw [if_pos hbracket, if_pos hsame]
      exact mirrors_pure rfl False.elim
    by_cases hnext : p + 1 < w.stop
    · rw [w.sight_move hs hnext]
      refine mirrors_ite Iff.rfl (fun _ => mirrors_pure rfl False.elim) fun _ => ?_
      refine mirrors_ite Iff.rfl (fun _ => ?_) fun _ => ?_
      · exact mirrors_bind (mirrors_take hp) fun _ _ => mirrors_pure rfl False.elim
      · refine mirrors_bind (mirrors_require (expression_mirrors w limit)) fun size q => ?_
        exact mirrors_pure rfl False.elim
    · -- what is behind may tell a name from an inferred length, but that ends the passage
      refine mirrors_of_reaches_stop (n := p + 1) (by omega) ?_
      rw [if_neg hbracket]
      split
      · rename_i hinfers
        have hname : (w.source.symbolAt p).kind = .identifier := by
          simp only [Sight.infersLength, Bool.and_eq_true, decide_eq_true_eq] at hinfers
          exact hinfers.1.1
        exact reaches_bind_left (reaches_take (by rw [hname]; decide) _)
      · exact reaches_bind_left (reaches_require expression_lasts)
  · exact mirrors_of_reaches_stop (Nat.le_of_eq hp.symm) (reaches_self _ (Nat.le_refl _))

theorem type_mirrors : Rule.type.Mirrors w limit p := by
  refine mirrors_bind mirrors_here fun token q => ?_
  refine mirrors_bind (mirrors_accept (by decide)) fun isOptional q => ?_
  cases isOptional with
  | true =>
    refine mirrors_bind (mirrors_deeper .innerType rfl) fun child q => ?_
    exact mirrors_pure (by simp [Rule.move]) fun h => h.2
  | false =>
    refine mirrors_bind (mirrors_accept (by decide)) fun isArray q => ?_
    cases isArray with
    | true =>
      refine mirrors_bind (arraySize_mirrors w limit) fun v q => ?_
      refine mirrors_bind (sentinel_mirrors w limit) fun sentinel q => ?_
      refine mirrors_bind (mirrors_expect (by decide)) fun _ q => ?_
      refine mirrors_bind (mirrors_deeper .innerType rfl) fun element q => ?_
      exact mirrors_pure (by simp [Rule.move]) fun h => h.2
    | false => exact mirrors_run .suffixed rfl

theorem innerType_mirrors : Rule.innerType.Mirrors w limit p :=
  (mirrors_require (mirrors_run .type rfl)).imp fun _ h => ⟨rfl, h⟩

end Grammar

end FrontEnd
