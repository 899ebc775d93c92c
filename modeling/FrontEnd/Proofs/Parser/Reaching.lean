import FrontEnd.Proofs.Parser.Parts
import FrontEnd.Proofs.Parser.Steps

/-!
How far productions read at least. The symbols that a script must take and the rules that
must find something are counted up to two, which no statement does without.
-/

namespace FrontEnd

theorem Rule.Advances.le {symbols : Symbols} {r : Rule} {p q : Nat} {v : r.Result}
    (h : r.Advances symbols p v q) : p ≤ q := by
  rcases h.eq_or_forward with rfl | ⟨hlt, -⟩ <;> omega

namespace Script

variable {α β : Type} {symbols : Symbols} {limit n m p : Nat}

/-- From `p` on, the script reads up to `n` at least. -/
def Reaches (symbols : Symbols) (limit n p : Nat) (x : Script α) : Prop :=
  ∀ depth, x.Ensures (.exact symbols limit) symbols limit depth p fun _ q => n ≤ q

/-- What the script finds from `p` on goes up to `n` at least. -/
def Lasts (symbols : Symbols) (limit n p : Nat) (x : Script (Option α)) : Prop :=
  ∀ depth, x.Ensures (.exact symbols limit) symbols limit depth p fun v q => v.isSome → n ≤ q

/-- What the rules that a script calls have read is known, so that they went forward is. -/
theorem Ensures.exact_of_progress {x : Script α} {o : Rule} {depth p₀ : Nat}
    {Q : α → Nat → Prop} (h : x.Ensures (progress symbols o p₀) symbols limit depth p Q) :
    x.Ensures (.exact symbols limit) symbols limit depth p Q :=
  h.weaken (fun _ _ _ => trivial) fun _ _ _ _ _ hv => Rule.advances_of_eval hv

theorem ensures_le {depth : Nat} (x : Script α) :
    x.Ensures (.exact symbols limit) symbols limit depth p fun _ q => p ≤ q := by
  induction x generalizing p with
  | done value => exact Nat.le_refl p
  | fail cause => trivial
  | look next ih => exact ih _
  | take next ih => exact ih.mono fun _ _ h => Nat.le_trans (symbols.le_next p) h
  | call _ next ih =>
    exact ⟨trivial, fun v q hv =>
      (ih v).mono fun _ _ h => Nat.le_trans (Rule.advances_of_eval hv).le h⟩
  | nest _ next ih =>
    exact fun _ => ⟨trivial, fun v q hv =>
      (ih v).mono fun _ _ h => Nat.le_trans (Rule.advances_of_eval hv).le h⟩

/-! ## What is read at least -/

theorem reaches_self (x : Script α) (h : n ≤ p) : Reaches symbols limit n p x :=
  fun _ => (ensures_le x).mono fun _ _ hq => Nat.le_trans h hq

theorem reaches_bind {x : Script α} {f : α → Script β} (hx : Reaches symbols limit m p x)
    (hf : ∀ v q, m ≤ q → Reaches symbols limit n q (f v)) :
    Reaches symbols limit n p (x >>= f) := by
  intro depth
  rw [ensures_bind]
  exact (hx depth).mono fun v q hq => hf v q hq depth

theorem Reaches.mono {x : Script α} (hx : Reaches symbols limit m p x) (h : n ≤ m) :
    Reaches symbols limit n p x :=
  fun depth => (hx depth).mono fun _ _ hq => Nat.le_trans h hq

/-- Where the first part gets, the whole gets. -/
theorem reaches_bind_left {x : Script α} {f : α → Script β} (hx : Reaches symbols limit n p x) :
    Reaches symbols limit n p (x >>= f) :=
  reaches_bind hx fun v _ hq => reaches_self (f v) hq

/-- Where the second part gets, wherever it begins, the whole gets. -/
theorem reaches_bind_right {x : Script α} {f : α → Script β}
    (hf : ∀ v q, p ≤ q → Reaches symbols limit n q (f v)) :
    Reaches symbols limit n p (x >>= f) :=
  reaches_bind (reaches_self x (Nat.le_refl p)) hf

/-- One symbol and one more. -/
theorem reaches_bind_succ {x : Script α} {f : α → Script β}
    (hx : Reaches symbols limit (p + 1) p x)
    (hf : ∀ v q, Reaches symbols limit (q + 1) q (f v)) :
    Reaches symbols limit (p + 2) p (x >>= f) :=
  reaches_bind hx fun v q hq => (hf v q).mono (by omega)

/-- What is behind a part that may be empty. -/
theorem reaches_skip {k : Nat} {x : Script α} {f : α → Script β}
    (hf : ∀ v q, Reaches symbols limit (q + k) q (f v)) :
    Reaches symbols limit (p + k) p (x >>= f) :=
  reaches_bind_right fun v q hq => (hf v q).mono (by omega)

theorem reaches_ite {c : Prop} [Decidable c] {x y : Script α}
    (hx : Reaches symbols limit n p x) (hy : Reaches symbols limit n p y) :
    Reaches symbols limit n p (if c then x else y) := by
  split
  · exact hx
  · exact hy

theorem reaches_take (h : (symbols.symbolAt p).kind ≠ .endOfFile) (x : Script α) :
    Reaches symbols limit (p + 1) p (take x) := by
  intro depth
  rw [ensures_take, Symbols.next_eq h]
  exact ensures_le x

theorem reaches_expect {kind : TokenKind} (hk : kind ≠ .endOfFile) :
    Reaches symbols limit (p + 1) p (expect kind) := by
  intro depth
  rw [ensures_expect]
  intro h
  exact (Symbols.forward_of_kind h hk).1

theorem reaches_run {r : Rule} (hr : ∀ v q, r.Advances symbols p v q → p < q) :
    Reaches symbols limit (p + 1) p (run r) :=
  fun _ => ⟨trivial, fun v q hv => hr v q (Rule.advances_of_eval hv)⟩

theorem reaches_failing {what : Expectation} :
    Reaches symbols limit n p (failing what : Script α) := fun _ => trivial

theorem reaches_require {what : Expectation} {x : Script (Option α)}
    (hx : Lasts symbols limit n p x) : Reaches symbols limit n p (require what x) := by
  intro depth
  rw [ensures_require]
  refine (hx depth).mono fun v q hv t ht => hv ?_
  rw [ht]
  rfl

/-! ## What is found -/

theorem Lasts.mono {x : Script (Option α)} (hx : Lasts symbols limit m p x) (h : n ≤ m) :
    Lasts symbols limit n p x :=
  fun depth => (hx depth).mono fun _ _ hq hsome => Nat.le_trans h (hq hsome)

theorem lasts_of_finds {x : Script (Option α)}
    (hx : ∀ depth, x.Ensures (.exact symbols limit) symbols limit depth p (symbols.Finds p)) :
    Lasts symbols limit (p + 1) p x :=
  fun depth => (hx depth).mono fun _ _ hv hsome => (hv.forward hsome).1

theorem lasts_of_reaches {x : Script (Option α)} (hx : Reaches symbols limit n p x) :
    Lasts symbols limit n p x :=
  fun depth => (hx depth).mono fun _ _ hq _ => hq

theorem lasts_ite {c : Prop} [Decidable c] {x y : Script (Option α)}
    (hx : Lasts symbols limit n p x) (hy : Lasts symbols limit n p y) :
    Lasts symbols limit n p (if c then x else y) := by
  split
  · exact hx
  · exact hy

theorem lasts_pure_none : Lasts symbols limit n p (pure none : Script (Option α)) :=
  fun _ hsome => by cases hsome

theorem lasts_bind_right {x : Script α} {f : α → Script (Option β)}
    (hf : ∀ v q, p ≤ q → Lasts symbols limit n q (f v)) :
    Lasts symbols limit n p (x >>= f) := by
  intro depth
  rw [ensures_bind]
  exact (ensures_le x).mono fun v q hq => hf v q hq depth

theorem lasts_skip {k : Nat} {x : Script α} {f : α → Script (Option β)}
    (hf : ∀ v q, Lasts symbols limit (q + k) q (f v)) :
    Lasts symbols limit (p + k) p (x >>= f) :=
  lasts_bind_right fun v q hq => (hf v q).mono (by omega)

/-- Either the first part finds something, or the second part looks further. -/
theorem reaches_find_bind {x : Script (Option α)} {f : Option α → Script β}
    (hx : Lasts symbols limit n p x)
    (hnone : ∀ q, p ≤ q → Reaches symbols limit n q (f none)) :
    Reaches symbols limit n p (x >>= f) := by
  intro depth
  rw [ensures_bind]
  refine ((hx depth).and (ensures_le x)).mono fun v q ⟨hsome, hq⟩ => ?_
  cases v with
  | none => exact hnone q hq depth
  | some v => exact (ensures_le (f (some v))).mono fun _ _ hle => Nat.le_trans (hsome rfl) hle

theorem lasts_find_bind {x : Script (Option α)} {f : Option α → Script (Option β)}
    (hx : Lasts symbols limit n p x)
    (hnone : ∀ q, p ≤ q → Lasts symbols limit n q (f none)) :
    Lasts symbols limit n p (x >>= f) := by
  intro depth
  rw [ensures_bind]
  refine ((hx depth).and (ensures_le x)).mono fun v q ⟨hsome, hq⟩ => ?_
  cases v with
  | none => exact hnone q hq depth
  | some v => exact (ensures_le (f (some v))).mono fun _ _ hle _ => Nat.le_trans (hsome rfl) hle

/-- A rule reads what its script reads. -/
theorem ensures_run_exact {r : Rule} {depth : Nat} {Q : r.Result → Nat → Prop}
    (h : r.script.Ensures (.exact symbols limit) symbols limit depth p Q) :
    (run r).Ensures (.exact symbols limit) symbols limit depth p Q :=
  ⟨trivial, fun _ _ hv => Rule.holds_of_eval hv h⟩

end Script

namespace Grammar

open Script

variable {symbols : Symbols} {limit p : Nat}

/-! ## Parts -/

theorem expression_lasts : Lasts symbols limit (p + 1) p expression :=
  lasts_of_finds fun _ _ => ⟨trivial, fun _ _ => Rule.advances_of_eval⟩

theorem assignment_lasts : Lasts symbols limit (p + 1) p assignment :=
  lasts_of_finds fun _ => ⟨trivial, fun _ _ => Rule.advances_of_eval⟩

theorem block_lasts (label : Option String) :
    Lasts symbols limit (p + 2) p (run (.block label)) := by
  intro depth
  apply ensures_run_exact
  simp only [Rule.script, block]
  rw [ensures_bind, ensures_here, ensures_bind, ensures_accept]
  refine ⟨fun h => ?_, fun _ hsome => by cases hsome⟩
  rw [Symbols.next_of_kind h (by decide), if_pos rfl, ensures_bind]
  exact ⟨trivial, fun v q hv _ => (Rule.advances_of_eval hv).1⟩

theorem requiredBlock_reaches : Reaches symbols limit (p + 2) p requiredBlock :=
  reaches_require (block_lasts none)

theorem condition_reaches : Reaches symbols limit (p + 2) p condition :=
  reaches_bind_succ (reaches_expect (by decide)) fun _ _ =>
    reaches_bind_left (reaches_require expression_lasts)

theorem declared_reaches (token : Nat) (type : Option Tree) (isExport isMutable isConst : Bool) :
    Reaches symbols limit (p + 2) p (declared token type isExport isMutable isConst) :=
  reaches_bind_succ (reaches_expect (by decide)) fun _ _ =>
    reaches_skip fun _ _ => reaches_bind_left (reaches_expect (by decide))

/-! ## Declarations and statements -/

theorem function_reaches : Reaches symbols limit (p + 2) p (run .function) := by
  refine fun depth => ensures_run_exact (reaches_skip (fun _ q => ?_) depth)
  refine reaches_skip fun _ q => reaches_skip fun _ q => ?_
  refine reaches_bind_succ (reaches_run fun _ _ h => h.1) fun _ q => ?_
  refine reaches_find_bind ((block_lasts none).mono (by omega)) fun r hr => ?_
  exact reaches_bind_left ((reaches_expect (by decide)).mono (by omega))

theorem record_reaches : Reaches symbols limit (p + 2) p (run .record) := by
  refine fun depth => ensures_run_exact (reaches_skip (fun _ q => ?_) depth)
  refine reaches_skip fun _ q => reaches_skip fun isUnion q => ?_
  cases isUnion <;>
    exact reaches_bind_succ (reaches_expect (by decide)) fun _ _ =>
      reaches_bind_left (reaches_expect (by decide))

theorem enumeration_reaches : Reaches symbols limit (p + 2) p (run .enumeration) := by
  refine fun depth => ensures_run_exact (reaches_skip (fun _ q => ?_) depth)
  refine reaches_skip fun _ q => reaches_bind_succ (reaches_expect (by decide)) fun _ _ => ?_
  exact reaches_bind_left (reaches_expect (by decide))

theorem declaration_reaches : Reaches symbols limit (p + 2) p (run .declaration) := by
  refine fun depth => ensures_run_exact (reaches_skip (fun _ q => ?_) depth)
  refine reaches_skip fun _ q => reaches_skip fun found q => ?_
  obtain ⟨isMutable, isConst⟩ := found
  dsimp only
  split
  · exact fun _ => trivial
  · refine reaches_skip fun s q => reaches_ite (declared_reaches _ none _ _ _) ?_
    exact reaches_skip fun type q => declared_reaches _ type _ _ _

theorem branched_reaches (token : Nat) : Reaches symbols limit (p + 2) p (branched token) :=
  reaches_bind_left condition_reaches

theorem conditional_reaches : Reaches symbols limit (p + 2) p (run .conditional) := by
  refine fun depth => ensures_run_exact (reaches_skip (fun _ q => ?_) depth)
  refine reaches_skip fun isElseIf q => ?_
  cases isElseIf with
  | true => exact branched_reaches _
  | false => exact reaches_skip fun _ _ => branched_reaches _

theorem selection_reaches : Reaches symbols limit (p + 2) p (run .selection) := by
  refine fun depth => ensures_run_exact (reaches_skip (fun _ q => ?_) depth)
  refine reaches_bind_succ (reaches_expect (by decide)) fun _ _ => reaches_skip fun _ _ => ?_
  exact reaches_bind_left (reaches_require expression_lasts)

theorem loop_reaches (label : Option String) :
    Reaches symbols limit (p + 2) p (run (.loop label)) := by
  refine fun depth => ensures_run_exact (reaches_skip (fun _ q => ?_) depth)
  refine reaches_bind_succ (reaches_expect (by decide)) fun _ q => ?_
  refine reaches_find_bind ((block_lasts none).mono (by omega)) fun r hr => ?_
  exact reaches_bind_left ((reaches_expect (by decide)).mono (by omega))

theorem whileLoop_reaches (label : Option String) :
    Reaches symbols limit (p + 2) p (run (.whileLoop label)) := by
  refine fun depth => ensures_run_exact (reaches_skip (fun _ q => ?_) depth)
  exact reaches_skip fun _ _ => reaches_bind_left condition_reaches

theorem stepped_reaches (token : Nat) (label : Option String) (init : Option Tree) :
    Reaches symbols limit (p + 2) p (stepped token label init) :=
  reaches_skip fun _ _ => reaches_skip fun _ _ => reaches_skip fun _ _ =>
    reaches_skip fun _ _ => reaches_bind_left requiredBlock_reaches

theorem containerIfAny_lasts : Lasts symbols limit (p + 2) p containerIfAny := by
  refine lasts_skip fun s q => lasts_ite ?_ <| lasts_ite ?_ <| lasts_ite ?_ lasts_pure_none
  · exact lasts_of_reaches (reaches_bind_left function_reaches)
  · exact lasts_of_reaches (reaches_bind_left record_reaches)
  · exact lasts_of_reaches (reaches_bind_left enumeration_reaches)

theorem variableIfAny_lasts : Lasts symbols limit (p + 2) p variableIfAny :=
  lasts_skip fun _ _ =>
    lasts_ite (lasts_of_reaches (reaches_bind_left declaration_reaches)) lasts_pure_none

theorem headed_reaches (token : Nat) (label : Option String) :
    Reaches symbols limit (p + 2) p (headed token label) := by
  refine reaches_skip fun s q => reaches_ite ?_ ?_
  · exact reaches_skip fun _ _ => reaches_skip fun _ _ => reaches_skip fun _ _ =>
      reaches_bind_left requiredBlock_reaches
  refine reaches_find_bind variableIfAny_lasts fun q hq => ?_
  refine (reaches_skip (k := 2) fun isEmpty q => ?_).mono (Nat.add_le_add_right hq 2)
  cases isEmpty with
  | true => exact stepped_reaches token label none
  | false =>
    refine reaches_skip fun first q => reaches_skip fun isStepped q => ?_
    cases isStepped with
    | true => exact stepped_reaches token label (some first)
    | false => exact reaches_skip fun _ _ => reaches_bind_left requiredBlock_reaches

theorem loopIfAny_lasts (label : Option String) :
    Lasts symbols limit (p + 2) p (loopIfAny label) := by
  refine lasts_skip fun s q => ?_
  split
  · exact lasts_of_reaches (reaches_bind_left (loop_reaches label))
  · exact lasts_of_reaches (reaches_bind_left (whileLoop_reaches label))
  · exact lasts_pure_none

theorem labelled_lasts : Lasts symbols limit (p + 2) p (run .labelled) := by
  refine fun depth => ensures_run_exact (lasts_skip (fun label q => ?_) depth)
  refine lasts_find_bind (block_lasts label) fun q hq => ?_
  refine (lasts_find_bind (loopIfAny_lasts label) fun q hq => ?_).mono (by omega)
  cases label with
  | some label => exact lasts_of_reaches reaches_failing
  | none => exact lasts_pure_none

theorem expressionStatement_lasts : Lasts symbols limit (p + 2) p expressionStatement := by
  intro depth
  simp only [expressionStatement]
  rw [ensures_bind]
  refine (assignment_lasts depth).mono fun v q hq => ?_
  cases v with
  | none => exact fun hsome => by cases hsome
  | some v =>
    have hq := hq rfl
    exact (reaches_bind_left (reaches_expect (by decide)) depth).mono fun _ _ hr _ => by omega

/-- A statement takes two symbols at least. -/
theorem statement_lasts : Lasts symbols limit (p + 2) p Rule.statement.script := by
  have hword {x : Script Tree} {q : Nat} (hx : Reaches symbols limit (q + 2) q x) :
      Lasts symbols limit (q + 2) q (x >>= fun t => pure (some t)) :=
    lasts_of_reaches (reaches_bind_left hx)
  have hsemicolon {q : Nat} : Reaches symbols limit (q + 1) q (expect .semicolon) :=
    reaches_expect (by decide)
  refine lasts_find_bind containerIfAny_lasts fun q hq => ?_
  refine (lasts_find_bind variableIfAny_lasts fun q hq => ?_).mono (Nat.add_le_add_right hq 2)
  refine (lasts_skip (k := 2) fun s q => ?_).mono (Nat.add_le_add_right hq 2)
  split
  · refine hword (reaches_skip fun _ _ => reaches_bind_succ (reaches_expect (by decide)) ?_)
    exact fun _ _ => reaches_bind_left (reaches_run fun _ _ h => h.1)
  · exact hword conditional_reaches
  · exact lasts_of_reaches (reaches_bind_left selection_reaches)
  · refine hword (reaches_skip fun _ _ => reaches_bind_succ (reaches_expect (by decide)) ?_)
    exact fun _ _ => reaches_skip fun _ _ => reaches_skip fun _ _ => reaches_bind_left hsemicolon
  · refine hword (reaches_skip fun _ _ => reaches_bind_succ (reaches_expect (by decide)) ?_)
    exact fun _ _ => reaches_skip fun _ _ => reaches_bind_left hsemicolon
  · refine hword (reaches_skip fun _ _ => reaches_bind_succ (reaches_expect (by decide)) ?_)
    exact fun _ _ => reaches_skip fun _ _ => reaches_bind_left hsemicolon
  · refine hword (reaches_skip fun _ _ => reaches_bind_succ (reaches_expect (by decide)) ?_)
    exact fun _ _ => reaches_skip fun _ _ => reaches_bind_left hsemicolon
  · exact lasts_find_bind labelled_lasts fun q hq =>
      expressionStatement_lasts.mono (Nat.add_le_add_right hq 2)

end Grammar

end FrontEnd
