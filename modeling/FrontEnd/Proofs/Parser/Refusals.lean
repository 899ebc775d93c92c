import FrontEnd.Proofs.Parser.Guard
import FrontEnd.Proofs.Parser.Probing
import FrontEnd.Proofs.Parser.Steps

/-!
What the guard against deep nesting refuses to run. A run that the guard ends has refused one
rule at one place, and it has done so before it was known whether anything begins there. If
nothing does, the run without a guard goes on from there: `Excused` says of the rest of a script
that it fails at once, or that the place is one where something is left out; `Spares` says so of
all places where a script may be refused, and follows the script step by step. From the steps it
is carried to whole runs.
-/

namespace FrontEnd

/-! ## Refusals -/

/-- A rule that was not run for its depth of nesting, and where it was to be run from. -/
structure Refusal where
  rule : Rule
  state : ParseState
  deriving DecidableEq, Repr

/-- What was refused in a run that did not end well, or else behind it. -/
def Outcome.refusal? {α : Type} (within : Option Refusal)
    (behind : α → ParseState → Option Refusal) : Outcome α → Option Refusal
  | read v t => behind v t
  | failed _ _ => within
  | exhausted => within

/-- What is refused in a run of the script, `refused` telling it of the rules. -/
def Script.refusal? {α : Type} (symbols : Symbols) (limit : Nat)
    (read : (r : Rule) → ParseState → Outcome r.Result)
    (refused : Rule → ParseState → Option Refusal) : Script α → ParseState → Option Refusal
  | .done _, _ => none
  | .fail _, _ => none
  | .look next, s => (next (symbols.sight s.position)).refusal? symbols limit read refused s
  | .take next, s => next.refusal? symbols limit read refused ⟨symbols.next s.position, s.depth⟩
  | .call r next, s =>
    (read r s).refusal? (refused r s) fun v t =>
      (next v).refusal? symbols limit read refused t
  | .nest r next, s =>
    if s.depth < limit then
      (read r s.inner).leave.refusal? (refused r s.inner) fun v t =>
        (next v).refusal? symbols limit read refused t
    else some ⟨r, s⟩

def Rule.refusal? (symbols : Symbols) (limit : Nat) : Nat → Rule → ParseState → Option Refusal
  | 0, _, _ => none
  | budget + 1, r, s =>
    r.script.refusal? symbols limit (Rule.exec symbols limit budget)
      (Rule.refusal? symbols limit budget) s

/-- What is refused in parsing from the cursor. -/
def Cursor.refusal? (limit : Nat) (c : Cursor) : Option Refusal :=
  Rule.refusal? c.stream.symbols limit (budget c.stream.symbols) .unit c.state

/-- The value tells that the rule found nothing. -/
def Rule.Nothing : (r : Rule) → r.Result → Prop
  | .statement, v | .labelled, v | .block _, v | .expression, v | .level _, v | .recovery, v
  | .unary, v | .suffixed, v | .primary, v | .type, v => v = none
  | _, _ => False

/-- The refused rule, run without a guard, would not find nothing. -/
def Refusal.Begins (symbols : Symbols) (x : Refusal) : Prop :=
  ∀ v t, Rule.execUnguarded symbols (budget symbols) x.rule x.state.inner = .read v t →
    ¬x.rule.Nothing v

/-- An expression is left out where the symbol at the position closes what it was a part of: the
value behind `return` or `break`, and the condition and the step of a loop. -/
inductive Symbols.LeavesOut (symbols : Symbols) : Nat → Prop where
  | value {p : Nat}
    (hword : (symbols.symbolAt p).kind = .kwReturn ∨ (symbols.symbolAt p).kind = .kwBreak)
    (hend : (symbols.symbolAt (p + 1)).kind = .semicolon) : LeavesOut symbols (p + 1)
  | labelledValue {p : Nat} (hbreak : (symbols.symbolAt p).kind = .kwBreak)
    (hcolon : (symbols.symbolAt (p + 1)).kind = .colon)
    (hname : (symbols.symbolAt (p + 2)).kind = .identifier)
    (hend : (symbols.symbolAt (p + 3)).kind = .semicolon) : LeavesOut symbols (p + 3)
  | condition {start p : Nat} (hfor : (symbols.symbolAt start).kind = .kwFor)
    (hopen : (symbols.symbolAt (start + 1)).kind = .leftParen) (hlt : start + 1 < p)
    (hinit : (symbols.symbolAt p).kind = .semicolon)
    (hend : (symbols.symbolAt (p + 1)).kind = .semicolon) : LeavesOut symbols (p + 1)
  | step {start p : Nat} (hfor : (symbols.symbolAt start).kind = .kwFor)
    (hopen : (symbols.symbolAt (start + 1)).kind = .leftParen) (hlt : start + 1 < p)
    (hcondition : (symbols.symbolAt p).kind = .semicolon)
    (hend : (symbols.symbolAt (p + 1)).kind = .rightParen) : LeavesOut symbols (p + 1)

/-! ## Where scripts may be refused -/

/-- Rules that find nothing where a rule was refused that would have found nothing. -/
def Rule.Passes : (r : Rule) → r.Result → Prop
  | .statement, v | .level .assignment, v => v = none
  | _, _ => False

theorem Rule.Passes.nothing {r : Rule} {v : r.Result} (h : r.Passes v) : r.Nothing v := by
  cases r with
  | statement => exact h
  | level l =>
    cases l with
    | assignment => exact h
    | _ => cases h
  | _ => cases h

namespace Script

variable {α β : Type}

/-- From `p` the script fails for what it expected there, or ends there with a value that may be
lost; else something is left out. -/
def Excused (symbols : Symbols) : Script α → Nat → (α → Prop) → Prop
  | .done v, _, lost => lost v
  | .fail cause, _, _ => ∃ what found, cause = .expected what found
  | .look next, p, lost => (next (symbols.sight p)).Excused symbols p lost
  | .take _, p, _ => symbols.LeavesOut p
  | .call _ _, p, _ => symbols.LeavesOut p
  | .nest _ _, p, _ => symbols.LeavesOut p

/-- Wherever the script, run from `p`, may be refused a rule that finds nothing, the rest of it
is excused, where `lost` tells the values that it may end with there. Where it reads a value,
this satisfies `Q`. -/
def Spares (symbols : Symbols) (limit depth : Nat) :
    Script α → Nat → (lost Q : α → Nat → Prop) → Prop
  | .done v, p, _, Q => Q v p
  | .fail cause, _, _, _ => ∀ limit, cause ≠ .nestedTooDeeply limit
  | .look next, p, lost, Q => (next (symbols.sight p)).Spares symbols limit depth p lost Q
  | .take next, p, lost, Q => next.Spares symbols limit depth (symbols.next p) lost Q
  | .call r next, p, lost, Q =>
    (∀ v, r.Passes v → (next v).Excused symbols p (lost · p)) ∧
      ∀ v q, r.eval symbols limit ⟨p, depth⟩ = .read v ⟨q, depth⟩ →
        (next v).Spares symbols limit depth q lost Q
  | .nest r next, p, lost, Q =>
    (∀ v, r.Nothing v → (next v).Excused symbols p (lost · p)) ∧
      (depth < limit → ∀ v q, r.eval symbols limit ⟨p, depth + 1⟩ = .read v ⟨q, depth + 1⟩ →
        (next v).Spares symbols limit depth q lost Q)

section Laws

variable {symbols : Symbols} {limit depth p : Nat}

theorem Excused.mono {x : Script α} {lost lost' : α → Prop} (h : x.Excused symbols p lost)
    (hlost : ∀ v, lost v → lost' v) : x.Excused symbols p lost' := by
  induction x with
  | done v => exact hlost v h
  | look next ih => exact ih _ h
  | _ => exact h

theorem excused_bind (x : Script α) (f : α → Script β) (lost : β → Prop) :
    (x >>= f).Excused symbols p lost ↔
      x.Excused symbols p fun v => (f v).Excused symbols p lost := by
  change (x.bind f).Excused symbols p lost ↔ _
  induction x with
  | look next ih => exact ih _
  | _ => rfl

theorem Spares.mono {x : Script α} {lost lost' Q Q' : α → Nat → Prop}
    (h : x.Spares symbols limit depth p lost Q) (hlost : ∀ v q, lost v q → lost' v q)
    (hQ : ∀ v q, Q v q → Q' v q) : x.Spares symbols limit depth p lost' Q' := by
  induction x generalizing p with
  | done v => exact hQ v p h
  | fail => exact h
  | look next ih => exact ih _ h
  | take next ih => exact ih h
  | call r next ih =>
    exact ⟨fun v hv => (h.1 v hv).mono fun w => hlost w p, fun v q hr => ih v (h.2 v q hr)⟩
  | nest r next ih =>
    exact ⟨fun v hv => (h.1 v hv).mono fun w => hlost w p, fun hd v q hr => ih v (h.2 hd v q hr)⟩

/-- What a script ensures holds of the values that it reads. -/
theorem Spares.and_ensures {x : Script α} {lost Q P : α → Nat → Prop}
    (h : x.Spares symbols limit depth p lost Q)
    (hx : x.Ensures (.exact symbols limit) symbols limit depth p P) :
    x.Spares symbols limit depth p lost fun v q => Q v q ∧ P v q := by
  induction x generalizing p with
  | done v => exact ⟨h, hx⟩
  | fail => exact h
  | look next ih => exact ih _ h hx
  | take next ih => exact ih h hx
  | call r next ih => exact ⟨h.1, fun v q hr => ih v (h.2 v q hr) (hx.2 v q hr)⟩
  | nest r next ih => exact ⟨h.1, fun hd v q hr => ih v (h.2 hd v q hr) ((hx hd).2 v q hr)⟩

theorem spares_bind (x : Script α) (f : α → Script β) (lost Q : β → Nat → Prop) :
    (x >>= f).Spares symbols limit depth p lost Q ↔
      x.Spares symbols limit depth p (fun v q => (f v).Excused symbols q (lost · q))
        fun v q => (f v).Spares symbols limit depth q lost Q := by
  change (x.bind f).Spares symbols limit depth p lost Q ↔ _
  induction x generalizing p with
  | done => rfl
  | fail => rfl
  | look next ih => exact ih _
  | take next ih => exact ih
  | call r next ih =>
    refine and_congr (forall_congr' fun v => imp_congr_right fun _ => excused_bind ..) ?_
    exact forall_congr' fun v => forall_congr' fun q => imp_congr_right fun _ => ih v
  | nest r next ih =>
    refine and_congr (forall_congr' fun v => imp_congr_right fun _ => excused_bind ..) ?_
    refine imp_congr_right fun _ => ?_
    exact forall_congr' fun v => forall_congr' fun q => imp_congr_right fun _ => ih v

end Laws

end Script

/-! ## Runs that are refused -/

section Runs

variable {symbols : Symbols} {limit high : Nat}

/-- With the limit `high` the refused rule would not find nothing. -/
def Refusal.BeginsWithin (symbols : Symbols) (high : Nat) (x : Refusal) : Prop :=
  ∀ v t, x.rule.eval symbols high x.state.inner = .read v t → ¬x.rule.Nothing v

/-- What the run with the limit `high` does, where a lower one refused `x`. -/
def Outcome.GoesOn {α : Type} (symbols : Symbols) (high depth : Nat) (lost : α → Nat → Prop)
    (x : Refusal) (o : Outcome α) : Prop :=
  x.BeginsWithin symbols high ∨ symbols.LeavesOut x.state.position ∨
    (∃ what found, o = .failed (.expected what found) ⟨x.state.position, depth⟩) ∨
    ∃ v, lost v x.state.position ∧ o = .read v ⟨x.state.position, depth⟩

theorem Outcome.GoesOn.leave {α : Type} {o : Outcome α} {depth : Nat} {lost : α → Nat → Prop}
    {x : Refusal} (h : o.GoesOn symbols high (depth + 1) lost x) :
    o.leave.GoesOn symbols high depth lost x := by
  rcases h with h | h | ⟨what, found, rfl⟩ | ⟨v, hv, rfl⟩
  · exact .inl h
  · exact .inr (.inl h)
  · exact .inr (.inr (.inl ⟨what, found, rfl⟩))
  · exact .inr (.inr (.inr ⟨v, hv, rfl⟩))

/-- A run that may end with a lost value is followed by one that is excused. -/
theorem Outcome.GoesOn.andThen {α β : Type} {o : Outcome α} {depth : Nat}
    {lost : α → Nat → Prop} {lost' : β → Nat → Prop} {x : Refusal} {f : α → Script β}
    (h : o.GoesOn symbols high depth lost x)
    (hf : ∀ v, lost v x.state.position →
      ((f v).eval symbols high ⟨x.state.position, depth⟩).GoesOn symbols high depth lost' x) :
    (o.andThen fun v t => (f v).eval symbols high t).GoesOn symbols high depth lost' x := by
  rcases h with h | h | ⟨what, found, rfl⟩ | ⟨v, hv, rfl⟩
  · exact .inl h
  · exact .inr (.inl h)
  · exact .inr (.inr (.inl ⟨what, found, rfl⟩))
  · exact hf v hv

theorem Script.Excused.goesOn {α : Type} {y : Script α} {lost : α → Nat → Prop} {depth : Nat}
    {x : Refusal} (h : y.Excused symbols x.state.position (lost · x.state.position)) :
    (y.eval symbols high ⟨x.state.position, depth⟩).GoesOn symbols high depth lost x := by
  induction y with
  | done v => exact .inr (.inr (.inr ⟨v, h, rfl⟩))
  | fail cause =>
    obtain ⟨what, found, rfl⟩ := h
    exact .inr (.inr (.inl ⟨what, found, rfl⟩))
  | look next ih => exact ih _ h
  | _ => exact .inr (.inl h)

/-- What a rule reads at the limit it reads at a higher one. -/
theorem Rule.eval_higher (hhigh : limit ≤ high) {budget : Nat} {r : Rule} {s t : ParseState}
    {v : r.Result} (h : Rule.exec symbols limit budget r s = .read v t) :
    r.eval symbols high s = .read v t := by
  rcases Rule.exec_guarded hhigh symbols budget r s with ⟨u, hrejected⟩ | hsame
  · rw [h] at hrejected
    cases hrejected
  · exact Rule.eval_of_exec (hsame.symm.trans h)

/-- A rule that finds nothing ends where it began. -/
theorem Rule.Nothing.eq_inner {r : Rule} {v : r.Result} {s t : ParseState} (h : r.Nothing v)
    (hread : r.eval symbols high s.inner = .read v t) : t = s.inner := by
  have hkeeps := r.eval_keeps symbols high s.inner
  have hadvances := r.eval_advances symbols high s.inner
  rw [hread] at hkeeps hadvances
  obtain ⟨position, depth⟩ := t
  obtain rfl : depth = s.depth + 1 := hkeeps.2.2
  have hposition : position = s.position := by
    cases r with
    | statement | labelled | block | expression | level | recovery | unary | suffixed | primary
    | type =>
      subst h
      exact hadvances
    | _ => cases h
  rw [hposition]
  rfl

/-- The script of the rule spares all that it may be refused, and loses what the rule passes. -/
def Rule.Spared (symbols : Symbols) (limit : Nat) (r : Rule) : Prop :=
  ∀ depth p, r.script.Spares symbols limit depth p (fun v q => r.Passes v ∧ q = p) fun _ _ => True

/-- The run of a rule that is refused something goes on as told, with a higher limit. -/
def Rule.GoesOnWithin (symbols : Symbols) (limit high budget : Nat) : Prop :=
  ∀ (r : Rule) s x, x.state.depth < high → Rule.refusal? symbols limit budget r s = some x →
    (r.eval symbols high s).GoesOn symbols high s.depth
      (fun v q => r.Passes v ∧ q = s.position) x

variable {budget : Nat} {s : ParseState} {x : Refusal}

theorem Script.goesOn {α : Type} (hhigh : limit ≤ high) (hx : x.state.depth < high)
    (hrules : Rule.GoesOnWithin symbols limit high budget) {y : Script α}
    {lost Q : α → Nat → Prop} (hy : y.Spares symbols limit s.depth s.position lost Q)
    (h : y.refusal? symbols limit (Rule.exec symbols limit budget)
      (Rule.refusal? symbols limit budget) s = some x) :
    (y.eval symbols high s).GoesOn symbols high s.depth lost x := by
  induction y generalizing s with
  | done => cases h
  | fail => cases h
  | look next ih => exact ih _ hy h
  | take next ih => exact ih hy h
  | call r next ih =>
    have hlost (v : r.Result) (hv : r.Passes v ∧ x.state.position = s.position) :
        ((next v).eval symbols high ⟨x.state.position, s.depth⟩).GoesOn symbols high s.depth
          lost x :=
      Excused.goesOn (hv.2 ▸ hy.1 v hv.1)
    have hkeeps := Rule.exec_keeps symbols limit budget r s
    rw [refusal?] at h
    change ((r.eval symbols high s).andThen fun v t => (next v).eval symbols high t).GoesOn ..
    cases ho : Rule.exec symbols limit budget r s with
    | read v t =>
      rw [ho] at h hkeeps
      obtain ⟨position, depth⟩ := t
      obtain rfl : depth = s.depth := hkeeps.2.2
      rw [Rule.eval_higher hhigh ho]
      exact ih v (hy.2 v position (Rule.eval_of_exec ho)) h
    | failed | exhausted =>
      rw [ho] at h
      exact (hrules r s x hx h).andThen hlost
  | nest r next ih =>
    have hlost (v : r.Result) (hv : r.Nothing v) (hp : x.state.position = s.position) :
        ((next v).eval symbols high ⟨x.state.position, s.depth⟩).GoesOn symbols high s.depth
          lost x :=
      Excused.goesOn (hp ▸ hy.1 v hv)
    have hnest (hd : s.depth < high) : (nest r next).eval symbols high s =
        (r.eval symbols high s.inner).leave.andThen fun v t => (next v).eval symbols high t :=
      if_pos hd
    rw [refusal?] at h
    split at h
    · rename_i hd
      have hkeeps := Rule.exec_keeps symbols limit budget r s.inner
      rw [hnest (Nat.lt_of_lt_of_le hd hhigh)]
      cases ho : Rule.exec symbols limit budget r s.inner with
      | read v t =>
        rw [ho] at h hkeeps
        obtain ⟨position, depth⟩ := t
        obtain rfl : depth = s.depth + 1 := hkeeps.2.2
        rw [Rule.eval_higher hhigh ho]
        exact ih v (hy.2 hd v position (Rule.eval_of_exec ho)) h
      | failed | exhausted =>
        rw [ho] at h
        exact (hrules r s.inner x hx h).leave.andThen fun v hv => hlost v hv.1.nothing hv.2
    · obtain rfl := Option.some.inj h
      by_cases hnothing : ∃ v t, r.eval symbols high s.inner = .read v t ∧ r.Nothing v
      · obtain ⟨v, t, hread, hv⟩ := hnothing
        rw [hnest hx, hread, hv.eq_inner hread]
        exact hlost v hv rfl
      · exact .inl fun v t hread hv => hnothing ⟨v, t, hread, hv⟩

/-- Where the scripts of all rules spare what they may be refused, so do their runs. -/
theorem Rule.goesOn (hhigh : limit ≤ high) (hspared : ∀ r : Rule, r.Spared symbols limit)
    (budget : Nat) : Rule.GoesOnWithin symbols limit high budget := by
  induction budget with
  | zero =>
    intro r s x hx h
    cases h
  | succ budget ih =>
    intro r s x hx h
    rw [Rule.eval_eq]
    exact Script.goesOn hhigh hx ih (hspared r s.depth s.position) h

/-! ## Rejected runs -/

/-- A run that is refused something is rejected there. -/
theorem Script.exec_of_refusal {α : Type} {y : Script α}
    (hrules : ∀ (r : Rule) s, Rule.refusal? symbols limit budget r s = some x →
      Rule.exec symbols limit budget r s =
        .failed (.nestedTooDeeply limit) ⟨x.state.position, s.depth⟩)
    (h : y.refusal? symbols limit (Rule.exec symbols limit budget)
      (Rule.refusal? symbols limit budget) s = some x) :
    y.exec symbols limit (Rule.exec symbols limit budget) s =
      .failed (.nestedTooDeeply limit) ⟨x.state.position, s.depth⟩ := by
  induction y generalizing s with
  | done => cases h
  | fail => cases h
  | look next ih => exact ih _ h
  | take next ih => exact ih h
  | call r next ih =>
    have hkeeps := Rule.exec_keeps symbols limit budget r s
    rw [refusal?] at h
    rw [exec]
    cases ho : Rule.exec symbols limit budget r s with
    | read v t =>
      rw [ho] at h hkeeps
      rw [← hkeeps.2.2]
      exact ih v h
    | failed | exhausted =>
      rw [ho] at h
      rw [← ho, hrules r s h]
      rfl
  | nest r next ih =>
    rw [refusal?] at h
    rw [exec]
    split at h
    · have hkeeps := Rule.exec_keeps symbols limit budget r s.inner
      rw [if_pos ‹_›]
      cases ho : Rule.exec symbols limit budget r s.inner with
      | read v t =>
        rw [ho] at h hkeeps
        have hdepth : t.outer.depth = s.depth := Nat.sub_eq_of_eq_add hkeeps.2.2
        rw [← hdepth]
        exact ih v h
      | failed | exhausted =>
        rw [ho] at h
        rw [← ho, hrules r s.inner h]
        rfl
    · rw [if_neg ‹_›]
      obtain rfl := Option.some.inj h
      rfl

theorem Rule.exec_of_refusal (r : Rule) (h : Rule.refusal? symbols limit budget r s = some x) :
    Rule.exec symbols limit budget r s =
      .failed (.nestedTooDeeply limit) ⟨x.state.position, s.depth⟩ := by
  induction budget generalizing r s with
  | zero => cases h
  | succ budget ih => exact Script.exec_of_refusal (fun r s => ih r) h

/-- A run that is rejected for its nesting is refused something. -/
theorem Script.exists_refusal {α : Type} {y : Script α} {n : Nat} {t : ParseState}
    (hrules : ∀ (r : Rule) s t,
      Rule.exec symbols limit budget r s = .failed (.nestedTooDeeply n) t →
        ∃ x, Rule.refusal? symbols limit budget r s = some x)
    {lost Q : α → Nat → Prop} (hy : y.Spares symbols limit s.depth s.position lost Q)
    (h : y.exec symbols limit (Rule.exec symbols limit budget) s =
      .failed (.nestedTooDeeply n) t) :
    ∃ x, y.refusal? symbols limit (Rule.exec symbols limit budget)
      (Rule.refusal? symbols limit budget) s = some x := by
  induction y generalizing s with
  | done => cases h
  | fail cause =>
    cases h
    exact absurd rfl (hy n)
  | look next ih => exact ih _ hy h
  | take next ih => exact ih hy h
  | call r next ih =>
    have hkeeps := Rule.exec_keeps symbols limit budget r s
    rw [exec] at h
    rw [refusal?]
    cases ho : Rule.exec symbols limit budget r s with
    | read v t =>
      rw [ho] at h hkeeps
      obtain ⟨position, depth⟩ := t
      obtain rfl : depth = s.depth := hkeeps.2.2
      exact ih v (hy.2 v position (Rule.eval_of_exec ho)) h
    | failed =>
      rw [ho] at h
      cases h
      exact hrules r s _ ho
    | exhausted =>
      rw [ho] at h
      cases h
  | nest r next ih =>
    rw [exec] at h
    rw [refusal?]
    split at h
    · have hkeeps := Rule.exec_keeps symbols limit budget r s.inner
      rw [if_pos ‹_›]
      cases ho : Rule.exec symbols limit budget r s.inner with
      | read v t =>
        rw [ho] at h hkeeps
        obtain ⟨position, depth⟩ := t
        obtain rfl : depth = s.depth + 1 := hkeeps.2.2
        exact ih v (hy.2 ‹_› v position (Rule.eval_of_exec ho)) h
      | failed =>
        rw [ho] at h
        cases h
        exact hrules r s.inner _ ho
      | exhausted =>
        rw [ho] at h
        cases h
    · rw [if_neg ‹_›]
      exact ⟨_, rfl⟩

theorem Rule.exists_refusal (hspared : ∀ r : Rule, r.Spared symbols limit) {n : Nat}
    {t : ParseState} (r : Rule)
    (h : Rule.exec symbols limit budget r s = .failed (.nestedTooDeeply n) t) :
    ∃ x, Rule.refusal? symbols limit budget r s = some x := by
  induction budget generalizing r s t with
  | zero => cases h
  | succ budget ih =>
    exact Script.exists_refusal (fun r s t => ih r) (hspared r s.depth s.position) h

end Runs

end FrontEnd
