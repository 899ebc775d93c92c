import FrontEnd.Proofs.Parser.Eval

/-!
Evaluation of scripts step by step. What a script does is told by what its parts
do, so a production whose symbols are known is evaluated by rewriting.
-/

namespace FrontEnd

namespace Script

variable {α β : Type} {symbols : Symbols} {limit : Nat} {s t : ParseState}

/-- However the rules are run, two steps are run one after the other. -/
theorem exec_bind (read : (r : Rule) → ParseState → Outcome r.Result) (x : Script α)
    (f : α → Script β) :
    (x >>= f).exec symbols limit read s =
      (x.exec symbols limit read s).andThen fun v t => (f v).exec symbols limit read t := by
  have hassoc {γ : Type} (o : Outcome γ) (g : γ → ParseState → Outcome α)
      (h : α → ParseState → Outcome β) :
      (o.andThen g).andThen h = o.andThen fun v t => (g v t).andThen h := by
    cases o <;> rfl
  change (x.bind f).exec symbols limit read s = _
  induction x generalizing s with
  | done value => rfl
  | fail cause => rfl
  | look next ih => exact ih _
  | take next ih => exact ih
  | call r next ih =>
    simp only [bind, exec, hassoc]
    congr 1
    funext v t
    exact ih v
  | nest r next ih =>
    simp only [bind, exec]
    split
    · rw [hassoc]
      congr 1
      funext v t
      exact ih v
    · rfl

/-- A script goes on from where its first part ended. -/
theorem exec_bind_of {read : (r : Rule) → ParseState → Outcome r.Result} {x : Script α}
    {f : α → Script β} {v : α} (h : x.exec symbols limit read s = .read v t) :
    (x >>= f).exec symbols limit read s = (f v).exec symbols limit read t := by
  rw [exec_bind, h]
  rfl

theorem exec_accept {read : (r : Rule) → ParseState → Outcome r.Result} {kind : TokenKind}
    (h : (symbols.symbolAt s.position).kind = kind) :
    (accept kind).exec symbols limit read s =
      .read true ⟨symbols.next s.position, s.depth⟩ := by
  change (if _ then _ else _ : Script Bool).exec symbols limit read s = _
  rw [Symbols.sight_kind, if_pos h]
  rfl

theorem exec_accept_of_ne {read : (r : Rule) → ParseState → Outcome r.Result} {kind : TokenKind}
    (h : (symbols.symbolAt s.position).kind ≠ kind) :
    (accept kind).exec symbols limit read s = .read false s := by
  change (if _ then _ else _ : Script Bool).exec symbols limit read s = _
  rw [Symbols.sight_kind, if_neg h]
  rfl

/-- Steps in a row need not be grouped. -/
theorem bind_bind {γ : Type} (x : Script α) (f : α → Script β) (g : β → Script γ) :
    x >>= f >>= g = x >>= fun v => f v >>= g := by
  change (x.bind f).bind g = x.bind fun v => (f v).bind g
  induction x with
  | done value => rfl
  | fail cause => rfl
  | look next ih => simp only [bind, ih]
  | take next ih => simp only [bind, ih]
  | call r next ih => simp only [bind, ih]
  | nest r next ih => simp only [bind, ih]

theorem require_bind (what : Expectation) (x : Script (Option α)) (f : α → Script β) :
    require what x >>= f = x >>= fun
      | some v => f v
      | none => failing what := by
  refine (bind_bind x _ f).trans (congrArg (x >>= ·) ?_)
  funext v
  cases v <;> rfl

theorem eval_bind (x : Script α) (f : α → Script β) :
    (x >>= f).eval symbols limit s =
      (x.eval symbols limit s).andThen fun v t => (f v).eval symbols limit t :=
  exec_bind _ x f

theorem eval_bind_of {x : Script α} {f : α → Script β} {v : α}
    (h : x.eval symbols limit s = .read v t) :
    (x >>= f).eval symbols limit s = (f v).eval symbols limit t := exec_bind_of h

theorem eval_bind_congr {x y : Script α} {f : α → Script β}
    (h : x.eval symbols limit s = y.eval symbols limit s) :
    (x >>= f).eval symbols limit s = (y >>= f).eval symbols limit s := by
  rw [eval_bind, eval_bind, h]

theorem eval_bind_failed {x : Script α} {f : α → Script β} {cause : Cause}
    (h : x.eval symbols limit s = .failed cause t) :
    (x >>= f).eval symbols limit s = .failed cause t := by
  rw [eval_bind, h]
  rfl

/-- What two steps read, each of them has read. -/
theorem eval_bind_inverts {x : Script α} {f : α → Script β} {w : β}
    (h : (x >>= f).eval symbols limit s = .read w t) :
    ∃ v r, x.eval symbols limit s = .read v r ∧ (f v).eval symbols limit r = .read w t := by
  rw [eval_bind] at h
  cases hx : x.eval symbols limit s with
  | read v r =>
    rw [hx] at h
    exact ⟨v, r, rfl, h⟩
  | failed cause r =>
    rw [hx] at h
    cases h
  | exhausted =>
    rw [hx] at h
    cases h

theorem eval_pure (v : α) : (pure v : Script α).eval symbols limit s = .read v s := rfl

theorem eval_sight : sight.eval symbols limit s = .read (symbols.sight s.position) s := rfl

theorem eval_here : here.eval symbols limit s = .read s.position s := rfl

theorem eval_take :
    (take (done ())).eval symbols limit s = .read () ⟨symbols.next s.position, s.depth⟩ := rfl

theorem eval_run (r : Rule) : (run r).eval symbols limit s = r.eval symbols limit s := by
  change (r.eval symbols limit s).andThen .read = _
  cases r.eval symbols limit s <;> rfl

theorem eval_deeper {r : Rule} {v : r.Result} (hd : s.depth < limit)
    (h : r.eval symbols limit s.inner = .read v t) :
    (deeper r).eval symbols limit s = .read v t.outer := by
  change (if s.depth < limit then _ else _) = _
  rw [if_pos hd, h]
  rfl

theorem eval_deeper_failed {r : Rule} {cause : Cause} (hd : s.depth < limit)
    (h : r.eval symbols limit s.inner = .failed cause t) :
    (deeper r).eval symbols limit s = .failed cause t.outer := by
  change (if s.depth < limit then _ else _) = _
  rw [if_pos hd, h]
  rfl

theorem eval_accept {kind : TokenKind} (h : (symbols.symbolAt s.position).kind = kind) :
    (accept kind).eval symbols limit s = .read true ⟨symbols.next s.position, s.depth⟩ :=
  exec_accept h

theorem eval_accept_of_ne {kind : TokenKind} (h : (symbols.symbolAt s.position).kind ≠ kind) :
    (accept kind).eval symbols limit s = .read false s := exec_accept_of_ne h

theorem eval_expect {kind : TokenKind} (h : (symbols.symbolAt s.position).kind = kind) :
    (expect kind).eval symbols limit s =
      .read (symbols.symbolAt s.position).text ⟨symbols.next s.position, s.depth⟩ := by
  change (if _ then _ else _ : Script String).eval symbols limit s = _
  rw [Symbols.sight_kind, if_pos h]
  rfl

theorem eval_expect_of_ne {kind : TokenKind} (h : (symbols.symbolAt s.position).kind ≠ kind) :
    (expect kind).eval symbols limit s =
      .failed (.expected (.token kind) (symbols.symbolAt s.position).kind) s := by
  change (if _ then _ else _ : Script String).eval symbols limit s = _
  rw [Symbols.sight_kind, if_neg h]
  rfl

theorem eval_require {what : Expectation} {x : Script (Option α)} {v : α}
    (h : x.eval symbols limit s = .read (some v) t) :
    (require what x).eval symbols limit s = .read v t :=
  eval_bind_of h

theorem eval_require_failed {what : Expectation} {x : Script (Option α)} {cause : Cause}
    (h : x.eval symbols limit s = .failed cause t) :
    (require what x).eval symbols limit s = .failed cause t :=
  eval_bind_failed h

end Script

/-! ## Runs backwards -/

/-- The contract that tells of every rule what its run reads. -/
def Contract.exact (symbols : Symbols) (limit : Nat) : Contract :=
  .graded fun depth r p v q => r.eval symbols limit ⟨p, depth⟩ = .read v ⟨q, depth⟩

section Exact

variable {symbols : Symbols} {limit depth p q : Nat}

/-- What a script ensures of exact runs holds of what it has read. -/
theorem Script.holds_of_eval {α : Type} {x : Script α} {v : α} {Q : α → Nat → Prop}
    (h : x.eval symbols limit ⟨p, depth⟩ = .read v ⟨q, depth⟩)
    (hx : x.Ensures (.exact symbols limit) symbols limit depth p Q) : Q v q := by
  have hread (r : Rule) (s : ParseState) : (r.eval symbols limit s).Gives
      (fun v q => r.eval symbols limit ⟨s.position, s.depth⟩ = .read v ⟨q, s.depth⟩) False := by
    have hkeeps := r.eval_keeps symbols limit s
    have hne := r.eval_ne_exhausted symbols limit s
    cases ho : r.eval symbols limit s with
    | read v t =>
      rw [ho] at hkeeps
      obtain ⟨position, depth⟩ := t
      obtain rfl : depth = s.depth := hkeeps.2.2
      rfl
    | failed cause t => trivial
    | exhausted => exact hne ho
  have hgives := exec_gives (Rule.eval_keeps symbols limit) (fun r s _ => hread r s)
    (s := ⟨p, depth⟩) hx
  change (x.eval symbols limit ⟨p, depth⟩).Gives Q False at hgives
  rw [h] at hgives
  exact hgives

theorem Rule.holds_of_eval {r : Rule} {v : r.Result} {Q : r.Result → Nat → Prop}
    (h : r.eval symbols limit ⟨p, depth⟩ = .read v ⟨q, depth⟩)
    (hx : r.script.Ensures (.exact symbols limit) symbols limit depth p Q) : Q v q :=
  Script.holds_of_eval ((r.eval_eq symbols limit _).symm.trans h) hx

theorem Rule.advances_of_eval {r : Rule} {v : r.Result}
    (h : r.eval symbols limit ⟨p, depth⟩ = .read v ⟨q, depth⟩) : r.Advances symbols p v q := by
  have hadvances := r.eval_advances symbols limit ⟨p, depth⟩
  rw [h] at hadvances
  exact hadvances

/-- What every script keeps when the rules it calls do, of which it is known what they read,
all runs keep. -/
theorem Rule.eval_graded_exact {reads : Nat → (r : Rule) → Nat → r.Result → Nat → Prop}
    (hscript : ∀ (r : Rule) depth p, r.script.Ensures
      (.graded fun depth r p v q =>
        r.eval symbols limit ⟨p, depth⟩ = .read v ⟨q, depth⟩ ∧ reads depth r p v q)
      symbols limit depth p (reads depth r p))
    (r : Rule) (s : ParseState) :
    (r.eval symbols limit s).Gives (reads s.depth r s.position) False := by
  have hexec (budget : Nat) : ∀ (r : Rule) s,
      (Rule.exec symbols limit budget r s).Gives (fun v q =>
        r.eval symbols limit s = .read v ⟨q, s.depth⟩ ∧ reads s.depth r s.position v q) True := by
    induction budget with
    | zero => exact fun _ _ => trivial
    | succ budget ih =>
      intro r s
      have hgives : (Rule.exec symbols limit (budget + 1) r s).Gives
          (reads s.depth r s.position) True :=
        Script.exec_gives (Rule.exec_keeps symbols limit budget) (fun r s _ => ih r s)
          (hscript r s.depth s.position)
      have hkeeps := Rule.exec_keeps symbols limit (budget + 1) r s
      cases ho : Rule.exec symbols limit (budget + 1) r s with
      | read v t =>
        rw [ho] at hgives hkeeps
        obtain ⟨position, depth⟩ := t
        obtain rfl : depth = s.depth := hkeeps.2.2
        exact ⟨Rule.eval_of_exec ho, hgives⟩
      | failed cause t => trivial
      | exhausted => trivial
  have hg := hexec (budget symbols) r s
  have hne := r.eval_ne_exhausted symbols limit s
  unfold eval at hne hg ⊢
  cases ho : Rule.exec symbols limit (FrontEnd.budget symbols) r s with
  | read v t =>
    rw [ho] at hg
    exact hg.2
  | failed cause t => trivial
  | exhausted => exact hne ho

end Exact

/-! ## Less deep -/

section Shallower

variable {symbols : Symbols} {limit depth p q : Nat}

/-- The rule reads the value at the depth and at all lesser ones. -/
def Rule.ReadsUpTo (symbols : Symbols) (limit depth : Nat) (r : Rule) (p : Nat) (v : r.Result)
    (q : Nat) : Prop :=
  ∀ d ≤ depth, r.eval symbols limit ⟨p, d⟩ = .read v ⟨q, d⟩

theorem Script.ensures_shallower {α : Type} (x : Script α) :
    x.Ensures (.graded (Rule.ReadsUpTo symbols limit)) symbols limit depth p fun v q =>
      ∀ d ≤ depth, x.eval symbols limit ⟨p, d⟩ = .read v ⟨q, d⟩ := by
  induction x generalizing p with
  | done value => exact fun _ _ => rfl
  | fail cause => trivial
  | look next ih => exact ih _
  | take next ih => exact ih
  | call r next ih =>
    refine ⟨trivial, fun v q hv => (ih v).mono fun w r' hw d hd => ?_⟩
    change (r.eval symbols limit ⟨p, d⟩).andThen _ = _
    rw [hv d hd]
    exact hw d hd
  | nest r next ih =>
    refine fun hlimit => ⟨trivial, fun v q hv => (ih v).mono fun w r' hw d hd => ?_⟩
    change (if d < limit then (r.eval symbols limit ⟨p, d + 1⟩).leave.andThen _ else _) = _
    rw [if_pos (Nat.lt_of_le_of_lt hd hlimit), hv (d + 1) (Nat.succ_le_succ hd)]
    exact hw d hd

/-- What is read at some depth is read the same at a lesser one. -/
theorem Rule.eval_shallower {r : Rule} {v : r.Result} {d : Nat}
    (h : r.eval symbols limit ⟨p, depth⟩ = .read v ⟨q, depth⟩) (hd : d ≤ depth) :
    r.eval symbols limit ⟨p, d⟩ = .read v ⟨q, d⟩ := by
  have hscript (r : Rule) (depth p : Nat) :
      r.script.Ensures (.graded (Rule.ReadsUpTo symbols limit)) symbols limit depth p
        (r.ReadsUpTo symbols limit depth p) :=
    r.script.ensures_shallower.mono fun v q hv d hd =>
      (r.eval_eq symbols limit _).trans (hv d hd)
  have hgives := Rule.eval_graded hscript r ⟨p, depth⟩
  rw [h] at hgives
  exact hgives d hd

end Shallower

end FrontEnd
