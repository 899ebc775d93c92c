import FrontEnd.Proofs.Parser.Steps

/-!
What a script obtains from symbols that are known. It obtains a value if its run reads
it; where a run may be rejected for its depth of nesting, that counts too, so that
such a rejection need not be followed through the productions. The laws below execute
a production step by step.
-/

namespace FrontEnd

/-- From `p` on, the run of the script reads `v` up to `q`, or else is rejected for its
nesting, which is only so if `loose` holds. -/
def Script.Obtains {α : Type} (symbols : Symbols) (limit : Nat) (loose : Prop) (depth : Nat)
    (x : Script α) (p : Nat) (v : α) (q : Nat) : Prop :=
  x.eval symbols limit ⟨p, depth⟩ = .read v ⟨q, depth⟩ ∨
    loose ∧ ∃ t, x.eval symbols limit ⟨p, depth⟩ = .failed (.nestedTooDeeply limit) t

/-- The same of a rule. -/
def Rule.Obtains (symbols : Symbols) (limit : Nat) (loose : Prop) (depth : Nat) (r : Rule)
    (p : Nat) (v : r.Result) (q : Nat) : Prop :=
  r.script.Obtains symbols limit loose depth p v q

namespace Rule

variable {symbols : Symbols} {limit depth : Nat} {loose : Prop} {p q : Nat} {r : Rule}
  {v : r.Result}

theorem Obtains.of_eval (h : r.eval symbols limit ⟨p, depth⟩ = .read v ⟨q, depth⟩) :
    r.Obtains symbols limit loose depth p v q := .inl ((Rule.eval_eq ..).symm.trans h)

/-- What a rule obtains it reads, where its nesting is not to blame. -/
theorem Obtains.eval_eq (h : r.Obtains symbols limit loose depth p v q) (hloose : ¬loose) :
    r.eval symbols limit ⟨p, depth⟩ = .read v ⟨q, depth⟩ :=
  (Rule.eval_eq ..).trans (h.resolve_right fun hfailed => hloose hfailed.1)

end Rule

namespace Script

variable {α β : Type} {symbols : Symbols} {limit depth : Nat} {loose : Prop} {p q r : Nat}

theorem Obtains.of_eval {x : Script α} {v : α}
    (h : x.eval symbols limit ⟨p, depth⟩ = .read v ⟨q, depth⟩) :
    x.Obtains symbols limit loose depth p v q := .inl h

theorem obtains_bind {x : Script α} {f : α → Script β} {v : α} {w : β}
    (hx : x.Obtains symbols limit loose depth p v q)
    (hf : (f v).Obtains symbols limit loose depth q w r) :
    (x >>= f).Obtains symbols limit loose depth p w r := by
  rcases hx with hx | ⟨hl, t, hx⟩
  · unfold Obtains
    rw [eval_bind_of hx]
    exact hf
  · exact .inr ⟨hl, t, eval_bind_failed hx⟩

theorem obtains_pure (v : α) : (pure v : Script α).Obtains symbols limit loose depth p v p :=
  .inl rfl

theorem obtains_sight : sight.Obtains symbols limit loose depth p (symbols.sight p) p := .inl rfl

theorem obtains_here : here.Obtains symbols limit loose depth p p p := .inl rfl

theorem obtains_take (hq : symbols.next p = q) :
    (take (done ())).Obtains symbols limit loose depth p () q := by
  subst hq
  exact .inl rfl

theorem obtains_accept {kind : TokenKind} (h : (symbols.symbolAt p).kind = kind)
    (hq : symbols.next p = q) : (accept kind).Obtains symbols limit loose depth p true q := by
  subst hq
  exact .inl (eval_accept h)

theorem obtains_accept_of_ne {kind : TokenKind} (h : (symbols.symbolAt p).kind ≠ kind) :
    (accept kind).Obtains symbols limit loose depth p false p := .inl (eval_accept_of_ne h)

theorem obtains_acceptText {kind : TokenKind} (h : (symbols.symbolAt p).kind = kind)
    (hq : symbols.next p = q) :
    (acceptText kind).Obtains symbols limit loose depth p (some (symbols.symbolAt p).text) q := by
  subst hq
  unfold Obtains eval
  change (if (symbols.symbolAt p).kind = kind then take (done _) else done none).exec _ _ _ _ = _ ∨
    _
  rw [if_pos h]
  exact .inl rfl

theorem obtains_acceptText_of_ne {kind : TokenKind} (h : (symbols.symbolAt p).kind ≠ kind) :
    (acceptText kind).Obtains symbols limit loose depth p none p := by
  unfold Obtains eval
  change (if (symbols.symbolAt p).kind = kind then take (done _) else done none).exec _ _ _ _ = _ ∨
    _
  rw [if_neg h]
  exact .inl rfl

theorem obtains_expect {kind : TokenKind} (h : (symbols.symbolAt p).kind = kind)
    (hq : symbols.next p = q) :
    (expect kind).Obtains symbols limit loose depth p (symbols.symbolAt p).text q := by
  subst hq
  exact .inl (eval_expect h)

theorem obtains_require {what : Expectation} {x : Script (Option α)} {v : α}
    (h : x.Obtains symbols limit loose depth p (some v) q) :
    (require what x).Obtains symbols limit loose depth p v q := by
  rcases h with h | ⟨hl, t, h⟩
  · exact .inl (eval_require h)
  · exact .inr ⟨hl, t, eval_require_failed h⟩

theorem obtains_map {x : Script α} {f : α → β} {v : α}
    (h : x.Obtains symbols limit loose depth p v q) :
    (f <$> x).Obtains symbols limit loose depth p (f v) q :=
  obtains_bind h (obtains_pure _)

theorem obtains_run {r : Rule} {v : r.Result} (h : r.Obtains symbols limit loose depth p v q) :
    (run r).Obtains symbols limit loose depth p v q := by
  unfold Obtains
  rw [eval_run, Rule.eval_eq]
  exact h

theorem obtains_ite_true {c : Prop} [Decidable c] {x y : Script α} {v : α} (hc : c)
    (h : x.Obtains symbols limit loose depth p v q) :
    (if c then x else y).Obtains symbols limit loose depth p v q := by
  rwa [if_pos hc]

theorem obtains_ite_false {c : Prop} [Decidable c] {x y : Script α} {v : α} (hc : ¬c)
    (h : y.Obtains symbols limit loose depth p v q) :
    (if c then x else y).Obtains symbols limit loose depth p v q := by
  rwa [if_neg hc]

/-- A rule obtains what a script does that it runs as. -/
theorem obtains_of_eval_eq {r : Rule} {x : Script r.Result} {v : r.Result}
    (heq : r.eval symbols limit ⟨p, depth⟩ = x.eval symbols limit ⟨p, depth⟩)
    (h : x.Obtains symbols limit loose depth p v q) :
    r.Obtains symbols limit loose depth p v q := by
  unfold Rule.Obtains Obtains
  rw [← Rule.eval_eq, heq]
  exact h

/-- One level further in, if there is one or lack of it is allowed for. -/
theorem obtains_deeper {r : Rule} {v : r.Result} (hd : depth < limit ∨ loose)
    (h : r.Obtains symbols limit loose (depth + 1) p v q) :
    (deeper r).Obtains symbols limit loose depth p v q := by
  by_cases hlt : depth < limit
  · rcases h with h | ⟨hl, t, h⟩
    · rw [← Rule.eval_eq] at h
      exact .inl (eval_deeper (s := ⟨p, depth⟩) hlt h)
    · rw [← Rule.eval_eq] at h
      exact .inr ⟨hl, _, eval_deeper_failed (s := ⟨p, depth⟩) hlt h⟩
  · refine .inr ⟨hd.resolve_left hlt, ⟨p, depth⟩, ?_⟩
    change (if depth < limit then _ else _) = _
    rw [if_neg hlt]

end Script

end FrontEnd
