import FrontEnd.Proofs.Parser.Climbing
import FrontEnd.Proofs.Parser.Reaching
import FrontEnd.Proofs.Tree.Moving

/-!
Runs over the same symbols in two sources. A passage is a part of a source that stands in
another source too; what stands behind it there may be something else. What a production
reads within the passage it reads in the other source as well, anchored where the passage
stands there, unless it ends at the end of the passage and what is behind would carry it on.
`Script.Mirrors` says so of a script. It is followed backwards, from what may be behind where
the script ends to what may be behind where it begins, and where the run has to go beyond the
passage nothing is to be shown.
-/

namespace FrontEnd

/-- The symbols of `source` from `start` up to `stop`, which stand in `target` too, `shift`
symbols further on and `extra` levels deeper. `move` tells where anchors go. -/
structure Passage where
  source : Symbols
  target : Symbols
  start : Nat
  stop : Nat
  shift : Nat
  extra : Nat
  move : Nat → Nat
  same : ∀ p, start ≤ p → p < stop → target.symbolAt (p + shift) = source.symbolAt p
  source_le : stop ≤ source.size
  target_le : stop + shift ≤ target.size
  move_eq : ∀ p, start ≤ p → p < stop → move p = p + shift

namespace Passage

variable (w : Passage)

/-- What stands behind the passage in the other source. -/
def behind : TokenKind := (w.target.symbolAt (w.stop + w.shift)).kind

/-- An operand that ends with the passage ends there in the other source. -/
structure EndsOperand : Prop where
  operator : ∀ l : Level, l.operator? w.behind = none
  handler : w.behind ≠ .kwCatch
  suffix : w.behind ∉ TokenKind.suffixes
  block : w.behind = .leftBrace →
    ∀ p, w.start ≤ p → p < w.stop → (w.source.symbolAt p).kind ≠ .kwFunc

/-- A statement that ends with the passage ends there in the other source. -/
structure EndsStatement : Prop where
  semicolon : w.behind ≠ .semicolon
  otherwise : w.behind ≠ .kwElse
  elseIf : w.behind ≠ .kwElseIf

/-- An operand was found, and it ends where the passage ends. -/
def Completes {α : Type} (v : Option α) : Prop := v.isSome = true ∧ w.EndsOperand

/-- What is asked of the symbol behind where the rule reads the value and ends with the
passage. Rules behind which something has to follow in any case ask what is not so. -/
def Asks : (r : Rule) → r.Result → Prop
  | .statement, v => v.isSome = true ∧ w.EndsStatement
  | .labelled, v => v.isSome = true
  | .conditional, _ => w.EndsStatement
  | .block _, v => v.isSome = true ∨ w.behind ≠ .leftBrace
  | .expression, v | .level _, v | .recovery, v | .unary, v | .suffixed, v | .primary, v
  | .type, v => w.Completes v
  | .prototype _ _, _ | .operand, _ | .innerType, _ | .operands _, _ | .handlers, _
  | .suffixes, _ => w.EndsOperand
  | .unit, _ | .params, _ | .modifiers, _ | .branch, _ | .items, _ | .attempts, _ => False
  | _, _ => True

/-- Statements look two symbols ahead, so that the passage must have two. -/
def Covers : (r : Rule) → Nat → r.Result → Prop
  | .statement, _, v => v.isSome = true
  | .labelled, p, _ => p + 1 < w.stop
  | _, _, _ => True

variable (limit : Nat)

/-- What the rule reads within the passage it obtains from the other source. -/
def Carries (depth : Nat) (r : Rule) (p : Nat) (v : r.Result) (q : Nat) : Prop :=
  w.start ≤ p → q ≤ w.stop → (q = w.stop → w.Asks r v) → w.Covers r p v →
    r.Obtains w.target limit (0 < w.extra) (depth + w.extra) (p + w.shift) (r.move w.move v)
      (q + w.shift)

def contract : Contract := .graded fun depth r p v q =>
  r.eval w.source limit ⟨p, depth⟩ = .read v ⟨q, depth⟩ ∧ w.Carries limit depth r p v q

end Passage

/-- From `p` on, what `x` reads within the passage `y` obtains from the other source, moved
by `g`: if `post` holds of it where it ends with the passage, and then `pre` holds where it
begins there. -/
def Script.Mirrors {α β : Type} (w : Passage) (limit p : Nat) (pre : Prop) (x : Script α)
    (y : Script β) (g : α → β) (post : α → Prop) : Prop :=
  w.start ≤ p → p ≤ w.stop → ∀ depth,
    x.Ensures (w.contract limit) w.source limit depth p fun v q => p ≤ q ∧
      (q ≤ w.stop → (q = w.stop → post v) → (p = w.stop → pre) ∧
        y.Obtains w.target limit (0 < w.extra) (depth + w.extra) (p + w.shift) (g v)
          (q + w.shift))

/-- The script of the rule mirrors itself. -/
def Rule.Mirrors (w : Passage) (limit : Nat) (r : Rule) (p : Nat) : Prop :=
  Script.Mirrors w limit p True r.script r.script (r.move w.move) (w.Asks r)

/-- Rules that take a symbol or ask what is not so. -/
def Rule.settles : Rule → Bool
  | .statement | .labelled | .block _ | .operands _ | .handlers | .suffixes | .listed _ => false
  | _ => true

namespace Passage

variable {w : Passage} {limit p q : Nat}

theorem not_completes_none {α : Type} : ¬w.Completes (none : Option α) := by
  simp [Completes]

theorem lt_of_asks {r : Rule} {v : r.Result} (hr : r.settles = true)
    (hv : r.Advances w.source p v q) (h : w.Asks r v) : p < q := by
  cases r with
  | expression | level | recovery | unary | suffixed | primary | type =>
    exact (Symbols.Finds.forward hv h.1).1
  | unit | params | modifiers | branch | items | attempts => exact False.elim h
  | statement | labelled | block | operands | handlers | suffixes | listed => cases hr
  | _ => exact hv.1

theorem covers_of_settles {r : Rule} (v : r.Result) (hr : r.settles = true) :
    w.Covers r p v := by
  cases r with
  | statement | labelled => cases hr
  | _ => trivial

theorem lt_or_eq (hp : p ≤ w.stop) : p < w.stop ∨ p = w.stop := Nat.lt_or_eq_of_le hp

theorem source_next (hp : p < w.stop) : w.source.next p = p + 1 := by
  have hle := w.source_le
  simp only [Symbols.next]
  rw [if_pos (by omega)]

theorem target_next (hp : p < w.stop) : w.target.next (p + w.shift) = p + 1 + w.shift := by
  have hle := w.target_le
  simp only [Symbols.next]
  rw [if_pos (by omega)]
  omega

theorem same_move (hs : w.start ≤ p) (hp : p < w.stop) :
    w.target.symbolAt (w.move p) = w.source.symbolAt p := by
  rw [w.move_eq p hs hp, w.same p hs hp]

/-- Before the last symbol of the passage both sources show the same. -/
theorem sight_move (hs : w.start ≤ p) (hp : p + 1 < w.stop) :
    w.target.sight (w.move p) = { w.source.sight p with position := w.move p } := by
  have hnext := w.same (p + 1) (by omega) hp
  rw [Nat.add_right_comm, ← w.move_eq p hs (by omega)] at hnext
  rw [Symbols.sight, w.same_move hs (by omega), hnext]
  rfl

end Passage

namespace Script

variable {α β γ δ : Type} {w : Passage} {limit n m p : Nat} {pre pre' : Prop}

/-! ## Runs that go beyond -/

/-- What the rules that a script calls have read is known. -/
theorem Ensures.of_exact {x : Script α} {depth : Nat} {Q : α → Nat → Prop}
    (h : x.Ensures (.exact w.source limit) w.source limit depth p Q) :
    x.Ensures (w.contract limit) w.source limit depth p Q :=
  h.weaken (fun _ _ _ => trivial) fun _ _ _ _ _ hv => hv.1

/-- Beyond the passage nothing is to be shown. -/
theorem mirrors_of_reaches {x : Script α} {y : Script β} {g : α → β} {post : α → Prop}
    (h : w.stop < n) (hx : Reaches w.source limit n p x) :
    Mirrors w limit p pre x y g post := by
  intro _ hp depth
  refine ((hx depth).and (ensures_le x)).of_exact.mono fun v q ⟨hn, hq⟩ => ⟨hq, fun hq' => ?_⟩
  omega

/-- Nor is there at its end, where something has to follow. -/
theorem mirrors_of_reaches_stop {x : Script α} {y : Script β} {g : α → β} (h : w.stop ≤ n)
    (hx : Reaches w.source limit n p x) : Mirrors w limit p pre x y g fun _ => False := by
  intro _ hp depth
  refine ((hx depth).and (ensures_le x)).of_exact.mono fun v q ⟨hn, hq⟩ =>
    ⟨hq, fun hq' hpost => ?_⟩
  exact (hpost (by omega)).elim

theorem mirrors_of_lasts_stop {x : Script (Option α)} {y : Script β} {g : Option α → β}
    (h : w.stop < n) (hx : Lasts w.source limit n w.stop x) :
    Mirrors w limit w.stop pre x y g fun v => v.isSome = true := by
  intro _ _ depth
  refine ((hx depth).and (ensures_le x)).of_exact.mono fun v q ⟨hn, hq⟩ =>
    ⟨hq, fun hq' hsome => ?_⟩
  have hle := hn (hsome (Nat.le_antisymm hq' hq))
  omega

/-! ## Steps -/

theorem Mirrors.imp {x : Script α} {y : Script β} {g : α → β} {post post' : α → Prop}
    (h : Mirrors w limit p pre x y g post) (hpost : ∀ v, post' v → post v) :
    Mirrors w limit p pre x y g post' := by
  intro hs hp depth
  refine (h hs hp depth).mono fun v q ⟨hpq, hv⟩ => ⟨hpq, fun hq hv' => ?_⟩
  exact hv hq fun heq => hpost v (hv' heq)

theorem mirrors_of_cases {x : Script α} {y : Script β} {g : α → β} {post : α → Prop}
    (hlt : p < w.stop → Mirrors w limit p pre x y g post)
    (hstop : p = w.stop → Mirrors w limit p pre x y g post) :
    Mirrors w limit p pre x y g post := by
  intro hs hp
  rcases w.lt_or_eq hp with h | h
  · exact hlt h hs hp
  · exact hstop h hs hp

/-- Before the end of the passage nothing has to be asked. -/
theorem Mirrors.of_lt {x : Script α} {y : Script β} {g : α → β} {post : α → Prop}
    (h : Mirrors w limit p pre' x y g post) (hp : p < w.stop) :
    Mirrors w limit p pre x y g post := by
  intro hs hp' depth
  refine (h hs hp' depth).mono fun v q ⟨hpq, hv⟩ => ⟨hpq, fun hq hpost => ?_⟩
  exact ⟨fun heq => by omega, (hv hq hpost).2⟩

/-- Two steps. `P` is what is known in any case of what the first one reads. -/
theorem mirrors_bind_of {x : Script α} {y : Script β} {g : α → β} {f : α → Script γ}
    {f' : β → Script δ} {h : γ → δ} {mid : α → Prop} {post : γ → Prop} {P : α → Nat → Prop}
    (hx : Mirrors w limit p pre x y g mid)
    (hP : ∀ depth, x.Ensures (.exact w.source limit) w.source limit depth p P)
    (hf : ∀ v q, P v q → Mirrors w limit q (mid v) (f v) (f' (g v)) h post) :
    Mirrors w limit p pre (x >>= f) (y >>= f') h post := by
  intro hs hp depth
  rw [ensures_bind]
  refine ((hx hs hp depth).and (hP depth).of_exact).mono fun v q ⟨⟨hpq, hv⟩, hknown⟩ => ?_
  by_cases hq : q ≤ w.stop
  · refine (hf v q hknown (Nat.le_trans hs hpq) hq depth).mono fun u r ⟨hqr, hu⟩ => ?_
    refine ⟨Nat.le_trans hpq hqr, fun hr hpost => ?_⟩
    obtain ⟨hmid, hu⟩ := hu hr hpost
    obtain ⟨hpre, hv⟩ := hv hq hmid
    exact ⟨hpre, obtains_bind hv hu⟩
  · refine (ensures_le (f v)).of_exact.mono fun u r hqr =>
      ⟨Nat.le_trans hpq hqr, fun hr => ?_⟩
    exact absurd (Nat.le_trans hqr hr) hq

theorem mirrors_bind {x : Script α} {y : Script β} {g : α → β} {f : α → Script γ}
    {f' : β → Script δ} {h : γ → δ} {mid : α → Prop} {post : γ → Prop}
    (hx : Mirrors w limit p pre x y g mid)
    (hf : ∀ v q, Mirrors w limit q (mid v) (f v) (f' (g v)) h post) :
    Mirrors w limit p pre (x >>= f) (y >>= f') h post :=
  mirrors_bind_of hx (fun _ => ensures_le x) fun v q _ => hf v q

/-- Where nothing is found, the run goes on where it was. -/
theorem mirrors_find_bind {x : Script (Option α)} {y : Script (Option β)} {g : α → β}
    {f : Option α → Script γ} {f' : Option β → Script δ} {h : γ → δ} {mid : Option α → Prop}
    {post : γ → Prop} (hx : Mirrors w limit p pre x y (Option.map g) mid)
    (hfinds : ∀ depth, x.Ensures (.exact w.source limit) w.source limit depth p
      (w.source.Finds p))
    (hsome : ∀ v q, Mirrors w limit q (mid (some v)) (f (some v)) (f' (some (g v))) h post)
    (hnone : Mirrors w limit p (mid none) (f none) (f' none) h post) :
    Mirrors w limit p pre (x >>= f) (y >>= f') h post := by
  refine mirrors_bind_of hx hfinds fun v q hfound => ?_
  cases v with
  | none =>
    obtain rfl : q = p := hfound
    exact hnone
  | some v => exact hsome v q

theorem mirrors_pure {v : α} {u : β} {g : α → β} {post : α → Prop} (h : g v = u)
    (hpost : post v → pre) : Mirrors w limit p pre (pure v) (pure u) g post := by
  subst h
  exact fun _ _ _ => ⟨Nat.le_refl p, fun _ hv => ⟨fun heq => hpost (hv heq), obtains_pure _⟩⟩

theorem mirrors_found {v : α} {u : β} {g : α → β} (h : g v = u) (hpre : pre) :
    Mirrors w limit p pre (pure v) (pure u) g fun _ => True :=
  mirrors_pure h fun _ => hpre

theorem mirrors_pure_lt {v : α} {u : β} {g : α → β} {post : α → Prop} (hp : p < w.stop)
    (h : g v = u) : Mirrors w limit p pre (pure v) (pure u) g post :=
  Mirrors.of_lt (mirrors_pure h id) hp

theorem mirrors_map {x : Script α} {y : Script β} {g : α → β} {f : α → γ} {f' : β → δ}
    {h : γ → δ} {post : γ → Prop} (hx : Mirrors w limit p pre x y g fun v => post (f v))
    (hf : ∀ v, h (f v) = f' (g v)) : Mirrors w limit p pre (f <$> x) (f' <$> y) h post :=
  mirrors_bind hx fun v _ => mirrors_pure (hf v) id

theorem mirrors_fail {cause : Cause} {y : Script β} {g : α → β} {post : α → Prop} :
    Mirrors w limit p pre (fail cause) y g post := fun _ _ _ => trivial

theorem mirrors_failing {what : Expectation} {y : Script β} {g : α → β} {post : α → Prop} :
    Mirrors w limit p pre (failing what) y g post := fun _ _ _ => trivial

theorem mirrors_ite {c c' : Prop} [Decidable c] [Decidable c'] {x x' : Script α}
    {y y' : Script β} {g : α → β} {post : α → Prop} (hc : c ↔ c')
    (htrue : c → Mirrors w limit p pre x y g post)
    (hfalse : ¬c → Mirrors w limit p pre x' y' g post) :
    Mirrors w limit p pre (if c then x else x') (if c' then y else y') g post := by
  by_cases h : c
  · rw [if_pos h, if_pos (hc.mp h)]
    exact htrue h
  · rw [if_neg h, if_neg (mt hc.mpr h)]
    exact hfalse h

/-- A position behind the passage is that of nothing in it. -/
theorem mirrors_here : Mirrors w limit p pre here here w.move fun _ => p < w.stop := by
  intro hs hp depth
  refine ⟨Nat.le_refl p, fun _ hbefore => ?_⟩
  have hlt : p < w.stop := (w.lt_or_eq hp).elim id hbefore
  refine ⟨fun heq => absurd hlt (by omega), ?_⟩
  change here.Obtains _ _ _ _ _ (w.move p) _
  rw [w.move_eq p hs hlt]
  exact obtains_here

/-- What the two sources show at the place may be used there. -/
theorem mirrors_sight_bind_at {f : Sight → Script α} {f' : Sight → Script β} {g : α → β}
    {post : α → Prop}
    (h : Mirrors w limit p pre (f (w.source.sight p)) (f' (w.target.sight (p + w.shift))) g
      post) :
    Mirrors w limit p pre (sight >>= f) (sight >>= f') g post := h

theorem mirrors_sight_bind {f : Sight → Script α} {f' : Sight → Script β} {g : α → β}
    {post : α → Prop} (hp : p < w.stop)
    (h : w.start ≤ p →
      Mirrors w limit p pre (f (w.source.sight p)) (f' (w.target.sight (w.move p))) g post) :
    Mirrors w limit p pre (sight >>= f) (sight >>= f') g post := by
  intro hs
  have hsight := h hs
  rw [w.move_eq p hs hp] at hsight
  exact mirrors_sight_bind_at hsight hs

/-- A choice by the kind of a symbol: behind the passage that symbol must not be. -/
theorem mirrors_sight_ite {kind : TokenKind} {x x' : Script α} {y y' : Script β} {g : α → β}
    {post : α → Prop} (htrue : Mirrors w limit p False x y g post)
    (hfalse : Mirrors w limit p (pre ∧ w.behind ≠ kind) x' y' g post) :
    Mirrors w limit p pre (sight >>= fun s => if s.kind = kind then x else x')
      (sight >>= fun s => if s.kind = kind then y else y') g post := by
  refine mirrors_of_cases (fun hp => mirrors_sight_bind hp fun hs => ?_) ?_
  · refine mirrors_ite ?_ (fun _ => htrue.of_lt hp) fun _ => hfalse.of_lt hp
    rw [Symbols.sight_kind, Symbols.sight_kind, w.same_move hs hp]
  · rintro rfl
    refine mirrors_sight_bind_at fun hs hp depth => ?_
    split
    · refine (htrue hs hp depth).mono fun v q ⟨hpq, hv⟩ => ⟨hpq, fun hq hpost => ?_⟩
      exact ((hv hq hpost).1 rfl).elim
    · refine (hfalse hs hp depth).mono fun v q ⟨hpq, hv⟩ => ⟨hpq, fun hq hpost => ?_⟩
      obtain ⟨hpre, hv⟩ := hv hq hpost
      have hbehind : ¬(w.target.sight (w.stop + w.shift)).kind = kind := (hpre rfl).2
      rw [if_neg hbehind]
      exact ⟨fun _ => (hpre rfl).1, hv⟩

theorem mirrors_take (h : p < w.stop) :
    Mirrors w limit p pre (take (done ())) (take (done ())) id fun _ => True := by
  intro _ _ depth
  rw [ensures_take, ensures_done, w.source_next h]
  exact ⟨by omega, fun _ _ => ⟨fun heq => by omega, obtains_take (w.target_next h)⟩⟩

theorem mirrors_take_both (h : p + 1 < w.stop) :
    Mirrors w limit p pre (take (take (done ()))) (take (take (done ()))) id fun _ => True := by
  intro _ hp depth
  have hlt : p < w.stop := Nat.lt_of_succ_lt h
  rw [ensures_take, ensures_take, ensures_done, w.source_next hlt, w.source_next h]
  refine ⟨by omega, fun _ _ => ⟨fun heq => by omega, .inl ?_⟩⟩
  change Outcome.read () _ = _
  rw [w.target_next hlt, w.target_next h]

/-- Where the symbol is not taken at the end of the passage, it must not be behind. -/
theorem mirrors_accept {kind : TokenKind} (hk : kind ≠ .endOfFile) :
    Mirrors w limit p pre (accept kind) (accept kind) id
      fun taken => taken = true ∨ pre ∧ w.behind ≠ kind := by
  intro hs hp depth
  rw [ensures_accept]
  refine ⟨fun h => ?_, fun h => ⟨Nat.le_refl p, fun _ hpost => ?_⟩⟩
  · rw [Symbols.next_of_kind h hk]
    refine ⟨by omega, fun hq _ => ⟨fun heq => by omega, ?_⟩⟩
    rw [← w.same p hs hq] at h
    exact obtains_accept h (w.target_next hq)
  · rcases w.lt_or_eq hp with hlt | rfl
    · rw [← w.same p hs hlt] at h
      exact ⟨fun heq => by omega, obtains_accept_of_ne h⟩
    · obtain ⟨hpre, hbehind⟩ := (hpost rfl).resolve_left (by simp)
      exact ⟨fun _ => hpre, obtains_accept_of_ne hbehind⟩

theorem mirrors_acceptText {kind : TokenKind} (hk : kind ≠ .endOfFile) :
    Mirrors w limit p pre (acceptText kind) (acceptText kind) id
      fun taken => taken.isSome = true ∨ pre ∧ w.behind ≠ kind := by
  intro hs hp depth
  rw [ensures_acceptText]
  refine ⟨fun h => ?_, fun h => ⟨Nat.le_refl p, fun _ hpost => ?_⟩⟩
  · rw [Symbols.next_of_kind h hk]
    refine ⟨by omega, fun hq _ => ⟨fun heq => by omega, ?_⟩⟩
    rw [← w.same p hs hq] at h ⊢
    exact obtains_acceptText h (w.target_next hq)
  · rcases w.lt_or_eq hp with hlt | rfl
    · rw [← w.same p hs hlt] at h
      exact ⟨fun heq => by omega, obtains_acceptText_of_ne h⟩
    · obtain ⟨hpre, hbehind⟩ := (hpost rfl).resolve_left (by simp)
      exact ⟨fun _ => hpre, obtains_acceptText_of_ne hbehind⟩

theorem mirrors_expect {kind : TokenKind} (hk : kind ≠ .endOfFile) :
    Mirrors w limit p pre (expect kind) (expect kind) id fun _ => True := by
  intro hs hp depth
  rw [ensures_expect]
  intro h
  rw [Symbols.next_of_kind h hk]
  refine ⟨by omega, fun hq _ => ⟨fun heq => by omega, ?_⟩⟩
  rw [← w.same p hs hq] at h ⊢
  exact obtains_expect h (w.target_next hq)

theorem mirrors_require {what : Expectation} {x : Script (Option α)} {y : Script (Option β)}
    {g : α → β} {post : Option α → Prop} (hx : Mirrors w limit p pre x y (Option.map g) post) :
    Mirrors w limit p pre (require what x) (require what y) g fun v => post (some v) := by
  intro hs hp depth
  rw [ensures_require]
  refine (hx hs hp depth).mono fun v q ⟨hpq, hv⟩ t ht => ?_
  subst ht
  refine ⟨hpq, fun hq hpost => ?_⟩
  obtain ⟨hpre, hv⟩ := hv hq hpost
  exact ⟨hpre, obtains_require hv⟩

/-! ## Calls -/

theorem mirrors_run_of (r : Rule) {post : r.Result → Prop}
    (h : ∀ v q, r.Advances w.source p v q → q ≤ w.stop → (q = w.stop → post v) →
      (q = w.stop → w.Asks r v) ∧ w.Covers r p v ∧ (p = w.stop → pre)) :
    Mirrors w limit p pre (run r) (run r) (r.move w.move) post := by
  intro hs _ depth
  refine ⟨trivial, fun v q hv => ?_⟩
  have hadvances := Rule.advances_of_eval hv.1
  refine ⟨hadvances.le, fun hq hpost => ?_⟩
  obtain ⟨hasks, hcovers, hpre⟩ := h v q hadvances hq hpost
  exact ⟨hpre, obtains_run (hv.2 hs hq hasks hcovers)⟩

theorem mirrors_run (r : Rule) (hr : r.settles = true) :
    Mirrors w limit p pre (run r) (run r) (r.move w.move) (w.Asks r) := by
  refine mirrors_run_of r fun v q hv hq hpost => ⟨hpost, w.covers_of_settles v hr, ?_⟩
  rintro rfl
  have heq : q = w.stop := Nat.le_antisymm hq hv.le
  have hlt := w.lt_of_asks hr hv (hpost heq)
  omega

/-- A rule that may read nothing at the end of the passage. -/
theorem mirrors_run_on (r : Rule) (hcovers : ∀ v, w.Covers r p v)
    (hpre : ∀ v, w.Asks r v → pre) :
    Mirrors w limit p pre (run r) (run r) (r.move w.move) (w.Asks r) := by
  refine mirrors_run_of r fun v q hv hq hpost => ⟨hpost, hcovers v, ?_⟩
  rintro rfl
  exact hpre v (hpost (Nat.le_antisymm hq hv.le))

/-- A block that is found. -/
theorem mirrors_block (label : Option String) :
    Mirrors w limit p pre (run (.block label)) (run (.block label))
      ((Rule.block label).move w.move) fun v => v.isSome = true := by
  refine mirrors_run_of (.block label) fun v q hv hq hpost =>
    ⟨fun heq => .inl (hpost heq), trivial, ?_⟩
  rintro rfl
  have heq : q = w.stop := Nat.le_antisymm hq hv.le
  have hlt := (Symbols.Finds.forward hv (hpost heq)).1
  omega

/-- Of a statement that looks for a label the first symbol must not be the last one. -/
theorem mirrors_labelled (hp : p + 1 < w.stop) :
    Mirrors w limit p pre (run .labelled) (run .labelled) (Rule.labelled.move w.move)
      fun v => v.isSome = true :=
  mirrors_run_of .labelled fun _ _ _ _ hpost => ⟨hpost, hp, fun heq => by omega⟩

theorem mirrors_deeper (r : Rule) (hr : r.settles = true) :
    Mirrors w limit p pre (deeper r) (deeper r) (r.move w.move) (w.Asks r) := by
  intro hs _ depth hd
  refine ⟨trivial, fun v q hv => ?_⟩
  have hadvances := Rule.advances_of_eval hv.1
  refine ⟨hadvances.le, fun hq hpost => ⟨?_, obtains_deeper (by omega) ?_⟩⟩
  · rintro rfl
    have heq : q = w.stop := Nat.le_antisymm hq hadvances.le
    have hlt := w.lt_of_asks hr hadvances (hpost heq)
    omega
  · rw [Nat.add_right_comm]
    exact hv.2 hs hq hpost (w.covers_of_settles v hr)

theorem mirrors_require_statement {what : Expectation} :
    Mirrors w limit p pre (require what Grammar.nestedStatement)
      (require what Grammar.nestedStatement) (·.mapTokens w.move) fun _ => w.EndsStatement := by
  intro hs _ depth
  rw [ensures_require]
  refine fun hd => ⟨trivial, fun v q hv t ht => ?_⟩
  subst ht
  have hadvances := Rule.advances_of_eval hv.1
  refine ⟨hadvances.le, fun hq hpost => ⟨fun heq => ?_, ?_⟩⟩
  · have hlt := (Symbols.Finds.forward hadvances rfl).1
    omega
  · refine obtains_require (obtains_deeper (by omega) ?_)
    rw [Nat.add_right_comm]
    exact hv.2 hs hq (fun heq => ⟨rfl, hpost heq⟩) rfl

end Script

end FrontEnd
