import FrontEnd.Parser.Run

/-!
What every run keeps, whatever its productions do: the position never falls and
never passes the end, the depth of nesting is restored on every way out, and no
symbol behind the end is looked at. Each is an induction on the steps of a script,
carried to the rules by an induction on the budget.
-/

namespace FrontEnd

namespace Symbols

variable {symbols : Symbols} {p : Nat}

theorem le_next (symbols : Symbols) (p : Nat) : p ≤ symbols.next p := by
  unfold next
  split <;> omega

theorem next_le (h : p ≤ symbols.size) : symbols.next p ≤ symbols.size := by
  unfold next
  split <;> omega

/-- A symbol that is not the end has a place among the symbols. -/
theorem lt_size_of_kind (h : (symbols.symbolAt p).kind ≠ .endOfFile) : p < symbols.size := by
  unfold symbolAt at h
  by_cases hp : p < symbols.size
  · exact hp
  · simp [hp, Symbol.last] at h

theorem kind_of_size_le (h : symbols.size ≤ p) : (symbols.symbolAt p).kind = .endOfFile :=
  Decidable.not_not.mp fun hk => Nat.not_lt.mpr h (lt_size_of_kind hk)

theorem next_eq (h : (symbols.symbolAt p).kind ≠ .endOfFile) : symbols.next p = p + 1 := by
  simp [next, lt_size_of_kind h]

theorem next_of_kind {kind : TokenKind} (h : (symbols.symbolAt p).kind = kind)
    (hk : kind ≠ .endOfFile) : symbols.next p = p + 1 := next_eq (h ▸ hk)

@[simp] theorem sight_position : (symbols.sight p).position = p := rfl

@[simp] theorem sight_current : (symbols.sight p).current = symbols.symbolAt p := rfl

@[simp] theorem sight_kind : (symbols.sight p).kind = (symbols.symbolAt p).kind := rfl

@[simp] theorem sight_next : (symbols.sight p).next = (symbols.symbolAt (p + 1)).kind := rfl

end Symbols

/-- From `s`, a run of either outcome ends at a later position within the source,
and at the same depth. -/
def Outcome.Keeps {α : Type} (symbols : Symbols) (s : ParseState) : Outcome α → Prop
  | .read _ t | .failed _ t =>
    s.position ≤ t.position ∧ (s.position ≤ symbols.size → t.position ≤ symbols.size) ∧
      t.depth = s.depth
  | .exhausted => True

namespace Outcome

variable {α β : Type} {symbols : Symbols} {s t : ParseState}

theorem Keeps.andThen {o : Outcome α} {f : α → ParseState → Outcome β} (h : o.Keeps symbols s)
    (hf : ∀ v t, (f v t).Keeps symbols t) : (o.andThen f).Keeps symbols s := by
  cases o with
  | failed cause t => exact h
  | exhausted => trivial
  | read value t =>
    obtain ⟨hst, hsize, hdepth⟩ := h
    have ht := hf value t
    change (f value t).Keeps symbols s
    cases hr : f value t with
    | exhausted => trivial
    | read _ u | failed _ u =>
      rw [hr] at ht
      obtain ⟨htu, htsize, htdepth⟩ := ht
      exact ⟨by omega, fun hs => htsize (hsize hs), by omega⟩

theorem Keeps.leave {o : Outcome α} (h : o.Keeps symbols s.inner) : o.leave.Keeps symbols s := by
  cases o with
  | exhausted => trivial
  | read _ t | failed _ t =>
    obtain ⟨hst, hsize, hdepth⟩ := h
    exact ⟨hst, hsize, by simp [ParseState.outer, ParseState.inner] at *; omega⟩

end Outcome

theorem Script.exec_keeps {α : Type} (symbols : Symbols) (limit : Nat)
    {read : (r : Rule) → ParseState → Outcome r.Result}
    (hread : ∀ r s, (read r s).Keeps symbols s) (x : Script α) (s : ParseState) :
    (x.exec symbols limit read s).Keeps symbols s := by
  induction x generalizing s with
  | done value => exact ⟨Nat.le_refl _, id, rfl⟩
  | fail cause => exact ⟨Nat.le_refl _, id, rfl⟩
  | look next ih => exact ih _ s
  | take next ih =>
    have h := ih ⟨symbols.next s.position, s.depth⟩
    have hle := symbols.le_next s.position
    rw [exec]
    cases hr : next.exec symbols limit read ⟨symbols.next s.position, s.depth⟩ with
    | exhausted => trivial
    | read _ t | failed _ t =>
      rw [hr] at h
      obtain ⟨hst, hsize, hdepth⟩ := h
      exact ⟨Nat.le_trans hle hst, fun hs => hsize (Symbols.next_le hs), hdepth⟩
  | call r next ih => exact (hread r s).andThen ih
  | nest r next ih =>
    rw [exec]
    split
    · exact (hread r s.inner).leave.andThen ih
    · exact ⟨Nat.le_refl _, id, rfl⟩

theorem Rule.exec_keeps (symbols : Symbols) (limit budget : Nat) (r : Rule) (s : ParseState) :
    (Rule.exec symbols limit budget r s).Keeps symbols s := by
  induction budget generalizing r s with
  | zero => trivial
  | succ budget ih => exact r.script.exec_keeps symbols limit ih s

/-! ## Positions that a run looks at -/

namespace Outcome

/-- The positions looked at behind a run, `f` telling those of what follows it. -/
def further {α : Type} (f : α → ParseState → List Nat) : Outcome α → List Nat
  | read value t => f value t
  | _ => []

end Outcome

/-- The positions of the symbols that a run of the script needs, be it to decide,
to take or to report them. -/
def Script.inspected {α : Type} (symbols : Symbols) (limit : Nat)
    (read : (r : Rule) → ParseState → Outcome r.Result) (seen : Rule → ParseState → List Nat) :
    Script α → ParseState → List Nat
  | .done _, _ => []
  | .fail _, s => [s.position]
  | .look next, s =>
    s.position :: (next (symbols.sight s.position)).inspected symbols limit read seen s
  | .take next, s =>
    s.position :: next.inspected symbols limit read seen ⟨symbols.next s.position, s.depth⟩
  | .call r next, s =>
    seen r s ++
      (read r s).further fun value t => (next value).inspected symbols limit read seen t
  | .nest r next, s =>
    if s.depth < limit then
      seen r s.inner ++
        (read r s.inner).leave.further fun value t =>
          (next value).inspected symbols limit read seen t
    else [s.position]

def Rule.inspected (symbols : Symbols) (limit : Nat) : Nat → Rule → ParseState → List Nat
  | 0, _, _ => []
  | budget + 1, r, s =>
    r.script.inspected symbols limit (Rule.exec symbols limit budget)
      (Rule.inspected symbols limit budget) s

theorem Outcome.further_le {α : Type} {symbols : Symbols} {s : ParseState} {o : Outcome α}
    {f : α → ParseState → List Nat} (h : o.Keeps symbols s) (hs : s.position ≤ symbols.size)
    (hf : ∀ v t, t.position ≤ symbols.size → ∀ q ∈ f v t, q ≤ symbols.size) :
    ∀ q ∈ o.further f, q ≤ symbols.size := by
  intro q hq
  cases o with
  | read value t => exact hf value t (h.2.1 hs) q hq
  | failed cause t => simp [further] at hq
  | exhausted => simp [further] at hq

theorem Script.inspected_le {α : Type} (symbols : Symbols) (limit : Nat)
    {read : (r : Rule) → ParseState → Outcome r.Result} {seen : Rule → ParseState → List Nat}
    (hread : ∀ r s, (read r s).Keeps symbols s)
    (hseen : ∀ r s, s.position ≤ symbols.size → ∀ q ∈ seen r s, q ≤ symbols.size)
    (x : Script α) (s : ParseState) (hs : s.position ≤ symbols.size) :
    ∀ q ∈ x.inspected symbols limit read seen s, q ≤ symbols.size := by
  induction x generalizing s with
  | done value => simp [inspected]
  | fail cause => simpa [inspected] using hs
  | look next ih =>
    intro q hq
    rcases List.mem_cons.mp hq with rfl | hq
    · exact hs
    · exact ih _ s hs q hq
  | take next ih =>
    intro q hq
    rcases List.mem_cons.mp hq with rfl | hq
    · exact hs
    · exact ih _ (Symbols.next_le hs) q hq
  | call r next ih =>
    intro q hq
    rcases List.mem_append.mp hq with hq | hq
    · exact hseen r s hs q hq
    · exact Outcome.further_le (hread r s) hs (fun v t ht => ih v t ht) q hq
  | nest r next ih =>
    rw [inspected]
    split
    · intro q hq
      rcases List.mem_append.mp hq with hq | hq
      · exact hseen r s.inner hs q hq
      · exact Outcome.further_le (hread r s.inner).leave hs (fun v t ht => ih v t ht) q hq
    · simpa using hs

/-- No run looks behind the end of the source. -/
theorem Rule.inspected_le (symbols : Symbols) (limit budget : Nat) (r : Rule) (s : ParseState)
    (hs : s.position ≤ symbols.size) :
    ∀ q ∈ Rule.inspected symbols limit budget r s, q ≤ symbols.size := by
  induction budget generalizing r s with
  | zero => simp [Rule.inspected]
  | succ budget ih =>
    exact r.script.inspected_le symbols limit (Rule.exec_keeps symbols limit budget) ih s hs

end FrontEnd
