import FrontEnd.Parser.Cursor
import FrontEnd.Proofs.Parser.Progress

/-!
Runs without a budget. Ranks and the symbols ahead bound the calls that a rule may
have open, so the budget of a source is never exhausted, and a run with more of it
is the same. `Rule.eval` then satisfies the equations of the productions, and a
contract that every production keeps holds of all its runs.
-/

namespace FrontEnd

variable {symbols : Symbols} {limit : Nat}

/-! ## The budget is enough -/

/-- How many calls the rule may have open inside each other at `p`, itself left out. -/
def Rule.load (symbols : Symbols) (r : Rule) (p : Nat) : Nat :=
  (symbols.size - p) * callsPerSymbol + r.rank

theorem Rule.rank_lt (r : Rule) : r.rank < callsPerSymbol := by
  unfold rank
  split <;> decide

theorem Rule.load_lt_of_descends {r r' : Rule} {p q : Nat} (h : r.Descends symbols p r' q) :
    r'.load symbols q < r.load symbols p := by
  have hrank := r'.rank_lt
  unfold load
  rcases h with ⟨hpq, hq⟩ | ⟨rfl, hr⟩
  · have hle : symbols.size - q + 1 ≤ symbols.size - p := by omega
    have hmul := Nat.mul_le_mul_right callsPerSymbol hle
    rw [Nat.add_mul, Nat.one_mul] at hmul
    omega
  · omega

theorem Rule.load_lt_budget (r : Rule) (p : Nat) : r.load symbols p < budget symbols := by
  have hrank := r.rank_lt
  have hmul := Nat.mul_le_mul_right callsPerSymbol (Nat.sub_le symbols.size p)
  unfold load budget
  rw [Nat.add_mul, Nat.one_mul]
  omega

theorem Rule.exec_advances {budget : Nat} {r : Rule} {s : ParseState}
    (h : r.load symbols s.position < budget) :
    (Rule.exec symbols limit budget r s).Gives (r.Advances symbols s.position) False := by
  induction budget generalizing r s with
  | zero => omega
  | succ budget ih =>
    apply Script.exec_gives (C := progress symbols r s.position)
      (Rule.exec_keeps symbols limit budget)
    · intro r' s' hcall
      have hload := load_lt_of_descends hcall
      exact ih (by omega)
    · exact r.progresses symbols limit s.depth s.position

/-! ## More budget changes nothing -/

/-- `o'` is `o`, unless `o` ended because its budget was too small. -/
def Outcome.Within {α : Type} (o o' : Outcome α) : Prop := o = .exhausted ∨ o = o'

theorem Outcome.Within.andThen {α β : Type} {o o' : Outcome α}
    {f f' : α → ParseState → Outcome β} (h : o.Within o') (hf : ∀ v t, (f v t).Within (f' v t)) :
    (o.andThen f).Within (o'.andThen f') := by
  rcases h with rfl | rfl
  · exact .inl rfl
  · cases o with
    | read v t => exact hf v t
    | failed cause t => exact .inr rfl
    | exhausted => exact .inl rfl

theorem Outcome.Within.leave {α : Type} {o o' : Outcome α} (h : o.Within o') :
    o.leave.Within o'.leave := by
  rcases h with rfl | rfl
  · exact .inl rfl
  · exact .inr rfl

theorem Script.exec_within {α : Type} {read read' : (r : Rule) → ParseState → Outcome r.Result}
    (hread : ∀ r s, (read r s).Within (read' r s)) (x : Script α) (s : ParseState) :
    (x.exec symbols limit read s).Within (x.exec symbols limit read' s) := by
  induction x generalizing s with
  | done value => exact .inr rfl
  | fail cause => exact .inr rfl
  | look next ih => exact ih _ s
  | take next ih => exact ih _
  | call r next ih => exact (hread r s).andThen ih
  | nest r next ih =>
    simp only [exec]
    split
    · exact (hread r s.inner).leave.andThen ih
    · exact .inr rfl

theorem Rule.exec_within_succ (symbols : Symbols) (limit budget : Nat) (r : Rule) (s : ParseState) :
    (Rule.exec symbols limit budget r s).Within (Rule.exec symbols limit (budget + 1) r s) := by
  induction budget generalizing r s with
  | zero => exact .inl rfl
  | succ budget ih => exact r.script.exec_within ih s

theorem Rule.exec_within_add (symbols : Symbols) (limit budget n : Nat) (r : Rule)
    (s : ParseState) :
    (Rule.exec symbols limit budget r s).Within (Rule.exec symbols limit (budget + n) r s) := by
  induction n with
  | zero => exact .inr rfl
  | succ n ih =>
    rcases ih with h | h
    · exact .inl h
    · exact h ▸ exec_within_succ symbols limit (budget + n) r s

/-! ## Evaluation -/

/-- What the rule does on a source. -/
def Rule.eval (symbols : Symbols) (limit : Nat) (r : Rule) (s : ParseState) : Outcome r.Result :=
  Rule.exec symbols limit (budget symbols) r s

/-- What the script does on a source. -/
def Script.eval {α : Type} (symbols : Symbols) (limit : Nat) (x : Script α) (s : ParseState) :
    Outcome α :=
  x.exec symbols limit (Rule.eval symbols limit) s

variable (symbols limit)

theorem Rule.eval_advances (r : Rule) (s : ParseState) :
    (r.eval symbols limit s).Gives (r.Advances symbols s.position) False :=
  exec_advances (r.load_lt_budget s.position)

theorem Rule.eval_keeps (r : Rule) (s : ParseState) : (r.eval symbols limit s).Keeps symbols s :=
  Rule.exec_keeps symbols limit (budget symbols) r s

theorem Rule.eval_ne_exhausted (r : Rule) (s : ParseState) :
    r.eval symbols limit s ≠ .exhausted := by
  intro h
  have hg := r.eval_advances symbols limit s
  rw [h] at hg
  exact hg

/-- A budget beyond that of the source changes nothing. -/
theorem Rule.exec_eq_eval {budget : Nat} (h : FrontEnd.budget symbols ≤ budget) (r : Rule)
    (s : ParseState) : Rule.exec symbols limit budget r s = r.eval symbols limit s := by
  obtain ⟨n, rfl⟩ := Nat.exists_eq_add_of_le h
  have hwithin := exec_within_add symbols limit (FrontEnd.budget symbols) n r s
  exact (hwithin.resolve_left (r.eval_ne_exhausted symbols limit s)).symm

variable {symbols limit} in
/-- What a run reads with any budget the rule reads. -/
theorem Rule.eval_of_exec {budget : Nat} {r : Rule} {s t : ParseState} {v : r.Result}
    (h : Rule.exec symbols limit budget r s = .read v t) :
    r.eval symbols limit s = .read v t := by
  rcases Nat.le_total budget (FrontEnd.budget symbols) with hle | hle
  · obtain ⟨n, hn⟩ := Nat.exists_eq_add_of_le hle
    have hwithin := exec_within_add symbols limit budget n r s
    rw [← hn, h] at hwithin
    exact hwithin.elim (fun hexhausted => by cases hexhausted) Eq.symm
  · rw [← exec_eq_eval symbols limit hle, h]

/-- A rule does what its script does. -/
theorem Rule.eval_eq (r : Rule) (s : ParseState) :
    r.eval symbols limit s = r.script.eval symbols limit s := by
  rcases Rule.exec_within_succ symbols limit (budget symbols) r s with h | h
  · exact absurd h (r.eval_ne_exhausted symbols limit s)
  · exact h

/-- The contract of rules that may be called everywhere, at every depth. -/
def Contract.graded (reads : Nat → (r : Rule) → Nat → r.Result → Nat → Prop) : Contract where
  allows _ _ := True
  reads := reads

/-- The same where the depth does not matter. -/
def Contract.free (reads : (r : Rule) → Nat → r.Result → Nat → Prop) : Contract where
  allows _ _ := True
  reads _ := reads

variable {symbols limit} in
/-- What every script keeps when the rules it calls do, all runs keep. -/
theorem Rule.eval_graded {reads : Nat → (r : Rule) → Nat → r.Result → Nat → Prop}
    (hscript : ∀ (r : Rule) depth p,
      r.script.Ensures (Contract.graded reads) symbols limit depth p (reads depth r p))
    (r : Rule) (s : ParseState) :
    (r.eval symbols limit s).Gives (reads s.depth r s.position) False := by
  have hexec (budget : Nat) : ∀ (r : Rule) s,
      (Rule.exec symbols limit budget r s).Gives (reads s.depth r s.position) True := by
    induction budget with
    | zero => exact fun _ _ => trivial
    | succ budget ih =>
      intro r s
      exact Script.exec_gives (C := Contract.graded reads) (Rule.exec_keeps symbols limit budget)
        (fun r s _ => ih r s) (hscript r s.depth s.position)
  have hg := hexec (budget symbols) r s
  have hne := r.eval_ne_exhausted symbols limit s
  unfold eval at hne ⊢
  cases ho : Rule.exec symbols limit (FrontEnd.budget symbols) r s with
  | read v t =>
    rw [ho] at hg
    exact hg
  | failed cause t => trivial
  | exhausted => exact hne ho

variable {symbols limit} in
theorem Rule.eval_reads {reads : (r : Rule) → Nat → r.Result → Nat → Prop}
    (hscript : ∀ (r : Rule) depth p,
      r.script.Ensures (Contract.free reads) symbols limit depth p (reads r p))
    (r : Rule) (s : ParseState) : (r.eval symbols limit s).Gives (reads r s.position) False :=
  @eval_graded symbols limit (fun _ => reads) hscript r s

/-! ## Streams -/

namespace TokenStream

theorem symbols_toList (s : TokenStream) :
    s.symbols.toList = (s.body.filter (!·.kind.isTrivia)).map (·.symbol) := by
  have hfilter (tokens : List Token) (n : Nat) :
      (((tokens.zipIdx n).filter fun t => !t.1.kind.isTrivia).map fun t => t.1.symbol) =
        (tokens.filter (!·.kind.isTrivia)).map (·.symbol) := by
    induction tokens generalizing n with
    | nil => rfl
    | cons t tokens ih =>
      have ht := ih (n + 1)
      simp only [List.zipIdx_cons, List.filter_cons]
      split
      · rw [List.map_cons, List.map_cons, ht]
      · exact ht
  exact hfilter s.body 0

/-- A token that parsing sees stands at its index and is no comment. -/
theorem getElem?_of_significant {s : TokenStream} {i j : Nat} {t : Token}
    (h : s.significant[i]? = some (t, j)) : s.body[j]? = some t ∧ t.kind.isTrivia = false := by
  obtain ⟨hmem, htrivia⟩ := List.mem_filter.mp (List.mem_of_getElem? h)
  exact ⟨List.mem_zipIdx_iff_getElem?.mp hmem, by simpa using htrivia⟩

/-- A symbol of the stream is that of one of its tokens. -/
theorem exists_of_lt_size {s : TokenStream} {p : Nat} (h : p < s.symbols.size) :
    ∃ t ∈ s.body, s.symbols.symbolAt p = t.symbol := by
  have hat : s.symbols.symbolAt p ∈ s.symbols.toList := by
    simp [Symbols.symbolAt, h]
  rw [symbols_toList] at hat
  obtain ⟨t, ht, hsymbol⟩ := List.mem_map.mp hat
  exact ⟨t, (List.mem_filter.mp ht).1, hsymbol.symm⟩

/-- Reading stopped early only where a symbol tells so. -/
theorem illegal?_eq_none {s : TokenStream}
    (h : ∀ symbol ∈ s.symbols.toList, symbol.kind ≠ .illegal) : s.illegal? = none := by
  unfold illegal?
  rw [List.find?_eq_none]
  intro t ht hkind
  have hillegal : t.kind = .illegal := by simpa using hkind
  rcases List.mem_append.mp (List.mem_reverse.mp ht) with hbody | hlast
  · apply h t.symbol _ hillegal
    rw [symbols_toList]
    have htrivia : (!t.kind.isTrivia) = true := by rw [hillegal]; rfl
    exact List.mem_map_of_mem (List.mem_filter.mpr ⟨hbody, htrivia⟩)
  · rw [List.mem_singleton.mp hlast] at hillegal
    cases hillegal

end TokenStream

namespace Cursor

/-- A tree that parsing gives is the root of what was read, its anchors moved. -/
theorem parseWithin_eq_ok {limit : Nat} {c : Cursor} {root : Tree}
    (h : (c.parseWithin limit).1 = .ok root) :
    ∃ items t g, Rule.eval c.stream.symbols limit .unit ⟨c.position, c.depth⟩ = .read items t ∧
      root = (Tree.node c.position (.root items)).mapTokens g := by
  unfold parseWithin at h
  cases hi : c.stream.illegal? with
  | some t =>
    rw [hi] at h
    cases h
  | none =>
    rw [hi] at h
    change _ = Except.ok root at h
    cases ho : Rule.eval c.stream.symbols limit .unit ⟨c.position, c.depth⟩ with
    | read items t =>
      change readUnit limit c.stream.symbols ⟨c.position, c.depth⟩ = _ at ho
      rw [ho] at h
      cases h
      exact ⟨items, t, _, rfl, rfl⟩
    | failed cause t =>
      change readUnit limit c.stream.symbols ⟨c.position, c.depth⟩ = _ at ho
      rw [ho] at h
      cases h
    | exhausted => exact absurd ho (Rule.eval_ne_exhausted _ _ _ _)

variable {limit : Nat} {c : Cursor} {t : ParseState}

theorem parseWithin_of_read {items : List Tree} (hi : c.stream.illegal? = none)
    (h : Rule.eval c.stream.symbols limit .unit ⟨c.position, c.depth⟩ = .read items t) :
    (c.parseWithin limit).1 =
      .ok ((Tree.node c.position (.root items)).mapTokens fun i => (c.tokenAt i).2) := by
  have hindex (i : Nat) : (c.stream.significant.map (·.2)).toArray[i]?.getD c.stream.body.length =
      (c.tokenAt i).2 := by
    rw [List.getElem?_toArray, List.getElem?_map, tokenAt]
    cases c.stream.significant[i]? <;> rfl
  change readUnit limit c.stream.symbols ⟨c.position, c.depth⟩ = _ at h
  unfold parseWithin
  rw [hi, h]
  simp only [hindex]

theorem parseWithin_eq_of_failed {cause : Cause} (hi : c.stream.illegal? = none)
    (h : Rule.eval c.stream.symbols limit .unit ⟨c.position, c.depth⟩ = .failed cause t) :
    c.parseWithin limit =
      (.error ⟨.structural, cause.message, (c.tokenAt t.position).1.location⟩,
        ⟨c.stream, t.position, t.depth⟩) := by
  change readUnit limit c.stream.symbols ⟨c.position, c.depth⟩ = _ at h
  unfold parseWithin
  rw [hi, h]
  rfl

theorem parseWithin_of_failed {cause : Cause} (hi : c.stream.illegal? = none)
    (h : Rule.eval c.stream.symbols limit .unit ⟨c.position, c.depth⟩ = .failed cause t) :
    (c.parseWithin limit).1 =
      .error ⟨.structural, cause.message, (c.tokenAt t.position).1.location⟩ :=
  congrArg Prod.fst (parseWithin_eq_of_failed hi h)

/-- A fault of structure is one of the rules, with the cursor where they failed. -/
theorem failed_of_parseWithin {fault : Fault} {stopped : Cursor}
    (h : c.parseWithin limit = (.error fault, stopped)) (hk : fault.kind = .structural) :
    c.stream.illegal? = none ∧ ∃ cause, fault.message = cause.message ∧
      Rule.eval c.stream.symbols limit .unit ⟨c.position, c.depth⟩ =
        .failed cause ⟨stopped.position, stopped.depth⟩ := by
  unfold parseWithin at h
  cases hi : c.stream.illegal? with
  | some t =>
    rw [hi] at h
    cases h
    cases hk
  | none =>
    rw [hi] at h
    refine ⟨rfl, ?_⟩
    cases ho : readUnit limit c.stream.symbols ⟨c.position, c.depth⟩ with
    | read items q =>
      rw [ho] at h
      cases h
    | failed cause q =>
      rw [ho] at h
      cases h
      exact ⟨cause, rfl, ho⟩
    | exhausted => exact absurd ho (Rule.eval_ne_exhausted _ _ _ _)

end Cursor

end FrontEnd
