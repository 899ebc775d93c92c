import FrontEnd.Lexer.Lexer
import FrontEnd.Proofs.Parser.Eval

/-!
The guard against deep nesting. A production can neither catch a rejection nor see the limit,
so at a higher limit a run does the same, unless the lower one rejected it. A run that may
nest as deep as it has calls does what it does without a guard.
-/

namespace FrontEnd

/-! ## Runs without a guard -/

/-- Runs a script that may nest without end, the rules being run by `read`. -/
def Script.execUnguarded {α : Type} (symbols : Symbols)
    (read : (r : Rule) → ParseState → Outcome r.Result) : Script α → ParseState → Outcome α
  | .done value, s => .read value s
  | .fail cause, s => .failed cause s
  | .look next, s => (next (symbols.sight s.position)).execUnguarded symbols read s
  | .take next, s => next.execUnguarded symbols read ⟨symbols.next s.position, s.depth⟩
  | .call r next, s =>
    (read r s).andThen fun value t => (next value).execUnguarded symbols read t
  | .nest r next, s =>
    (read r s.inner).leave.andThen fun value t => (next value).execUnguarded symbols read t

def Rule.execUnguarded (symbols : Symbols) :
    Nat → (r : Rule) → ParseState → Outcome r.Result
  | 0, _, _ => .exhausted
  | budget + 1, r, s => r.script.execUnguarded symbols (Rule.execUnguarded symbols budget) s

def readUnguarded (symbols : Symbols) (s : ParseState) : Outcome (List Tree) :=
  Rule.execUnguarded symbols (budget symbols) .unit s

/-- Parses as a run of the symbols tells. -/
def Cursor.parseBy (run : Symbols → ParseState → Outcome (List Tree)) (c : Cursor) :
    Except Fault Tree × Cursor :=
  match c.stream.illegal? with
  | some t => (.error ⟨.lexical, t.text, t.location⟩, c)
  | none =>
    match run c.stream.symbols ⟨c.position, c.depth⟩ with
    | .read items s =>
      let root := Tree.node c.position (.root items)
      let indices := (c.stream.significant.map (·.2)).toArray
      (.ok (root.mapTokens fun i => indices[i]?.getD c.stream.body.length),
        ⟨c.stream, s.position, s.depth⟩)
    | .failed cause s =>
      let stopped : Cursor := ⟨c.stream, s.position, s.depth⟩
      (.error ⟨.structural, cause.message, stopped.current.location⟩, stopped)
    | .exhausted => (.error ⟨.internal, Breach.budgetExhausted.message, c.current.location⟩, c)

/-- Parses without a guard. -/
def Cursor.parseUnguarded (c : Cursor) : Except Fault Tree × Cursor := c.parseBy readUnguarded

theorem Cursor.parseWithin_eq_parseBy (limit : Nat) (c : Cursor) :
    c.parseWithin limit = c.parseBy (readUnit limit) := rfl

/-! ## Levels enough -/

section Levels

variable {symbols : Symbols} {limit : Nat}

/-- What follows a run matters at the depth of the run only. -/
theorem Outcome.Keeps.andThen_congr {α β : Type} {o : Outcome α} {s : ParseState}
    {f f' : α → ParseState → Outcome β} (h : o.Keeps symbols s)
    (hf : ∀ v t, t.depth = s.depth → f v t = f' v t) : o.andThen f = o.andThen f' := by
  cases o with
  | read v t => exact hf v t h.2.2
  | failed => rfl
  | exhausted => rfl

/-- Below the limit a script does not see it, if the rules that it calls do not. -/
theorem Script.exec_eq_unguarded {α : Type} {depth : Nat}
    {read read' : (r : Rule) → ParseState → Outcome r.Result}
    (hkeeps : ∀ r s, (read r s).Keeps symbols s)
    (hread : ∀ r s, s.depth ≤ depth + 1 → read r s = read' r s) (h : depth < limit)
    (x : Script α) {s : ParseState} (hs : s.depth = depth) :
    x.exec symbols limit read s = x.execUnguarded symbols read' s := by
  induction x generalizing s with
  | done => rfl
  | fail => rfl
  | look next ih => exact ih _ hs
  | take next ih => exact ih hs
  | call r next ih =>
    rw [exec, execUnguarded, ← hread r s (by omega)]
    exact (hkeeps r s).andThen_congr fun v t ht => ih v (ht.trans hs)
  | nest r next ih =>
    rw [exec, execUnguarded, if_pos (hs ▸ h), ← hread r s.inner (hs ▸ Nat.le_refl _)]
    exact (hkeeps r s.inner).leave.andThen_congr fun v t ht => ih v (ht.trans hs)

/-- With as many levels as calls there might be no guard. -/
theorem Rule.exec_eq_unguarded {budget : Nat} (r : Rule) {s : ParseState}
    (h : s.depth + budget ≤ limit) :
    Rule.exec symbols limit budget r s = Rule.execUnguarded symbols budget r s := by
  induction budget generalizing r s with
  | zero => rfl
  | succ budget ih =>
    exact Script.exec_eq_unguarded (Rule.exec_keeps symbols limit budget)
      (fun r t ht => ih r (by omega)) (by omega) r.script rfl

end Levels

/-- As many levels as the source can have calls in each other. -/
def Cursor.enoughLevels (c : Cursor) : Nat := c.depth + budget c.stream.symbols

theorem Cursor.parseWithin_eq_unguarded {limit : Nat} {c : Cursor} (h : c.enoughLevels ≤ limit) :
    c.parseWithin limit = c.parseUnguarded := by
  have hrun : readUnit limit c.stream.symbols ⟨c.position, c.depth⟩ =
      readUnguarded c.stream.symbols ⟨c.position, c.depth⟩ := Rule.exec_eq_unguarded .unit h
  rw [parseWithin_eq_parseBy, parseUnguarded, parseBy, parseBy, hrun]

/-! ## Higher limits -/

namespace Outcome

variable {α β : Type} {limit : Nat} {o o' : Outcome α}

/-- The run ended because nesting came to the limit. -/
def Rejected (limit : Nat) (o : Outcome α) : Prop := ∃ s, o = .failed (.nestedTooDeeply limit) s

/-- `o'` is `o`, unless `o` was rejected. -/
def Guarded (limit : Nat) (o o' : Outcome α) : Prop := o.Rejected limit ∨ o = o'

theorem Guarded.andThen {f f' : α → ParseState → Outcome β} (h : o.Guarded limit o')
    (hf : ∀ v s, (f v s).Guarded limit (f' v s)) :
    (o.andThen f).Guarded limit (o'.andThen f') := by
  rcases h with ⟨s, rfl⟩ | rfl
  · exact .inl ⟨s, rfl⟩
  · cases o with
    | read v s => exact hf v s
    | failed => exact .inr rfl
    | exhausted => exact .inr rfl

theorem Guarded.leave (h : o.Guarded limit o') : o.leave.Guarded limit o'.leave := by
  rcases h with ⟨s, rfl⟩ | rfl
  · exact .inl ⟨s.outer, rfl⟩
  · exact .inr rfl

end Outcome

section Limits

variable {limit limit' : Nat} (hlimit : limit ≤ limit')

include hlimit

/-- A step that the guard lets pass it lets pass at a higher limit. -/
theorem Script.exec_guarded {α : Type} {symbols : Symbols}
    {read read' : (r : Rule) → ParseState → Outcome r.Result}
    (hread : ∀ r s, (read r s).Guarded limit (read' r s)) (x : Script α) (s : ParseState) :
    (x.exec symbols limit read s).Guarded limit (x.exec symbols limit' read' s) := by
  induction x generalizing s with
  | done => exact .inr rfl
  | fail => exact .inr rfl
  | look next ih => exact ih _ s
  | take next ih => exact ih _
  | call r next ih => exact (hread r s).andThen ih
  | nest r next ih =>
    rw [exec, exec]
    by_cases hdepth : s.depth < limit
    · rw [if_pos hdepth, if_pos (Nat.lt_of_lt_of_le hdepth hlimit)]
      exact (hread r s.inner).leave.andThen ih
    · rw [if_neg hdepth]
      exact .inl ⟨s, rfl⟩

theorem Rule.exec_guarded (symbols : Symbols) (budget : Nat) (r : Rule) (s : ParseState) :
    (Rule.exec symbols limit budget r s).Guarded limit (Rule.exec symbols limit' budget r s) := by
  induction budget generalizing r s with
  | zero => exact .inr rfl
  | succ budget ih => exact r.script.exec_guarded hlimit ih s

end Limits

namespace Cursor

/-- Parsing fails because nesting came to the limit. -/
def Rejects (limit : Nat) (c : Cursor) : Prop :=
  ∃ stopped : Cursor, stopped.stream = c.stream ∧ c.parseWithin limit =
    (.error ⟨.structural, (Cause.nestedTooDeeply limit).message, stopped.current.location⟩, stopped)

theorem rejects_or_parseWithin_eq {limit limit' : Nat} (hlimit : limit ≤ limit') (c : Cursor) :
    c.Rejects limit ∨ c.parseWithin limit = c.parseWithin limit' := by
  rcases Rule.exec_guarded hlimit c.stream.symbols (budget c.stream.symbols) .unit
    ⟨c.position, c.depth⟩ with ⟨s, hs⟩ | hsame
  · rw [Rejects, parseWithin_eq_parseBy, parseWithin_eq_parseBy, parseBy, parseBy]
    cases c.stream.illegal? with
    | some t => exact .inr rfl
    | none =>
      refine .inl ⟨⟨c.stream, s.position, s.depth⟩, rfl, ?_⟩
      change readUnit limit c.stream.symbols ⟨c.position, c.depth⟩ = _ at hs
      rw [hs]
  · change readUnit limit c.stream.symbols ⟨c.position, c.depth⟩ =
      readUnit limit' c.stream.symbols ⟨c.position, c.depth⟩ at hsame
    rw [parseWithin_eq_parseBy, parseWithin_eq_parseBy, parseBy, parseBy, hsame]
    exact .inr rfl

theorem rejects_or_parseWithin_eq_unguarded (limit : Nat) (c : Cursor) :
    c.Rejects limit ∨ c.parseWithin limit = c.parseUnguarded := by
  rw [← parseWithin_eq_unguarded (Nat.le_max_right limit c.enoughLevels)]
  exact rejects_or_parseWithin_eq (Nat.le_max_left limit c.enoughLevels) c

/-- The guard only rejects. Where a limit does not, parsing gives the same and stops at the
same place under every higher one, and under the limit of the language as without a guard. -/
theorem parse_guarded (c : Cursor) :
    (∀ limit limit', limit ≤ limit' →
      c.Rejects limit ∨ c.parseWithin limit = c.parseWithin limit') ∧
      (c.Rejects nestingLimit ∨ c.parse = c.parseUnguarded) ∧
      ∀ limit ≥ c.enoughLevels, c.parseWithin limit = c.parseUnguarded :=
  ⟨fun _ _ hlimit => rejects_or_parseWithin_eq hlimit c,
    rejects_or_parseWithin_eq_unguarded nestingLimit c, fun _ => parseWithin_eq_unguarded⟩

theorem parse_guarded_of_parentheses :
    let c := Cursor.start (lex "((a)) = b;" "a.hz")
    (2 ≤ 4 ∧ c.Rejects 2) ∧ (4 ≤ 64 ∧ c.parseWithin 4 = c.parseWithin 64) ∧
      c.parse = c.parseUnguarded ∧ c.parseWithin c.enoughLevels = c.parseUnguarded := by
  intro c
  have hlow : (c.parseWithin 2).1.isOk = false := by decide +kernel
  have hmiddle : (c.parseWithin 4).1.isOk = true := by decide +kernel
  have hhigh : c.parse.1.isOk = true := by decide +kernel
  have hread {limit : Nat} (h : (c.parseWithin limit).1.isOk = true) : ¬c.Rejects limit := by
    rintro ⟨stopped, -, hrejected⟩
    rw [hrejected] at h
    cases h
  obtain ⟨hlimits, hshipped, hlevels⟩ := parse_guarded c
  refine ⟨⟨by decide, ?_⟩, ⟨by decide, ?_⟩, ?_, hlevels _ (Nat.le_refl _)⟩
  · refine (hlimits 2 4 (by decide)).resolve_right fun hsame => ?_
    rw [hsame, hmiddle] at hlow
    cases hlow
  · exact (hlimits 4 64 (by decide)).resolve_left (hread hmiddle)
  · exact hshipped.resolve_left (hread hhigh)

end Cursor

end FrontEnd
