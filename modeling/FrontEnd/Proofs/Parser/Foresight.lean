import FrontEnd.Proofs.Parser.Layout
import FrontEnd.Proofs.Parser.Names

/-!
How far parsing looks ahead. A script sees the symbol that it stands at and the kind of the next
one, and never goes back, so that a run which ends at some position is decided by the symbols up
to the one behind it. The first fault of a source is therefore found on line.
-/

namespace FrontEnd

/-- Up to `n` the sources show the same, be it one symbol further, and go on alike. -/
structure Symbols.Agree (n : Nat) (symbols symbols' : Symbols) : Prop where
  symbolAt : ∀ p ≤ n + 1, symbols.symbolAt p = symbols'.symbolAt p
  next : ∀ p ≤ n, symbols.next p = symbols'.next p

theorem Symbols.Agree.sight {symbols symbols' : Symbols} {n p : Nat}
    (h : Symbols.Agree n symbols symbols') (hp : p ≤ n) : symbols.sight p = symbols'.sight p := by
  unfold Symbols.sight
  rw [h.symbolAt p (Nat.le_succ_of_le hp), h.symbolAt (p + 1) (Nat.succ_le_succ hp)]

namespace Outcome

variable {α β : Type} {symbols : Symbols} {n : Nat} {o o' : Outcome α} {s : ParseState}

/-- The run came to an end, and no further than `n`. -/
def EndsBy (n : Nat) : Outcome α → Prop
  | .read _ t | .failed _ t => t.position ≤ n
  | .exhausted => False

/-- `o'` is `o`, if `o` ended at `n` or before. -/
def Decides (n : Nat) (o o' : Outcome α) : Prop := o.EndsBy n → o' = o

/-- A run that ends by `n` began by `n`. -/
theorem EndsBy.position_le (h : o.EndsBy n) (hkeeps : o.Keeps symbols s) : s.position ≤ n := by
  cases o with
  | read _ t | failed _ t => exact Nat.le_trans hkeeps.1 h
  | exhausted => cases h

theorem Decides.andThen {f f' : α → ParseState → Outcome β} (h : o.Decides n o')
    (hkeeps : ∀ v t, (f v t).Keeps symbols t) (hf : ∀ v t, (f v t).Decides n (f' v t)) :
    (o.andThen f).Decides n (o'.andThen f') := by
  intro hends
  cases o with
  | read v t =>
    have ht : t.position ≤ n := EndsBy.position_le hends (hkeeps v t)
    rw [h ht]
    exact hf v t hends
  | failed cause t =>
    rw [h hends]
    rfl
  | exhausted => cases hends

theorem Decides.leave (h : o.Decides n o') : o.leave.Decides n o'.leave := by
  intro hends
  cases o with
  | read v t | failed cause t =>
    rw [h hends]
  | exhausted => cases hends

end Outcome

section Agree

variable {symbols symbols' : Symbols} {n limit : Nat} (hagree : Symbols.Agree n symbols symbols')

include hagree

/-- What a script does up to `n` it does on symbols that agree, if the rules that it calls do. -/
theorem Script.exec_decides {α : Type} {read read' : (r : Rule) → ParseState → Outcome r.Result}
    (hkeeps : ∀ r s, (read r s).Keeps symbols s) (hread : ∀ r s, (read r s).Decides n (read' r s))
    (x : Script α) (s : ParseState) :
    (x.exec symbols limit read s).Decides n (x.exec symbols' limit read' s) := by
  have hscript {β : Type} (y : Script β) (t : ParseState) :=
    y.exec_keeps symbols limit hkeeps t
  induction x generalizing s with
  | done => exact fun _ => rfl
  | fail => exact fun _ => rfl
  | look next ih =>
    intro hends
    have hp : s.position ≤ n := hends.position_le (hscript (.look next) s)
    rw [exec, exec, ← hagree.sight hp]
    exact ih _ s hends
  | take next ih =>
    intro hends
    have hp : s.position ≤ n := hends.position_le (hscript (.take next) s)
    rw [exec, exec, ← hagree.next _ hp]
    exact ih _ hends
  | call r next ih => exact (hread r s).andThen (fun v => hscript (next v)) ih
  | nest r next ih =>
    rw [exec, exec]
    split
    · exact (hread r s.inner).leave.andThen (fun v => hscript (next v)) ih
    · exact fun _ => rfl

theorem Rule.exec_decides (budget : Nat) (r : Rule) (s : ParseState) :
    (Rule.exec symbols limit budget r s).Decides n (Rule.exec symbols' limit budget r s) := by
  induction budget generalizing r s with
  | zero => exact nofun
  | succ budget ih =>
    exact r.script.exec_decides hagree (Rule.exec_keeps symbols limit budget) ih s

/-- The lengths of the sources do not matter, since with more budget a run does the same. -/
theorem Rule.eval_decides (r : Rule) (s : ParseState) :
    (r.eval symbols limit s).Decides n (r.eval symbols' limit s) := by
  rw [← exec_eq_eval symbols limit (Nat.le_max_left _ (budget symbols')),
    ← exec_eq_eval symbols' limit (Nat.le_max_right (budget symbols) _)]
  exact Rule.exec_decides hagree _ r s

end Agree

namespace TokenStream

variable {s t : TokenStream}

theorem getElem?_outline (s : TokenStream) {p : Nat} (hp : p ≤ s.symbols.size) :
    s.outline[p]? = some (s.symbols.symbolAt p) := by
  have hsymbol : s.symbols.symbolAt p = ((Cursor.start s).tokenAt p).1.symbol :=
    (Cursor.start s).symbolAt_eq p
  rw [outline, List.getElem?_map, getElem?_spoken hp, hsymbol]
  rfl

theorem length_outline (s : TokenStream) : s.outline.length = s.symbols.size + 1 := by
  rw [outline_eq, List.length_append, Array.length_toList]
  rfl

/-- A stream whose outline begins as that of another agrees with it, if the end of a stream is
told by its kind. -/
theorem agree_of_outline {n : Nat}
    (hend : ∀ p, (t.symbols.symbolAt p).kind = .endOfFile → t.symbols.size ≤ p)
    (h : s.outline.take (n + 2) <+: t.outline) : Symbols.Agree n s.symbols t.symbols := by
  have hsame (p : Nat) (hn : p ≤ n + 1) (hp : p ≤ s.symbols.size) :
      p ≤ t.symbols.size ∧ s.symbols.symbolAt p = t.symbols.symbolAt p := by
    have hfront : t.outline[p]? = some (s.symbols.symbolAt p) := by
      obtain ⟨back, hback⟩ := h
      have hlength : p < (s.outline.take (n + 2)).length := by
        rw [List.length_take, length_outline]
        omega
      rw [← hback, List.getElem?_append_left hlength, List.getElem?_take_of_lt (by omega),
        s.getElem?_outline hp]
    obtain ⟨hlt, -⟩ := List.getElem?_eq_some_iff.mp hfront
    rw [length_outline] at hlt
    have hle := Nat.le_of_lt_succ hlt
    rw [t.getElem?_outline hle] at hfront
    exact ⟨hle, (Option.some.inj hfront).symm⟩
  have hbehind {u : TokenStream} {p : Nat} (hp : u.symbols.size ≤ p) :
      u.symbols.symbolAt p = .last := by
    simp [Symbols.symbolAt, hp]
  -- Where the first stream ends within sight, the second one does.
  have hsize (hn : s.symbols.size ≤ n + 1) : t.symbols.size = s.symbols.size := by
    obtain ⟨hle, hlast⟩ := hsame _ hn (Nat.le_refl _)
    rw [hbehind (Nat.le_refl _)] at hlast
    exact Nat.le_antisymm (hend _ (congrArg Symbol.kind hlast.symm)) hle
  constructor
  · intro p hp
    rcases Nat.le_total p s.symbols.size with hle | hle
    · exact (hsame p hp hle).2
    · have hsizes := hsize (Nat.le_trans hle hp)
      rw [hbehind hle, hbehind (hsizes ▸ hle)]
  · intro p hp
    unfold Symbols.next
    by_cases hlt : p < s.symbols.size
    · have hlt' : p < t.symbols.size := (hsame (p + 1) (Nat.succ_le_succ hp) hlt).1
      rw [if_pos hlt, if_pos hlt']
    · have hsizes := hsize (by omega)
      rw [if_neg hlt, if_neg (hsizes ▸ hlt)]

end TokenStream

/-- If parsing the one source fails at the `k`-th token that is no comment, and the other source
has the same such tokens in kind and text up to the one behind it, or up to the end, then parsing
the other fails with the same message at its `k`-th token. -/
theorem parse_decided (source fileName source' fileName' : String) {fault : Fault}
    {stopped : Cursor}
    (hparse : (Cursor.start (lex source fileName)).parse = (.error fault, stopped))
    (hkind : fault.kind = .structural)
    (hlegal : ∀ t ∈ (lex source' fileName').tokens, t.kind ≠ .illegal)
    (hagree : (lex source fileName).outline.take (stopped.position + 2) <+:
      (lex source' fileName').outline) :
    (lex source' fileName').FailsAt fault.message stopped.position := by
  obtain ⟨-, cause, hmessage, hfailed⟩ := Cursor.failed_of_parseWithin hparse hkind
  change Rule.eval (lex source fileName).symbols nestingLimit .unit ⟨0, 0⟩ = _ at hfailed
  have hdecides : Outcome.Decides _ (Rule.eval (lex source fileName).symbols nestingLimit .unit _)
      (Rule.eval (lex source' fileName').symbols nestingLimit .unit ⟨0, 0⟩) :=
    Rule.eval_decides (TokenStream.agree_of_outline (fun _ => lex_size_le) hagree) .unit ⟨0, 0⟩
  have hsame := hdecides (by rw [hfailed]; exact Nat.le_refl _)
  rw [hfailed] at hsame
  rw [hmessage]
  exact TokenStream.failsAt_of_eval (TokenStream.illegal?_eq_none_of_kind_ne hlegal) hsame

/-- A semicolon is missing in both sources, which go on in different ways behind what follows. -/
theorem parse_decided_of_name :
    let s := lex "x = 1 y z" "a.hz"
    let t := lex "x =\n1 // one\ny z ) (" "b.hz"
    ∃ fault stopped, (Cursor.start s).parse = (.error fault, stopped) ∧
      fault.kind = .structural ∧ (∀ u ∈ t.tokens, u.kind ≠ .illegal) ∧
      s.outline.take (stopped.position + 2) <+: t.outline ∧ stopped.position = 3 ∧
      t.FailsAt fault.message stopped.position := by
  have hread : (Cursor.start (lex "x = 1 y z" "a.hz")).parse.1.isOk = false := by decide +kernel
  have hposition : (Cursor.start (lex "x = 1 y z" "a.hz")).parse.2.position = 3 := by
    decide +kernel
  have hnone : (lex "x = 1 y z" "a.hz").illegal? = none := by decide +kernel
  have hlegal : ∀ u ∈ (lex "x =\n1 // one\ny z ) (" "b.hz").tokens, u.kind ≠ .illegal := by
    decide +kernel
  have hagree : (lex "x = 1 y z" "a.hz").outline.take 5 <+:
      (lex "x =\n1 // one\ny z ) (" "b.hz").outline := by decide +kernel
  generalize hparse : (Cursor.start (lex "x = 1 y z" "a.hz")).parse = outcome at hread hposition
  obtain ⟨_ | root, stopped⟩ := outcome
  · rename_i fault
    have hkind : fault.kind = .structural :=
      (Cursor.parseWithin_structural (c := Cursor.start _) hnone (congrArg Prod.fst hparse)).1
    obtain ⟨_, position, _⟩ := stopped
    obtain rfl : position = 3 := hposition
    exact ⟨fault, _, hparse, hkind, hlegal, hagree, rfl,
      parse_decided _ _ _ _ hparse hkind hlegal hagree⟩
  · cases hread

end FrontEnd
