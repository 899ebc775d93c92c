import FrontEnd.Proofs.Parser.Mirror.Runs
import FrontEnd.Proofs.Parser.Openings

/-!
Sequences of statements. A source is read as one statement after the other up to its end, so
what stands in two sources is read in both as the same items, if what is behind it in the
other one begins a statement of its own.
-/

namespace FrontEnd.Grammar

open Script

variable {symbols : Symbols} {limit depth : Nat} {loose : Prop} {p q r : Nat} {x : Tree}
  {items rest : List Tree}

/-! ## One statement after the other -/

theorem unit_inverts {item : Tree} {rest : List Tree}
    (h : Rule.eval symbols limit .unit ⟨p, depth⟩ = .read (item :: rest) ⟨r, depth⟩) :
    ∃ q, Rule.eval symbols limit .statement ⟨p, depth + 1⟩ = .read (some item) ⟨q, depth + 1⟩ ∧
      Rule.eval symbols limit .unit ⟨q, depth⟩ = .read rest ⟨r, depth⟩ := by
  let Q (v : List Tree) (r : Nat) : Prop := ∀ item rest, v = item :: rest →
    ∃ q, Rule.eval symbols limit .statement ⟨p, depth + 1⟩ = .read (some item) ⟨q, depth + 1⟩ ∧
      Rule.eval symbols limit .unit ⟨q, depth⟩ = .read rest ⟨r, depth⟩
  refine Rule.holds_of_eval (Q := Q) h ?_ item rest rfl
  simp only [Rule.script, unit]
  rw [ensures_bind, ensures_sight, ensures_ite]
  refine ⟨fun _ item rest hnil => (by cases hnil), fun _ => ?_⟩
  rw [ensures_bind, ensures_require]
  refine fun _ => ⟨trivial, fun v q hv t ht => ?_⟩
  rw [ensures_bind]
  refine ⟨trivial, fun w r hw item rest hcons => ?_⟩
  cases hcons
  subst ht
  exact ⟨q, hv, hw⟩

theorem unit_inverts_nil
    (h : Rule.eval symbols limit .unit ⟨p, depth⟩ = .read [] ⟨r, depth⟩) :
    (symbols.symbolAt p).kind = .endOfFile := by
  let Q (v : List Tree) (_ : Nat) : Prop := v = [] → (symbols.symbolAt p).kind = .endOfFile
  refine Rule.holds_of_eval (Q := Q) h ?_ rfl
  simp only [Rule.script, unit]
  rw [ensures_bind, ensures_sight, ensures_ite]
  refine ⟨fun hend _ => hend, fun _ => ?_⟩
  rw [ensures_bind, ensures_require]
  refine fun _ => ⟨trivial, fun v q _ t _ => ?_⟩
  rw [ensures_bind]
  exact ⟨trivial, fun w r _ hnil => (by cases hnil)⟩

theorem unit_obtained_nil (hend : (symbols.symbolAt p).kind = .endOfFile) :
    Rule.unit.Obtains symbols limit loose depth p [] p := by
  refine obtains_bind obtains_sight ?_
  rw [Symbols.sight_kind, if_pos hend]
  exact obtains_pure _

theorem unit_obtained_cons (hfirst : (symbols.symbolAt p).kind ≠ .endOfFile)
    (hd : depth < limit ∨ loose)
    (h : Rule.statement.Obtains symbols limit loose (depth + 1) p (some x) q)
    (hrest : Rule.unit.Obtains symbols limit loose depth q rest r) :
    Rule.unit.Obtains symbols limit loose depth p (x :: rest) r := by
  refine obtains_bind obtains_sight ?_
  rw [Symbols.sight_kind, if_neg hfirst]
  refine obtains_bind (obtains_require (obtains_deeper hd h)) ?_
  exact obtains_bind (obtains_run hrest) (obtains_pure _)

theorem unit_obtained (hfirst : (symbols.symbolAt p).kind ≠ .endOfFile)
    (hd : depth < limit ∨ loose)
    (h : Rule.statement.Obtains symbols limit loose (depth + 1) p (some x) q)
    (hend : (symbols.symbolAt q).kind = .endOfFile) :
    Rule.unit.Obtains symbols limit loose depth p [x] q :=
  unit_obtained_cons hfirst hd h (unit_obtained_nil hend)

/-- At the end of the source nothing is read. -/
theorem unit_eval_end (hend : (symbols.symbolAt p).kind = .endOfFile) :
    Rule.eval symbols limit .unit ⟨p, depth⟩ = .read [] ⟨p, depth⟩ := by
  have hnil : Rule.unit.Obtains symbols limit False depth p [] p := unit_obtained_nil hend
  exact hnil.eval_eq not_false

theorem unit_kind_ne {item : Tree}
    (h : Rule.eval symbols limit .unit ⟨p, depth⟩ = .read (item :: rest) ⟨r, depth⟩) :
    (symbols.symbolAt p).kind ≠ .endOfFile := by
  intro hend
  rw [unit_eval_end hend] at h
  cases h

/-! ## Where no statement begins -/

theorem assignment_obtained_none (hd : depth < limit)
    (h : Rule.expression.Obtains symbols limit loose (depth + 1) p none p) :
    assignment.Obtains symbols limit loose depth p none p :=
  obtains_run (obtains_bind (obtains_deeper (.inl hd) h) (obtains_pure none))

/-- What may follow a statement that could end begins none. -/
theorem statement_obtained_none (hd : depth < limit)
    (h : (symbols.symbolAt p).kind ∈ [TokenKind.semicolon, .kwElse, .kwElseIf]) :
    Rule.statement.Obtains symbols limit loose depth p none p := by
  simp only [List.mem_cons, List.not_mem_nil, or_false] at h
  have hleaf : (symbols.symbolAt p).leaf? = none := by
    rcases h with h | h | h <;> simp [Symbol.leaf?, h]
  rcases h with h | h | h <;>
  · have hexpression : Rule.expression.Obtains symbols limit loose (depth + 1) p none p :=
      expression_obtained_none (by rw [h]; rfl) hleaf (by rw [h]; decide)
    have hlabelled : Rule.eval symbols limit .labelled ⟨p, depth⟩ = .read none ⟨p, depth⟩ :=
      labelled_none (by rw [h]; decide) (by rw [h]; rintro ⟨⟩)
    refine obtains_of_eval_eq (statement_eval_at h (by decide)) ?_
    refine obtains_bind (.of_eval ((eval_run _).trans hlabelled)) ?_
    exact obtains_bind (assignment_obtained_none hd hexpression) (obtains_pure none)

/-- A source that is read begins with no such symbol. -/
theorem unit_kind_not_mem (hd : depth + 1 < limit)
    (h : Rule.eval symbols limit .unit ⟨p, depth⟩ = .read items ⟨r, depth⟩) :
    (symbols.symbolAt p).kind ∉ [TokenKind.semicolon, .kwElse, .kwElseIf] := by
  intro hmem
  cases items with
  | nil =>
    rw [unit_inverts_nil h] at hmem
    revert hmem
    decide
  | cons item rest =>
    obtain ⟨q, hstatement, -⟩ := unit_inverts h
    have hobtained : Rule.statement.Obtains symbols limit False (depth + 1) p none p :=
      statement_obtained_none hd hmem
    have hnone := hobtained.eval_eq not_false
    rw [hstatement] at hnone
    cases hnone

/-! ## The same statements in another source -/

/-- What is read up to the end of a passage is read in the other source too, and then what is
behind it. -/
theorem unit_carried {w : Passage} (hends : w.EndsStatement)
    (hd : depth + w.extra < limit ∨ 0 < w.extra)
    (h : Rule.eval w.source limit .unit ⟨p, depth⟩ = .read items ⟨w.stop, depth⟩)
    (hs : w.start ≤ p)
    (hrest : Rule.unit.Obtains w.target limit (0 < w.extra) (depth + w.extra)
      (w.stop + w.shift) rest r) :
    Rule.unit.Obtains w.target limit (0 < w.extra) (depth + w.extra) (p + w.shift)
      (items.map (·.mapTokens w.move) ++ rest) r := by
  induction items generalizing p with
  | nil =>
    have hstop := (unit_eval_end (unit_inverts_nil h)).symm.trans h
    cases hstop
    exact hrest
  | cons item items ih =>
    obtain ⟨q, hstatement, hunit⟩ := unit_inverts h
    have hforward : p < q := (Rule.advances_of_eval hstatement).1
    have hle : q ≤ w.stop := (Rule.advances_of_eval hunit).le
    have hfirst := unit_kind_ne h
    have hobtained := w.obtains hstatement hs hle (fun _ => ⟨rfl, hends⟩) rfl
    rw [Nat.add_right_comm] at hobtained
    rw [← w.same p hs (by omega)] at hfirst
    exact unit_obtained_cons hfirst hd hobtained (ih hunit (by omega))

/-- The anchors of what is read to the end of a source are positions of its symbols. -/
theorem unit_mapTokens_eq (hd : depth < limit)
    (h : Rule.eval symbols limit .unit ⟨p, depth⟩ = .read items ⟨symbols.size, depth⟩)
    {g : Nat → Nat} (hg : ∀ i, p ≤ i → i < symbols.size → g i = i) :
    items.map (·.mapTokens g) = items := by
  let w : Passage :=
    { source := symbols, target := symbols, start := p, stop := symbols.size
      shift := 0, extra := 0, move := g
      same := fun _ _ _ => rfl
      source_le := Nat.le_refl _
      target_le := Nat.le_refl _
      move_eq := hg }
  have hend : (symbols.symbolAt symbols.size).kind = .endOfFile :=
    Symbols.kind_of_size_le (Nat.le_refl _)
  have hbehind : w.behind = .endOfFile := hend
  have hends : w.EndsStatement := by constructor <;> rw [hbehind] <;> decide
  have hcarried := unit_carried (w := w) hends (.inl hd) h (Nat.le_refl p)
    (unit_obtained_nil hend)
  rw [List.append_nil] at hcarried
  have hread := hcarried.eval_eq (Nat.lt_irrefl 0)
  exact (Outcome.read.inj (h.symm.trans hread)).1.symm

/-- So where they are moved to depends on these only. -/
theorem unit_mapTokens_congr (hd : depth < limit)
    (h : Rule.eval symbols limit .unit ⟨p, depth⟩ = .read items ⟨symbols.size, depth⟩)
    {f g : Nat → Nat} (hfg : ∀ i, p ≤ i → i < symbols.size → f i = g i) :
    items.map (·.mapTokens f) = items.map (·.mapTokens g) := by
  by_cases hp : p < symbols.size
  · let k (i : Nat) : Nat := if p ≤ i ∧ i < symbols.size then i else p
    have hk : f ∘ k = g ∘ k := by
      funext i
      simp only [Function.comp, k]
      split
      · exact hfg i (by omega) (by omega)
      · exact hfg p (Nat.le_refl p) hp
    rw [← unit_mapTokens_eq hd h (g := k) fun i hi hi' => if_pos ⟨hi, hi'⟩]
    simp only [List.map_map, Function.comp_def, Tree.mapTokens_mapTokens]
    simp only [Function.comp_def] at hk
    simp only [hk]
  · have hend : (symbols.symbolAt p).kind = .endOfFile :=
      Symbols.kind_of_size_le (Nat.le_of_not_lt hp)
    rw [unit_eval_end hend] at h
    cases h
    rfl

end FrontEnd.Grammar
