import FrontEnd.Lexer.Marks
import FrontEnd.Proofs.Lexer.Pieces.Tiling

/-!
The table of marks gives the longest name. Its rows are the names of their kinds, a row takes as
many characters as its name has, and no row stands behind one whose name begins its own.
-/

namespace FrontEnd

namespace TokenKind

variable {k k' : TokenKind} {cs : List Char}

/-- No mark is behind a shorter one. -/
theorem marks_sorted : marks.Pairwise fun k k' => k'.name.length ≤ k.name.length := by decide

/-- The mark that is found is no shorter than any other that stands there. -/
theorem length_le_of_mark? (h : mark? cs = some k) (hk' : k' ∈ marks)
    (hp : k'.name.toList <+: cs) : k'.name.length ≤ k.name.length := by
  obtain ⟨-, front, back, hmarks, hfront⟩ := List.find?_eq_some_iff_append.mp h
  have hsorted := marks_sorted
  rw [hmarks] at hk' hsorted
  rcases List.mem_append.mp hk' with hk' | hk'
  · have hnot := hfront k' hk'
    rw [List.isPrefixOf_iff_prefix.mpr hp] at hnot
    cases hnot
  · rcases List.mem_cons.mp hk' with rfl | hk'
    · exact Nat.le_refl _
    · exact List.rel_of_pairwise_cons (List.pairwise_append.mp hsorted).2.1 hk'

end TokenKind

namespace Mark

open TokenKind

variable {m : Mark} {c : Char} {cs : List Char}

/-- The characters of a row. -/
def name (m : Mark) : List Char := m.first :: (m.second.toList ++ m.third.toList)

theorem table_names : ∀ m ∈ table, m.kind.name.toList = m.name ∧ m.name.length = m.extra + 1 ∧
    (m.second = none → m.third = none) := by
  decide +kernel

theorem table_kinds : (∀ m ∈ table, m.kind ∈ marks) ∧ ∀ k ∈ marks, ∃ m ∈ table, m.kind = k := by
  decide +kernel

/-- The name of a row does not begin the name of one behind it. -/
theorem table_pairwise : table.Pairwise fun m m' => m.name.isPrefixOf m'.name = false := by
  decide +kernel

theorem fits_iff (hm : m ∈ table) : m.fits c cs[0]? cs[1]? = true ↔ m.name <+: c :: cs := by
  obtain ⟨-, -, hthird⟩ := table_names m hm
  obtain ⟨first, second, third, kind, extra⟩ := m
  rw [fits, name, ← List.isPrefixOf_iff_prefix]
  cases second with
  | none =>
    obtain rfl : third = none := hthird rfl
    simp [List.isPrefixOf]
  | some d =>
    cases third with
    | none => cases cs <;> simp [List.isPrefixOf, eq_comm (a := d)]
    | some e =>
      rcases cs with _ | ⟨c', _ | ⟨c'', cs⟩⟩ <;>
        simp [List.isPrefixOf, eq_comm (a := d), eq_comm (a := e), and_assoc]

theorem mark?_isSome_of_mem (hm : m ∈ table) (h : m.name <+: c :: cs) :
    ∃ k, mark? (c :: cs) = some k := by
  refine Option.isSome_iff_exists.mp (List.find?_isSome.mpr ⟨m.kind, table_kinds.1 m hm, ?_⟩)
  rw [(table_names m hm).1]
  exact List.isPrefixOf_iff_prefix.mpr h

/-- The table gives the kind with the longest name, and takes as many characters. -/
theorem find?_spec (h : find? c cs[0]? cs[1]? = some m) :
    mark? (c :: cs) = some m.kind ∧ m.kind.name.length = m.extra + 1 := by
  obtain ⟨hfits, front, back, htable, hfront⟩ := List.find?_eq_some_iff_append.mp h
  have hm : m ∈ table := List.mem_of_find?_eq_some h
  obtain ⟨hname, hlength, -⟩ := table_names m hm
  have hprefix : m.name <+: c :: cs := (fits_iff hm).mp hfits
  obtain ⟨k, hk⟩ := mark?_isSome_of_mem hm hprefix
  obtain ⟨m', hm', rfl⟩ := table_kinds.2 k (List.mem_of_find?_eq_some hk)
  obtain ⟨hname', -, -⟩ := table_names m' hm'
  have hprefix' : m'.name <+: c :: cs := hname' ▸ isPrefix_of_mark? hk
  have hle : m.name.length ≤ m'.name.length := by
    have hlongest := length_le_of_mark? hk (table_kinds.1 m hm) (hname ▸ hprefix)
    rwa [← String.length_toList, ← String.length_toList, hname, hname'] at hlongest
  -- The longest name begins with the one found, so that its row is not behind that one.
  have hbegins : m.name <+: m'.name := List.prefix_of_prefix_length_le hprefix hprefix' hle
  have hpairs := table_pairwise
  rw [htable] at hm' hpairs
  obtain rfl : m' = m := by
    rcases List.mem_append.mp hm' with hm' | hm'
    · have hnot := hfront m' hm'
      have hfits' := (fits_iff (htable ▸ List.mem_append_left _ hm')).mpr hprefix'
      rw [hfits'] at hnot
      cases hnot
    · rcases List.mem_cons.mp hm' with rfl | hm'
      · rfl
      · have hnot := List.rel_of_pairwise_cons (List.pairwise_append.mp hpairs).2.1 hm'
        rw [List.isPrefixOf_iff_prefix.mpr hbegins] at hnot
        cases hnot
  exact ⟨hk, by rw [← String.length_toList, hname, hlength]⟩

theorem mark?_of_find?_none (h : find? c cs[0]? cs[1]? = none) : mark? (c :: cs) = none := by
  refine List.find?_eq_none.mpr fun k hk hprefix => ?_
  obtain ⟨m, hm, rfl⟩ := table_kinds.2 k hk
  rw [(table_names m hm).1, List.isPrefixOf_iff_prefix] at hprefix
  exact List.find?_eq_none.mp h m hm ((fits_iff hm).mpr hprefix)

end Mark

end FrontEnd
