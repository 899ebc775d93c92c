import FrontEnd.Proofs.Parser.Indices
import FrontEnd.Proofs.Parser.Rows

/-!
Streams that have a part in common. The same tokens, comments among them, stand between
others that are known; their symbols and the indices of these differ in the streams by as
much as stands before.
-/

namespace FrontEnd.TokenStream

/-- The stream is `list` between tokens that are neither comments nor illegal. -/
structure Frames (s : TokenStream) (before list after : List Symbol) : Prop where
  body : s.body.map (·.symbol) = before ++ (list ++ after)
  before : ∀ a ∈ before, a.kind.isTrivia = false ∧ a.kind ≠ .illegal
  after : ∀ a ∈ after, a.kind.isTrivia = false ∧ a.kind ≠ .illegal

namespace Frames

variable {s s' : TokenStream} {before list after before' after' : List Symbol} {a b : Symbol}
  {i k m : Nat}

theorem symbols (h : s.Frames before list after) :
    s.symbols.Stand 0 (before ++ (list.filter (!·.kind.isTrivia) ++ after)) := by
  have hplain {l : List Symbol} (hl : ∀ a ∈ l, a.kind.isTrivia = false ∧ a.kind ≠ .illegal) :
      l.filter (!·.kind.isTrivia) = l :=
    List.filter_eq_self.mpr fun a ha => by rw [(hl a ha).1]; rfl
  change s.symbols.toList = _
  rw [symbols_toList_eq, h.body, List.filter_append, List.filter_append, hplain h.before,
    hplain h.after]

theorem size (h : s.Frames before list after) : s.symbols.size =
    before.length + (list.filter (!·.kind.isTrivia)).length + after.length := by
  have hlength := congrArg List.length h.symbols
  simpa [Nat.add_assoc] using hlength

theorem behind (h : s.Frames before list after) :
    s.symbols.Stand (before.length + (list.filter (!·.kind.isTrivia)).length) after := by
  have hafter := h.symbols.append.append
  rwa [Nat.zero_add] at hafter

theorem symbolAt_add (h : s.Frames before list after)
    (hi : i < (list.filter (!·.kind.isTrivia)).length) :
    s.symbols.symbolAt (before.length + i) = (list.filter (!·.kind.isTrivia))[i] := by
  have hlist := h.symbols.append.symbolAt_add (i := i) (by rw [List.length_append]; omega)
  rwa [Nat.zero_add, List.getElem_append_left hi] at hlist

/-- The part has the same symbols in both streams. -/
theorem symbolAt_eq (h : s.Frames before list after) (h' : s'.Frames before' list after')
    (hi : i < (list.filter (!·.kind.isTrivia)).length) :
    s'.symbols.symbolAt (before'.length + i) = s.symbols.symbolAt (before.length + i) := by
  rw [h.symbolAt_add hi, h'.symbolAt_add hi]

theorem tokenAt (h : s.Frames before list after) (i : Nat) : ((Cursor.start s).tokenAt i).2 =
    (List.range before.length ++ (significantIndices before.length list ++
      List.range' (before.length + list.length) after.length))[i]?.getD
        (before.length + list.length + after.length) := by
  have hlength := congrArg List.length h.body
  simp only [List.length_map, List.length_append] at hlength
  rw [tokenAt_eq, h.body, significantIndices_append, significantIndices_append,
    significantIndices_of_plain _ _ fun a ha => (h.before a ha).1,
    significantIndices_of_plain _ _ fun a ha => (h.after a ha).1, hlength, Nat.zero_add,
    Nat.add_assoc, List.range_eq_range']

/-- The tokens before the part are symbols, and so are those behind it. -/
theorem tokenAt_outside (h : s.Frames before list after) :
    (∀ i < before.length, ((Cursor.start s).tokenAt i).2 = i) ∧
      ∀ i < after.length, ((Cursor.start s).tokenAt
        (before.length + (list.filter (!·.kind.isTrivia)).length + i)).2 =
          before.length + list.length + i := by
  rw [← length_significantIndices before.length list]
  constructor <;> intro i hi <;> rw [h.tokenAt]
  · rw [List.getElem?_append_left (by simpa using hi)]
    simp [hi]
  · rw [Nat.add_assoc before.length, List.getElem?_append_right (by simp), List.length_range,
      Nat.add_sub_cancel_left, List.getElem?_append_right (by simp), Nat.add_sub_cancel_left]
    simp [hi]

theorem getD_moved (indices : List Nat) (i k m n : Nat) :
    (List.range (1 + k) ++ (indices.map (· + k) ++ List.range' (1 + k + n) (m + 1)))[min i
      (indices.length + 2) + k]?.getD (1 + k + n + (m + 1)) =
    (0 :: (indices ++ [1 + n]))[i]?.getD (1 + n + 1) + k := by
  cases i with
  | zero =>
    rw [List.getElem?_append_left (by simp)]
    simp
  | succ j =>
    have hmin : min (j + 1) (indices.length + 2) + k = (1 + k) + min j (indices.length + 1) := by
      omega
    rw [hmin, List.getElem?_append_right (by simp), List.length_range, Nat.add_sub_cancel_left,
      List.getElem?_cons_succ]
    rcases Nat.lt_trichotomy j indices.length with hj | rfl | hj
    · rw [Nat.min_eq_left (by omega), List.getElem?_append_left (by simpa using hj),
        List.getElem?_append_left hj]
      simp [hj]
    · rw [Nat.min_eq_left (by omega), List.getElem?_append_right (by simp),
        List.getElem?_append_right (Nat.le_refl _)]
      simp
      omega
    · have hnone : (indices ++ [1 + n])[j]? = none := by
        rw [List.getElem?_eq_none_iff, List.length_append, List.length_singleton]
        exact hj
      rw [Nat.min_eq_right (by omega), List.getElem?_append_right (by simp), hnone,
        List.length_map, Nat.add_sub_cancel_left]
      cases m <;> simp [List.range'_succ] <;> omega

/-- Where the part stands between two tokens in the one stream, all up to the second one and
what is behind it is moved to the other stream by as much as there is more before. -/
theorem tokenAt_moved (h : s.Frames [a] list [b]) (h' : s'.Frames before list after)
    (hk : before.length = 1 + k) (hafter : after ≠ []) (i : Nat) :
    ((Cursor.start s').tokenAt (min i ((list.filter (!·.kind.isTrivia)).length + 2) + k)).2 =
      ((Cursor.start s).tokenAt i).2 + k := by
  obtain ⟨m, hm⟩ : ∃ m, after.length = m + 1 :=
    Nat.exists_eq_succ_of_ne_zero (mt List.length_eq_zero_iff.mp hafter)
  rw [h.tokenAt, h'.tokenAt, hk, hm, significantIndices_add, ← length_significantIndices 1 list]
  exact getD_moved _ _ _ _ _

/-- The tokens of a part are legal where the source has a tree. -/
theorem kind_ne_illegal (h : s.Frames before list after) {root : Tree}
    (hparse : FrontEnd.parse s = .ok root) : ∀ a ∈ list, a.kind ≠ .illegal := by
  intro a ha
  have hbody : a ∈ s.body.map (·.symbol) := by
    rw [h.body]
    exact List.mem_append_right _ (List.mem_append_left _ ha)
  obtain ⟨t, ht, rfl⟩ := List.mem_map.mp hbody
  exact kind_ne_illegal_of_parse hparse ht

theorem illegal?_eq_none (h : s.Frames before list after) (hlist : ∀ a ∈ list, a.kind ≠ .illegal) :
    s.illegal? = none := by
  apply TokenStream.illegal?_eq_none
  intro a ha
  have hsymbols : s.symbols.toList = _ := h.symbols
  rw [hsymbols, List.mem_append, List.mem_append] at ha
  rcases ha with ha | ha | ha
  · exact (h.before a ha).2
  · exact hlist a (List.mem_filter.mp ha).1
  · exact (h.after a ha).2

end Frames

end FrontEnd.TokenStream
