import FrontEnd.Proofs.Lexer.Lossless

/-!
Where tokens stand. The place of a boundary is told from the source alone: the
bytes before it, the line ends before it, and the characters behind the last of
these. Reading moves its place, a character at a time, from boundary to boundary.
-/

namespace FrontEnd

/-- A line feed, or a carriage return that no line feed follows, stands at `i`. -/
def EndsLineAt (source : List Char) (i : Nat) : Prop :=
  source[i]? = some '\n' ∨ source[i]? = some '\r' ∧ source[i + 1]? ≠ some '\n'

instance (source : List Char) (i : Nat) : Decidable (EndsLineAt source i) :=
  inferInstanceAs (Decidable (_ ∨ _))

/-- One more than the line ends among the first `n` characters. -/
def lineAt (source : List Char) (n : Nat) : Nat :=
  1 + (List.range n).countP (EndsLineAt source ·)

/-- One more than the characters between the last line end among the first `n`
characters, or the start, and the boundary behind these. -/
def columnAt (source : List Char) (n : Nat) : Nat :=
  1 + ((List.range n).reverse.takeWhile (¬ EndsLineAt source ·)).length

variable {source : List Char} {n m : Nat}

theorem lineAt_succ (source : List Char) (n : Nat) :
    lineAt source (n + 1) = lineAt source n + if EndsLineAt source n then 1 else 0 := by
  simp only [lineAt, List.range_succ, List.countP_append, List.countP_singleton,
    decide_eq_true_eq, Nat.add_assoc]

theorem columnAt_succ (source : List Char) (n : Nat) :
    columnAt source (n + 1) = if EndsLineAt source n then 1 else columnAt source n + 1 := by
  unfold columnAt
  rw [List.range_succ, List.reverse_append]
  by_cases h : EndsLineAt source n <;> simp [h, Nat.add_assoc]

theorem lineAt_le (source : List Char) (n : Nat) : lineAt source n ≤ n + 1 := by
  have hle : (List.range n).countP (EndsLineAt source ·) ≤ _ := List.countP_le_length
  rw [List.length_range] at hle
  unfold lineAt
  omega

theorem columnAt_le (source : List Char) (n : Nat) : columnAt source n ≤ n + 1 := by
  have hle := ((List.range n).reverse.takeWhile_sublist (¬EndsLineAt source ·)).length_le
  rw [List.length_reverse, List.length_range] at hle
  unfold columnAt
  omega

theorem columnAt_pos (source : List Char) (n : Nat) : 1 ≤ columnAt source n := Nat.le_add_right 1 _

/-- A boundary further on is on a later line, or in a later column of the same one. -/
theorem lineAt_columnAt_lt (source : List Char) (h : n < m) :
    lineAt source n < lineAt source m ∨
      lineAt source n = lineAt source m ∧ columnAt source n < columnAt source m := by
  induction h with
  | refl =>
    rw [lineAt_succ, columnAt_succ]
    split <;> omega
  | @step m h ih =>
    rw [lineAt_succ, columnAt_succ]
    split <;> omega

/-! ## Places as boundaries -/

namespace Place

/-- The place of the boundary behind the first `n` characters. -/
def boundary (source : List Char) (n : Nat) : Place :=
  ⟨byteLength (source.take n), .ofNat (lineAt source n), .ofNat (columnAt source n - 1)⟩

theorem boundary_zero (source : List Char) : boundary source 0 = start := by
  simp [boundary, start, lineAt, columnAt]

theorem location_boundary (source : List Char) (n : Nat) (fileName : String) :
    (boundary source n).location fileName =
      ⟨.ofNat (lineAt source n), .ofNat (columnAt source n), fileName⟩ := by
  have hcolumn : UInt32.ofNat (columnAt source n - 1) + 1 = .ofNat (columnAt source n) := by
    rw [← UInt32.ofNat_one, ← UInt32.ofNat_add, Nat.sub_add_cancel (columnAt_pos source n)]
  rw [location, boundary, hcolumn]

theorem front_of_drop {c : Char} {rest : List Char} (h : source.drop n = c :: rest) :
    source[n]? = some c ∧ source.drop (n + 1) = rest := by
  refine ⟨?_, ?_⟩
  · rw [← List.head?_drop, h, List.head?_cons]
  · rw [← List.tail_drop, h, List.tail_cons]

theorem endsLine_iff {c : Char} {rest : List Char} (h : source.drop n = c :: rest) :
    endsLine c rest.head? = true ↔ EndsLineAt source n := by
  obtain ⟨hc, rfl⟩ := front_of_drop h
  simp [endsLine, EndsLineAt, hc, List.head?_drop]

theorem boundary_step {c : Char} {rest : List Char} (h : source.drop n = c :: rest) :
    (boundary source n).step c rest.head? = boundary source (n + 1) := by
  obtain ⟨hc, -⟩ := front_of_drop h
  have hoffset : byteLength (source.take (n + 1)) = byteLength (source.take n) + c.utf8Size := by
    rw [List.take_add_one, byteLength_append, hc]
    simp
  have hcolumn := congrArg Location.column (location_boundary source n "")
  unfold step boundary
  rw [hoffset, lineAt_succ, columnAt_succ]
  by_cases he : EndsLineAt source n
  · rw [if_pos ((endsLine_iff h).mpr he), if_pos he, if_pos he, UInt32.ofNat_add]
    rfl
  · rw [if_neg (mt (endsLine_iff h).mp he), if_neg he, if_neg he]
    exact congrArg (mk _ _) hcolumn

theorem boundary_after {lexeme rest : List Char} (h : source.drop n = lexeme ++ rest) :
    (boundary source n).after lexeme rest = boundary source (n + lexeme.length) := by
  induction lexeme generalizing n with
  | nil => rfl
  | cons c lexeme ih =>
    obtain ⟨-, htail⟩ := front_of_drop h
    have hstep : (boundary source n).step c (lexeme.head?.or rest.head?) =
        boundary source (n + 1) := by
      rw [← List.head?_append]
      exact boundary_step h
    rw [after, hstep, ih htail, List.length_cons, Nat.add_right_comm, Nat.add_assoc]

theorem start_after {front text : List Char} (h : front ++ text = source) :
    start.after front text = boundary source front.length := by
  rw [← boundary_zero source, boundary_after (by rw [List.drop_zero, h]), Nat.zero_add]

end Place

/-! ## Pieces one behind the other -/

/-- The pieces follow one another in `source` from its boundary `n` to its boundary `m`,
and none of them is empty. -/
inductive Follow (source : List Char) : Nat → List Piece → Nat → Prop where
  | nil {n : Nat} (h : n ≤ source.length) : Follow source n [] n
  | cons {n m : Nat} {x : Piece} {xs : List Piece} (h : x.Splits (source.drop n))
    (ht : Follow source (n + x.lexeme.length) xs m) : Follow source n (x :: xs) m

namespace Follow

variable {pieces : List Piece}

theorem le (h : Follow source n pieces m) : n ≤ m := by
  induction h with
  | nil => exact Nat.le_refl _
  | cons _ _ ih => exact Nat.le_trans (Nat.le_add_right _ _) ih

theorem le_length (h : Follow source n pieces m) : m ≤ source.length := by
  induction h with
  | nil h => exact h
  | cons _ _ ih => exact ih

theorem stop_eq (h : Follow source n pieces m) :
    Piece.stop (.boundary source n) pieces = .boundary source m := by
  induction h with
  | nil => rfl
  | cons h _ ih => rw [Piece.stop_cons, Place.boundary_after h.1.symm, ih]

theorem placed_boundary (h : Follow source n pieces m) :
    ∀ e ∈ Piece.placed (.boundary source n) pieces,
      ∃ k, n ≤ k ∧ k < m ∧ e.1 = .boundary source k := by
  induction h with
  | nil => simp [Piece.placed]
  | @cons n m x xs h ht ih =>
    rw [Piece.placed, Place.boundary_after h.1.symm]
    have hlength := List.length_pos_iff.mpr h.2
    have hm := ht.le
    rintro e (_ | ⟨_, he⟩)
    · exact ⟨n, Nat.le_refl _, by omega, rfl⟩
    · obtain ⟨k, hk, hkm, hplace⟩ := ih e he
      exact ⟨k, by omega, hkm, hplace⟩

theorem placed_pairwise (h : Follow source n pieces m) :
    (Piece.placed (.boundary source n) pieces).Pairwise fun d e =>
      ∃ i j, i < j ∧ j < m ∧ d.1 = .boundary source i ∧ e.1 = .boundary source j := by
  induction h with
  | nil => exact .nil
  | @cons n m x xs h ht ih =>
    rw [Piece.placed, Place.boundary_after h.1.symm]
    refine .cons (fun e he => ?_) ih
    have hlength := List.length_pos_iff.mpr h.2
    obtain ⟨k, hk, hkm, hplace⟩ := ht.placed_boundary e he
    exact ⟨n, k, by omega, hkm, rfl, hplace⟩

end Follow

theorem drop_lexeme {lexeme rest : List Char} (h : source.drop n = lexeme ++ rest)
    (hne : lexeme ≠ []) :
    n < n + lexeme.length ∧ n + lexeme.length ≤ source.length ∧
      source.drop (n + lexeme.length) = rest := by
  have hpos := List.length_pos_iff.mpr hne
  have hlength := congrArg List.length h
  rw [List.length_append, List.length_drop] at hlength
  exact ⟨by omega, by omega, by rw [← List.drop_drop, h, List.drop_left]⟩

theorem Piece.divide_follow (n : Nat) (cs : List Char) (hn : n ≤ source.length)
    (h : source.drop n = cs) : ∃ m, Follow source n (divide cs) m := by
  induction cs using divide_induct generalizing n with
  | nil => exact ⟨n, .nil hn⟩
  | fault c cs hf =>
    have hsplits : (first c cs).Splits (source.drop n) := h ▸ first_splits c cs
    obtain ⟨-, hle, -⟩ := drop_lexeme hsplits.1.symm hsplits.2
    rw [divide_of_fault hf]
    exact ⟨_, .cons hsplits (.nil hle)⟩
  | cons c cs hf ih =>
    have hsplits : (first c cs).Splits (source.drop n) := h ▸ first_splits c cs
    obtain ⟨-, hle, hrest⟩ := drop_lexeme hsplits.1.symm hsplits.2
    obtain ⟨m, ht⟩ := ih _ hle hrest
    rw [divide_of_read hf]
    exact ⟨m, .cons hsplits ht⟩

theorem Piece.divide_follow_of_append {front text : List Char} (h : front ++ text = source) :
    ∃ m, Follow source front.length (divide text) m := by
  subst h
  exact divide_follow _ _ (by simp) List.drop_left

/-! ## Tokens -/

/-- The token starts at the boundary, as its own fields tell it. -/
def Token.StandsAt (t : Token) (source : List Char) (n : Nat) : Prop :=
  t.start = byteLength (source.take n) ∧ t.location.line.toNat = lineAt source n ∧
    t.location.column.toNat = columnAt source n

/-- In the order of offsets and of lines and columns, the one token starts before the other. -/
def Token.Before (t u : Token) : Prop :=
  t.start < u.start ∧
    (t.location.line < u.location.line ∨
      t.location.line = u.location.line ∧ t.location.column < u.location.column)

theorem Token.StandsAt.before {t u : Token} (ht : t.StandsAt source n) (hu : u.StandsAt source m)
    (h : n < m) (hm : m ≤ source.length) : t.Before u := by
  obtain ⟨hstart, hline, hcolumn⟩ := ht
  obtain ⟨hstart', hline', hcolumn'⟩ := hu
  have hbytes := byteLength_take_lt h hm
  have hlater := lineAt_columnAt_lt source h
  unfold Before
  rw [hstart, hstart', UInt32.lt_iff_toNat_lt, UInt32.lt_iff_toNat_lt, ← UInt32.toNat_inj, hline,
    hline', hcolumn, hcolumn']
  exact ⟨hbytes, hlater⟩

theorem Place.tokenStart_boundary (h : byteLength source ≤ greatestOffset) (n : Nat) :
    (boundary source n).tokenStart = byteLength (source.take n) := by
  have hle : byteLength source = byteLength (source.take n) + byteLength (source.drop n) := by
    rw [← byteLength_append, List.take_append_drop]
  change min (byteLength (source.take n)) greatestOffset = byteLength (source.take n)
  omega

/-- A token that is told to start at a boundary does so, unless its line or its column is too
great to be told. -/
theorem Token.StandsAt.of_boundary {fileName : String} {t : Token}
    (h : byteLength source ≤ greatestOffset) (hline : lineAt source n < UInt32.size)
    (hcolumn : columnAt source n < UInt32.size)
    (hstart : t.start = (Place.boundary source n).tokenStart)
    (hlocation : t.location = (Place.boundary source n).location fileName) :
    t.StandsAt source n := by
  rw [Place.location_boundary] at hlocation
  rw [Place.tokenStart_boundary h] at hstart
  refine ⟨hstart, ?_, ?_⟩
  · rw [hlocation, UInt32.toNat_ofNat_of_lt' hline]
  · rw [hlocation, UInt32.toNat_ofNat_of_lt' hcolumn]

/-- Before the end of a source, lines and columns are not too great. -/
theorem lineAt_columnAt_fit (h : byteLength source ≤ greatestOffset) (hn : n < source.length) :
    lineAt source n < UInt32.size ∧ columnAt source n < UInt32.size := by
  have hlength := length_le_byteLength source
  have hline := lineAt_le source n
  have hcolumn := columnAt_le source n
  unfold greatestOffset at h
  change _ < 4294967296 ∧ _ < 4294967296
  omega

theorem Piece.token?_place {fileName : String} {p : Place} {x : Piece} {t : Token}
    (ht : x.token? fileName p = some t) :
    t.start = p.tokenStart ∧ t.location = p.location fileName := by
  unfold token? at ht
  split at ht
  · cases ht
    exact ⟨rfl, rfl⟩
  · cases ht
    exact ⟨rfl, rfl⟩
  · cases ht

theorem Piece.token?_standsAt {fileName : String} {x : Piece} {t : Token}
    (h : byteLength source ≤ greatestOffset) (hn : n < source.length)
    (ht : x.token? fileName (.boundary source n) = some t) : t.StandsAt source n := by
  obtain ⟨hstart, hlocation⟩ := token?_place ht
  obtain ⟨hline, hcolumn⟩ := lineAt_columnAt_fit h hn
  exact .of_boundary h hline hcolumn hstart hlocation

namespace Follow

variable {pieces : List Piece}

theorem tokens_boundary (h : Follow source n pieces m) (fileName : String)
    (hsize : byteLength source ≤ greatestOffset) :
    ∀ t ∈ Piece.tokensAt fileName (.boundary source n) pieces, ∃ k < m, t.StandsAt source k := by
  intro t ht
  obtain ⟨e, he, ht⟩ := List.mem_filterMap.mp ht
  obtain ⟨k, -, hk, hplace⟩ := h.placed_boundary e he
  dsimp only at ht
  rw [hplace] at ht
  exact ⟨k, hk, Piece.token?_standsAt hsize (Nat.lt_of_lt_of_le hk h.le_length) ht⟩

theorem tokens_pairwise (h : Follow source n pieces m) (fileName : String)
    (hsize : byteLength source ≤ greatestOffset) :
    (Piece.tokensAt fileName (.boundary source n) pieces).Pairwise Token.Before := by
  refine List.pairwise_filterMap.mpr (h.placed_pairwise.imp ?_)
  rintro d e ⟨i, j, hij, hj, hd, he⟩ t ht u hu
  have hlength := h.le_length
  dsimp only at ht hu
  rw [hd] at ht
  rw [he] at hu
  exact (Piece.token?_standsAt hsize (by omega) ht).before
    (Piece.token?_standsAt hsize (by omega) hu) hij (by omega)

end Follow

/-- The source is divided into pieces up to some boundary, where its last token stands. -/
theorem lex_follow (source fileName : String) :
    ∃ n pieces m, Follow source.toList n pieces m ∧
      bodyOffsets source fileName =
        Piece.offsetsAt fileName (.boundary source.toList n) pieces ∧
      (Lexer.ofString source fileName).run.2.buffer.offset =
        (Place.boundary source.toList m).offset ∧
      (lex source fileName).stop =
        ((Place.boundary source.toList m).tokenStart,
          (Place.boundary source.toList m).location fileName) := by
  have happend := opening_append source.toList
  have hbegin := Place.start_after happend
  obtain ⟨m, h⟩ := Piece.divide_follow_of_append happend
  refine ⟨_, _, m, h, ?_, ?_, ?_⟩
  · rw [bodyOffsets_eq, hbegin]
  · rw [stop_offset, hbegin, h.stop_eq]
  · rw [lex_last, hbegin, h.stop_eq]

section Starts

variable {source fileName : String} {t : Token} {n : Nat}

/-- Each offset is that of a boundary, whose line and column the token tells, as far as it can. -/
theorem exists_boundary_of_offsets {offset : Nat} (h : (offset, t) ∈ offsets source fileName) :
    ∃ k ≤ source.toList.length, offset = byteLength (source.toList.take k) ∧
      t.start = (Place.boundary source.toList k).tokenStart ∧
      t.location = (Place.boundary source.toList k).location fileName := by
  obtain ⟨n, pieces, m, hf, hbody, hoffset, hstop⟩ := lex_follow source fileName
  have hm := hf.le_length
  rcases List.mem_append.mp h with h | h
  · rw [hbody] at h
    obtain ⟨⟨p, x⟩, hx, ht⟩ := List.mem_filterMap.mp h
    obtain ⟨k, -, hk, rfl⟩ := hf.placed_boundary _ hx
    obtain ⟨u, hread, heq⟩ := Option.map_eq_some_iff.mp ht
    cases heq
    exact ⟨k, by omega, rfl, Piece.token?_place hread⟩
  · cases List.mem_singleton.mp h
    refine ⟨m, hm, hoffset, ?_, ?_⟩
    · rw [TokenStream.last, hstop]
    · rw [TokenStream.last, hstop]

/-- Every token starts somewhere in the source. -/
theorem Token.exists_isAt (h : t ∈ (lex source fileName).tokens) :
    ∃ n ≤ source.toList.length, t.IsAt source fileName n := by
  rw [← offsets_tokens] at h
  obtain ⟨⟨offset, u⟩, hmem, rfl⟩ := List.mem_map.mp h
  obtain ⟨k, hk, rfl, -⟩ := exists_boundary_of_offsets hmem
  exact ⟨k, hk, hmem⟩

/-- Where a token starts, it tells as far as its fields can. -/
theorem Token.IsAt.place (h : t.IsAt source fileName n) (hn : n ≤ source.toList.length) :
    t.start = min (byteLength (source.toList.take n)) greatestOffset ∧
      t.location = ⟨.ofNat (lineAt source.toList n), .ofNat (columnAt source.toList n),
        fileName⟩ := by
  obtain ⟨k, hk, hoffset, hstart, hlocation⟩ := exists_boundary_of_offsets h
  obtain rfl := eq_of_byteLength_take hn hk hoffset
  exact ⟨hstart, hlocation.trans (Place.location_boundary _ _ _)⟩

end Starts

/-- Every token but the last one starts at a boundary of characters, on the line and in the column
that the line ends before it tell, and the tokens start one behind the other. Reading stops at a
boundary behind them, and the last token starts there, on the line and in the column that the line
ends tell if these are not too great. -/
theorem lex_positions (source fileName : String) (h : source.utf8ByteSize < UInt32.size) :
    let cs := source.toList
    let s := lex source fileName
    ∃ stop ≤ cs.length,
      (∀ t ∈ s.body, ∃ n < stop, t.StandsAt cs n) ∧ s.body.Pairwise Token.Before ∧
      s.last.start = byteLength (cs.take stop) ∧ (∀ t ∈ s.body, t.start < s.last.start) ∧
      (lineAt cs stop < UInt32.size → columnAt cs stop < UInt32.size →
        s.last.StandsAt cs stop ∧ ∀ t ∈ s.body, t.Before s.last) := by
  intro cs s
  have hsize : byteLength cs ≤ greatestOffset := by
    rw [byteLength_toList]
    exact Nat.le_of_lt_succ h
  obtain ⟨n, pieces, stop, hf, hoffsets, -, hstop⟩ := lex_follow source fileName
  have hbody : s.body = Piece.tokensAt fileName (.boundary cs n) pieces := by
    rw [← bodyOffsets_tokens, hoffsets, Piece.offsetsAt_tokens]
  have hle := hf.le_length
  have htokens := hf.tokens_boundary fileName hsize
  have hpairs := hf.tokens_pairwise fileName hsize
  rw [← hbody] at htokens hpairs
  have hlast : s.last.start = byteLength (cs.take stop) := by
    rw [← Place.tokenStart_boundary hsize, TokenStream.last, hstop]
  refine ⟨stop, hle, htokens, hpairs, hlast, fun t ht => ?_, fun hline hcolumn => ?_⟩
  · obtain ⟨k, hk, hstart, -⟩ := htokens t ht
    rw [hstart, hlast]
    exact byteLength_take_lt hk hle
  · have hlocation : s.last.location = (Place.boundary cs stop).location fileName := by
      rw [TokenStream.last, hstop]
    have hstands : s.last.StandsAt cs stop := by
      refine .of_boundary hsize hline hcolumn ?_ hlocation
      rw [TokenStream.last, hstop]
    refine ⟨hstands, fun t ht => ?_⟩
    obtain ⟨k, hk, hstandsAt⟩ := htokens t ht
    exact hstandsAt.before hstands hk hle

/-- A string over two lines, line ends of three kinds, and a character that is no token. -/
theorem lex_positions_of_lines :
    let source := "a\r\n\"é\n\" b\r$"
    let s := lex source "a.hz"
    source.utf8ByteSize < UInt32.size ∧ ∃ stop ≤ source.toList.length,
      (∀ t ∈ s.body, ∃ n < stop, t.StandsAt source.toList n) ∧ s.body.Pairwise Token.Before ∧
      s.last.StandsAt source.toList stop ∧ ∀ t ∈ s.body, t.Before s.last := by
  intro source s
  have h : source.utf8ByteSize < UInt32.size := by decide
  obtain ⟨stop, hstop, hbody, hpairs, -, -, hlast⟩ := lex_positions source "a.hz" h
  have hline := lineAt_le source.toList stop
  have hcolumn := columnAt_le source.toList stop
  have hlength : source.toList.length = 11 := by decide
  have hfit : stop + 1 < UInt32.size := Nat.lt_of_le_of_lt (m := 12) (by omega) (by decide)
  exact ⟨h, stop, hstop, hbody, hpairs, hlast (by omega) (by omega)⟩

section Blanks

variable {k : Nat}

theorem Piece.tokensAt_blanks (fileName : String) (p : Place) (k : Nat) :
    tokensAt fileName p (divide (List.replicate k ' ')) = [] := by
  induction k generalizing p with
  | zero => rfl
  | succ k ih =>
    have hfirst (cs : List Char) : first ' ' cs = ⟨.trivia, [' '], cs⟩ := rfl
    rw [List.replicate_succ, divide_of_read (by rw [hfirst]; rfl), hfirst, tokensAt_cons, ih]
    rfl

theorem lex_blanks (fileName : String) (k : Nat) :
    (lex (String.ofList (List.replicate k ' ')) fileName).body = [] := by
  have hopening : opening (List.replicate k ' ') = ([], List.replicate k ' ') := by
    cases k <;> rfl
  rw [lex_body, String.toList_ofList, hopening, Piece.tokensAt_blanks]

theorem byteLength_blanks (k : Nat) : byteLength (List.replicate k ' ') = k := by
  induction k with
  | zero => rfl
  | succ k ih =>
    rw [List.replicate_succ, byteLength_cons, ih, Nat.add_comm]
    rfl

theorem columnAt_blanks (k n : Nat) : columnAt (List.replicate k ' ') n = n + 1 := by
  have hblank (n : Nat) : ¬EndsLineAt (List.replicate k ' ') n := by
    simp [EndsLineAt, List.getElem?_replicate]
  induction n with
  | zero => rfl
  | succ n ih => rw [columnAt_succ, if_neg (hblank n), ih]

/-- The last token behind blanks on which no line ends cannot tell its column, if there are too
many of them. -/
theorem not_standsAt_of_blanks (fileName : String) (h : k + 1 = UInt32.size) (n : Nat) :
    let source := String.ofList (List.replicate k ' ')
    ¬(n ≤ source.toList.length ∧ (lex source fileName).last.StandsAt source.toList n) := by
  rintro source ⟨hn, hstart, -, hcolumn⟩
  have hbytes : source.utf8ByteSize = k := byteLength_blanks k
  obtain ⟨_, _, _, _, _, hlast⟩ := lex_lossless source fileName (by omega)
  have hend := (hlast (by simp [source, lex_blanks])).2
  have hlist : source.toList = List.replicate k ' ' := String.toList_ofList
  have hfull : byteLength ((List.replicate k ' ').take k) = k := by
    rw [List.take_replicate, Nat.min_self, byteLength_blanks]
  rw [hlist] at hn hstart hcolumn
  rw [hend, hbytes] at hstart
  rw [List.length_replicate] at hn
  obtain rfl : k = n := by
    refine eq_of_byteLength_take (Nat.le_of_eq List.length_replicate.symm) ?_ (hfull.trans hstart)
    rwa [List.length_replicate]
  rw [columnAt_blanks] at hcolumn
  have hlt := (lex source fileName).last.location.column.toNat_lt_size
  omega

/-- The last token behind so many blanks stands in a column that 32 bits cannot tell. -/
theorem positions_of_longest_line :
    let source := String.ofList (List.replicate 4294967295 ' ')
    let s := lex source "a.hz"
    source.utf8ByteSize < UInt32.size ∧
      ¬((∀ t ∈ s.tokens, ∃ n ≤ source.toList.length, t.StandsAt source.toList n) ∧
        s.tokens.Pairwise Token.Before) := by
  refine ⟨?_, fun ⟨h, _⟩ => ?_⟩
  · have hbytes : (String.ofList (List.replicate 4294967295 ' ')).utf8ByteSize = 4294967295 :=
      byteLength_blanks _
    rw [hbytes]
    decide
  · obtain ⟨n, hn⟩ := h _ (List.mem_append_right _ List.mem_cons_self)
    exact not_standsAt_of_blanks "a.hz" (k := 4294967295) rfl n hn

end Blanks

end FrontEnd
