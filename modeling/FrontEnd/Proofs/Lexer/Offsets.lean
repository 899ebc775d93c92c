import FrontEnd.Proofs.Lexer.Running

/-!
Where the lexer starts its tokens. A token holds its offset, but stops at the greatest one, and
lines and columns are counted in 32 bits; so what tells where a token starts in every source is
the offset of the buffer when the lexer begins it. These offsets are those of the pieces.
-/

namespace FrontEnd

namespace Lexer

/-- The tokens that the lexer goes on to read, each with the offset at which it starts. -/
def starts : Nat → Lexer → List (Nat × Token)
  | 0, _ => []
  | n + 1, l =>
    match l.next with
    | (none, _) => []
    | (some (start, .ok token), l) => token.toList.map (start.offset, ·) ++ starts n l
    | (some (start, .error e), _) => [(start.offset, start.token .illegal e.message)]

end Lexer

/-- The tokens of a source but for the last one, each with the offset at which it starts. -/
def bodyOffsets (source fileName : String) : List (Nat × Token) :=
  (Lexer.ofString source fileName).starts (Lexer.ofString source fileName).steps

/-- The tokens of a source, each with the offset at which it starts. The last one starts where
reading stopped. -/
def offsets (source fileName : String) : List (Nat × Token) :=
  bodyOffsets source fileName ++
    [((Lexer.ofString source fileName).run.2.buffer.offset, (lex source fileName).last)]

/-- The token starts behind the first `n` characters of the source. -/
def Token.IsAt (t : Token) (source fileName : String) (n : Nat) : Prop :=
  (byteLength (source.toList.take n), t) ∈ offsets source fileName

namespace Piece

/-- The tokens among pieces of which the first stands at `p`, with their offsets. -/
def offsetsAt (fileName : String) (p : Place) (pieces : List Piece) : List (Nat × Token) :=
  (placed p pieces).filterMap fun (q, x) => (x.token? fileName q).map (q.offset, ·)

theorem offsetsAt_cons (fileName : String) (p : Place) (x : Piece) (xs : List Piece) :
    offsetsAt fileName p (x :: xs) = ((x.token? fileName p).map (p.offset, ·)).toList ++
      offsetsAt fileName (p.after x.lexeme x.rest) xs := by
  simp only [offsetsAt, placed, List.filterMap_cons]
  cases x.token? fileName p <;> rfl

theorem offsetsAt_tokens (fileName : String) (p : Place) (pieces : List Piece) :
    (offsetsAt fileName p pieces).map (·.2) = tokensAt fileName p pieces := by
  rw [offsetsAt, tokensAt, List.map_filterMap]
  congr 1
  funext e
  rw [Option.map_map]
  exact Option.map_id'

end Piece

namespace Lexer

variable {l : Lexer} {n : Nat} {r : List (Nat × Token)}

theorem Skips.starts {l' : Lexer} (h : Skips l l')
    (hr : ∀ n, l'.buffer.ahead.length < n → l'.starts n = r) :
    ∀ n, l.buffer.ahead.length < n → l.starts n = r := by
  induction h with
  | refl => exact hr
  | next h hlt _ ih =>
    intro n hn
    obtain ⟨n, rfl⟩ := Nat.exists_eq_succ_of_ne_zero (Nat.ne_zero_of_lt hn)
    rw [Lexer.starts, h]
    exact ih hr n (by omega)

/-- The token that the piece in front tells starts where the lexer stands. -/
theorem starts_succ {c : Char} {cs : List Char} (hl : l.buffer.Counts) (hs : cs.length < l.steps)
    (hin : l.Inside) (h : l.buffer.ahead = c :: cs) :
    l.starts (n + 1) =
      (((Piece.first c cs).token? l.fileName l.buffer.place).map
        (l.buffer.place.offset, ·)).toList ++
      if (Piece.first c cs).isFault then [] else (l.past (Piece.first c cs)).starts n := by
  obtain ⟨start, hnext, hstart⟩ := next_eq hl hs hin h
  rw [starts, hnext]
  generalize Piece.first c cs = x at *
  cases hx : x.reading with
  | trivia | openComment => simp [reads, Piece.token?, Piece.isFault, hx]
  | token kind text =>
    rw [hx] at hstart
    obtain rfl : start = l.begin := by simpa using hstart
    simp [reads, Piece.token?, Piece.isFault, hx]
    exact ⟨rfl, rfl⟩
  | fault cause =>
    rw [hx] at hstart
    obtain rfl : start = l.begin := by simpa using hstart
    simp [reads, Piece.token?, Piece.isFault, hx]
    exact ⟨rfl, rfl⟩

/-- Inside of the source the tokens start where the pieces do. -/
theorem starts_divide (hl : l.buffer.Counts) (hs : l.buffer.ahead.length < l.steps)
    (hin : l.Inside) (hn : l.buffer.ahead.length < n) :
    l.starts n = Piece.offsetsAt l.fileName l.buffer.place (Piece.divide l.buffer.ahead) := by
  induction h : l.buffer.ahead using Piece.divide_induct generalizing l n with
  | nil =>
    obtain ⟨n, rfl⟩ := Nat.exists_eq_succ_of_ne_zero (Nat.ne_zero_of_lt hn)
    have hnext : l.next = (none, l) := by simp [next, Buffer.advance, h]
    rw [starts, hnext]
    rfl
  | fault c cs hf =>
    obtain ⟨n, rfl⟩ := Nat.exists_eq_succ_of_ne_zero (Nat.ne_zero_of_lt hn)
    rw [h] at hs
    rw [starts_succ hl (Nat.lt_of_succ_lt hs) hin h, if_pos hf, Piece.divide_of_fault hf,
      Piece.offsetsAt_cons]
    rfl
  | cons c cs hf ih =>
    obtain ⟨n, rfl⟩ := Nat.exists_eq_succ_of_ne_zero (Nat.ne_zero_of_lt hn)
    have hle := Piece.first_rest_length_le c cs
    rw [h] at hs hn
    have hcs : cs.length < l.steps := Nat.lt_of_succ_lt hs
    rw [starts_succ hl hcs hin h, hf, if_neg Bool.false_ne_true, Piece.divide_of_read hf,
      Piece.offsetsAt_cons]
    congr 1
    exact ih (hl.take _ _) (Nat.lt_of_le_of_lt hle hcs) (hin.past h)
      (Nat.lt_of_le_of_lt hle (Nat.lt_of_succ_lt_succ hn)) rfl

end Lexer

variable {source fileName : String}

theorem bodyOffsets_eq (source fileName : String) :
    bodyOffsets source fileName = Piece.offsetsAt fileName
      (Place.start.after (opening source.toList).1 (opening source.toList).2)
      (Piece.divide (opening source.toList).2) := by
  obtain ⟨hskips, hin⟩ := Lexer.skips_opening source fileName
  obtain ⟨hsteps, hs⟩ := Lexer.steps_opening source fileName
  exact hskips.starts (fun n hn => Lexer.starts_divide
    ((Buffer.counts_ofString source).take _ _) hs hin hn) _ hsteps

theorem bodyOffsets_tokens (source fileName : String) :
    (bodyOffsets source fileName).map (·.2) = (lex source fileName).body := by
  rw [bodyOffsets_eq, Piece.offsetsAt_tokens, lex_eq]
  rfl

theorem offsets_tokens (source fileName : String) :
    (offsets source fileName).map (·.2) = (lex source fileName).tokens := by
  rw [offsets, List.map_append, bodyOffsets_tokens]
  rfl

theorem stop_offset (source fileName : String) :
    (Lexer.ofString source fileName).run.2.buffer.offset =
      (Piece.stop (Place.start.after (opening source.toList).1 (opening source.toList).2)
        (Piece.divide (opening source.toList).2)).offset := by
  rw [Lexer.run_eq]
  exact congrArg Place.offset (Lexer.foldl_read_place _ _)

end FrontEnd
