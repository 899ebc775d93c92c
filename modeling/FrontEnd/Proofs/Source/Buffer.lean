import FrontEnd.Proofs.Lexer.Positions

/-!
A buffer is a text of which a number of characters are read. Whatever was asked of it, it has
answered as that text does, and its offset, line and column are those of the boundary behind the
characters read. Bytes, lines and characters read never come apart.
-/

namespace FrontEnd

namespace Buffer

/-- What may be asked of a buffer. -/
inductive Operation where
  | advance
  | advanceBy (n : Nat)
  | peek (n : Nat)
  | previous (n : Nat)
  | slice (start stop : Nat)
  deriving DecidableEq, Repr

inductive Answer where
  | char (c : Option Char)
  | text (cs : List Char)
  deriving DecidableEq, Repr

/-- The answer to an operation, and the buffer behind it. -/
def perform (b : Buffer) : Operation → Answer × Buffer
  | .advance => (.char b.advance.1, b.advance.2)
  | .advanceBy n => (.char (b.advanceBy n).1, (b.advanceBy n).2)
  | .peek n => (.char (b.peek n), b)
  | .previous n => (.char (b.previous n), b)
  | .slice start stop => (.text (b.slice start stop), b)

/-- The answers to several operations, one after the other, and the buffer behind them. -/
def run (b : Buffer) : List Operation → List Answer × Buffer
  | [] => ([], b)
  | o :: operations =>
    ((b.perform o).1 :: ((b.perform o).2.run operations).1, ((b.perform o).2.run operations).2)

end Buffer

/-- A text of which the first characters are read. -/
structure Excerpt where
  text : List Char
  /-- How many characters are read. -/
  read : Nat
  deriving DecidableEq, Repr

namespace Excerpt

/-- How many characters the first `bytes` bytes of a text are, if they end one. -/
def charsIn? (text : List Char) (bytes : Nat) : Option Nat :=
  (List.range (text.length + 1)).find? fun n => byteLength (text.take n) = bytes

/-- The characters between two byte offsets. -/
def slice (text : List Char) (start stop : Nat) : List Char :=
  match charsIn? text start, charsIn? text stop with
  | some m, some n => (text.take n).drop m
  | _, _ => []

/-- What the text answers, and how much of it is read then. -/
def perform (e : Excerpt) : Buffer.Operation → Buffer.Answer × Excerpt
  | .advance => (.char e.text[e.read]?, ⟨e.text, min (e.read + 1) e.text.length⟩)
  | .advanceBy n =>
    if e.read + n ≤ e.text.length then (.char e.text[e.read + n]?, ⟨e.text, e.read + n⟩)
    else (.char none, e)
  | .peek n => (.char e.text[e.read + n]?, e)
  | .previous n => (.char (if n ≤ e.read then e.text[e.read - n]? else none), e)
  | .slice start stop => (.text (slice e.text start stop), e)

def run (e : Excerpt) : List Buffer.Operation → List Buffer.Answer × Excerpt
  | [] => ([], e)
  | o :: operations =>
    ((e.perform o).1 :: ((e.perform o).2.run operations).1, ((e.perform o).2.run operations).2)

/-- The buffer of the text that has read as much. -/
def buffer (e : Excerpt) : Buffer :=
  ⟨(e.text.take e.read).reverse, e.text.drop e.read, .boundary e.text e.read⟩

end Excerpt

/-! ## Bytes -/

section Bytes

variable {cs front back : List Char} {m n i j : Nat}

/-- What a split gives are the two parts of the text, the first of them so many bytes long. -/
theorem append_of_splitBytes (h : Buffer.splitBytes i cs = some (front, back)) :
    front ++ back = cs ∧ byteLength front = i := by
  fun_induction Buffer.splitBytes i cs generalizing front with
  | case1 => cases h; simp
  | case2 => cases h
  | case3 k c cs hsize ih =>
    obtain ⟨⟨front, back⟩, hsplit, heq⟩ := Option.map_eq_some_iff.mp h
    cases heq
    obtain ⟨rfl, hlength⟩ := ih hsplit
    exact ⟨rfl, by rw [byteLength_cons, hlength]; omega⟩
  | case4 => cases h

end Bytes

namespace Excerpt

variable {text : List Char} {m n i j k : Nat}

theorem charsIn?_eq_some_iff :
    charsIn? text i = some n ↔ n ≤ text.length ∧ byteLength (text.take n) = i := by
  constructor
  · intro h
    have hmem := List.mem_range.mp (List.mem_of_find?_eq_some h)
    exact ⟨by omega, by simpa using List.find?_some h⟩
  · rintro ⟨hn, rfl⟩
    obtain ⟨m, hm⟩ : ∃ m, charsIn? text (byteLength (text.take n)) = some m := by
      refine Option.isSome_iff_exists.mp (List.find?_isSome.mpr ⟨n, ?_, by simp⟩)
      exact List.mem_range.mpr (Nat.lt_succ_of_le hn)
    have hmem := List.mem_range.mp (List.mem_of_find?_eq_some hm)
    have hbytes : byteLength (text.take m) = byteLength (text.take n) := by
      simpa using List.find?_some hm
    rw [hm, eq_of_byteLength_take (by omega) hn hbytes]

theorem charsIn?_take (h : n ≤ text.length) :
    charsIn? text (byteLength (text.take n)) = some n :=
  charsIn?_eq_some_iff.mpr ⟨h, rfl⟩

theorem le_of_charsIn? (hi : charsIn? text i = some m) (hj : charsIn? text j = some n)
    (h : i ≤ j) : m ≤ n := by
  obtain ⟨hm, rfl⟩ := charsIn?_eq_some_iff.mp hi
  obtain ⟨-, rfl⟩ := charsIn?_eq_some_iff.mp hj
  refine Nat.le_of_not_lt fun hlt => ?_
  have := byteLength_take_lt hlt hm
  omega

theorem charsIn?_of_splitBytes {front back : List Char}
    (h : Buffer.splitBytes i text = some (front, back)) :
    charsIn? text i = some front.length ∧ text.drop front.length = back := by
  obtain ⟨rfl, rfl⟩ := append_of_splitBytes h
  have hfront : charsIn? (front ++ back) (byteLength ((front ++ back).take front.length)) = _ :=
    charsIn?_take (by simp)
  rw [List.take_left] at hfront
  exact ⟨hfront, List.drop_left⟩

theorem splitBytes_of_charsIn? (h : charsIn? text i = some n) :
    Buffer.splitBytes i text = some (text.take n, text.drop n) := by
  obtain ⟨-, rfl⟩ := charsIn?_eq_some_iff.mp h
  have hsplit := splitBytes_append (text.take n) (text.drop n)
  rwa [List.take_append_drop] at hsplit

/-- Behind a boundary, bytes are counted from there. -/
theorem splitBytes_drop_of_charsIn? (hi : charsIn? text i = some m)
    (hj : charsIn? text j = some n) (h : i ≤ j) :
    Buffer.splitBytes (j - i) (text.drop m) = some ((text.take n).drop m, text.drop n) := by
  have hle := le_of_charsIn? hi hj h
  obtain ⟨k, rfl⟩ := Nat.exists_eq_add_of_le hle
  obtain ⟨-, rfl⟩ := charsIn?_eq_some_iff.mp hi
  obtain ⟨-, rfl⟩ := charsIn?_eq_some_iff.mp hj
  have hbytes : byteLength (text.take (m + k)) - byteLength (text.take m) =
      byteLength ((text.drop m).take k) := by
    rw [List.take_add, byteLength_append]
    omega
  have hsplit := splitBytes_append ((text.drop m).take k) ((text.drop m).drop k)
  rw [List.take_append_drop, List.drop_drop] at hsplit
  rw [hbytes, hsplit, List.drop_take, Nat.add_sub_cancel_left]

theorem charsIn?_of_splitBytes_drop {front back : List Char} (hi : charsIn? text i = some m)
    (h : i ≤ j) (hsplit : Buffer.splitBytes (j - i) (text.drop m) = some (front, back)) :
    charsIn? text j = some (m + front.length) := by
  obtain ⟨hm, hbytes⟩ := charsIn?_eq_some_iff.mp hi
  obtain ⟨happend, hlength⟩ := append_of_splitBytes hsplit
  have hfront : (text.drop m).take front.length = front := by
    rw [← happend, List.take_left]
  refine charsIn?_eq_some_iff.mpr ⟨?_, ?_⟩
  · have hsize := congrArg List.length happend
    simp only [List.length_append, List.length_drop] at hsize
    omega
  · rw [List.take_add, hfront, byteLength_append, hbytes, hlength]
    omega

theorem slice_of_lt (h : j < i) : slice text i j = [] := by
  unfold slice
  split
  · rename_i m n hi hj
    have hle := le_of_charsIn? hj hi (Nat.le_of_lt h)
    exact List.drop_eq_nil_of_le (by rw [List.length_take]; omega)
  · rfl

/-- A slice is what stands between two boundaries, and empty between other offsets. -/
theorem slice_eq {b : Buffer} (i j : Nat) : b.slice i j = slice b.source i j := by
  unfold Buffer.slice
  split
  · rename_i hle
    unfold slice
    split
    · rename_i front back hsplit
      obtain ⟨hi, hback⟩ := charsIn?_of_splitBytes hsplit
      subst hback
      rw [hi]
      cases hj : charsIn? b.source j with
      | some n => rw [splitBytes_drop_of_charsIn? hi hj hle]; rfl
      | none =>
        cases hrest : Buffer.splitBytes (j - i) (b.source.drop front.length) with
        | none => rfl
        | some parts => rw [charsIn?_of_splitBytes_drop hi hle hrest] at hj; cases hj
    · rename_i hsplit
      cases hi : charsIn? b.source i with
      | none => rfl
      | some m => rw [splitBytes_of_charsIn? hi] at hsplit; cases hsplit
  · rename_i hlt
    exact (slice_of_lt (Nat.lt_of_not_le hlt)).symm

/-- Slices that meet are one. -/
theorem slice_append (hij : i ≤ j) (hjk : j ≤ k) (hi : (charsIn? text i).isSome = true)
    (hj : (charsIn? text j).isSome = true) (hk : (charsIn? text k).isSome = true) :
    slice text i j ++ slice text j k = slice text i k := by
  obtain ⟨a, ha⟩ := Option.isSome_iff_exists.mp hi
  obtain ⟨b, hb⟩ := Option.isSome_iff_exists.mp hj
  obtain ⟨c, hc⟩ := Option.isSome_iff_exists.mp hk
  obtain ⟨p, rfl⟩ := Nat.exists_eq_add_of_le (le_of_charsIn? ha hb hij)
  obtain ⟨q, rfl⟩ := Nat.exists_eq_add_of_le (le_of_charsIn? hb hc hjk)
  simp only [slice, ha, hb, hc, List.drop_take, Nat.add_sub_cancel_left]
  rw [Nat.add_assoc, Nat.add_sub_cancel_left, List.take_add, List.drop_drop]

/-! ## Each operation -/

@[simp] theorem source_buffer (e : Excerpt) : e.buffer.source = e.text := by
  simp [buffer, Buffer.source]

theorem advance_buffer (h : n < text.length) :
    (buffer ⟨text, n⟩).advance = (text[n]?, buffer ⟨text, n + 1⟩) := by
  have hdrop := List.drop_eq_getElem_cons h
  have hbehind : (text.take (n + 1)).reverse = text[n] :: (text.take n).reverse := by
    rw [List.take_succ_eq_append_getElem h, List.reverse_append]
    rfl
  simp only [buffer, Buffer.advance, hdrop, hbehind, List.getElem?_eq_getElem h,
    Place.boundary_step hdrop]

theorem advance_buffer_end (h : text.length ≤ n) :
    (buffer ⟨text, n⟩).advance = (none, buffer ⟨text, n⟩) := by
  simp only [buffer, Buffer.advance, List.drop_eq_nil_of_le h]

theorem skip_buffer (h : n + k ≤ text.length) :
    (buffer ⟨text, n⟩).skip k = buffer ⟨text, n + k⟩ := by
  induction k generalizing n with
  | zero => rfl
  | succ k ih =>
    rw [Buffer.skip, advance_buffer (by omega), ih (by omega), Nat.add_right_comm, Nat.add_assoc]

theorem peek_buffer (k : Nat) : (buffer ⟨text, n⟩).peek k = text[n + k]? := List.getElem?_drop

theorem previous_buffer (h : n ≤ text.length) (k : Nat) :
    (buffer ⟨text, n⟩).previous k = if k ≤ n then text[n - k]? else none := by
  cases k with
  | zero => rw [Buffer.previous, peek_buffer, if_pos (Nat.zero_le n)]; rfl
  | succ k =>
    change (text.take n).reverse[k]? = _
    by_cases hk : k + 1 ≤ n
    · have hlength : (text.take n).length = n := by rw [List.length_take]; omega
      rw [if_pos hk, List.getElem?_reverse (by omega), hlength, List.getElem?_take_of_lt (by omega)]
      congr 1
      omega
    · rw [if_neg hk, List.getElem?_eq_none]
      rw [List.length_reverse, List.length_take]
      omega

/-- Each operation does to the buffer what it does to the text. -/
theorem perform_buffer {e : Excerpt} (h : e.read ≤ e.text.length) (o : Buffer.Operation) :
    e.buffer.perform o = ((e.perform o).1, (e.perform o).2.buffer) := by
  obtain ⟨text, n⟩ := e
  change n ≤ text.length at h
  cases o with
  | advance =>
    rcases Nat.lt_or_eq_of_le h with hlt | rfl
    · simp only [Buffer.perform, perform, advance_buffer hlt, Nat.min_eq_left hlt]
    · simp [Buffer.perform, perform, advance_buffer_end]
  | advanceBy k =>
    have hahead : (buffer ⟨text, n⟩).ahead.length = text.length - n := List.length_drop
    by_cases hk : n + k ≤ text.length
    · simp only [Buffer.perform, perform, Buffer.advanceBy, hahead]
      rw [if_pos (by omega), if_pos hk, skip_buffer hk, peek_buffer, Nat.add_zero]
    · simp only [Buffer.perform, perform, Buffer.advanceBy, hahead]
      rw [if_neg (by omega), if_neg hk]
  | peek k => simp only [Buffer.perform, perform, peek_buffer]
  | previous k => simp only [Buffer.perform, perform, previous_buffer h]
  | slice i j => simp only [Buffer.perform, perform, slice_eq, source_buffer]

theorem perform_text (e : Excerpt) (o : Buffer.Operation) : (e.perform o).2.text = e.text := by
  cases o with
  | advanceBy k => unfold perform; dsimp only; split <;> rfl
  | _ => rfl

theorem perform_read_le {e : Excerpt} (h : e.read ≤ e.text.length) (o : Buffer.Operation) :
    (e.perform o).2.read ≤ (e.perform o).2.text.length := by
  cases o with
  | advance => exact Nat.min_le_right _ _
  | advanceBy k =>
    unfold perform
    dsimp only
    split
    · assumption
    · exact h
  | _ => exact h

/-! ## Runs of operations -/

theorem run_text (e : Excerpt) (operations : List Buffer.Operation) :
    (e.run operations).2.text = e.text := by
  induction operations generalizing e with
  | nil => rfl
  | cons o operations ih => exact (ih _).trans (e.perform_text o)

theorem run_read_le {e : Excerpt} (h : e.read ≤ e.text.length)
    (operations : List Buffer.Operation) :
    (e.run operations).2.read ≤ (e.run operations).2.text.length := by
  induction operations generalizing e with
  | nil => exact h
  | cons o operations ih => exact ih (perform_read_le h o)

theorem run_buffer {e : Excerpt} (h : e.read ≤ e.text.length)
    (operations : List Buffer.Operation) :
    e.buffer.run operations = ((e.run operations).1, (e.run operations).2.buffer) := by
  induction operations generalizing e with
  | nil => rfl
  | cons o operations ih =>
    simp only [Buffer.run, run, perform_buffer h o, ih (perform_read_le h o)]

theorem ofString_eq (source : String) :
    Buffer.ofString source = buffer ⟨source.toList, 0⟩ := by
  simp [Buffer.ofString, buffer, Place.boundary_zero]

theorem run_advance (h : n + k ≤ text.length) :
    (run ⟨text, n⟩ (List.replicate k .advance)).2 = ⟨text, n + k⟩ := by
  induction k generalizing n with
  | zero => rfl
  | succ k ih =>
    have hmin : min (n + 1) text.length = n + 1 := Nat.min_eq_left (by omega)
    rw [List.replicate_succ, run, perform, hmin, ih (by omega), Nat.add_right_comm, Nat.add_assoc]

theorem run_advance_end (k : Nat) :
    run ⟨text, text.length⟩ (List.replicate k .advance) =
      (List.replicate k (.char none), ⟨text, text.length⟩) := by
  induction k with
  | zero => rfl
  | succ k ih => simp [List.replicate_succ, run, perform, ih]

theorem perform_advanceBy_buffer (h : n + k ≤ text.length) :
    (buffer ⟨text, n⟩).perform (.advanceBy k) =
      ((buffer ⟨text, n⟩).run (List.replicate k .advance)).2.perform (.peek 0) := by
  have hn : (Excerpt.mk text n).read ≤ (Excerpt.mk text n).text.length :=
    Nat.le_trans (Nat.le_add_right n k) h
  rw [run_buffer hn, run_advance h, perform_buffer hn, perform_buffer h]
  simp only [perform, if_pos h, Nat.add_zero]

theorem perform_advanceBy_buffer_end (hn : n ≤ text.length) (h : text.length < n + k) :
    (buffer ⟨text, n⟩).perform (.advanceBy k) = (.char none, buffer ⟨text, n⟩) := by
  rw [perform_buffer hn, perform, if_neg (Nat.not_le_of_lt h)]

end Excerpt

/-- Whatever was asked of a buffer, it has answered as its text does, and the characters read tell
where it stands: its offset by their bytes, its line and column by the line ends among them, if
these are not too great to be counted. Neither passes their number by more than one. Advancing by
some is advancing so often, or nothing if so many are not left. At the end nothing moves it any
more, what shows characters ahead or behind never does, and slices that meet are one. -/
theorem Buffer.run_reads (source : String) (operations : List Buffer.Operation) :
    let cs := source.toList
    let b := ((ofString source).run operations).2
    let n := (Excerpt.run ⟨cs, 0⟩ operations).2.read
    ((ofString source).run operations).1 = (Excerpt.run ⟨cs, 0⟩ operations).1 ∧
    n ≤ cs.length ∧
    b.place.offset = byteLength (cs.take n) ∧ b.slice 0 b.place.offset = cs.take n ∧
    (lineAt cs n < UInt32.size → b.place.line.toNat = lineAt cs n) ∧
    (columnAt cs n ≤ UInt32.size → b.place.column.toNat + 1 = columnAt cs n) ∧
    b.place.line.toNat ≤ n + 1 ∧ b.place.column.toNat ≤ n ∧
    (∀ k, n + k ≤ cs.length →
      b.perform (.advanceBy k) = (b.run (List.replicate k .advance)).2.perform (.peek 0)) ∧
    (∀ k, cs.length < n + k → b.perform (.advanceBy k) = (.char none, b)) ∧
    (n = cs.length → ∀ k,
      b.run (List.replicate k .advance) = (List.replicate k (.char none), b)) ∧
    (∀ k, b.perform (.peek k) = (.char cs[n + k]?, b)) ∧
    (∀ k, b.perform (.previous k) = (.char (if k ≤ n then cs[n - k]? else none), b)) ∧
    ∀ i j k, i ≤ j → j ≤ k → k ≤ cs.length →
      let bytes := fun m => byteLength (cs.take m)
      b.slice (bytes i) (bytes j) ++ b.slice (bytes j) (bytes k) =
        b.slice (bytes i) (bytes k) := by
  intro cs b n
  have hstart : (Excerpt.mk cs 0).read ≤ (Excerpt.mk cs 0).text.length := Nat.zero_le _
  have htext : (Excerpt.run ⟨cs, 0⟩ operations).2 = ⟨cs, n⟩ :=
    congrArg (Excerpt.mk · n) (Excerpt.run_text ⟨cs, 0⟩ operations)
  have hn : n ≤ cs.length := by
    have hle := Excerpt.run_read_le hstart operations
    rwa [htext] at hle
  have hrun : (ofString source).run operations =
      ((Excerpt.run ⟨cs, 0⟩ operations).1, Excerpt.buffer ⟨cs, n⟩) := by
    rw [Excerpt.ofString_eq, Excerpt.run_buffer hstart, htext]
  have hb : b = Excerpt.buffer ⟨cs, n⟩ := congrArg Prod.snd hrun
  have hslice (i j : Nat) : b.slice i j = Excerpt.slice cs i j := by
    rw [Excerpt.slice_eq, hb, Excerpt.source_buffer]
  have hzero : Excerpt.charsIn? cs 0 = some 0 := Excerpt.charsIn?_take (Nat.zero_le _)
  have hcolumn := columnAt_pos cs n
  have hplace : b.place = .boundary cs n := congrArg Buffer.place hb
  refine ⟨congrArg Prod.fst hrun, hn, congrArg Place.offset hplace, ?_,
    fun hfit => ?_, fun hfit => ?_, ?_, ?_, fun k hk => ?_, fun k hk => ?_, fun hend k => ?_,
    fun k => ?_, fun k => ?_, fun i j k hij hjk hk => ?_⟩
  · rw [hslice, hplace, Place.boundary, Excerpt.slice, hzero, Excerpt.charsIn?_take hn]
    rfl
  · rw [hplace, Place.boundary, UInt32.toNat_ofNat_of_lt' hfit]
  · rw [hplace, Place.boundary, UInt32.toNat_ofNat_of_lt' (by omega), Nat.sub_add_cancel hcolumn]
  · rw [hplace]
    exact Nat.le_trans (Nat.mod_le _ _) (lineAt_le cs n)
  · rw [hplace]
    exact Nat.le_trans (Nat.mod_le _ _) (Nat.sub_le_of_le_add (columnAt_le cs n))
  · rw [hb]
    exact Excerpt.perform_advanceBy_buffer hk
  · rw [hb]
    exact Excerpt.perform_advanceBy_buffer_end hn hk
  · rw [hb, hend, Excerpt.run_buffer (Nat.le_refl _), Excerpt.run_advance_end]
  · rw [hb, Excerpt.perform_buffer hn]
    rfl
  · rw [hb, Excerpt.perform_buffer hn]
    rfl
  · have hisSome {m : Nat} (hm : m ≤ cs.length) :
        (Excerpt.charsIn? cs (byteLength (cs.take m))).isSome = true := by
      rw [Excerpt.charsIn?_take hm]
      rfl
    simp only [hslice]
    exact Excerpt.slice_append (byteLength_take_le hij) (byteLength_take_le hjk)
      (hisSome (by omega)) (hisSome (by omega)) (hisSome hk)

/-- Two line ends and a character of two bytes are read, and then no five more. -/
example : (Buffer.ofString "\r\né\rb").run [.advanceBy 3, .advanceBy 5, .previous 1, .slice 2 4] =
    ([.char (some '\r'), .char none, .char (some 'é'), .text ['é']],
      Excerpt.buffer ⟨"\r\né\rb".toList, 3⟩) := by
  decide +kernel

section LineFeeds

theorem lineAt_lineFeeds {k n : Nat} (h : n ≤ k) : lineAt (List.replicate k '\n') n = n + 1 := by
  induction n with
  | zero => rfl
  | succ n ih =>
    have hend : EndsLineAt (List.replicate k '\n') n :=
      .inl (List.getElem?_replicate_of_lt h)
    rw [lineAt_succ, if_pos hend, ih (Nat.le_of_succ_le h)]

/-- Behind line feeds a buffer cannot tell its line, if there are too many of them. -/
theorem Buffer.line_ne_of_lineFeeds {k : Nat} (h : k + 1 = UInt32.size) (n : Nat) :
    let cs := List.replicate k '\n'
    let b := ((ofString (String.ofList cs)).run [.advanceBy k]).2
    ¬(n ≤ cs.length ∧ b.place.offset = byteLength (cs.take n) ∧
      b.place.line.toNat = lineAt cs n) := by
  rintro cs b ⟨hn, hoffset, hline⟩
  have hlength : cs.length = k := List.length_replicate
  have hread : (Excerpt.run ⟨cs, 0⟩ [.advanceBy k]).2 = ⟨cs, k⟩ := by
    simp [Excerpt.run, Excerpt.perform, hlength]
  have hb : ((ofString (String.ofList cs)).run [.advanceBy k]).2 = Excerpt.buffer ⟨cs, k⟩ := by
    rw [Excerpt.ofString_eq, String.toList_ofList, Excerpt.run_buffer (Nat.zero_le _), hread]
  have hplace : b.place = .boundary cs k := congrArg Buffer.place hb
  have hlt := b.place.line.toNat_lt_size
  rw [hplace] at hoffset
  obtain rfl : k = n := eq_of_byteLength_take (Nat.le_of_eq hlength.symm) hn hoffset
  rw [lineAt_lineFeeds (Nat.le_refl k)] at hline
  omega

/-- The line behind so many line feeds is one that 32 bits cannot tell. -/
theorem Buffer.reads_of_lineFeeds :
    let cs := List.replicate 4294967295 '\n'
    let b := ((ofString (String.ofList cs)).run [.advanceBy 4294967295]).2
    cs.length < UInt32.size ∧
      ¬∃ n ≤ cs.length, b.place.offset = byteLength (cs.take n) ∧
        b.place.line.toNat = lineAt cs n ∧ b.place.column.toNat + 1 = columnAt cs n := by
  refine ⟨by rw [List.length_replicate]; decide, fun ⟨n, hn, hoffset, hline, _⟩ => ?_⟩
  exact line_ne_of_lineFeeds (k := 4294967295) rfl n ⟨hn, hoffset, hline⟩

end LineFeeds

end FrontEnd
