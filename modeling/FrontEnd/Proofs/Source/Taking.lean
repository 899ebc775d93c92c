import FrontEnd.Source.Buffer

/-!
What a buffer takes. A lexeme moves the place by its bytes, and lexemes one behind the other
move it as they do together. What stands between two boundaries of a buffer is a slice of it.
-/

namespace FrontEnd

def byteLength (cs : List Char) : Nat := (String.ofList cs).utf8ByteSize

@[simp] theorem byteLength_nil : byteLength [] = 0 := rfl

@[simp] theorem byteLength_cons (c : Char) (cs : List Char) :
    byteLength (c :: cs) = c.utf8Size + byteLength cs := by
  unfold byteLength
  rw [← List.singleton_append, String.ofList_append, String.utf8ByteSize_append,
    ← String.singleton_eq_ofList, String.utf8ByteSize_singleton]

@[simp] theorem byteLength_append (cs ds : List Char) :
    byteLength (cs ++ ds) = byteLength cs + byteLength ds := by
  unfold byteLength
  rw [String.ofList_append, String.utf8ByteSize_append]

@[simp] theorem byteLength_toList (s : String) : byteLength s.toList = s.utf8ByteSize := by
  rw [byteLength, String.ofList_toList]

@[simp] theorem byteLength_reverse (cs : List Char) : byteLength cs.reverse = byteLength cs := by
  induction cs with
  | nil => rfl
  | cons c cs ih => simp [ih, Nat.add_comm]

section Boundaries

variable {cs : List Char} {m n : Nat}

theorem byteLength_take_le (h : m ≤ n) : byteLength (cs.take m) ≤ byteLength (cs.take n) := by
  obtain ⟨k, rfl⟩ := Nat.exists_eq_add_of_le h
  rw [List.take_add, byteLength_append]
  exact Nat.le_add_right _ _

theorem length_le_byteLength (cs : List Char) : cs.length ≤ byteLength cs := by
  induction cs with
  | nil => exact Nat.le_refl 0
  | cons c cs ih =>
    have hpos := c.utf8Size_pos
    rw [byteLength_cons, List.length_cons]
    omega

theorem byteLength_take_lt (h : m < n) (hn : n ≤ cs.length) :
    byteLength (cs.take m) < byteLength (cs.take n) := by
  have hle := length_le_byteLength ((cs.drop m).take (n - m))
  rw [List.length_take, List.length_drop] at hle
  obtain ⟨k, rfl⟩ := Nat.exists_eq_add_of_lt h
  rw [Nat.add_assoc, List.take_add, byteLength_append]
  rw [Nat.add_assoc, Nat.add_sub_cancel_left] at hle
  omega

/-- Of the boundaries of a text, the bytes before it tell which one it is. -/
theorem eq_of_byteLength_take (hm : m ≤ cs.length) (hn : n ≤ cs.length)
    (h : byteLength (cs.take m) = byteLength (cs.take n)) : m = n := by
  rcases Nat.lt_trichotomy m n with hlt | heq | hlt
  · exact absurd h (Nat.ne_of_lt (byteLength_take_lt hlt hn))
  · exact heq
  · exact absurd h.symm (Nat.ne_of_lt (byteLength_take_lt hlt hm))

end Boundaries

namespace Place

theorem step_offset (p : Place) (c : Char) (next : Option Char) :
    (p.step c next).offset = p.offset + c.utf8Size := by
  unfold step
  split <;> rfl

theorem after_offset (p : Place) (lexeme rest : List Char) :
    (p.after lexeme rest).offset = p.offset + byteLength lexeme := by
  induction lexeme generalizing p with
  | nil => rfl
  | cons c lexeme ih => rw [after, ih, step_offset, byteLength_cons, Nat.add_assoc]

theorem start_after_offset (lexeme rest : List Char) :
    (start.after lexeme rest).offset = byteLength lexeme := by
  rw [after_offset]
  exact Nat.zero_add _

theorem after_append (p : Place) (front lexeme rest : List Char) :
    p.after (front ++ lexeme) rest = (p.after front (lexeme ++ rest)).after lexeme rest := by
  induction front generalizing p with
  | nil => rfl
  | cons c front ih =>
    have hhead : (front ++ lexeme).head?.or rest.head? =
        front.head?.or (lexeme ++ rest).head? := by
      rw [← List.head?_append, ← List.head?_append, List.append_assoc]
    rw [List.cons_append, after, after, hhead, ih]

end Place

theorem splitBytes_append (front back : List Char) :
    Buffer.splitBytes (byteLength front) (front ++ back) = some (front, back) := by
  induction front with
  | nil => rw [byteLength_nil, List.nil_append, Buffer.splitBytes]
  | cons c front ih =>
    have hpos := c.utf8Size_pos
    obtain ⟨k, hk⟩ := Nat.exists_eq_succ_of_ne_zero
      (show byteLength (c :: front) ≠ 0 by rw [byteLength_cons]; omega)
    have hrest : k + 1 - c.utf8Size = byteLength front := by
      rw [byteLength_cons] at hk
      omega
    have hsize : c.utf8Size ≤ k + 1 := by
      rw [byteLength_cons] at hk
      omega
    rw [hk, List.cons_append, Buffer.splitBytes, if_pos hsize, hrest, ih]
    rfl

namespace Buffer

/-- The buffer behind a lexeme that it has taken, with `rest` ahead. -/
def take (b : Buffer) (lexeme rest : List Char) : Buffer :=
  ⟨lexeme.reverse ++ b.behind, rest, b.place.after lexeme rest⟩

/-- The offset is that of the characters read. -/
def Counts (b : Buffer) : Prop := b.offset = byteLength b.behind

variable {b : Buffer} {lexeme front rest : List Char}

@[simp] theorem ahead_take : (b.take lexeme rest).ahead = rest := rfl

@[simp] theorem behind_take : (b.take lexeme rest).behind = lexeme.reverse ++ b.behind := rfl

@[simp] theorem place_take : (b.take lexeme rest).place = b.place.after lexeme rest := rfl

@[simp] theorem peek_take (n : Nat) : (b.take lexeme rest).peek n = rest[n]? := rfl

theorem offset_take : (b.take lexeme rest).offset = b.offset + byteLength lexeme :=
  Place.after_offset _ _ _

theorem take_take (b : Buffer) (front lexeme rest : List Char) :
    (b.take front (lexeme ++ rest)).take lexeme rest = b.take (front ++ lexeme) rest := by
  simp [take, Place.after_append]

theorem advance_of_ahead {c : Char} (h : b.ahead = c :: rest) :
    b.advance = (some c, b.take [c] rest) := by
  simp [advance, h, take, Place.after]

@[simp] theorem advance_take (b : Buffer) (lexeme rest : List Char) (c : Char) :
    (b.take lexeme (c :: rest)).advance = (some c, b.take (lexeme ++ [c]) rest) := by
  rw [advance_of_ahead rfl]
  exact congrArg (Prod.mk _) (take_take b lexeme [c] rest)

@[simp] theorem advance_take_nil (b : Buffer) (lexeme : List Char) :
    (b.take lexeme []).advance = (none, b.take lexeme []) := rfl

theorem skip_take (b : Buffer) (front lexeme rest : List Char) :
    (b.take front (lexeme ++ rest)).skip lexeme.length = b.take (front ++ lexeme) rest := by
  induction lexeme generalizing front with
  | nil => simp [skip]
  | cons c lexeme ih =>
    rw [List.length_cons, skip, List.cons_append, advance_take, ih, List.append_assoc,
      List.singleton_append]

theorem advanceBy_take (b : Buffer) (front lexeme rest : List Char) :
    ((b.take front (lexeme ++ rest)).advanceBy lexeme.length).2 =
      b.take (front ++ lexeme) rest := by
  simp [advanceBy, skip_take]

theorem Counts.take (h : b.Counts) (lexeme rest : List Char) : (b.take lexeme rest).Counts := by
  unfold Counts at *
  rw [offset_take, behind_take, byteLength_append, byteLength_reverse, h, Nat.add_comm]

theorem counts_ofString (source : String) : (ofString source).Counts := rfl

theorem slice_of_source {back : List Char} (h : b.source = front ++ lexeme ++ back) :
    b.slice (byteLength front) (byteLength front + byteLength lexeme) = lexeme := by
  have hsplit := splitBytes_append front (lexeme ++ back)
  unfold slice
  rw [if_pos (Nat.le_add_right _ _), h, List.append_assoc, hsplit, Nat.add_sub_cancel_left]
  dsimp only
  rw [splitBytes_append]
  rfl

/-- A slice of what was taken. -/
theorem slice_take (h : b.Counts) (front lexeme more rest : List Char) :
    (b.take (front ++ lexeme ++ more) rest).slice (b.offset + byteLength front)
      (b.offset + byteLength front + byteLength lexeme) = lexeme := by
  have hsource : (b.take (front ++ lexeme ++ more) rest).source =
      (b.behind.reverse ++ front) ++ lexeme ++ (more ++ rest) := by
    simp [source]
  have hstart : b.offset + byteLength front = byteLength (b.behind.reverse ++ front) := by
    rw [byteLength_append, byteLength_reverse, h]
  rw [hstart]
  exact slice_of_source hsource

end Buffer

end FrontEnd
