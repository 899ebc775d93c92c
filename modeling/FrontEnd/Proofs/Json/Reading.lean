import Mathlib.Data.List.Basic
import FrontEnd.Json

/-!
JSON values from their text. Blanks may stand around every value, key, comma and colon. What
is written, in a layout that adds only blanks, is read as the value it was written for.
-/

namespace FrontEnd.Json

/-! ## Reading -/

def isBlank (c : Char) : Bool := c = ' ' || c = '\n' || c = '\t' || c = '\r'

def skipBlanks (cs : List Char) : List Char := cs.dropWhile isBlank

def hexValue? (c : Char) : Option Nat :=
  if '0' ≤ c ∧ c ≤ '9' then some (c.toNat - '0'.toNat)
  else if 'a' ≤ c ∧ c ≤ 'f' then some (c.toNat - 'a'.toNat + 10)
  else if 'A' ≤ c ∧ c ≤ 'F' then some (c.toNat - 'A'.toNat + 10)
  else none

/-- The character with the given hexadecimal digits. Halves of a surrogate pair are none. -/
def ofHexDigits? (digits : List Char) : Option Char := do
  let values ← digits.mapM hexValue?
  let n := values.foldl (16 * · + ·) 0
  if n.isValidChar then some (Char.ofNat n) else none

/-- What a letter stands for behind a backslash. -/
def unescape? : Char → Option Char
  | '"' => some '"'
  | '\\' => some '\\'
  | '/' => some '/'
  | 'b' => some '\x08'
  | 't' => some '\t'
  | 'n' => some '\n'
  | 'f' => some '\x0c'
  | 'r' => some '\r'
  | _ => none

def prepend (c : Char) (read : List Char × List Char) : List Char × List Char :=
  (c :: read.1, read.2)

/-- The text up to a quote, and what stands behind the quote. -/
def readText : List Char → Option (List Char × List Char)
  | [] => none
  | '"' :: cs => some ([], cs)
  | '\\' :: 'u' :: a :: b :: c :: d :: cs =>
    (ofHexDigits? [a, b, c, d]).bind fun e => (readText cs).map (prepend e)
  | '\\' :: c :: cs => (unescape? c).bind fun e => (readText cs).map (prepend e)
  | c :: cs => if c.toNat < 32 then none else (readText cs).map (prepend c)

variable {α : Type}

/-- Items with commas between them up to a closing bracket, at most `n` of them. -/
def readItems (item : List Char → Option (α × List Char)) (close : Char) :
    Nat → List Char → Option (List α × List Char)
  | 0, _ => none
  | n + 1, cs => do
    let (a, behind) ← item cs
    match skipBlanks behind with
    | ',' :: cs => do
      let (items, rest) ← readItems item close n cs
      return (a :: items, rest)
    | c :: rest => if c = close then some ([a], rest) else none
    | [] => none

/-- What stands behind an opening bracket. -/
def readEnclosed (item : List Char → Option (α × List Char)) (close : Char) (cs : List Char) :
    Option (List α × List Char) :=
  if (skipBlanks cs).head? = some close then some ([], (skipBlanks cs).tail)
  else readItems item close cs.length cs

/-- A key, a colon and a value. -/
def readField (value : List Char → Option (Json × List Char)) (cs : List Char) :
    Option ((String × Json) × List Char) :=
  match skipBlanks cs with
  | '"' :: cs => do
    let (key, behind) ← readText cs
    match skipBlanks behind with
    | ':' :: cs => do
      let (j, rest) ← value cs
      return ((String.ofList key, j), rest)
    | _ => none
  | _ => none

/-- A value whose text is not behind blanks, over a reader for the values in it. -/
def readStripped (value : List Char → Option (Json × List Char)) :
    List Char → Option (Json × List Char)
  | '[' :: cs => (readEnclosed value ']' cs).map fun (items, rest) => (.arr items, rest)
  | '\x7b' :: cs =>
    (readEnclosed (readField value) '\x7d' cs).map fun (fields, rest) => (.obj fields, rest)
  | '"' :: cs => (readText cs).map fun (text, rest) => (.str (String.ofList text), rest)
  | 'n' :: 'u' :: 'l' :: 'l' :: rest => some (.null, rest)
  | 't' :: 'r' :: 'u' :: 'e' :: rest => some (.bool true, rest)
  | 'f' :: 'a' :: 'l' :: 's' :: 'e' :: rest => some (.bool false, rest)
  | cs =>
    if cs.head?.any Char.isDigit then
      some (.num (Nat.ofDigitChars 10 (cs.takeWhile Char.isDigit) 0), cs.dropWhile Char.isDigit)
    else none

/-- A value of at most `n` levels. -/
def readWithin : Nat → List Char → Option (Json × List Char)
  | 0, _ => none
  | n + 1, cs => readStripped (readWithin n) (skipBlanks cs)

/-- The value that a text holds and nothing else. -/
def ofText? (text : String) : Option Json := do
  let (j, rest) ← readWithin (text.toList.length + 1) text.toList
  if skipBlanks rest = [] then some j else none

/-! ## Texts -/

section Texts

variable {cs rest : List Char} {c : Char}

theorem hexValue?_hexDigit {n : Nat} (h : n < 16) : hexValue? (hexDigit n) = some n := by
  revert n
  decide

theorem ofHexDigits?_control (h : c.toNat < 32) :
    ofHexDigits? ['0', '0', hexDigit (c.toNat / 16), hexDigit (c.toNat % 16)] = some c := by
  have hzero : hexValue? '0' = some 0 := by decide
  have hhigh := hexValue?_hexDigit (n := c.toNat / 16) (by omega)
  have hlow := hexValue?_hexDigit (n := c.toNat % 16) (by omega)
  have hvalue : 16 * (c.toNat / 16) + c.toNat % 16 = c.toNat := Nat.div_add_mod ..
  have hvalid : c.toNat.isValidChar := c.valid
  simp [ofHexDigits?, hzero, hhigh, hlow, hvalue, hvalid]

theorem readText_unescape {e : Char} (h : unescape? c = some e) :
    readText ('\\' :: c :: cs) = (readText cs).map (prepend e) := by
  have hu : c ≠ 'u' := by
    rintro rfl
    cases h
  rw [readText, h]
  · rfl
  · rintro - - - - - rfl
    exact absurd rfl hu

theorem readText_plain (hquote : c ≠ '"') (hescape : c ≠ '\\') (hcontrol : ¬c.toNat < 32) :
    readText (c :: cs) = (readText cs).map (prepend c) := by
  rw [readText, if_neg hcontrol]
  · exact fun h => absurd h hquote
  · exact fun _ _ _ _ _ h => absurd h hescape
  · exact fun _ _ h => absurd h hescape

theorem readText_escape (c : Char) (cs : List Char) :
    readText (escape c ++ cs) = (readText cs).map (prepend c) := by
  unfold escape
  split_ifs with hquote hb ht hn hf hr hcontrol
  · rcases (Bool.or_eq_true _ _).mp hquote with h | h <;> obtain rfl := of_decide_eq_true h
    · exact readText_unescape rfl
    · exact readText_unescape rfl
  · exact hb ▸ readText_unescape rfl
  · exact ht ▸ readText_unescape rfl
  · exact hn ▸ readText_unescape rfl
  · exact hf ▸ readText_unescape rfl
  · exact hr ▸ readText_unescape rfl
  · change readText ('\\' :: 'u' :: '0' :: '0' :: _ :: _ :: cs) = _
    rw [readText, ofHexDigits?_control hcontrol]
    rfl
  · simp only [Bool.or_eq_true, decide_eq_true_eq, not_or] at hquote
    exact readText_plain hquote.1 hquote.2 hcontrol

theorem readText_quoted (text : List Char) :
    readText (text.flatMap escape ++ '"' :: rest) = some (text, rest) := by
  induction text with
  | nil => rfl
  | cons c text ih =>
    rw [List.flatMap_cons, List.append_assoc, readText_escape, ih]
    rfl

end Texts

/-! ## Values -/

/-- Adds blanks only. -/
structure Layout.Blank (l : Layout) : Prop where
  lead : ∀ depth, ∀ c ∈ (l.lead depth).toList, isBlank c = true
  colon : ∃ blanks, l.colon.toList = ':' :: blanks ∧ ∀ c ∈ blanks, isBlank c = true

theorem Layout.blank_compact : Layout.compact.Blank := ⟨by simp [compact], [], rfl, by simp⟩

theorem Layout.blank_pretty : Layout.pretty.Blank := by
  refine ⟨fun depth c hc => ?_, [' '], rfl, by simp [isBlank]⟩
  change c ∈ (String.ofList ('\n' :: List.replicate (2 * depth) ' ')).toList at hc
  rw [String.toList_ofList] at hc
  rcases List.mem_cons.mp hc with rfl | hc
  · rfl
  · rw [(List.mem_replicate.mp hc).2]
    rfl

section Values

variable {item : List Char → Option (α × List Char)} {text cs blanks rest : List Char} {a : α}
  {c close : Char} {l : Layout}

theorem skipBlanks_append (h : ∀ c ∈ blanks, isBlank c = true) :
    skipBlanks (blanks ++ cs) = skipBlanks cs :=
  List.dropWhile_append_of_pos h

theorem skipBlanks_cons (h : isBlank c = false) : skipBlanks (c :: cs) = c :: cs :=
  List.dropWhile_cons_of_neg (by simp [h])

/-- The text is read as the item, blanks before it and whatever does not continue a number
behind it. -/
structure Reads (item : List Char → Option (α × List Char)) (text : List Char) (a : α) :
    Prop where
  head : ∃ c cs, text = c :: cs ∧ isBlank c = false ∧ c ≠ ']' ∧ c ≠ '\x7d'
  read : ∀ {blanks rest : List Char}, (∀ c ∈ blanks, isBlank c = true) →
    (∀ c ∈ rest.head?, c.isDigit = false) → item (blanks ++ (text ++ rest)) = some (a, rest)

/-- What is written between brackets, of items that are written already. -/
def Layout.inner (l : Layout) (depth : Nat) : List (List Char) → List Char
  | [] => []
  | text :: texts =>
    (l.lead (depth + 1)).toList ++ text ++
      texts.flatMap (fun text => ',' :: (l.lead (depth + 1)).toList ++ text) ++
      (l.lead depth).toList

theorem intercalate_comma (text : List Char) (texts : List (List Char)) :
    [','].intercalate (text :: texts) = text ++ texts.flatMap (',' :: ·) := by
  induction texts generalizing text with
  | nil => simp
  | cons other texts ih => simp [ih]

theorem toList_enclose (l : Layout) (depth : Nat) (first last : String) (write : α → String)
    (as : List α) :
    (l.enclose depth first last (as.map write)).toList =
      first.toList ++ (l.inner depth (as.map fun a => (write a).toList) ++ last.toList) := by
  cases as with
  | nil => simp [Layout.enclose, Layout.inner]
  | cons a as =>
    simp only [Layout.enclose, Layout.inner, String.toList_append, String.toList_intercalate,
      List.map_cons, List.map_map]
    change _ ++ [','].intercalate (_ :: _) ++ _ ++ _ = _
    rw [intercalate_comma]
    simp [List.flatMap_map]

theorem length_le_inner {depth : Nat} {texts : List (List Char)} (h : text ∈ texts) :
    text.length ≤ (l.inner depth texts).length := by
  cases texts with
  | nil => cases h
  | cons first texts =>
    rw [Layout.inner]
    simp only [List.length_append]
    rcases List.mem_cons.mp h with rfl | h
    · omega
    · obtain ⟨front, back, rfl⟩ := List.append_of_mem h
      simp only [List.flatMap_append, List.flatMap_cons, List.length_append, List.length_cons]
      omega

theorem length_le_flatMap (texts : α → List Char) (lead : List Char) (as : List α) :
    as.length ≤ (as.flatMap fun a => ',' :: lead ++ texts a).length := by
  induction as with
  | nil => exact Nat.zero_le _
  | cons a as ih =>
    simp only [List.flatMap_cons, List.length_append, List.length_cons] at ih ⊢
    omega

theorem isDigit_of_isBlank (h : isBlank c = true) : c.isDigit = false := by
  simp only [isBlank, Bool.or_eq_true, decide_eq_true_eq] at h
  rcases h with ((rfl | rfl) | rfl) | rfl <;> rfl

/-- What stands behind an item does not continue a number. -/
theorem isDigit_head_tail {tail : List Char} (rest : List Char)
    (htail : ∀ c ∈ tail, isBlank c = true) (hclose : close.isDigit = false) :
    ∀ c ∈ (tail ++ close :: rest).head?, c.isDigit = false := by
  cases tail with
  | nil =>
    rintro c ⟨⟩
    exact hclose
  | cons d tail =>
    rintro c ⟨⟩
    exact isDigit_of_isBlank (htail _ List.mem_cons_self)

theorem readItems_written {texts : α → List Char} {lead tail : List Char} {as : List α}
    {n : Nat} (hread : ∀ b ∈ a :: as, Reads item (texts b) b) (hn : as.length < n)
    (hlead : ∀ c ∈ lead, isBlank c = true) (htail : ∀ c ∈ tail, isBlank c = true)
    (hclose : close = ']' ∨ close = '\x7d') :
    readItems item close n
        (lead ++ (texts a ++ (as.flatMap (fun b => ',' :: lead ++ texts b) ++
          (tail ++ close :: rest)))) = some (a :: as, rest) := by
  have hdigit : close.isDigit = false := by rcases hclose with rfl | rfl <;> rfl
  have hblank : isBlank close = false := by rcases hclose with rfl | rfl <;> rfl
  have hcomma : close ≠ ',' := by rcases hclose with rfl | rfl <;> decide
  obtain ⟨n, rfl⟩ := Nat.exists_eq_add_one_of_ne_zero (Nat.ne_zero_of_lt hn)
  induction as generalizing a n with
  | nil =>
    have hitem := (hread a List.mem_cons_self).read hlead (isDigit_head_tail rest htail hdigit)
    have hskip : skipBlanks (tail ++ close :: rest) = close :: rest := by
      rw [skipBlanks_append htail, skipBlanks_cons hblank]
    rw [readItems, List.flatMap_nil, List.nil_append, hitem]
    simp [hskip]
  | cons b as ih =>
    obtain ⟨m, rfl⟩ := Nat.exists_eq_add_one_of_ne_zero
      (Nat.ne_zero_of_lt (Nat.lt_of_succ_lt_succ hn))
    let behind := as.flatMap (fun b => ',' :: lead ++ texts b) ++ (tail ++ close :: rest)
    have hcomma : ∀ c ∈ (',' :: (lead ++ (texts b ++ behind))).head?, c.isDigit = false := by
      rintro c ⟨⟩
      rfl
    have hitem := (hread a List.mem_cons_self).read hlead hcomma
    have hitems := ih (fun c hc => hread c (List.mem_cons_of_mem _ hc)) m
      (Nat.lt_of_succ_lt_succ hn)
    rw [readItems]
    simp only [List.flatMap_cons, List.cons_append, List.append_assoc, behind] at hitem hitems ⊢
    rw [hitem]
    simp only [Option.bind_eq_bind, Option.bind_some]
    rw [skipBlanks_cons rfl]
    simp only [hitems]
    rfl

theorem readEnclosed_written {texts : α → List Char} {depth : Nat} {as : List α}
    (hl : l.Blank) (hread : ∀ a ∈ as, Reads item (texts a) a)
    (hclose : close = ']' ∨ close = '\x7d') :
    readEnclosed item close (l.inner depth (as.map texts) ++ close :: rest) =
      some (as, rest) := by
  unfold readEnclosed
  cases as with
  | nil =>
    have hblank : isBlank close = false := by rcases hclose with rfl | rfl <;> rfl
    simp [Layout.inner, skipBlanks_cons hblank]
  | cons a as =>
    have htext : l.inner depth ((a :: as).map texts) ++ close :: rest =
        (l.lead (depth + 1)).toList ++ (texts a ++
          (as.flatMap (fun b => ',' :: (l.lead (depth + 1)).toList ++ texts b) ++
            ((l.lead depth).toList ++ close :: rest))) := by
      simp [Layout.inner, List.flatMap_map]
    obtain ⟨c, cs, hc, hblank, hbracket, hbrace⟩ := (hread a List.mem_cons_self).head
    have hne : ¬(skipBlanks (l.inner depth ((a :: as).map texts) ++ close :: rest)).head? =
        some close := by
      rw [htext, skipBlanks_append (hl.lead _), hc, List.cons_append, skipBlanks_cons hblank]
      rintro ⟨⟩
      rcases hclose with rfl | rfl
      · exact hbracket rfl
      · exact hbrace rfl
    rw [if_neg hne, htext]
    refine readItems_written hread ?_ (hl.lead _) (hl.lead _) hclose
    have hle := length_le_flatMap texts (l.lead (depth + 1)).toList as
    simp only [List.length_append, List.length_cons] at hle ⊢
    omega

theorem toList_quote (text : String) :
    (quote text).toList = '"' :: (text.toList.flatMap escape ++ ['"']) := by
  rw [quote, String.toList_ofList, List.cons_append]

theorem readField_written {value : List Char → Option (Json × List Char)} {key : String}
    {j : Json} (hl : l.Blank) (h : Reads value text j) :
    Reads (readField value) ((quote key).toList ++ l.colon.toList ++ text) (key, j) := by
  obtain ⟨spaces, hcolon, hspaces⟩ := hl.colon
  rw [toList_quote, hcolon]
  refine ⟨⟨'"', _, rfl, rfl, by decide, by decide⟩, fun {blanks rest} hblanks hrest => ?_⟩
  have hvalue := h.read hspaces hrest
  unfold readField
  simp only [List.cons_append, List.append_assoc, List.nil_append, skipBlanks_append hblanks,
    skipBlanks_cons (c := '"') rfl, skipBlanks_cons (c := ':') rfl, readText_quoted,
    Option.bind_eq_bind, Option.bind_some, hvalue, String.ofList_toList]
  rfl

end Values

/-! ## Values as they are written -/

theorem induct {P : Json → Prop} (null : P .null) (bool : ∀ value, P (.bool value))
    (num : ∀ value, P (.num value)) (str : ∀ value, P (.str value))
    (arr : ∀ items, (∀ j ∈ items, P j) → P (.arr items))
    (obj : ∀ fields, (∀ f ∈ fields, P f.2) → P (.obj fields)) : ∀ j, P j
  | .null => null
  | .bool value => bool value
  | .num value => num value
  | .str value => str value
  | .arr items => arr items fun j _ => induct null bool num str arr obj j
  | .obj fields => obj fields fun f hf =>
    have : sizeOf f.2 < sizeOf fields :=
      Nat.lt_trans (by cases f; simp only [Prod.mk.sizeOf_spec]; omega)
        (List.sizeOf_lt_of_mem hf)
    induct null bool num str arr obj f.2

section Written

variable (l : Layout) (depth : Nat)

theorem writeItems_eq (items : List Json) :
    writeItems l depth items = items.map (write l depth) := by
  induction items with
  | nil => rfl
  | cons j items ih => rw [writeItems, ih, List.map_cons]

theorem writeFields_eq (fields : List (String × Json)) :
    writeFields l depth fields =
      fields.map fun f => quote f.1 ++ l.colon ++ write l depth f.2 := by
  induction fields with
  | nil => rfl
  | cons f fields ih => rw [writeFields, ih, List.map_cons]

end Written

section Leaves

variable {value : List Char → Option (Json × List Char)} {c : Char} {cs digits rest : List Char}

theorem digits_append (hdigits : ∀ c ∈ digits, c.isDigit = true)
    (hrest : ∀ c ∈ rest.head?, c.isDigit = false) :
    (digits ++ rest).takeWhile Char.isDigit = digits ∧
      (digits ++ rest).dropWhile Char.isDigit = rest := by
  rw [List.takeWhile_append_of_pos hdigits, List.dropWhile_append_of_pos hdigits]
  cases rest with
  | nil => simp
  | cons d rest => simp [hrest d rfl]

theorem digits_head (hne : digits ≠ []) (hdigits : ∀ c ∈ digits, c.isDigit = true) :
    ∃ c cs, digits = c :: cs ∧ isBlank c = false ∧ c ≠ ']' ∧ c ≠ '\x7d' := by
  obtain ⟨c, cs, rfl⟩ := List.exists_cons_of_ne_nil hne
  have hc : c.isDigit = true := hdigits c List.mem_cons_self
  refine ⟨c, cs, rfl, ?_, ?_, ?_⟩
  · rw [← Bool.not_eq_true]
    intro hblank
    rw [isDigit_of_isBlank hblank] at hc
    cases hc
  · rintro rfl
    cases hc
  · rintro rfl
    cases hc

theorem readStripped_digits (hne : digits ≠ []) (hdigits : ∀ c ∈ digits, c.isDigit = true)
    (hrest : ∀ c ∈ rest.head?, c.isDigit = false) :
    readStripped value (digits ++ rest) = some (.num (Nat.ofDigitChars 10 digits 0), rest) := by
  obtain ⟨htake, hdrop⟩ := digits_append hdigits hrest
  obtain ⟨c, cs, rfl⟩ := List.exists_cons_of_ne_nil hne
  have hc : c.isDigit = true := hdigits c List.mem_cons_self
  have hother {d : Char} {back : List Char} (hd : d.isDigit = false)
      (h : c :: cs ++ rest = d :: back) : False := by
    obtain rfl := (List.cons.inj h).1
    exact absurd (hc.symm.trans hd) (by decide)
  rw [readStripped, htake, hdrop, if_pos (by simpa using hc)]
  all_goals exact fun _ => hother rfl

end Leaves

theorem reads_of_stripped {j : Json} {n : Nat} {text : List Char}
    (hhead : ∃ c cs, text = c :: cs ∧ isBlank c = false ∧ c ≠ ']' ∧ c ≠ '\x7d')
    (h : ∀ rest : List Char, (∀ c ∈ rest.head?, c.isDigit = false) →
      readStripped (readWithin n) (text ++ rest) = some (j, rest)) :
    Reads (readWithin (n + 1)) text j := by
  refine ⟨hhead, fun {blanks rest} hblanks hrest => ?_⟩
  obtain ⟨c, cs, rfl, hc, -⟩ := hhead
  rw [readWithin, skipBlanks_append hblanks, List.cons_append, skipBlanks_cons hc]
  exact h rest hrest

theorem length_lt_enclose {l : Layout} {depth n : Nat} {first last : String} {as : List α} {a : α}
    {write : α → String} (ha : a ∈ as) (hfirst : 0 < first.toList.length)
    (hn : (l.enclose depth first last (as.map write)).toList.length ≤ n) :
    (write a).toList.length < n := by
  have hle : (write a).toList.length ≤
      (l.inner depth (as.map fun a => (write a).toList)).length :=
    length_le_inner (List.mem_map.mpr ⟨a, ha, rfl⟩)
  rw [toList_enclose] at hn
  simp only [List.length_append] at hn
  omega

/-- A value is read as it was written, with more levels than its text is long. -/
theorem reads_write {l : Layout} (hl : l.Blank) (j : Json) (depth n : Nat)
    (hn : (write l depth j).toList.length ≤ n) :
    Reads (readWithin (n + 1)) (write l depth j).toList j := by
  induction j using induct generalizing depth n with
  | null =>
    rw [write]
    exact reads_of_stripped ⟨'n', _, rfl, rfl, by decide, by decide⟩ fun rest _ => rfl
  | bool value =>
    cases value
    · rw [write]
      exact reads_of_stripped ⟨'f', _, rfl, rfl, by decide, by decide⟩ fun rest _ => rfl
    · rw [write]
      exact reads_of_stripped ⟨'t', _, rfl, rfl, by decide, by decide⟩ fun rest _ => rfl
  | num value =>
    have htext : (write l depth (.num value)).toList = Nat.toDigits 10 value := by
      rw [write]
      exact Nat.toList_repr
    have hdigits : ∀ c ∈ Nat.toDigits 10 value, c.isDigit = true :=
      fun c => Nat.isDigit_of_mem_toDigits (by decide) (by decide)
    rw [htext]
    refine reads_of_stripped (digits_head Nat.toDigits_ne_nil hdigits) fun rest hrest => ?_
    rw [readStripped_digits Nat.toDigits_ne_nil hdigits hrest,
      Nat.ofDigitChars_toDigits (by decide) (by decide)]
  | str value =>
    rw [write, toList_quote]
    refine reads_of_stripped ⟨'"', _, rfl, rfl, by decide, by decide⟩ fun rest _ => ?_
    rw [List.cons_append, List.append_assoc, readStripped, List.singleton_append, readText_quoted]
    simp
  | arr items ih =>
    rw [write, writeItems_eq] at hn ⊢
    have hitems : ∀ j ∈ items, Reads (readWithin n) (write l (depth + 1) j).toList j := by
      intro j hj
      have hlt := length_lt_enclose hj (by decide) hn
      have hread := ih j hj (depth + 1) (n - 1) (by omega)
      rwa [Nat.sub_add_cancel (by omega)] at hread
    rw [toList_enclose]
    refine reads_of_stripped ⟨'[', _, rfl, rfl, by decide, by decide⟩ fun rest _ => ?_
    change (readEnclosed _ ']' (_ ++ [']'] ++ rest)).map _ = _
    rw [List.append_assoc, List.singleton_append,
      readEnclosed_written hl hitems (.inl rfl)]
    rfl
  | obj fields ih =>
    rw [write, writeFields_eq] at hn ⊢
    have hfields : ∀ f ∈ fields, Reads (readField (readWithin n))
        (quote f.1 ++ l.colon ++ write l (depth + 1) f.2).toList f := by
      intro f hf
      have hlt := length_lt_enclose hf (by decide) hn
      rw [String.toList_append, String.toList_append] at hlt ⊢
      simp only [List.length_append] at hlt
      have hread := ih f hf (depth + 1) (n - 1) (by omega)
      rw [Nat.sub_add_cancel (by omega)] at hread
      exact readField_written hl hread
    rw [toList_enclose]
    refine reads_of_stripped ⟨'\x7b', _, rfl, rfl, by decide, by decide⟩ fun rest _ => ?_
    change (readEnclosed _ '\x7d' (_ ++ ['\x7d'] ++ rest)).map _ = _
    rw [List.append_assoc, List.singleton_append,
      readEnclosed_written hl hfields (.inr rfl)]
    rfl

theorem ofText?_write {l : Layout} (hl : l.Blank) (j : Json) :
    ofText? (write l 0 j) = some j := by
  have hread : readWithin _ ([] ++ ((write l 0 j).toList ++ [])) = some (j, []) :=
    (reads_write hl j 0 _ (Nat.le_refl _)).read (by simp) (by simp)
  rw [List.nil_append, List.append_nil] at hread
  rw [ofText?, hread]
  rfl

end FrontEnd.Json
