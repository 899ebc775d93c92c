import FrontEnd.Proofs.Lexer.Starts

/-!
Quoted literals by their units. A unit is a backslash with the character behind it, or any
other single character, and a literal ends at the first boundary between its units at which
the closing mark stands. Every token that starts with a quote is what this tells.
-/

namespace FrontEnd

namespace Literal

/-- A backslash with the character behind it, or any other character. -/
inductive IsUnit : List Char → Prop where
  | escape (c : Char) : IsUnit ['\\', c]
  | plain {c : Char} (h : c ≠ '\\') : IsUnit [c]

/-- These are units of a text that goes on with `rest`. None of them is a stop, and the mark
stands in front of none of them. -/
structure Leads (mark stops : List Char) (units : List (List Char)) (rest : List Char) : Prop where
  isUnit : ∀ u ∈ units, IsUnit u
  runs : ∀ c ∈ stops, [c] ∉ units
  first : ∀ front back, units = front ++ back → back ≠ [] → ¬mark <+: back.flatten ++ rest

/-- The text of the units up to the first boundary at which the mark stands, and what follows
the mark. -/
def Closes (mark stops cs text rest : List Char) : Prop :=
  ∃ units, Leads mark stops units (mark ++ rest) ∧ text = units.flatten ∧
    cs = text ++ mark ++ rest

/-- The end of the text comes before the mark, or a stop does. -/
def Unclosed (mark stops cs : List Char) : Prop :=
  ∃ units rest, Leads mark stops units rest ∧ cs = units.flatten ++ rest ∧ ¬mark <+: rest ∧
    (rest = [] ∨ rest = ['\\'] ∨ ∃ c more, c ∈ stops ∧ rest = c :: more)

/-- What a text begins with whose first character is a quote. -/
inductive Quoted : List Char → Lead → Prop where
  | triple {cs text rest : List Char} (h : Closes ['"', '"', '"'] [] cs text rest) :
    Quoted ('"' :: '"' :: '"' :: cs) (.token .tripleString text rest)
  | openTriple {cs : List Char} (h : Unclosed ['"', '"', '"'] [] cs) :
    Quoted ('"' :: '"' :: '"' :: cs) (.fault .unterminatedString)
  | emptyString {cs : List Char} (hq : ∀ c ∈ cs.head?, c ≠ '"') :
    Quoted ('"' :: '"' :: cs) (.token .string [] cs)
  | string {cs text rest : List Char} (hq : ∀ c ∈ cs.head?, c ≠ '"')
    (h : Closes ['"'] [] cs text rest) : Quoted ('"' :: cs) (.token .string text rest)
  | openString {cs : List Char} (hq : ∀ c ∈ cs.head?, c ≠ '"') (h : Unclosed ['"'] [] cs) :
    Quoted ('"' :: cs) (.fault .unterminatedString)
  | rawString {text rest : List Char} (h : '`' ∉ text) :
    Quoted ('`' :: (text ++ '`' :: rest)) (.token .rawString text rest)
  | openRaw {cs : List Char} (h : '`' ∉ cs) : Quoted ('`' :: cs) (.fault .unterminatedRawString)
  | emptyRune {cs : List Char} : Quoted ('\'' :: '\'' :: cs) (.fault .emptyRune)
  | rune {cs text rest : List Char} (hq : ∀ c ∈ cs.head?, c ≠ '\'')
    (h : Closes ['\''] ['\n', '\r'] cs text rest) : Quoted ('\'' :: cs) (.token .rune text rest)
  | openRune {cs : List Char} (hq : ∀ c ∈ cs.head?, c ≠ '\'')
    (h : Unclosed ['\''] ['\n', '\r'] cs) : Quoted ('\'' :: cs) (.fault .unterminatedRune)

/-! ## Units -/

section Units

variable {mark stops cs text rest : List Char} {u : List Char} {units : List (List Char)}

theorem leads_nil : Leads mark stops [] rest where
  isUnit := List.forall_mem_nil _
  runs _ _ := List.not_mem_nil
  first _ _ h hne := absurd (List.nil_eq_append_iff.mp h).2 hne

theorem leads_cons : Leads mark stops (u :: units) rest ↔
    IsUnit u ∧ (∀ c ∈ stops, u ≠ [c]) ∧ ¬mark <+: u ++ units.flatten ++ rest ∧
      Leads mark stops units rest := by
  constructor
  · intro h
    refine ⟨h.isUnit u List.mem_cons_self, fun c hc he => h.runs c hc (he ▸ List.mem_cons_self),
      h.first [] (u :: units) rfl (List.cons_ne_nil _ _), ?_⟩
    exact ⟨fun v hv => h.isUnit v (List.mem_cons_of_mem _ hv),
      fun c hc hmem => h.runs c hc (List.mem_cons_of_mem _ hmem),
      fun front back he => h.first (u :: front) back (by rw [he, List.cons_append])⟩
  · rintro ⟨hu, hstops, hmark, h⟩
    refine ⟨List.forall_mem_cons.mpr ⟨hu, h.isUnit⟩, fun c hc hmem => ?_, fun front back he => ?_⟩
    · rcases List.mem_cons.mp hmem with he | hmem
      · exact hstops c hc he.symm
      · exact h.runs c hc hmem
    · cases front with
      | nil =>
        intro _
        rw [show back = u :: units from he.symm]
        exact hmark
      | cons v front => exact h.first front back (List.cons.inj he).2

/-- A text closed at once. -/
theorem closes_mark (mark stops rest : List Char) : Closes mark stops (mark ++ rest) [] rest :=
  ⟨[], leads_nil, rfl, rfl⟩

/-- One unit more, with no mark in front of it. -/
theorem Closes.cons (h : Closes mark stops cs text rest) (hu : IsUnit u)
    (hstops : ∀ c ∈ stops, u ≠ [c]) (hmark : ¬mark <+: u ++ cs) :
    Closes mark stops (u ++ cs) (u ++ text) rest := by
  obtain ⟨units, hunits, rfl, rfl⟩ := h
  exact ⟨u :: units, leads_cons.mpr ⟨hu, hstops, by simpa using hmark, hunits⟩, rfl, by simp⟩

theorem Unclosed.cons (h : Unclosed mark stops cs) (hu : IsUnit u)
    (hstops : ∀ c ∈ stops, u ≠ [c]) (hmark : ¬mark <+: u ++ cs) :
    Unclosed mark stops (u ++ cs) := by
  obtain ⟨units, rest, hunits, rfl, hrest⟩ := h
  exact ⟨u :: units, rest, leads_cons.mpr ⟨hu, hstops, by simpa using hmark, hunits⟩, by simp,
    hrest⟩

end Units

/-! ## What the units are read as -/

section Reading

variable {q : Closing} {stops cs text rest taken : List Char} {u : List Char}
  {units : List (List Char)} (he : q.escapes = true)
  (hstops : ∀ c, (q.oneLine && isLineEnd c) = true ↔ c ∈ stops)

theorem cut_of_behind {front : List Char} {e : Enclosed}
    (h : e.behind front = .cut taken rest) : ∃ more, e = .cut more rest := by
  cases e with
  | closed => cases h
  | cut more back =>
    cases h
    exact ⟨more, rfl⟩

include he hstops

/-- A unit that is no stop and has no mark in front of it is read as it is. -/
theorem read_unit (hu : IsUnit u) (hstop : ∀ c ∈ stops, u ≠ [c]) (hmark : ¬q.mark <+: u ++ cs) :
    q.read (u ++ cs) = (q.read cs).behind u := by
  cases hu with
  | escape c =>
    rw [Closing.read.eq_def]
    simp [List.isPrefixOf_iff_prefix, show ¬q.mark <+: '\\' :: c :: cs from hmark, he]
  | plain hc =>
    rename_i c
    have hnone : ¬(q.oneLine && isLineEnd c) = true := fun h => hstop c ((hstops c).mp h) rfl
    rw [Closing.read.eq_def]
    simp [List.isPrefixOf_iff_prefix, show ¬q.mark <+: c :: cs from hmark, hc, hnone]

theorem read_units (h : Leads q.mark stops units rest) :
    q.read (units.flatten ++ rest) = (q.read rest).behind units.flatten := by
  induction units with
  | nil =>
    rw [List.flatten_nil, List.nil_append]
    cases q.read rest <;> rfl
  | cons u units ih =>
    obtain ⟨hu, hstop, hmark, htail⟩ := leads_cons.mp h
    rw [List.append_assoc] at hmark
    rw [List.flatten_cons, List.append_assoc, read_unit he hstops hu hstop hmark, ih htail]
    cases q.read rest <;> simp [Enclosed.behind]

theorem read_of_closes (hm : q.mark ≠ []) (h : Closes q.mark stops cs text rest) :
    q.read cs = .closed text rest := by
  obtain ⟨units, hunits, rfl, rfl⟩ := h
  rw [List.append_assoc, read_units he hstops hunits,
    Closing.read_of_prefix (List.prefix_append _ _) hm, List.drop_left, Enclosed.behind,
    List.append_nil]

theorem read_of_unclosed (h : Unclosed q.mark stops cs) :
    ∃ taken rest, q.read cs = .cut taken rest := by
  obtain ⟨units, rest, hunits, rfl, hmark, hrest⟩ := h
  suffices h : ∃ taken back, q.read rest = .cut taken back by
    obtain ⟨taken, back, hread⟩ := h
    exact ⟨_, _, by rw [read_units he hstops hunits, hread]; rfl⟩
  rcases hrest with rfl | rfl | ⟨c, more, hc, rfl⟩
  · exact ⟨_, _, rfl⟩
  · rw [Closing.read.eq_def]
    simp [List.isPrefixOf_iff_prefix, hmark, he]
  · have hline := (hstops c).mpr hc
    have hc : c ≠ '\\' := by
      rintro rfl
      simp [isLineEnd] at hline
    rw [Closing.read.eq_def]
    simp [List.isPrefixOf_iff_prefix, hmark, hc, hline]

theorem closes_of_read (h : q.read cs = .closed text rest) : Closes q.mark stops cs text rest := by
  fun_induction Closing.read q cs generalizing text with
  | case1 => cases h
  | case2 c cs hp =>
    obtain ⟨more, hmore⟩ := List.isPrefixOf_iff_prefix.mp hp
    rw [← hmore, List.drop_left] at h
    cases h
    rw [← hmore]
    exact closes_mark _ _ _
  | case3 => cases h
  | case4 c hc d ds hp ih =>
    obtain ⟨more, hmore, rfl⟩ := Closing.closed_of_behind h
    obtain rfl : c = '\\' := by simpa [he] using hc
    exact (ih hmore).cons (.escape d) (by simp) (by simpa [List.isPrefixOf_iff_prefix] using hp)
  | case5 => cases h
  | case6 c cs hp hc hl ih =>
    obtain ⟨more, hmore, rfl⟩ := Closing.closed_of_behind h
    refine (ih hmore).cons (.plain (by simpa [he] using hc)) ?_
      (by simpa [List.isPrefixOf_iff_prefix] using hp)
    rintro d hd ⟨⟩
    exact hl ((hstops c).mpr hd)

theorem unclosed_of_read (hm : q.mark ≠ []) (h : q.read cs = .cut taken rest) :
    Unclosed q.mark stops cs := by
  fun_induction Closing.read q cs generalizing taken with
  | case1 => exact ⟨[], [], leads_nil, rfl, by simpa using hm, .inl rfl⟩
  | case2 => cases h
  | case3 c hc hp =>
    obtain rfl : c = '\\' := by simpa [he] using hc
    exact ⟨[], _, leads_nil, rfl, by simpa [List.isPrefixOf_iff_prefix] using hp, .inr (.inl rfl)⟩
  | case4 c hc d ds hp ih =>
    obtain rfl : c = '\\' := by simpa [he] using hc
    obtain ⟨more, hmore⟩ := cut_of_behind h
    exact (ih hmore).cons (.escape d) (by simp) (by simpa [List.isPrefixOf_iff_prefix] using hp)
  | case5 c cs hp hc hl =>
    exact ⟨[], _, leads_nil, rfl, by simpa [List.isPrefixOf_iff_prefix] using hp,
      .inr (.inr ⟨c, cs, (hstops c).mp hl, rfl⟩)⟩
  | case6 c cs hp hc hl ih =>
    obtain ⟨more, hmore⟩ := cut_of_behind h
    refine (ih hmore).cons (.plain (by simpa [he] using hc)) ?_
      (by simpa [List.isPrefixOf_iff_prefix] using hp)
    rintro d hd ⟨⟩
    exact hl ((hstops c).mpr hd)

/-- A literal is closed behind its units, or it is cut off and there is a fault. -/
theorem lead_literal (hm : q.mark ≠ []) {kind : TokenKind} {unclosed : LexicalError}
    {opening : List Char} {lead : Lead} :
    (q.literal kind unclosed opening cs).lead? = some lead ↔
      (∃ text rest, Closes q.mark stops cs text rest ∧ lead = .token kind text rest) ∨
        (Unclosed q.mark stops cs ∧ lead = .fault unclosed) := by
  unfold Closing.literal
  constructor
  · split
    · rename_i text rest hr
      rintro ⟨⟩
      exact .inl ⟨text, rest, closes_of_read he hstops hr, rfl⟩
    · rename_i taken rest hr
      rintro ⟨⟩
      exact .inr ⟨unclosed_of_read he hstops hm hr, rfl⟩
  · rintro (⟨text, rest, h, rfl⟩ | ⟨h, rfl⟩)
    · rw [read_of_closes he hstops hm h]
      rfl
    · obtain ⟨taken, rest, hr⟩ := read_of_unclosed he hstops h
      rw [hr]
      rfl

end Reading

/-! ## Quotes -/

section Quotes

variable {cs : List Char} {lead : Lead}

theorem lead_string {kind : TokenKind} {unclosed : LexicalError} {opening : List Char}
    {q : Closing} (hq : q = .ofString ∨ q = .ofTriple) :
    (q.literal kind unclosed opening cs).lead? = some lead ↔
      (∃ text rest, Closes q.mark [] cs text rest ∧ lead = .token kind text rest) ∨
        (Unclosed q.mark [] cs ∧ lead = .fault unclosed) := by
  rcases hq with rfl | rfl <;>
    exact lead_literal rfl (by simp [Closing.ofString, Closing.ofTriple]) (by decide)

theorem read_empty (cs : List Char) : Closing.ofString.read ('"' :: cs) = .closed [] cs :=
  Closing.read_of_prefix (q := .ofString) ⟨cs, rfl⟩ (by decide)

theorem quotedString_iff : Quoted ('"' :: cs) lead ↔ (quotedString cs).lead? = some lead := by
  unfold quotedString
  by_cases htriple : ['"', '"'] <+: cs
  · obtain ⟨cs, rfl⟩ := htriple
    rw [if_pos (List.isPrefixOf_iff_prefix.mpr (List.prefix_append _ _)), lead_string (.inr rfl)]
    constructor
    · intro h
      cases h with
      | triple h => exact .inl ⟨_, _, h, rfl⟩
      | openTriple h => exact .inr ⟨h, rfl⟩
      | emptyString hq => exact absurd rfl (hq '"' rfl)
      | string hq | openString hq => exact absurd rfl (hq '"' rfl)
    · rintro (⟨text, rest, h, rfl⟩ | ⟨h, rfl⟩)
      · exact .triple h
      · exact .openTriple h
  · rw [if_neg (by rwa [List.isPrefixOf_iff_prefix])]
    by_cases hempty : cs.head? = some '"'
    · obtain ⟨cs, rfl⟩ := List.head?_eq_some_iff.mp hempty
      rw [Closing.literal, read_empty]
      constructor
      · intro h
        cases h with
        | triple h | openTriple h => exact absurd ⟨_, rfl⟩ htriple
        | emptyString hq => rfl
        | string hq | openString hq => exact absurd rfl (hq '"' rfl)
      · rintro ⟨⟩
        refine .emptyString fun c hc => ?_
        rintro rfl
        obtain ⟨ds, rfl⟩ := List.head?_eq_some_iff.mp hc
        exact htriple ⟨ds, rfl⟩
    · have hq : ∀ c ∈ cs.head?, c ≠ '"' := by
        rintro c hc rfl
        exact hempty hc
      rw [lead_string (.inl rfl)]
      constructor
      · intro h
        cases h with
        | triple h | openTriple h => exact absurd rfl hempty
        | emptyString => exact absurd rfl hempty
        | string _ h => exact .inl ⟨_, _, h, rfl⟩
        | openString _ h => exact .inr ⟨h, rfl⟩
      · rintro (⟨text, rest, h, rfl⟩ | ⟨h, rfl⟩)
        · exact .string hq h
        · exact .openString hq h

theorem read_raw {text : List Char} (h : '`' ∉ text) (rest : List Char) :
    Closing.ofRaw.read (text ++ '`' :: rest) = .closed text rest := by
  induction text with
  | nil => exact Closing.read_of_prefix (q := .ofRaw) ⟨rest, rfl⟩ (by decide)
  | cons c text ih =>
    obtain ⟨hc, htext⟩ := not_or.mp (mt List.mem_cons.mpr h)
    rw [List.cons_append, Closing.read_cons rfl rfl, if_neg (by simp [Closing.ofRaw, hc]), ih htext]
    rfl

theorem read_raw_open (h : '`' ∉ cs) : ∃ taken rest, Closing.ofRaw.read cs = .cut taken rest := by
  induction cs with
  | nil => exact ⟨_, _, rfl⟩
  | cons c cs ih =>
    obtain ⟨hc, hcs⟩ := not_or.mp (mt List.mem_cons.mpr h)
    obtain ⟨taken, rest, hr⟩ := ih hcs
    rw [Closing.read_cons rfl rfl, if_neg (by simp [Closing.ofRaw, hc]), hr]
    exact ⟨_, _, rfl⟩

theorem rawString_iff : Quoted ('`' :: cs) lead ↔ (rawString cs).lead? = some lead := by
  unfold rawString Closing.literal
  constructor
  · intro h
    cases h with
    | rawString h =>
      rw [read_raw h]
      rfl
    | openRaw h =>
      obtain ⟨taken, rest, hr⟩ := read_raw_open h
      rw [hr]
      rfl
  · intro h
    by_cases hmem : '`' ∈ cs
    · obtain ⟨text, rest, rfl, htext⟩ := List.eq_append_cons_of_mem hmem
      rw [read_raw htext] at h
      cases h
      exact .rawString htext
    · obtain ⟨taken, rest, hr⟩ := read_raw_open hmem
      rw [hr] at h
      cases h
      exact .openRaw hmem

theorem rune_iff : Quoted ('\'' :: cs) lead ↔ (rune cs).lead? = some lead := by
  by_cases hempty : cs.head? = some '\''
  · obtain ⟨cs, rfl⟩ := List.head?_eq_some_iff.mp hempty
    constructor
    · intro h
      cases h with
      | emptyRune => rfl
      | rune hq | openRune hq => exact absurd rfl (hq '\'' rfl)
    · rintro ⟨⟩
      exact .emptyRune
  · have hq : ∀ c ∈ cs.head?, c ≠ '\'' := by
      rintro c hc rfl
      exact hempty hc
    rw [rune_of_head hempty, lead_literal rfl
      (show ∀ c, (true && isLineEnd c) = true ↔ c ∈ ['\n', '\r'] by simp [isLineEnd]) (by decide)]
    constructor
    · intro h
      cases h with
      | emptyRune => exact absurd rfl hempty
      | rune _ h => exact .inl ⟨_, _, h, rfl⟩
      | openRune _ h => exact .inr ⟨h, rfl⟩
    · rintro (⟨text, rest, h, rfl⟩ | ⟨h, rfl⟩)
      · exact .rune hq h
      · exact .openRune hq h

theorem quoted_iff {c : Char} (hc : c = '"' ∨ c = '`' ∨ c = '\'') :
    Quoted (c :: cs) lead ↔ (Piece.first c cs).lead? = some lead := by
  rcases hc with rfl | rfl | rfl
  · exact quotedString_iff
  · exact rawString_iff
  · exact rune_iff

end Quotes

end Literal

/-- Every token that starts with a quote is what the units behind it tell, and they tell one
thing. -/
theorem lex_quoted {source fileName : String} {t : Token} {n : Nat} {c : Char} {cs : List Char}
    (ht : t ∈ (lex source fileName).body) (hat : t.IsAt source fileName n)
    (htext : source.toList.drop n = c :: cs) (hc : c = '"' ∨ c = '`' ∨ c = '\'') :
    ∃ lead, (∀ other, Literal.Quoted (c :: cs) other ↔ other = lead) ∧
      t.IsLead source fileName lead := by
  obtain ⟨lead, hlead, his⟩ := Token.isLead ht hat htext
  refine ⟨lead, fun other => ?_, his⟩
  rw [Literal.quoted_iff hc, hlead, Option.some.injEq, eq_comm]

theorem lex_quoted_of_triple :
    let source := "\n\"\"\"\\\"\" \"\"\"x"
    let t : Token := ⟨.tripleString, "\\\"\" ", 1, ⟨2, 1, "a.hz"⟩⟩
    let lead := Lead.token .tripleString "\\\"\" ".toList ['x']
    t ∈ (lex source "a.hz").body ∧
      (∀ other, Literal.Quoted "\"\"\"\\\"\" \"\"\"x".toList other ↔ other = lead) ∧
      t.IsLead source "a.hz" lead := by
  intro source t lead
  have ht : t ∈ (lex source "a.hz").body := by decide +kernel
  have htext : source.toList.drop 1 = '"' :: "\"\"\\\"\" \"\"\"x".toList := by decide +kernel
  have hat : t.IsAt source "a.hz" 1 := by
    unfold Token.IsAt
    decide +kernel
  obtain ⟨found, hfound, his⟩ := lex_quoted ht hat htext (.inl rfl)
  have hread : (Piece.first '"' "\"\"\\\"\" \"\"\"x".toList).lead? = some lead := by decide +kernel
  obtain rfl : lead = found := (hfound lead).mp ((Literal.quoted_iff (.inl rfl)).mpr hread)
  exact ⟨ht, hfound, his⟩

end FrontEnd
