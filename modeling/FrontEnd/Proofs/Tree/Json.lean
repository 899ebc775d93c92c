import FrontEnd.Proofs.Json.Reading
import FrontEnd.Proofs.Tree.Paths
import FrontEnd.Tree.Json

/-!
Trees are told by their JSON text. A layer is read from its parts, subtrees and all, and so is
a tree from the object that is written for it, in either layout.
-/

namespace FrontEnd

@[simp]
theorem Base.ofName?_name (b : Base) : ofName? b.name = some b := by
  cases b <;> rfl

@[simp]
theorem StringForm.ofName?_name (f : StringForm) : ofName? f.name = some f := by
  cases f <;> rfl

@[simp]
theorem ArrayKind.ofName?_name (k : ArrayKind) : ofName? k.name = some k := by
  cases k <;> rfl

@[simp]
theorem BinaryOp.ofName?_name (op : BinaryOp) : ofName? op.name = some op := by
  cases op <;> rfl

@[simp]
theorem UnaryOp.ofName?_name (op : UnaryOp) : ofName? op.name = some op := by
  cases op <;> rfl

section Layers

variable {T : Type} {child : Json → Option T} {write : T → Json}

namespace Json

/-- The subtree is read as it is written, and is not written as an absent one. -/
structure Tells (child : Json → Option T) (write : T → Json) (t : T) : Prop where
  read : child (write t) = some t
  present : write t ≠ .null

def TellsAll (child : Json → Option T) (write : T → Json) (ts : List T) : Prop :=
  ∀ t ∈ ts, Tells child write t

theorem tellsAll_cons {t : T} {ts : List T} :
    TellsAll child write (t :: ts) ↔ Tells child write t ∧ TellsAll child write ts :=
  List.forall_mem_cons

theorem tellsAll_append {ts us : List T} :
    TellsAll child write (ts ++ us) ↔ TellsAll child write ts ∧ TellsAll child write us :=
  List.forall_mem_append

theorem tellsAll_flatMap {α : Type} {f : α → List T} {items : List α} :
    TellsAll child write (items.flatMap f) ↔ ∀ a ∈ items, TellsAll child write (f a) := by
  simp only [TellsAll, List.mem_flatMap]
  exact ⟨fun h a ha t ht => h t ⟨a, ha, ht⟩, fun h t ⟨a, ha, ht⟩ => h a ha t ht⟩

@[simp]
theorem under_cons {α : Type} (key k : String) (j : Json) (fields : List (String × Json))
    (f : Json → Option α) :
    (obj ((k, j) :: fields)).under key f = if k = key then f j else (obj fields).under key f := by
  by_cases hk : k = key
  · simp [under, field?, hk]
  · simp [under, field?, hk]

@[simp]
theorem num?_num (value : Nat) : (num value).num? = some value := rfl

@[simp]
theorem str?_str (value : String) : (str value).str? = some value := rfl

@[simp]
theorem bool?_bool (value : Bool) : (bool value).bool? = some value := rfl

@[simp]
theorem named?_str {α : Type} (f : String → Option α) (text : String) :
    (str text).named? f = f text := rfl

@[simp]
theorem option?_textOrNull (o : Option String) : option? str? (textOrNull o) = some o := by
  cases o <;> rfl

@[simp]
theorem option?_orNull {o : Option T} (h : TellsAll child write o.toList) :
    option? child (orNull (o.map write)) = some o := by
  cases o with
  | none => rfl
  | some t =>
    obtain ⟨hread, hpresent⟩ := h t (by simp)
    change option? child (write t) = _
    rw [option?, hread]
    · rfl
    · exact hpresent

theorem list?_arr {α : Type} {read : Json → Option α} {f : α → Json} {items : List α}
    (h : ∀ a ∈ items, read (f a) = some a) : list? read (.arr (items.map f)) = some items := by
  change (items.map f).mapM read = some items
  induction items with
  | nil => rfl
  | cons a items ih =>
    rw [List.forall_mem_cons] at h
    rw [List.map_cons, List.mapM_cons, h.1, ih h.2]
    rfl

@[simp]
theorem list?_map {items : List T} (h : TellsAll child write items) :
    list? child (.arr (items.map write)) = some items :=
  list?_arr fun t ht => (h t ht).read

end Json

open Json

theorem Param.ofJson?_toJson {p : Param T} (h : Tells child write p.type) :
    ofJson? child (p.map write).toJson = some p := by
  simp [ofJson?, toJson, map, h.read]

theorem Variant.ofJson?_toJson {v : Variant T} (h : TellsAll child write v.value.toList) :
    ofJson? child (v.map write).toJson = some v := by
  simp [ofJson?, toJson, map, h]

theorem MatchItem.ofJson?_toJson {i : MatchItem T} (h : TellsAll child write i.children) :
    ofJson? child (i.map write).toJson = some i := by
  cases i <;> simp only [children, tellsAll_cons] at h <;>
    simp [ofJson?, toJson, map, h, Tells.read]

theorem MatchBranch.ofJson?_toJson {b : MatchBranch T} (h : TellsAll child write b.children) :
    ofJson? child (b.map write).toJson = some b := by
  simp only [children, tellsAll_append, tellsAll_flatMap, tellsAll_cons] at h
  have hitems : list? (MatchItem.ofJson? child)
      (.arr (b.items.map fun i => (i.map write).toJson)) = some b.items :=
    list?_arr fun i hi => MatchItem.ofJson?_toJson (h.1 i hi)
  simp [ofJson?, toJson, map, Function.comp_def, hitems, h.2.1.read]

/-- A layer is read from its name and its parts. -/
theorem Form.ofJson?_parts (token : Nat) {form : Form T}
    (h : TellsAll child write form.children) :
    ofJson? child (.obj (("token", .num token) :: ("node", .str (form.map write).parts.1) ::
      (form.map write).parts.2)) = some form := by
  change ofParts? child _ (form.map write).parts.1 = _
  cases form with
  | prototype name params result isExport isExtern =>
    simp only [children, tellsAll_append, tellsAll_cons] at h
    have hparams : list? (Param.ofJson? child)
        (.arr (params.map fun p => (p.map write).toJson)) = some params :=
      list?_arr fun p hp => Param.ofJson?_toJson (h.1 _ (List.mem_map.mpr ⟨p, hp, rfl⟩))
    simp only [Param.map] at hparams
    simp [map, Param.map, parts, ofParts?, Function.comp_def, hparams, h.2.1.read]
  | enumeration name isExport variants =>
    have hvariants : list? (Variant.ofJson? child)
        (.arr (variants.map fun v => (v.map write).toJson)) = some variants :=
      list?_arr fun v hv => Variant.ofJson?_toJson (tellsAll_flatMap.mp h v hv)
    simp only [Variant.map] at hvariants
    simp [map, Variant.map, parts, ofParts?, Function.comp_def, hvariants]
  | selection subject branches =>
    simp only [children, tellsAll_cons, tellsAll_flatMap] at h
    have hbranches : list? (MatchBranch.ofJson? child)
        (.arr (branches.map fun b => (b.map write).toJson)) = some branches :=
      list?_arr fun b hb => MatchBranch.ofJson?_toJson (h.2 b hb)
    simp only [MatchBranch.map] at hbranches
    simp [map, MatchBranch.map, parts, ofParts?, Function.comp_def, hbranches, h.1.read]
  | _ =>
    simp only [children, tellsAll_append, tellsAll_cons] at h
    simp [map, parts, ofParts?, h, Tells.read]

end Layers

/-! ## Levels -/

section Levels

variable {n : Nat}

namespace Json

/-- The values have at most `n` levels. -/
def Shallow (n : Nat) (js : List Json) : Prop := ∀ j ∈ js, j.depth ≤ n

@[simp]
theorem shallow_nil : Shallow n [] := fun _ hj => absurd hj List.not_mem_nil

@[simp]
theorem shallow_cons {j : Json} {js : List Json} :
    Shallow n (j :: js) ↔ j.depth ≤ n ∧ Shallow n js := List.forall_mem_cons

@[simp]
theorem shallow_append {js ks : List Json} :
    Shallow n (js ++ ks) ↔ Shallow n js ∧ Shallow n ks := List.forall_mem_append

theorem shallow_depthItems (js : List Json) : Shallow (depthItems js) js := by
  induction js with
  | nil => exact shallow_nil
  | cons j js ih =>
    rw [depthItems, shallow_cons]
    exact ⟨Nat.le_max_left .., fun k hk => Nat.le_trans (ih k hk) (Nat.le_max_right ..)⟩

@[simp]
theorem shallow_arr {js : List Json} (h : (arr js).depth ≤ n) : Shallow n js := by
  intro j hj
  rw [depth] at h
  have := shallow_depthItems js j hj
  omega

@[simp]
theorem shallow_orNull {o : Option Json} (h : (orNull o).depth ≤ n) : Shallow n o.toList := by
  cases o with
  | none => exact shallow_nil
  | some j => exact shallow_cons.mpr ⟨h, shallow_nil⟩

theorem shallow_flatMap {α : Type} {f : α → Json} {children : α → List Json} {items : List α}
    (hf : ∀ a n, (f a).depth ≤ n → Shallow n (children a))
    (h : (arr (items.map f)).depth ≤ n) : Shallow n (items.flatMap children) := by
  intro j hj
  obtain ⟨a, ha, hj⟩ := List.mem_flatMap.mp hj
  exact hf a n (shallow_arr h _ (List.mem_map_of_mem ha)) j hj

end Json

open Json

theorem Param.shallow_type {p : Param Json} (h : p.toJson.depth ≤ n) : p.type.depth ≤ n := by
  simp only [toJson, depth, depthFields] at h
  omega

theorem Variant.shallow_value {v : Variant Json} (h : v.toJson.depth ≤ n) :
    Shallow n v.value.toList := by
  refine shallow_orNull ?_
  simp only [toJson, depth, depthFields] at h
  omega

theorem MatchItem.shallow_children {i : MatchItem Json} (h : i.toJson.depth ≤ n) :
    Shallow n i.children := by
  cases i <;> simp only [toJson, depth, depthFields] at h <;> simp [children] <;> omega

theorem MatchBranch.shallow_children {b : MatchBranch Json} (h : b.toJson.depth ≤ n) :
    Shallow n b.children := by
  simp only [toJson, depth, depthFields] at h
  have hitems : Shallow n (b.items.flatMap (·.children)) := by
    refine shallow_flatMap (fun _ _ => MatchItem.shallow_children) ?_
    rw [depth]
    omega
  simp [children, hitems]
  omega

/-- Subtrees have no more levels than the parts of their layer. -/
theorem Form.shallow_children {form : Form Json} (h : depthFields form.parts.2 ≤ n) :
    Shallow n form.children := by
  cases form with
  | prototype name params result isExport isExtern =>
    simp only [parts, depthFields, Nat.max_le] at h
    have hparams : Shallow n (params.map (·.type)) := by
      intro j hj
      obtain ⟨p, hp, rfl⟩ := List.mem_map.mp hj
      exact p.shallow_type (shallow_arr h.2.1 _ (List.mem_map_of_mem hp))
    simp [children, hparams, h]
  | enumeration name isExport variants =>
    simp only [parts, depthFields, Nat.max_le] at h
    exact shallow_flatMap (fun _ _ => Variant.shallow_value) h.2.2.1
  | selection subject branches =>
    simp only [parts, depthFields, Nat.max_le] at h
    have hbranches : Shallow n (branches.flatMap (·.children)) :=
      shallow_flatMap (fun _ _ => MatchBranch.shallow_children) h.2.1
    simp [children, hbranches, h]
  | _ =>
    simp only [parts, depthFields, Nat.max_le] at h
    simp [children, h]

end Levels

namespace Tree

theorem toJson_node (token : Nat) (form : Form Tree) :
    (node token form).toJson = .obj (("token", .num token) ::
      ("node", .str (form.map toJson).parts.1) :: (form.map toJson).parts.2) :=
  fold_node ..

theorem toJson_ne_null (t : Tree) : t.toJson ≠ .null := by
  cases t
  rw [toJson_node]
  nofun

theorem ofJsonWithin_toJson (t : Tree) (n : Nat) (h : t.toJson.depth ≤ n) :
    ofJsonWithin n t.toJson = some t := by
  induction t using induct generalizing n with
  | h token form ih =>
    rw [toJson_node] at h ⊢
    cases n with
    | zero => simp [Json.depth] at h
    | succ n =>
      have hchildren : Json.TellsAll (ofJsonWithin n) toJson form.children := by
        intro t ht
        refine ⟨ih t ht n ?_, t.toJson_ne_null⟩
        have hparts : Json.depthFields (form.map toJson).parts.2 ≤ n := by
          simp only [Json.depth, Json.depthFields] at h
          omega
        refine Form.shallow_children hparts _ ?_
        rw [Form.children_map]
        exact List.mem_map_of_mem ht
      rw [ofJsonWithin, Form.ofJson?_parts token hchildren]
      simp

/-- Every tree, whether or not a parser makes it, is read back from its text in either layout. -/
theorem toJson_lossless (t : Tree) :
    (Json.ofText? t.toJson.compact).bind ofJson? = some t ∧
      (Json.ofText? t.toJson.pretty).bind ofJson? = some t := by
  have hread : ofJson? t.toJson = some t := t.ofJsonWithin_toJson _ (Nat.le_refl _)
  rw [Json.compact, Json.pretty, Json.ofText?_write Json.Layout.blank_compact,
    Json.ofText?_write Json.Layout.blank_pretty, Option.bind_some]
  exact ⟨hread, hread⟩

end Tree

end FrontEnd
