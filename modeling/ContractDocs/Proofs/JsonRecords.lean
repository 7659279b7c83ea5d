import ContractDocs.Node.Decode
import Mathlib.Data.List.Nodup

/-! Records in JSON by the values of their fields. An object and an array with the same values
are the same record. -/

namespace ContractDocs

namespace Json

/-- The members of an object with these values, in any order and among others. A field without
a value is left out or `null`. -/
structure HasFields (members : List (String × Json)) (fields : List (String × Option Json)) :
    Prop where
  nodup : (members.map (·.1)).Nodup
  given : ∀ f ∈ fields, ∀ v ∈ f.2, (f.1, v) ∈ members
  absent : ∀ f ∈ fields, f.2 = none → ∀ m ∈ members, m.1 = f.1 → m.2 = null

/-- The two forms of a record with these values. -/
inductive IsRecord (fields : List (String × Option Json)) : Json → Prop where
  | object {members : List (String × Json)} :
      HasFields members fields → IsRecord fields (object members)
  | array : IsRecord fields (array (fields.map (·.2.getD null)))

inductive IsArray {α : Type} (Encodes : Json → α → Prop) : Json → List α → Prop where
  | items {vs : List Json} {xs : List α} :
      List.Forall₂ Encodes vs xs → IsArray Encodes (array vs) xs

/-- A value, where `null` is none. -/
def nonNull (v : Option Json) : Option Json :=
  v.filter (!·.isNull)

/-- The values of the fields of a record by their names. -/
def values? {κ : Type} (layout : List (Field κ)) (v : Json) : Option (String → Option Json) :=
  (open? layout v).map fun field name => nonNull ((field name).map (·.val))

/-- Decodes an array item by item. -/
def items? {α : Type} (decode : Json → Option α) : Json → Option (List α)
  | array items => items.mapM decode
  | _ => none

theorem optional?_eq {α : Type} {v : Json} {decode : Part v → Option α}
    (plain : Json → Option α) (h : ∀ p, decode p = plain p.val) (p : Option (Part v)) :
    optional? decode p = (nonNull (p.map (·.val))).mapM plain := by
  match p with
  | none => rfl
  | some ⟨w, hw⟩ =>
    have hplain := h ⟨w, hw⟩
    cases w with
    | null => rfl
    | _ => exact congrArg (Option.map some) hplain

theorem list?_eq {α : Type} {v : Json} {decode : Part v → Option α} (plain : Json → Option α)
    (h : ∀ p, decode p = plain p.val) (p : Part v) : list? decode p = items? plain p.val := by
  match p with
  | ⟨array items, hw⟩ =>
    have hmap := List.mapM_map (m := Option) (f := Subtype.val) (g := plain) (l := items.attach)
    rw [List.attach_map_subtype_val] at hmap
    rw [items?, hmap]
    simp only [list?, h]
    rfl
  | ⟨null, _⟩ => rfl
  | ⟨bool _, _⟩ => rfl
  | ⟨int _, _⟩ => rfl
  | ⟨double _, _⟩ => rfl
  | ⟨string _, _⟩ => rfl
  | ⟨object _, _⟩ => rfl

theorem memberAt?_val (members : List (String × Json)) (key : String) :
    (memberAt? members key).map (·.val) = (members.find? (·.1 == key)).map (·.2) := by
  unfold memberAt?
  split
  · simp [*]
  · simp [*]

theorem itemAt?_val (items : List Json) (i : Nat) : (itemAt? items i).map (·.val) = items[i]? := by
  unfold itemAt?
  split
  · simp [*]
  · simp_all

@[simp] theorem nonNull_getD (v : Option Json) : nonNull (some (v.getD null)) = nonNull v := by
  cases v <;> rfl

namespace HasFields

variable {members : List (String × Json)} {fields : List (String × Option Json)}
  (h : HasFields members fields)

include h

theorem filter_eq {name : String} {v : Json} (hv : (name, v) ∈ members) :
    members.filter (·.1 == name) = [(name, v)] := by
  have hnodup := h.nodup
  clear h
  induction members with
  | nil => cases hv
  | cons m members ih =>
    rw [List.map_cons, List.nodup_cons] at hnodup
    by_cases hm : m.1 = name
    · have hnot (w : Json) : (name, w) ∉ members := fun hmem =>
        hnodup.1 (List.mem_map.mpr ⟨_, hmem, hm.symm⟩)
      obtain rfl : (name, v) = m := (List.mem_cons.mp hv).resolve_right (hnot v)
      have hrest : members.filter (·.1 == name) = [] := by
        refine List.filter_eq_nil_iff.mpr fun m hmem heq => ?_
        obtain rfl := beq_iff_eq.mp heq
        exact hnot m.2 hmem
      simp [hrest]
    · have hmem : (name, v) ∈ members :=
        (List.mem_cons.mp hv).resolve_left fun heq => hm (congrArg Prod.fst heq).symm
      rw [List.filter_cons_of_neg (by simpa using hm)]
      exact ih hmem hnodup.2

theorem find?_eq {name : String} {v : Json} (hv : (name, v) ∈ members) :
    members.find? (·.1 == name) = some (name, v) := by
  rw [← List.head?_filter, h.filter_eq hv]
  rfl

theorem nonNull_find? {name : String} {value : Option Json} (hvalue : (name, value) ∈ fields) :
    nonNull ((members.find? (·.1 == name)).map (·.2)) = nonNull value := by
  cases value with
  | some v => rw [h.find?_eq (h.given _ hvalue v rfl)]; rfl
  | none =>
    cases hfind : members.find? (·.1 == name) with
    | none => rfl
    | some m =>
      have hname : m.1 = name := by simpa using List.find?_some hfind
      have hnull := h.absent _ hvalue rfl m (List.mem_of_find?_eq_some hfind) hname
      rw [Option.map_some, hnull]
      rfl

theorem countP_le_one (name : String) : members.countP (·.1 == name) ≤ 1 := by
  have hcount := List.nodup_iff_count_le_one.mp h.nodup name
  rwa [List.count, List.countP_map] at hcount

end HasFields

/-- A layout for records with these fields. -/
structure Fits {κ : Type} (layout : List (Field κ)) (fields : List (String × Option Json)) :
    Prop where
  names : fields.map (·.1) = layout.map (·.name)
  nodup : (layout.map (·.name)).Nodup
  optional : ∀ f ∈ layout, f.presence = .optional

theorem Fits.findIdx_eq {κ : Type} {layout : List (Field κ)}
    {fields : List (String × Option Json)} (h : Fits layout fields) {i : Nat}
    (hi : i < fields.length) : layout.findIdx (·.name == fields[i].1) = i := by
  have hnodup : (fields.map (·.1)).Nodup := h.names ▸ h.nodup
  have hidx : (fields.map (·.1)).idxOf fields[i].1 = i := by
    have hself := hnodup.idxOf_getElem i (by simpa using hi)
    rwa [List.getElem_map] at hself
  rwa [h.names, List.idxOf, List.findIdx_map] at hidx

/-- Both forms of a record have the values that it is made of. -/
theorem values?_of_isRecord {κ : Type} {layout : List (Field κ)}
    {fields : List (String × Option Json)} {v : Json} (h : IsRecord fields v)
    (hfits : Fits layout fields) : ∃ field, values? layout v = some field ∧
      ∀ f ∈ fields, field f.1 = nonNull f.2 := by
  cases h with
  | @object members hmembers =>
    have hopen : open? layout (object members) = some (memberAt? members) := by
      refine if_pos (List.all_eq_true.mpr fun f hf => ?_)
      simp [hmembers.countP_le_one f.name, hfits.optional f hf]
    refine ⟨_, by rw [values?, hopen]; rfl, fun f hf => ?_⟩
    simp only [memberAt?_val]
    exact hmembers.nonNull_find? hf
  | array =>
    have hlength : fields.length = layout.length := by
      simpa using congrArg List.length hfits.names
    have hopen : open? layout (array (fields.map (·.2.getD null))) = some fun name =>
        itemAt? (fields.map (·.2.getD null)) (layout.findIdx (·.name == name)) :=
      if_pos ⟨by simp [hlength], by simp [hlength]⟩
    refine ⟨_, by rw [values?, hopen]; rfl, fun f hf => ?_⟩
    obtain ⟨i, hi, rfl⟩ := List.getElem_of_mem hf
    simp only [itemAt?_val, hfits.findIdx_eq hi]
    simp [hi]

theorem IsRecord.sizeOf_lt {fields : List (String × Option Json)} {v w : Json} {name : String}
    {value : Option Json} (h : IsRecord fields v) (hvalue : (name, value) ∈ fields)
    (hw : value = some w) : sizeOf w < sizeOf v := by
  subst hw
  cases h with
  | object hmembers => exact sizeOf_member_lt (hmembers.given _ hvalue w rfl)
  | array => exact sizeOf_item_lt (List.mem_map.mpr ⟨_, hvalue, rfl⟩)

section Values

variable {α : Type} {Encodes : Json → α → Prop} {decode : Json → Option α}

theorem mapM_nonNull {value : Option Json} {x : Option α} (h : Option.Rel Encodes value x)
    (hnull : decode null = none)
    (hdecode : ∀ v, value = some v → ∀ a, Encodes v a → decode v = some a) :
    (nonNull value).mapM decode = some x := by
  cases h with
  | none => rfl
  | @some v a hv =>
    have hsome := hdecode v rfl a hv
    have hne : v.isNull = false := by
      cases v with
      | null => rw [hnull] at hsome; cases hsome
      | _ => rfl
    rw [nonNull, Option.filter_some_pos (by simp [hne]), Option.mapM_some, hsome]
    rfl

theorem items?_of_isArray {v : Json} {xs : List α} (h : IsArray Encodes v xs)
    (hdecode : ∀ w, sizeOf w < sizeOf v → ∀ a, Encodes w a → decode w = some a) :
    items? decode v = some xs := by
  cases h with
  | @items vs xs hitems =>
    have hall : ∀ w ∈ vs, ∀ a, Encodes w a → decode w = some a :=
      fun w hw => hdecode w (sizeOf_item_lt hw)
    clear hdecode
    rw [items?]
    induction hitems with
    | nil => rfl
    | @cons w a vs xs hw _ ih =>
      rw [List.mapM_cons, hall w List.mem_cons_self a hw,
        ih fun w hw => hall w (List.mem_cons_of_mem _ hw)]
      rfl

end Values

end Json

end ContractDocs
