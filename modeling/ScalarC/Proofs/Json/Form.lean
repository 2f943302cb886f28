import Mathlib.Data.List.Forall2
import ScalarC.Json.Record

/-!
# Forms of a JSON value

A record may be written in more than one way: as an object with its members in any
order and others beside them, or as the array of its fields. A `Layout` is a JSON value
in which the records are told from the variants, so that it has a set of forms: those
that differ from it in how its records are written.

## Main definitions

* `Layout`, with `Layout.json` for the value in which every record is an object with
  its own members alone.
* `Layout.Form`: the forms of a value.
-/

namespace ScalarC

namespace Json

/-! ## Depth -/

theorem depth_le_depthOfItems {items : List Json} {item : Json} (h : item ∈ items) :
    item.depth ≤ depthOfItems items := by
  induction items with
  | nil => simp at h
  | cons first rest ih =>
    rw [depthOfItems]
    rcases List.mem_cons.1 h with rfl | h
    · exact Nat.le_max_left _ _
    · exact Nat.le_trans (ih h) (Nat.le_max_right _ _)

theorem depth_le_depthOfMembers {members : List (String × Json)} {name : String} {value : Json}
    (h : (name, value) ∈ members) : value.depth ≤ depthOfMembers members := by
  induction members with
  | nil => simp at h
  | cons first rest ih =>
    rw [depthOfMembers]
    rcases List.mem_cons.1 h with rfl | h
    · exact Nat.le_max_left _ _
    · exact Nat.le_trans (ih h) (Nat.le_max_right _ _)

theorem depth_lt_array {items : List Json} {item : Json} (h : item ∈ items) :
    item.depth < (array items).depth := by
  have hle := depth_le_depthOfItems h
  rw [depth]
  omega

theorem depth_lt_object {members : List (String × Json)} {name : String} {value : Json}
    (h : (name, value) ∈ members) : value.depth < (object members).depth := by
  have hle := depth_le_depthOfMembers h
  rw [depth]
  omega

end Json

/-! ## Layouts -/

/-- A JSON value with its records and variants marked. -/
inductive Layout where
  /-- A string, a number, a truth value or `null`. -/
  | plain (json : Json)
  | list (items : List Layout)
  /-- A variant that carries data. -/
  | variant (name : String) (data : Layout)
  /-- A record. The data of a variant may be one; `inVariant` marks those. -/
  | record (inVariant : Bool) (fields : List (String × Layout))

namespace Layout

mutual

/-- The value in which every record is an object of its fields in order. -/
def json : Layout → Json
  | plain json => json
  | list items => .array (jsonItems items)
  | variant name data => .object [(name, data.json)]
  | record _ fields => .object (jsonMembers fields)

def jsonItems : List Layout → List Json
  | [] => []
  | item :: rest => item.json :: jsonItems rest

def jsonMembers : List (String × Layout) → List (String × Json)
  | [] => []
  | (name, value) :: rest => (name, value.json) :: jsonMembers rest

end

/-- `null` for nothing. -/
def option {α : Type} (layout : α → Layout) : Option α → Layout
  | some value => layout value
  | none => plain .null

/-- The forms of a value. A record is an object that has the fields as members, in any
order, beside members of other names; or it is the array of its fields. In a variant
the array is a form only if `listed` says so. -/
inductive Form (listed : Bool) : Layout → Json → Prop where
  | plain (json : Json) : Form listed (.plain json) json
  | list {items : List Layout} {values : List Json}
      (forms : List.Forall₂ (Form listed) items values) : Form listed (.list items) (.array values)
  | variant {name : String} {data : Layout} {value : Json} (form : Form listed data value) :
      Form listed (.variant name data) (.object [(name, value)])
  | object {inVariant : Bool} {fields : List (String × Layout)} {values : List Json}
      {others members : List (String × Json)}
      (forms : List.Forall₂ (Form listed) (fields.map (·.2)) values)
      (unknown : ∀ other ∈ others, other.1 ∉ fields.map (·.1))
      (reordered : members.Perm ((fields.map (·.1)).zip values ++ others)) :
      Form listed (.record inVariant fields) (.object members)
  | array {inVariant : Bool} {fields : List (String × Layout)} {values : List Json}
      (forms : List.Forall₂ (Form listed) (fields.map (·.2)) values)
      (allowed : inVariant = true → listed = true) :
      Form listed (.record inVariant fields) (.array values)

mutual

/-- The value itself is one of its forms. -/
theorem form_json (listed : Bool) : (layout : Layout) → layout.Form listed layout.json
  | .plain json => .plain json
  | .list items => by
    rw [json]
    exact .list (forms_jsonItems listed items)
  | .variant name data => by
    rw [json]
    exact .variant (form_json listed data)
  | .record inVariant fields => by
    obtain ⟨hforms, hzip⟩ := forms_jsonMembers listed fields
    have hunknown : ∀ other ∈ ([] : List (String × Json)), other.1 ∉ fields.map (·.1) := by simp
    rw [json]
    refine .object hforms hunknown ?_
    rw [List.append_nil, hzip]

theorem forms_jsonItems (listed : Bool) :
    (items : List Layout) → List.Forall₂ (Form listed) items (jsonItems items)
  | [] => by
    rw [jsonItems]
    exact .nil
  | item :: rest => by
    rw [jsonItems]
    exact .cons (form_json listed item) (forms_jsonItems listed rest)

theorem forms_jsonMembers (listed : Bool) : (fields : List (String × Layout)) →
    List.Forall₂ (Form listed) (fields.map (·.2)) ((jsonMembers fields).map (·.2))
      ∧ (fields.map (·.1)).zip ((jsonMembers fields).map (·.2)) = jsonMembers fields
  | [] => by simp [jsonMembers]
  | (name, value) :: rest => by
    obtain ⟨hforms, hzip⟩ := forms_jsonMembers listed rest
    simp only [jsonMembers, List.map_cons, List.zip_cons_cons, hzip, and_true]
    exact .cons (form_json listed value) hforms

end

end Layout

/-! ## Reading a record -/

namespace Json

/-- A member whose name occurs once is the field of that name. -/
theorem fieldOfMembers?_of_perm {members rest : List (String × Json)} {name : String}
    {value : Json} (hperm : members.Perm ((name, value) :: rest))
    (hrest : ∀ other ∈ rest, other.1 ≠ name) :
    fieldOfMembers? members name = some (.given value) := by
  have hfilter : members.filter (·.1 == name) = [(name, value)] := by
    refine List.perm_singleton.1 ((hperm.filter _).trans ?_)
    have hnone : rest.filter (·.1 == name) = [] := by
      simpa [List.filter_eq_nil_iff] using fun a b hmem => hrest (a, b) hmem
    simp [hnone]
  simp [fieldOfMembers?, hfilter]

/-- Members that stand for the fields of a record, in any order and beside others. -/
theorem mapM_fieldOfMembers? {names : List String} {values : List Json}
    {members rest : List (String × Json)} (hlength : names.length = values.length)
    (hnodup : names.Nodup) (hperm : members.Perm (names.zip values ++ rest))
    (hrest : ∀ other ∈ rest, other.1 ∉ names) :
    names.mapM (fieldOfMembers? members) = some (values.map .given) := by
  induction names generalizing values rest with
  | nil =>
    obtain rfl : values = [] := by simpa using hlength.symm
    rfl
  | cons name names ih =>
    cases values with
    | nil => simp at hlength
    | cons value values =>
      obtain ⟨hname, hnodup⟩ := List.nodup_cons.1 hnodup
      rw [List.zip_cons_cons, List.cons_append] at hperm
      have hfield : fieldOfMembers? members name = some (.given value) := by
        refine fieldOfMembers?_of_perm hperm fun other hother => ?_
        rcases List.mem_append.1 hother with hmem | hmem
        · rintro rfl
          exact hname (List.of_mem_zip hmem).1
        · rintro rfl
          exact hrest other hmem (by simp)
      -- for the fields that follow, this one is a member of another name
      have hperm' : members.Perm (names.zip values ++ (name, value) :: rest) :=
        hperm.trans List.perm_middle.symm
      have htail : names.mapM (fieldOfMembers? members) = some (values.map .given) := by
        refine ih (by simpa using hlength) hnodup hperm' fun other hother => ?_
        rcases List.mem_cons.1 hother with rfl | hmem
        · exact hname
        · exact fun hmem' => hrest other hmem (List.mem_cons_of_mem _ hmem')
      simp [List.mapM_cons, hfield, htail]

theorem fieldsOfItems?_of_length {names : List String} {values : List Json}
    (hlength : names.length = values.length) :
    fieldsOfItems? names values = some (values.map .given) := by
  induction names generalizing values with
  | nil =>
    obtain rfl : values = [] := by simpa using hlength.symm
    rfl
  | cons name names ih =>
    cases values with
    | nil => simp at hlength
    | cons value values => simp [fieldsOfItems?, ih (by simpa using hlength)]

end Json

namespace Layout

/-- A form that can be read with a number of levels. -/
structure Fits (listed : Bool) (levels : Nat) (layout : Layout) (json : Json) : Prop where
  form : layout.Form listed json
  depth : json.depth ≤ levels

variable {listed : Bool} {levels : Nat} {json : Json}

theorem forall₂_fits {items : List Layout} {values : List Json}
    (forms : List.Forall₂ (Form listed) items values)
    (hdepth : ∀ value ∈ values, value.depth < levels + 1) :
    List.Forall₂ (Fits listed levels) items values := by
  refine List.forall₂_iff_zip.2 ⟨forms.length_eq, fun hmem => ⟨List.forall₂_zip forms hmem, ?_⟩⟩
  exact Nat.le_of_lt_succ (hdepth _ (List.of_mem_zip hmem).2)

namespace Fits

theorem plain_eq {value : Json} (h : Fits listed levels (.plain value) json) : json = value := by
  obtain ⟨form, _⟩ := h
  cases form
  rfl

theorem list_eq {items : List Layout} (h : Fits listed levels (.list items) json) :
    ∃ below values, levels = below + 1 ∧ json = .array values
      ∧ List.Forall₂ (Fits listed below) items values := by
  obtain ⟨form, hdepth⟩ := h
  cases form with
  | @list _ values forms =>
    have hpos : 0 < (Json.array values).depth := by simp [Json.depth]
    obtain ⟨below, rfl⟩ := Nat.exists_eq_add_one.2 (Nat.lt_of_lt_of_le hpos hdepth)
    refine ⟨below, values, rfl, rfl, forall₂_fits forms fun value hvalue => ?_⟩
    exact Nat.lt_of_lt_of_le (Json.depth_lt_array hvalue) hdepth

theorem variant_eq {name : String} {data : Layout}
    (h : Fits listed levels (.variant name data) json) :
    ∃ below value, levels = below + 1 ∧ json = .object [(name, value)]
      ∧ Fits listed below data value := by
  obtain ⟨form, hdepth⟩ := h
  cases form with
  | @variant _ _ value form =>
    have hlt : value.depth < (Json.object [(name, value)]).depth :=
      Json.depth_lt_object List.mem_cons_self
    obtain ⟨below, rfl⟩ :=
      Nat.exists_eq_add_one.2 (Nat.zero_lt_of_lt (Nat.lt_of_lt_of_le hlt hdepth))
    exact ⟨below, value, rfl, rfl, form, by omega⟩

/-- Every form of a record gives all its fields, each in a form of its own. -/
theorem record_eq {inVariant : Bool} {fields : List (String × Layout)}
    (h : Fits listed levels (.record inVariant fields) json)
    (hnodup : (fields.map (·.1)).Nodup) :
    ∃ below values, levels = below + 1
      ∧ List.Forall₂ (Fits listed below) (fields.map (·.2)) values
      ∧ json.record? (fields.map (·.1)) = some (values.map .given)
      ∧ (inVariant = true →
        json.variantRecord? listed (fields.map (·.1)) = some (values.map .given)) := by
  obtain ⟨form, hdepth⟩ := h
  have hpos : 0 < json.depth := by
    cases form <;> simp [Json.depth]
  obtain ⟨below, rfl⟩ := Nat.exists_eq_add_one.2 (Nat.lt_of_lt_of_le hpos hdepth)
  cases form with
  | @object _ _ values others members forms unknown reordered =>
    have hlength : (fields.map (·.1)).length = values.length := by
      simpa using forms.length_eq
    have hrecord := Json.mapM_fieldOfMembers? hlength hnodup reordered unknown
    refine ⟨below, values, rfl, forall₂_fits forms fun value hvalue => ?_, hrecord,
      fun _ => hrecord⟩
    rw [← List.map_snd_zip (Nat.le_of_eq hlength.symm)] at hvalue
    obtain ⟨⟨name, _⟩, hmember, rfl⟩ := List.mem_map.1 hvalue
    have hmember' := reordered.mem_iff.2 (List.mem_append_left others hmember)
    exact Nat.lt_of_lt_of_le (Json.depth_lt_object hmember') hdepth
  | @array _ _ values forms allowed =>
    have hlength : (fields.map (·.1)).length = values.length := by
      simpa using forms.length_eq
    have hrecord := Json.fieldsOfItems?_of_length hlength
    refine ⟨below, values, rfl, forall₂_fits forms fun value hvalue => ?_, hrecord,
      fun hvariant => ?_⟩
    · exact Nat.lt_of_lt_of_le (Json.depth_lt_array hvalue) hdepth
    · rw [Json.variantRecord?, if_pos (allowed hvariant)]
      exact hrecord

end Fits

/-- A decoder reads a value from every form of a layout. -/
def Reads {α : Type} (listed : Bool) (layout : Layout) (decode : Nat → Json → Option α)
    (value : α) : Prop :=
  ∀ levels json, Fits listed levels layout json → decode levels json = some value

variable {α : Type} {decode : Nat → Json → Option α}

theorem mapM_of_reads {layout : α → Layout} {items : List α} {values : List Json}
    (hreads : ∀ item ∈ items, Reads listed (layout item) decode item)
    (hfits : List.Forall₂ (Fits listed levels) (items.map layout) values) :
    values.mapM (decode levels) = some items := by
  induction items generalizing values with
  | nil =>
    obtain _ | _ := hfits
    rfl
  | cons item items ih =>
    obtain _ | ⟨hfirst, hrest⟩ := hfits
    obtain ⟨hread, hreads⟩ := List.forall_mem_cons.1 hreads
    simp [List.mapM_cons, hread _ _ hfirst, ih hreads hrest]

theorem reads_list {layout : α → Layout} {items : List α}
    (hreads : ∀ item ∈ items, Reads listed (layout item) decode item) :
    Reads listed (.list (items.map layout)) (Json.list? decode) items := by
  intro levels json h
  obtain ⟨below, values, rfl, rfl, hfits⟩ := h.list_eq
  exact mapM_of_reads hreads hfits

end Layout

end ScalarC
