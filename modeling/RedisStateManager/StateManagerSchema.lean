/-
# Objects read by another class

A stored object is read into a clone of the reader's template, and the reader's
class need not be the class that wrote it: another program, or an older version of
this one, may list other fields.  `select` takes the reader's fields out of the
writer's, and `fieldsFromJson_select` says that `from_json` does just this to the
text of an object: members that the reader does not list are ignored, and one that
the writer did not list makes it throw.  `write_read_schema` is the consequence for
`write` and `read`.
-/
import RedisStateManager.StateManager

namespace StateManager

open Redis RedisStorage

/-! ## The fields of an object -/

/-- The value of the field `f`, if the class lists it. -/
def valueAt (f : Field) : (fs : List Field) → Values fs → Option f.type.Val
  | [], _ => none
  | g :: fs, (v, vs) => if h : g = f then some (h ▸ v) else valueAt f fs vs

/-- The values that an object of a class with the fields `ws` has for the fields `fs`. -/
def select : (fs : List Field) → (ws : List Field) → Values ws → Option (Values fs)
  | [], _, _ => some ()
  | f :: fs, ws, vs => do
    let v ← valueAt f ws vs
    let us ← select fs ws vs
    return (v, us)

/-- A field that both classes name is the same field. -/
def Compatible (fs ws : List Field) : Prop := ∀ f ∈ fs, ∀ w ∈ ws, w.name = f.name → w = f

section Fields

variable {f : Field} {fs ws : List Field}

theorem valueAt_self (f : Field) (fs : List Field) (v : f.type.Val) (vs : Values fs) :
    valueAt f (f :: fs) (v, vs) = some v := by
  simp [valueAt]

theorem valueAt_of_ne {g : Field} (h : g ≠ f) (v : g.type.Val) (vs : Values fs) :
    valueAt f (g :: fs) (v, vs) = valueAt f fs vs :=
  dif_neg h

theorem isSome_valueAt (vs : Values fs) : (valueAt f fs vs).isSome = true ↔ f ∈ fs := by
  induction fs with
  | nil => simp [valueAt]
  | cons g fs ih =>
    obtain ⟨v, vs⟩ := vs
    by_cases hg : g = f
    · subst hg
      simp [valueAt_self]
    · rw [valueAt_of_ne hg, ih]
      simp [Ne.symm hg]

/-- The selected fields, one by one. -/
theorem select_cons (vs : Values ws) :
    select (f :: fs) ws vs =
      (valueAt f ws vs).bind fun v => (select fs ws vs).map fun us => (v, us) := by
  show (valueAt f ws vs).bind (fun v => (select fs ws vs).bind fun us => some (v, us)) = _
  cases select fs ws vs <;> rfl

/-- Selection fails only for a field that the other class does not list. -/
theorem isSome_select (vs : Values ws) :
    (select fs ws vs).isSome = true ↔ ∀ f ∈ fs, f ∈ ws := by
  induction fs with
  | nil => simp [select]
  | cons f fs ih =>
    rw [select_cons, List.forall_mem_cons, ← ih, ← isSome_valueAt vs]
    cases valueAt f ws vs <;> simp

/-- What is selected for a field is its value in the object. -/
theorem valueAt_select {vs : Values ws} {us : Values fs} (h : select fs ws vs = some us)
    (hf : f ∈ fs) : valueAt f fs us = valueAt f ws vs := by
  induction fs with
  | nil => exact absurd hf List.not_mem_nil
  | cons g fs ih =>
    rw [select_cons, Option.bind_eq_some_iff] at h
    obtain ⟨v, hv, h⟩ := h
    obtain ⟨us, hus, rfl⟩ := Option.map_eq_some_iff.mp h
    by_cases hg : g = f
    · subst hg
      rw [valueAt_self, hv]
    · rw [valueAt_of_ne hg]
      exact ih hus ((List.mem_cons.mp hf).resolve_left (Ne.symm hg))

/-- An object that is read back has each field read back. -/
theorem valueAt_readBackFields {us ys : Values fs} (h : readBackFields fs us = some ys) :
    valueAt f fs ys = (valueAt f fs us).bind f.type.readBack := by
  induction fs with
  | nil => rfl
  | cons g fs ih =>
    obtain ⟨u, us⟩ := us
    obtain ⟨y, hy, h⟩ := Option.bind_eq_some_iff.mp h
    obtain ⟨zs, hzs, heq⟩ := Option.bind_eq_some_iff.mp h
    obtain rfl := Option.some.inj heq
    by_cases hg : g = f
    · subst hg
      rw [valueAt_self, valueAt_self]
      exact hy.symm
    · rw [valueAt_of_ne hg, valueAt_of_ne hg]
      exact ih hzs

theorem finite_select {vs : Values ws} {us : Values fs} (h : select fs ws vs = some us)
    (hfinite : ∀ f ∈ fs, ∀ v, valueAt f ws vs = some v → f.type.isFinite v = true) :
    Finite fs us := by
  induction fs with
  | nil => trivial
  | cons f fs ih =>
    rw [select_cons, Option.bind_eq_some_iff] at h
    obtain ⟨v, hv, h⟩ := h
    obtain ⟨us, hus, rfl⟩ := Option.map_eq_some_iff.mp h
    rw [List.forall_mem_cons] at hfinite
    exact ⟨hfinite.1 v hv, ih hus hfinite.2⟩

/-! ## Reading the text of another class -/

theorem lookup_addMembers (hnodup : (ws.map Field.name).Nodup)
    (hcompatible : ∀ w ∈ ws, w.name = f.name → w = f) (vs : Values ws)
    (ms : List (Bytes × Json)) :
    (addMembers ws vs ms).lookup f.name =
      ((valueAt f ws vs).map f.type.toJson).or (ms.lookup f.name) := by
  induction ws generalizing ms with
  | nil => rfl
  | cons g ws ih =>
    obtain ⟨v, vs⟩ := vs
    rw [List.map_cons, List.nodup_cons] at hnodup
    rw [List.forall_mem_cons] at hcompatible
    show (addMembers ws vs _).lookup f.name = _
    by_cases hg : g = f
    · subst hg
      rw [lookup_addMembers_of_not_mem hnodup.1, lookup_insertMember_self, valueAt_self]
      rfl
    · have hname : f.name ≠ g.name := fun h => hg (hcompatible.1 h.symm)
      rw [ih hnodup.2 hcompatible.2, lookup_insertMember_ne hname, valueAt_of_ne hg]

/-- The member of a field in the text of an object. -/
theorem at_fieldsToJson (hnodup : (ws.map Field.name).Nodup)
    (hcompatible : ∀ w ∈ ws, w.name = f.name → w = f) (vs : Values ws) :
    (fieldsToJson ws vs).nullify.at f.name =
      (valueAt f ws vs).map fun v => (f.type.toJson v).nullify := by
  cases ws with
  | nil => rfl
  | cons w ws =>
    show (nullifyMembers (addMembers (w :: ws) vs [])).lookup f.name = _
    rw [lookup_nullifyMembers, lookup_addMembers hnodup hcompatible]
    cases valueAt f (w :: ws) vs <;> rfl

/-- **Reading an object of another class** selects the reader's fields. -/
theorem fieldsFromJson_select {lib : JsonLibrary} {vs : Values ws}
    (hlib : lib.Lawful (fieldsToJson ws vs)) (hnodup : (ws.map Field.name).Nodup)
    (hcompatible : Compatible fs ws) :
    fieldsFromJson lib (fieldsToJson ws vs).nullify fs =
      (select fs ws vs).bind (readBackFields fs) := by
  induction fs with
  | nil => rfl
  | cons f fs ih =>
    unfold Compatible at hcompatible
    rw [List.forall_mem_cons] at hcompatible
    rw [fieldsFromJson, at_fieldsToJson hnodup hcompatible.1, ih hcompatible.2, select_cons]
    cases valueAt f ws vs with
    | none => rfl
    | some v =>
      show (lib.get f.type (f.type.toJson v).nullify).bind _ = _
      rw [hlib.get_nullify]
      cases hs : select fs ws vs with
      | none => cases f.type.readBack v <;> rfl
      | some us => rfl

/-- A field that the writer does not list is not found. -/
theorem select_eq_none {f : Field} (hf : f ∈ fs) (hmissing : f ∉ ws) {xs : Values ws} :
    select fs ws xs = none := by
  rw [← Option.not_isSome_iff_eq_none, isSome_select]
  exact fun hall => hmissing (hall f hf)

/-- What is read back as it was is finite. -/
theorem isFinite_of_carried {xs : Values ws} {ys : Values fs}
    (hread : (select fs ws xs).bind (readBackFields fs) = some ys)
    (hcarried : ∀ f ∈ fs, valueAt f fs ys = valueAt f ws xs) :
    ∀ f ∈ fs, ∃ v, valueAt f ws xs = some v ∧ f.type.isFinite v = true := by
  intro f hf
  obtain ⟨us, hus, hback⟩ := Option.bind_eq_some_iff.mp hread
  obtain ⟨v, hv⟩ := Option.isSome_iff_exists.mp ((isSome_valueAt us).mpr hf)
  have hsame := valueAt_select hus hf
  have hf' : valueAt f fs ys = f.type.readBack v := by
    rw [valueAt_readBackFields hback, hv]
    rfl
  have hvalue : valueAt f ws xs = some v := hsame.symm.trans hv
  refine ⟨v, hvalue, FieldType.readBack_eq_self.mp ?_⟩
  rw [← hf', ← hvalue]
  exact hcarried f hf

/-- What is finite is read back as it was. -/
theorem carried_of_isFinite {xs : Values ws}
    (hfinite : ∀ f ∈ fs, ∃ v, valueAt f ws xs = some v ∧ f.type.isFinite v = true) :
    ∃ us, (select fs ws xs).bind (readBackFields fs) = some us ∧
      ∀ f ∈ fs, valueAt f fs us = valueAt f ws xs := by
  have hselect : (select fs ws xs).isSome = true := by
    rw [isSome_select]
    intro f hf
    obtain ⟨v, hv, -⟩ := hfinite f hf
    exact (isSome_valueAt xs).mp (Option.isSome_of_eq_some hv)
  obtain ⟨us, hus⟩ := Option.isSome_iff_exists.mp hselect
  have hback : readBackFields fs us = some us := by
    refine readBackFields_eq_self.mpr (finite_select hus fun f hf v hv => ?_)
    obtain ⟨v', hv', hfin⟩ := hfinite f hf
    obtain rfl := Option.some.inj (hv'.symm.trans hv)
    exact hfin
  refine ⟨us, ?_, fun f hf => valueAt_select hus hf⟩
  rw [hus, Option.bind_some, hback]

end Fields

/-! ## The storage between two classes -/

section Schema

variable {lib : JsonLibrary} {fs ws : List Field} {U W : Type}

/-- What a reader makes of the text of an object. -/
theorem from_json_text {x : Object ws W} (hlib : lib.Lawful (fieldsToJson ws x.listed))
    (hnodup : (ws.map Field.name).Nodup) (hcompatible : Compatible fs ws)
    (template_obj : Object fs U) :
    (defineType lib fs U).from_json template_obj (fieldsToJson ws x.listed).nullify =
      ((select fs ws x.listed).bind (readBackFields fs)).elim (.error .json)
        fun us => .ok { template_obj with listed := us } := by
  simp only [defineType, fieldsFromJson_select hlib hnodup hcompatible]
  cases (select fs ws x.listed).bind (readBackFields fs) <;> rfl

/-- **Objects between two classes.**  After a `write` by one class, a `read` by another
finds the object exactly if the reader lists only fields that the writer lists, and none of
them holds an infinite or NaN double: its fields are then those of the object written, and
its other members those of the template.  If the reader lists a field that the writer does
not, it reports that the text does not parse. -/
theorem write_read_schema (hnodup : (ws.map Field.name).Nodup) (hcompatible : Compatible fs ws)
    (x : Object ws W) (template_obj : Object fs U) (key : Bytes) (st : Store)
    (hlib : lib.Lawful (fieldsToJson ws x.listed))
    (hwrite : ((write lib (defineType lib ws W) key x).run serve st).1 = true) (st' : Store)
    (hst' : st' key = ((write lib (defineType lib ws W) key x).run serve st).2 key) :
    ((∃ y, ((read lib (defineType lib fs U) key template_obj).run serve st').1 = (none, some y) ∧
        y.unlisted = template_obj.unlisted ∧
        ∀ f ∈ fs, valueAt f fs y.listed = valueAt f ws x.listed) ↔
      ∀ f ∈ fs, ∃ v, valueAt f ws x.listed = some v ∧ f.type.isFinite v = true) ∧
    ((∃ f ∈ fs, f ∉ ws) →
      ((read lib (defineType lib fs U) key template_obj).run serve st').1 =
        (some "JSON parsing error", none)) := by
  obtain ⟨text, hdump, hstore⟩ := write_run hwrite
  rw [hstore, Function.update_self] at hst'
  have hparse := hlib.parse_dump text hdump
  have hne : text ≠ [] := by
    rintro rfl
    rw [hlib.parse_nil] at hparse
    exact absurd hparse (by simp)
  rw [read_run template_obj hst' hne hparse, from_json_text hlib hnodup hcompatible]
  refine ⟨⟨?_, fun hfinite => ?_⟩, fun ⟨f, hf, hmissing⟩ => ?_⟩
  · rintro ⟨y, hy, -, hcarried⟩
    cases hread : (select fs ws x.listed).bind (readBackFields fs) with
    | none =>
      rw [hread] at hy
      exact absurd (congrArg Prod.fst hy) (by simp)
    | some ys =>
      rw [hread] at hy
      obtain rfl := Option.some.inj (Prod.mk.inj hy).2
      exact isFinite_of_carried hread hcarried
  · obtain ⟨us, hread, hcarried⟩ := carried_of_isFinite hfinite
    rw [hread]
    exact ⟨_, rfl, rfl, hcarried⟩
  · rw [select_eq_none hf hmissing]
    rfl

end Schema

/-! ## A class that lists a name as well -/

/-- The fields of `FloatState`, and a name. -/
def namedFields : List Field := ⟨ascii ['n', 'a', 'm', 'e'], .string⟩ :: floatFields

def namedState (bits : UInt64) : Object namedFields Unit := ⟨(ascii ['a'], ⟨bits⟩, ()), ()⟩

/-- The text of the object with the double `1.5`. -/
def namedText : Bytes :=
  ascii (['{', '\"', 'n', 'a', 'm', 'e', '\"', ':', '\"', 'a', '\"', ',', '\"', 'v', 'a', 'l',
    'u', 'e', '\"', ':', '1', '.', '5', '}'])

def namedLibrary : JsonLibrary :=
  textLibrary namedText (fieldsToJson namedFields (namedState 0x3ff8000000000000).listed)

theorem namedLibrary_lawful :
    namedLibrary.Lawful (fieldsToJson namedFields (namedState 0x3ff8000000000000).listed) :=
  textLibrary_lawful namedText (by decide) _

theorem floatFields_compatible : Compatible floatFields namedFields := by
  unfold Compatible
  decide

/-- The value is read without the name; the name is missing where only the value was
written. -/
theorem write_read_schema_named :
    (∃ y, ((read namedLibrary (defineType namedLibrary floatFields Unit) [1] (floatState 0)).run
        serve (Function.update (fun _ => none) [1] (some namedText))).1 = (none, some y) ∧
      y.unlisted = () ∧ ∀ f ∈ floatFields, valueAt f floatFields y.listed =
        valueAt f namedFields (namedState 0x3ff8000000000000).listed) ∧
    ((read (floatLibrary ['1', '.', '5'] 0x3ff8000000000000)
        (defineType (floatLibrary ['1', '.', '5'] 0x3ff8000000000000) namedFields Unit) [1]
        (namedState 0)).run serve (floatStore ['1', '.', '5'])).1 =
      (some "JSON parsing error", none) := by
  have hlib : (floatLibrary ['1', '.', '5'] 0x3ff8000000000000).Lawful
      (fieldsToJson floatFields (floatState 0x3ff8000000000000).listed) :=
    textLibrary_lawful (floatText ['1', '.', '5']) (by decide) _
  constructor
  · have hfinite : ∀ f ∈ floatFields, ∃ v, valueAt f namedFields
        (namedState 0x3ff8000000000000).listed = some v ∧ f.type.isFinite v = true := by
      intro f hf
      obtain rfl := List.mem_singleton.mp hf
      exact ⟨⟨0x3ff8000000000000⟩, rfl, by decide⟩
    exact (write_read_schema (by decide) floatFields_compatible (namedState 0x3ff8000000000000)
      (floatState 0) [1] (fun _ => none) namedLibrary_lawful rfl _ rfl).1.mpr hfinite
  · have hcompatible : Compatible namedFields floatFields := by
      unfold Compatible
      decide
    exact (write_read_schema (by decide) hcompatible (floatState 0x3ff8000000000000) (namedState 0)
      [1] (fun _ => none) hlib rfl (floatStore ['1', '.', '5']) rfl).2
      ⟨⟨ascii ['n', 'a', 'm', 'e'], .string⟩, by decide, by decide⟩

end StateManager
