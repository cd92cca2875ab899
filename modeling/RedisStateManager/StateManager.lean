/-
# Objects in the storage

`src/core/StateManager.cpp` over `RedisStorage`, for any class that implements
`StateObj`, and the classes that `STATE_OBJ_DEFINE_TYPE` defines: their listed
fields are written as the members of one JSON object and read back one by one,
into a clone of the template.  `write_read_iff` says which objects survive.
-/
import RedisStateManager.RedisStorage
import RedisStateManager.Json

namespace StateManager

open Redis RedisStorage

/-! ## The state manager -/

/-- The `catch` clause an exception ends in: `json::exception`, or any other
`std::exception`. -/
inductive Exception
  | json
  | other
  deriving DecidableEq, Repr

/-- The interface a class implements.  `from_json` works on a clone of the
object it is called on; the clone is dropped if it throws. -/
structure StateObj (T : Type) where
  to_json : T → Except Exception Json
  from_json : T → Json → Except Exception T

section Operations

variable {T : Type} (lib : JsonLibrary) (cls : StateObj T)

def write (key : Bytes) (value : T) : Procedure Bool :=
  match cls.to_json value with
  | .error _ => return false
  | .ok json_value =>
    match lib.dump json_value with
    | none => return false
    | some json_string => RedisStorage.write key json_string

def erase (key : Bytes) : Procedure Bool := RedisStorage.erase key

/-- The error, if there is one, and the object read. -/
def read (key : Bytes) (template_obj : T) : Procedure (Option String × Option T) := do
  let json_string ← RedisStorage.read key
  if json_string = [] then return (some "Key not found", none)
  match lib.parse json_string with
  | none => return (some "JSON parsing error", none)
  | some json_value =>
    match cls.from_json template_obj json_value with
    | .ok result => return (none, some result)
    | .error .json => return (some "JSON parsing error", none)
    | .error .other => return (some "Storage error", none)

end Operations

/-! ## Classes with listed fields -/

structure Field where
  name : Bytes
  type : FieldType
  deriving DecidableEq, Repr

/-- The values of the listed fields, in the order of the list. -/
@[reducible] def Values : List Field → Type
  | [] => Unit
  | f :: fs => f.type.Val × Values fs

/-- An object of a class: its listed fields and its other members. -/
structure Object (fields : List Field) (U : Type) where
  listed : Values fields
  unlisted : U

/-- The members `to_json` adds, one `j[name] = value` for each listed field. -/
def addMembers : (fs : List Field) → Values fs → List (Bytes × Json) → List (Bytes × Json)
  | [], _, ms => ms
  | f :: fs, (v, vs), ms => addMembers fs vs (insertMember f.name (f.type.toJson v) ms)

/-- `to_json`; the value starts as `null` and becomes an object with its first member. -/
def fieldsToJson : (fs : List Field) → Values fs → Json
  | [], _ => .null
  | f :: fs, vs => .object (addMembers (f :: fs) vs [])

/-- `from_json`: `j.at(name).get_to(value)` for each listed field. -/
def fieldsFromJson (lib : JsonLibrary) (j : Json) : (fs : List Field) → Option (Values fs)
  | [] => some ()
  | f :: fs => do
    let member ← j.at f.name
    let v ← lib.get f.type member
    let vs ← fieldsFromJson lib j fs
    return (v, vs)

/-- `STATE_OBJ_DEFINE_TYPE`. -/
def defineType (lib : JsonLibrary) (fields : List Field) (U : Type) :
    StateObj (Object fields U) where
  to_json x := .ok (fieldsToJson fields x.listed)
  from_json template_obj j :=
    match fieldsFromJson lib j fields with
    | some vs => .ok { template_obj with listed := vs }
    | none => .error .json

/-- No listed field holds an infinite or NaN double. -/
def Finite : (fs : List Field) → Values fs → Prop
  | [], _ => True
  | f :: fs, (v, vs) => f.type.isFinite v = true ∧ Finite fs vs

/-- What is read back of the listed fields. -/
def readBackFields : (fs : List Field) → Values fs → Option (Values fs)
  | [], _ => some ()
  | f :: fs, (v, vs) => do
    let v' ← f.type.readBack v
    let vs' ← readBackFields fs vs
    return (v', vs')

theorem readBackFields_eq_self {fs : List Field} {vs : Values fs} :
    readBackFields fs vs = some vs ↔ Finite fs vs := by
  induction fs with
  | nil => exact ⟨fun _ => trivial, fun _ => rfl⟩
  | cons f fs ih =>
    obtain ⟨v, vs⟩ := vs
    show (f.type.readBack v).bind (fun v' => (readBackFields fs vs).bind fun vs' =>
      some (v', vs')) = some (v, vs) ↔ f.type.isFinite v = true ∧ Finite fs vs
    rw [← FieldType.readBack_eq_self, ← ih]
    constructor
    · intro h
      obtain ⟨v', hv, h⟩ := Option.bind_eq_some_iff.mp h
      obtain ⟨vs', hvs, heq⟩ := Option.bind_eq_some_iff.mp h
      obtain ⟨rfl, rfl⟩ := Prod.mk.inj (Option.some.inj heq)
      exact ⟨hv, hvs⟩
    · rintro ⟨hv, hvs⟩
      rw [hv, hvs]
      rfl

/-! ## The members of an object -/

theorem lookup_addMembers_of_not_mem {fs : List Field} {vs : Values fs} {k : Bytes}
    (hk : k ∉ fs.map Field.name) (ms : List (Bytes × Json)) :
    (addMembers fs vs ms).lookup k = ms.lookup k := by
  induction fs generalizing ms with
  | nil => rfl
  | cons f fs ih =>
    obtain ⟨v, vs⟩ := vs
    rw [List.map_cons, List.mem_cons, not_or] at hk
    show (addMembers fs vs _).lookup k = _
    rw [ih hk.2, lookup_insertMember_ne hk.1]

/-- Reading the fields of an object that went through the text. -/
theorem fieldsFromJson_addMembers {lib : JsonLibrary} {j : Json} (hlib : lib.Lawful j)
    {fs : List Field} (hnodup : (fs.map Field.name).Nodup) (vs : Values fs)
    (ms : List (Bytes × Json)) :
    fieldsFromJson lib (.object (nullifyMembers (addMembers fs vs ms))) fs =
      readBackFields fs vs := by
  induction fs generalizing ms with
  | nil => rfl
  | cons f fs ih =>
    obtain ⟨v, vs⟩ := vs
    rw [List.map_cons, List.nodup_cons] at hnodup
    -- the members added later have other names
    have hat : Json.at (.object (nullifyMembers (addMembers (f :: fs) (v, vs) ms))) f.name =
        some (f.type.toJson v).nullify := by
      show (nullifyMembers (addMembers fs vs _)).lookup f.name = _
      rw [lookup_nullifyMembers, lookup_addMembers_of_not_mem hnodup.1,
        lookup_insertMember_self]
      rfl
    rw [fieldsFromJson, hat]
    show (lib.get f.type _).bind _ = _
    rw [hlib.get_nullify]
    show (f.type.readBack v).bind (fun v' => (fieldsFromJson lib
      (.object (nullifyMembers (addMembers fs vs _))) fs).bind fun vs' => some (v', vs')) = _
    rw [ih hnodup.2]
    rfl

theorem fieldsFromJson_nullify {lib : JsonLibrary} {fs : List Field}
    (hnodup : (fs.map Field.name).Nodup) {vs : Values fs}
    (hlib : lib.Lawful (fieldsToJson fs vs)) :
    fieldsFromJson lib (fieldsToJson fs vs).nullify fs = readBackFields fs vs := by
  cases fs with
  | nil => rfl
  | cons f fs => exact fieldsFromJson_addMembers hlib hnodup vs []

/-! ## What was written can be read back -/

section RoundTrip

variable {lib : JsonLibrary} {fields : List Field} {U : Type}

/-- An object that does not serialize is not written. -/
theorem write_of_dump_none {x : Object fields U}
    (hdump : lib.dump (fieldsToJson fields x.listed) = none) (key : Bytes) :
    write lib (defineType lib fields U) key x = .ret false := by
  simp [write, defineType, hdump]

/-- A `write` that returns true has stored the text of the object. -/
theorem write_run {x : Object fields U} {key : Bytes} {st : Store}
    (h : ((write lib (defineType lib fields U) key x).run serve st).1 = true) :
    ∃ text, lib.dump (fieldsToJson fields x.listed) = some text ∧
      ((write lib (defineType lib fields U) key x).run serve st).2 =
        Function.update st key (some text) := by
  cases hdump : lib.dump (fieldsToJson fields x.listed) with
  | none =>
    rw [write_of_dump_none hdump] at h
    exact absurd h Bool.false_ne_true
  | some text =>
    have hwrite : write lib (defineType lib fields U) key x = setUnderLock key text := by
      simp [write, defineType, hdump, RedisStorage.write]
    rw [hwrite, setUnderLock_run] at h ⊢
    refine ⟨text, rfl, ?_⟩
    split at h
    · exact absurd h Bool.false_ne_true
    · rename_i hfree
      rw [if_neg hfree]

/-- Reading a text that parses. -/
theorem read_run {T : Type} {cls : StateObj T} {key text : Bytes} {st : Store} {j : Json}
    (template_obj : T) (hst : st key = some text) (hne : text ≠ [])
    (hparse : lib.parse text = some j) :
    ((read lib cls key template_obj).run serve st).1 =
      match cls.from_json template_obj j with
      | .ok result => (none, some result)
      | .error .json => (some "JSON parsing error", none)
      | .error .other => (some "Storage error", none) := by
  rw [read, Program.run_bind, RedisStorage.read_run, hst]
  simp only [Option.getD_some, if_neg hne, hparse]
  cases cls.from_json template_obj j with
  | ok result => rfl
  | error e => cases e <;> rfl

/-- **What was written can be read back**, exactly if no listed field holds an
infinite or NaN double; and what does not serialize is not written. -/
theorem write_read_iff (hnodup : (fields.map Field.name).Nodup) (x template_obj : Object fields U)
    (key : Bytes) (st : Store) (hlib : lib.Lawful (fieldsToJson fields x.listed)) :
    (lib.dump (fieldsToJson fields x.listed) = none →
      (write lib (defineType lib fields U) key x).run serve st = (false, st)) ∧
    (((write lib (defineType lib fields U) key x).run serve st).1 = true →
      ∀ st' : Store, st' key = ((write lib (defineType lib fields U) key x).run serve st).2 key →
        ((∃ y, ((read lib (defineType lib fields U) key template_obj).run serve st').1 =
            (none, some y) ∧ y.listed = x.listed) ↔ Finite fields x.listed)) := by
  refine ⟨fun hdump => ?_, fun hwrite st' hst' => ?_⟩
  · rw [write_of_dump_none hdump]
    rfl
  · obtain ⟨text, hdump, hstore⟩ := write_run hwrite
    rw [hstore, Function.update_self] at hst'
    have hparse := hlib.parse_dump text hdump
    -- an empty text would be taken for a missing key
    have hne : text ≠ [] := by
      rintro rfl
      rw [hlib.parse_nil] at hparse
      exact absurd hparse (by simp)
    rw [read_run template_obj hst' hne hparse]
    simp only [defineType, fieldsFromJson_nullify hnodup hlib]
    rw [← readBackFields_eq_self]
    cases readBackFields fields x.listed with
    | none => simp
    | some vs =>
      constructor
      · rintro ⟨y, hy, hlisted⟩
        obtain rfl := Option.some.inj (Prod.mk.inj hy).2
        exact congrArg some hlisted
      · intro h
        exact ⟨_, rfl, Option.some.inj h⟩

end RoundTrip

/-! ## A double that does not survive, and one that does -/

/-- A library that knows one text: it prints it, and parses it as `j`. -/
def textLibrary (text : Bytes) (j : Json) : JsonLibrary where
  dump _ := some text
  parse t := if t = text then some j.nullify else none
  get := FieldType.ofJson

theorem textLibrary_lawful (text : Bytes) (hne : text ≠ []) (j : Json) :
    (textLibrary text j).Lawful j where
  parse_dump t ht := by
    obtain rfl : text = t := Option.some.inj ht
    exact if_pos rfl
  parse_nil := if_neg hne.symm
  get_toJson _ _ := FieldType.ofJson_toJson
  get_misfit _ _ h := FieldType.ofJson_of_misfit h

/-- The class `FloatState`: one double. -/
def floatFields : List Field := [⟨ascii ['v', 'a', 'l', 'u', 'e'], .double⟩]

def floatState (bits : UInt64) : Object floatFields Unit := ⟨(⟨bits⟩, ()), ()⟩

/-- The text of a `FloatState` whose value prints as `cs`. -/
def floatText (cs : List Char) : Bytes :=
  ascii (['{', '\"', 'v', 'a', 'l', 'u', 'e', '\"', ':'] ++ cs ++ ['}'])

/-- The library, where the double `bits` prints as `cs`. -/
def floatLibrary (cs : List Char) (bits : UInt64) : JsonLibrary :=
  textLibrary (floatText cs) (fieldsToJson floatFields (floatState bits).listed)

/-- The store in which key `1` holds the text. -/
def floatStore (cs : List Char) : Store := Function.update (fun _ => none) [1] (some (floatText cs))

/-- A NaN is printed as `null`; `write` returns true, and `read` then fails. -/
theorem nan_not_read_back : ¬ ∀ (lib : JsonLibrary) (fields : List Field)
    (x template_obj : Object fields Unit) (key : Bytes) (st : Store),
    (fields.map Field.name).Nodup → lib.Lawful (fieldsToJson fields x.listed) →
    ((write lib (defineType lib fields Unit) key x).run serve st).1 = true →
    ∃ y, ((read lib (defineType lib fields Unit) key template_obj).run serve
        ((write lib (defineType lib fields Unit) key x).run serve st).2).1 = (none, some y) ∧
      y.listed = x.listed := by
  intro hall
  have hlib := textLibrary_lawful (floatText ['n', 'u', 'l', 'l']) (by decide)
    (fieldsToJson floatFields (floatState 0x7ff8000000000000).listed)
  obtain ⟨y, hy, -⟩ := hall (floatLibrary ['n', 'u', 'l', 'l'] 0x7ff8000000000000) floatFields
    (floatState 0x7ff8000000000000) (floatState 0) [1] (fun _ => none) (by decide) hlib rfl
  have herror : ((read (floatLibrary ['n', 'u', 'l', 'l'] 0x7ff8000000000000)
      (defineType (floatLibrary ['n', 'u', 'l', 'l'] 0x7ff8000000000000) floatFields Unit)
      [1] (floatState 0)).run serve (floatStore ['n', 'u', 'l', 'l'])).1.1 =
        some "JSON parsing error" := rfl
  exact absurd (herror.symm.trans (congrArg Prod.fst hy)) (by simp)

/-- The double `1.5` is read back. -/
theorem write_read_iff_float :
    ∃ y, ((read (floatLibrary ['1', '.', '5'] 0x3ff8000000000000)
        (defineType (floatLibrary ['1', '.', '5'] 0x3ff8000000000000) floatFields Unit)
        [1] (floatState 0)).run serve (floatStore ['1', '.', '5'])).1 = (none, some y) ∧
      y.listed = (floatState 0x3ff8000000000000).listed := by
  have hlib : (floatLibrary ['1', '.', '5'] 0x3ff8000000000000).Lawful
      (fieldsToJson floatFields (floatState 0x3ff8000000000000).listed) :=
    textLibrary_lawful (floatText ['1', '.', '5']) (by decide) _
  exact ((write_read_iff (by decide) (floatState 0x3ff8000000000000) (floatState 0) [1]
    (fun _ => none) hlib).2 rfl
    (floatStore ['1', '.', '5']) rfl).mpr ⟨by decide, trivial⟩

end StateManager
