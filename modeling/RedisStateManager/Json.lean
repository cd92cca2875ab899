/-
# JSON values and the fields of a class

The values of `nlohmann::json`, and the C++ field types a class may list.  A
field is written as the JSON value `FieldType.toJson`.  What `dump`, `parse` and
`get_to` do is a parameter (`JsonLibrary`) of which only documented facts are
used (`JsonLibrary.Lawful`): a non-finite double is printed as `null`, `parse`
inverts `dump` otherwise, a field is read from a value of its own JSON type, and
reading it from another type throws.  `FieldType.readBack` says what becomes of a
field value on its way through the text (`get_nullify`).
-/
import RedisStateManager.RedisServer
import Mathlib.Data.Int.Notation

namespace StateManager

open Redis (Bytes)

/-! ## JSON values -/

/-- An IEEE 754 double, by its bits. -/
structure Double where
  bits : UInt64
  deriving DecidableEq, Repr

/-- Neither an infinity nor a NaN: the exponent is not all ones. -/
def Double.isFinite (d : Double) : Bool := (d.bits >>> 52) &&& 0x7ff != 0x7ff

/-- A JSON value.  Integers compare equal whether they are stored signed or
unsigned, so there is one kind of them. -/
inductive Json
  | null
  | boolean (b : Bool)
  | integer (n : ℤ)
  | number (d : Double)
  | string (s : Bytes)
  | array (elements : List Json)
  | object (members : List (Bytes × Json))

mutual

/-- The value that is read back from the text `dump` prints. -/
def Json.nullify : Json → Json
  | .null => .null
  | .boolean b => .boolean b
  | .integer n => .integer n
  | .number d => if d.isFinite then .number d else .null
  | .string s => .string s
  | .array js => .array (nullifyAll js)
  | .object ms => .object (nullifyMembers ms)

def nullifyAll : List Json → List Json
  | [] => []
  | j :: js => j.nullify :: nullifyAll js

def nullifyMembers : List (Bytes × Json) → List (Bytes × Json)
  | [] => []
  | (k, j) :: ms => (k, j.nullify) :: nullifyMembers ms

end

mutual

/-- No double in the value is infinite or NaN. -/
def Json.isFinite : Json → Bool
  | .null => true
  | .boolean _ => true
  | .integer _ => true
  | .number d => d.isFinite
  | .string _ => true
  | .array js => allFinite js
  | .object ms => membersFinite ms

def allFinite : List Json → Bool
  | [] => true
  | j :: js => j.isFinite && allFinite js

def membersFinite : List (Bytes × Json) → Bool
  | [] => true
  | (_, j) :: ms => j.isFinite && membersFinite ms

end

mutual

/-- Printing changes a value only through its non-finite doubles. -/
theorem Json.nullify_eq_self : ∀ j : Json, j.nullify = j ↔ j.isFinite = true
  | .null => by simp [Json.nullify, Json.isFinite]
  | .boolean b => by simp [Json.nullify, Json.isFinite]
  | .integer n => by simp [Json.nullify, Json.isFinite]
  | .number d => by
    cases h : d.isFinite <;> simp [Json.nullify, Json.isFinite, h]
  | .string s => by simp [Json.nullify, Json.isFinite]
  | .array js => by
    simpa [Json.nullify, Json.isFinite] using nullifyAll_eq_self js
  | .object ms => by
    simpa [Json.nullify, Json.isFinite] using nullifyMembers_eq_self ms

theorem nullifyAll_eq_self : ∀ js : List Json, nullifyAll js = js ↔ allFinite js = true
  | [] => by simp [nullifyAll, allFinite]
  | j :: js => by
    simp [nullifyAll, allFinite, Json.nullify_eq_self j, nullifyAll_eq_self js]

theorem nullifyMembers_eq_self :
    ∀ ms : List (Bytes × Json), nullifyMembers ms = ms ↔ membersFinite ms = true
  | [] => by simp [nullifyMembers, membersFinite]
  | (k, j) :: ms => by
    simp [nullifyMembers, membersFinite, Json.nullify_eq_self j, nullifyMembers_eq_self ms]

end

theorem nullifyAll_eq_map (js : List Json) : nullifyAll js = js.map Json.nullify := by
  induction js with
  | nil => rfl
  | cons j js ih => rw [nullifyAll, ih, List.map_cons]

/-- `j.at(k)`; it throws if the value is no object or has no such member. -/
def Json.at : Json → Bytes → Option Json
  | .object ms, k => ms.lookup k
  | _, _ => none

/-- `members[k] = j`, in a map ordered by its keys. -/
def insertMember (k : Bytes) (j : Json) : List (Bytes × Json) → List (Bytes × Json)
  | [] => [(k, j)]
  | (k', j') :: ms =>
    if k = k' then (k, j) :: ms
    else if k < k' then (k, j) :: (k', j') :: ms
    else (k', j') :: insertMember k j ms

theorem lookup_insertMember_self (k : Bytes) (j : Json) (ms : List (Bytes × Json)) :
    (insertMember k j ms).lookup k = some j := by
  induction ms with
  | nil => simp [insertMember]
  | cons m ms ih =>
    obtain ⟨k', j'⟩ := m
    unfold insertMember
    split
    · simp
    · split
      · simp
      · rename_i hne _
        rw [List.lookup_cons, beq_false_of_ne hne]
        exact ih

theorem lookup_insertMember_ne {k k' : Bytes} (h : k' ≠ k) (j : Json) (ms : List (Bytes × Json)) :
    (insertMember k j ms).lookup k' = ms.lookup k' := by
  induction ms with
  | nil => simp [insertMember, List.lookup_cons, beq_false_of_ne h]
  | cons m ms ih =>
    obtain ⟨k'', j''⟩ := m
    unfold insertMember
    split
    · rename_i heq
      subst heq
      simp [List.lookup_cons, beq_false_of_ne h]
    · split
      · simp [List.lookup_cons, beq_false_of_ne h]
      · rw [List.lookup_cons, List.lookup_cons, ih]

theorem lookup_nullifyMembers (k : Bytes) (ms : List (Bytes × Json)) :
    (nullifyMembers ms).lookup k = (ms.lookup k).map Json.nullify := by
  induction ms with
  | nil => rfl
  | cons m ms ih =>
    obtain ⟨k', j⟩ := m
    rw [nullifyMembers, List.lookup_cons, List.lookup_cons, ih]
    split <;> rfl

/-! ## Field types -/

/-- The types of the listed fields; an integer type is given by its limits. -/
inductive FieldType
  | integer (min max : ℤ)
  | boolean
  | double
  | string
  | json
  | vector (element : FieldType)
  deriving DecidableEq, Repr

namespace FieldType

/-- The values of a field; an integer lies within the limits of its type. -/
@[reducible] def Val : FieldType → Type
  | integer min max => {n : ℤ // min ≤ n ∧ n ≤ max}
  | boolean => Bool
  | double => Double
  | string => Bytes
  | json => Json
  | vector t => List t.Val

/-- The JSON value a field is assigned to. -/
def toJson : (t : FieldType) → t.Val → Json
  | integer _ _, n => .integer n.1
  | boolean, b => .boolean b
  | double, d => .number d
  | string, s => .string s
  | json, j => j
  | vector t, vs => .array (vs.map t.toJson)

/-- No double in the field is infinite or NaN. -/
def isFinite : (t : FieldType) → t.Val → Bool
  | integer _ _, _ => true
  | boolean, _ => true
  | double, d => d.isFinite
  | string, _ => true
  | json, j => j.isFinite
  | vector t, vs => vs.all t.isFinite

/-- The value has the JSON type the field is read from: a number or Boolean for
an integer, a number for a double. -/
def fits : FieldType → Json → Bool
  | integer _ _, .integer _ => true
  | integer _ _, .number _ => true
  | integer _ _, .boolean _ => true
  | boolean, .boolean _ => true
  | double, .integer _ => true
  | double, .number _ => true
  | string, .string _ => true
  | json, _ => true
  | vector t, .array js => js.all t.fits
  | _, _ => false

/-- What is read back of a field value, or nothing if reading it throws. -/
def readBack : (t : FieldType) → t.Val → Option t.Val
  | integer _ _, n => some n
  | boolean, b => some b
  | double, d => if d.isFinite then some d else none
  | string, s => some s
  | json, j => some j.nullify
  | vector t, vs => vs.mapM t.readBack

/-- A list is read back element by element. -/
theorem readBack_cons (t : FieldType) (v : t.Val) (vs : List t.Val) :
    (vector t).readBack (v :: vs) =
      (t.readBack v).bind fun v' => ((vector t).readBack vs).map (v' :: ·) := by
  show List.mapM t.readBack (v :: vs) = _
  rw [List.mapM_cons]
  cases t.readBack v with
  | none => rfl
  | some v' =>
    show (List.mapM t.readBack vs).bind (fun vs' => some (v' :: vs')) = _
    cases h : List.mapM t.readBack vs <;> simp [readBack, h]

/-- What is read back is what was printed. -/
theorem nullify_of_readBack {t : FieldType} {v v' : t.Val} (h : t.readBack v = some v') :
    (t.toJson v).nullify = t.toJson v' := by
  induction t with
  | double =>
    cases hd : Double.isFinite v with
    | false => simp [readBack, hd] at h
    | true =>
      obtain rfl : v = v' := by simpa [readBack, hd] using h
      simp [toJson, Json.nullify, hd]
  | vector t ih =>
    show Json.array (nullifyAll (v.map t.toJson)) = .array (v'.map t.toJson)
    rw [nullifyAll_eq_map, List.map_map]
    congr 1
    -- the elements one by one, with the hypothesis about their type
    induction v generalizing v' with
    | nil =>
      obtain rfl : [] = v' := Option.some.inj h
      rfl
    | cons x vs ihv =>
      rw [readBack_cons, Option.bind_eq_some_iff] at h
      obtain ⟨x', hx, h⟩ := h
      obtain ⟨vs', hvs, rfl⟩ := Option.map_eq_some_iff.mp h
      rw [List.map_cons, List.map_cons, ihv hvs]
      exact congrArg (· :: _) (ih hx)
  | json =>
    obtain rfl : Json.nullify v = v' := Option.some.inj h
    rfl
  | _ =>
    obtain rfl : v = v' := Option.some.inj h
    rfl

/-- What cannot be read back does not have the field's JSON type. -/
theorem misfit_of_readBack {t : FieldType} {v : t.Val} (h : t.readBack v = none) :
    t.fits (t.toJson v).nullify = false := by
  induction t with
  | double =>
    cases hd : Double.isFinite v with
    | false => simp [toJson, Json.nullify, hd, fits]
    | true => simp [readBack, hd] at h
  | vector t ih =>
    show (nullifyAll (v.map t.toJson)).all t.fits = false
    rw [nullifyAll_eq_map]
    induction v with
    | nil => exact absurd h (by simp [readBack])
    | cons x vs ihv =>
      rw [readBack_cons] at h
      rw [List.map_cons, List.map_cons, List.all_cons]
      -- the first element that cannot be read back is the misfit
      cases hx : t.readBack x with
      | none => rw [ih hx, Bool.false_and]
      | some x' =>
        rw [hx, Option.bind_some, Option.map_eq_none_iff] at h
        rw [ihv h, Bool.and_false]
  | _ => exact absurd h (by simp [readBack])

/-- **A field survives the text** exactly if it holds no infinite or NaN double. -/
theorem readBack_eq_self {t : FieldType} {v : t.Val} :
    t.readBack v = some v ↔ t.isFinite v = true := by
  induction t with
  | double => cases hd : Double.isFinite v <;> simp [readBack, isFinite, hd]
  | json =>
    show some (Json.nullify v) = some v ↔ Json.isFinite v = true
    rw [Option.some_inj, Json.nullify_eq_self]
  | vector t ih =>
    show _ ↔ List.all v t.isFinite = true
    induction v with
    | nil => exact ⟨fun _ => rfl, fun _ => rfl⟩
    | cons x vs ihv =>
      rw [readBack_cons, List.all_cons, Bool.and_eq_true, ← ih, ← ihv]
      constructor
      · intro h
        obtain ⟨x', hx, h⟩ := Option.bind_eq_some_iff.mp h
        obtain ⟨vs', hvs, heq⟩ := Option.map_eq_some_iff.mp h
        obtain ⟨rfl, rfl⟩ := List.cons.inj heq
        exact ⟨hx, hvs⟩
      · rintro ⟨hx, hvs⟩
        rw [hx, hvs]
        rfl
  | _ => exact ⟨fun _ => rfl, fun _ => rfl⟩

/-- A reading of fields that accepts each JSON value `toJson` makes. -/
def ofJson : (t : FieldType) → Json → Option t.Val
  | integer min max, .integer n => if h : min ≤ n ∧ n ≤ max then some ⟨n, h⟩ else none
  | boolean, .boolean b => some b
  | double, .number d => some d
  | string, .string s => some s
  | json, j => some j
  | vector t, .array js => js.mapM t.ofJson
  | _, _ => none

theorem ofJson_toJson {t : FieldType} {v : t.Val} : t.ofJson (t.toJson v) = some v := by
  induction t with
  | integer min max => exact dif_pos v.2
  | vector t ih =>
    show (v.map t.toJson).mapM t.ofJson = some v
    induction v with
    | nil => rfl
    | cons x vs ihv =>
      rw [List.map_cons, List.mapM_cons, ih, ihv]
      rfl
  | _ => rfl

theorem ofJson_of_misfit {t : FieldType} {j : Json} (h : t.fits j = false) : t.ofJson j = none := by
  induction t generalizing j with
  | vector t ih =>
    cases j with
    | array js =>
      show js.mapM t.ofJson = none
      rw [fits] at h
      induction js with
      | nil => exact absurd h (by simp)
      | cons j js ihj =>
        rw [List.all_cons, Bool.and_eq_false_iff] at h
        rw [List.mapM_cons]
        rcases h with h | h
        · rw [ih h]
          rfl
        · rw [ihj h]
          cases t.ofJson j <;> rfl
    | _ => rfl
  | json => exact absurd h (by simp [fits])
  | _ => cases j <;> first | rfl | exact absurd h (by simp [fits])

end FieldType

/-! ## The JSON library -/

/-- `dump`, `parse` and `get_to`; `none` if they throw. -/
structure JsonLibrary where
  dump : Json → Option Bytes
  parse : Bytes → Option Json
  get : (t : FieldType) → Json → Option t.Val

/-- What is relied on: `parse` inverts `dump` on the value `j`, whose non-finite
doubles are printed as `null`; the empty text does not parse; a field is read
from the value it was assigned to, and not from one of another JSON type. -/
structure JsonLibrary.Lawful (lib : JsonLibrary) (j : Json) : Prop where
  parse_dump : ∀ text, lib.dump j = some text → lib.parse text = some j.nullify
  parse_nil : lib.parse [] = none
  get_toJson : ∀ t v, lib.get t (t.toJson v) = some v
  get_misfit : ∀ t j', t.fits j' = false → lib.get t j' = none

/-- What `get_to` makes of a field value that went through the text. -/
theorem JsonLibrary.Lawful.get_nullify {lib : JsonLibrary} {j : Json} (h : lib.Lawful j)
    (t : FieldType) (v : t.Val) : lib.get t (t.toJson v).nullify = t.readBack v := by
  cases hv : t.readBack v with
  | none => exact h.get_misfit t _ (FieldType.misfit_of_readBack hv)
  | some v' => rw [FieldType.nullify_of_readBack hv, h.get_toJson]

end StateManager
