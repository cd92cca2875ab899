/-
# The error that `read` reports

`StateManager::read` has three errors: the key was not found, the text could not be
made into an object, the storage failed.  Below it `RedisStorage::read` answers with a
plain string, and a `GET` that throws is answered with the empty one, as for a key that
does not exist.  So the error tells the cause exactly if the `GET` did not throw
(`reports_iff`); an outage is reported as a missing key (`not_reports_outage`).
-/
import RedisStateManager.StateManager

namespace StateManager

open Redis RedisStorage

/-! ## A command that may throw -/

/-- The server executes a command, or the command throws without taking effect. -/
def respond (threw : Bool) : (a : Action) → Store → Answer a × Store
  | .getClient, st => ((0 : ℕ), st)
  | .command _ c, st => if threw then (.error, st) else (c.reply st, c.effect st)

/-- `RedisStorage::read` makes no difference between a `GET` that throws, a key that
does not exist and an empty value. -/
theorem storage_read_run (key : Bytes) (st : Store) (threw : Bool) :
    ((RedisStorage.read key).run (respond threw) st).1 =
      if threw then [] else (st key).getD [] := by
  cases threw with
  | true => rfl
  | false =>
    cases h : st key with
    | none => simp [RedisStorage.read, getClient, RedisStorage.get, respond, Command.reply, h]
    | some text => simp [RedisStorage.read, getClient, RedisStorage.get, respond, Command.reply, h]

/-! ## The causes of a failure -/

section Read

variable {T : Type} {lib : JsonLibrary} {cls : StateObj T} {template_obj : T} {key : Bytes}
  {st : Store}

/-- The key does not exist, or it holds the empty string. -/
def Missing (value : Option Bytes) : Prop := value = none ∨ value = some []

variable (lib cls template_obj) in
/-- The text parses and decodes into a clone of the template. -/
def Decodes (text : Bytes) (x : T) : Prop :=
  ∃ j, lib.parse text = some j ∧ cls.from_json template_obj j = .ok x

variable (lib cls template_obj key st) in
/-- **The error names the cause**, given the store and whether the `GET` threw. -/
structure Reports (threw : Bool) (result : Option String × Option T) : Prop where
  notFound : result.1 = some "Key not found" ↔ threw = false ∧ Missing (st key)
  storage : threw = true → result.1 = some "Storage error"
  parsing : result.1 = some "JSON parsing error" ↔
    threw = false ∧ ∃ text, st key = some text ∧ text ≠ [] ∧
      ¬ ∃ x, Decodes lib cls template_obj text x
  object : ∀ text x, threw = false → st key = some text → text ≠ [] →
    Decodes lib cls template_obj text x → result = (none, some x)

theorem Missing.eq_nil {value : Option Bytes} {text : Bytes} (h : Missing value)
    (htext : value = some text) : text = [] := by
  rcases h with rfl | rfl
  · cases htext
  · exact (Option.some.inj htext).symm

theorem Decodes.unique {text : Bytes} {x y : T} (hx : Decodes lib cls template_obj text x)
    (hy : Decodes lib cls template_obj text y) : x = y := by
  obtain ⟨j, hj, hx⟩ := hx
  obtain ⟨j', hj', hy⟩ := hy
  obtain rfl := Option.some.inj (hj.symm.trans hj')
  exact Except.ok.inj (hx.symm.trans hy)

theorem reports_missing (h : Missing (st key)) :
    Reports lib cls template_obj key st false (some "Key not found", none) where
  notFound := ⟨fun _ => ⟨rfl, h⟩, fun _ => rfl⟩
  storage hthrew := absurd hthrew Bool.false_ne_true
  parsing := by
    refine ⟨fun heq => absurd heq (by simp), ?_⟩
    rintro ⟨-, text, htext, hne, -⟩
    exact absurd (h.eq_nil htext) hne
  object text x _ htext hne _ := absurd (h.eq_nil htext) hne

theorem reports_decodes {text : Bytes} {x : T} (htext : st key = some text) (hne : text ≠ [])
    (hx : Decodes lib cls template_obj text x) :
    Reports lib cls template_obj key st false (none, some x) where
  notFound := ⟨fun heq => absurd heq (by simp), fun h => absurd (h.2.eq_nil htext) hne⟩
  storage hthrew := absurd hthrew Bool.false_ne_true
  parsing := by
    refine ⟨fun heq => absurd heq (by simp), ?_⟩
    rintro ⟨-, text', htext', -, hnot⟩
    obtain rfl := Option.some.inj (htext.symm.trans htext')
    exact absurd ⟨x, hx⟩ hnot
  object text' y _ htext' _ hy := by
    obtain rfl := Option.some.inj (htext.symm.trans htext')
    rw [hx.unique hy]

theorem reports_not_decodes {text : Bytes} (htext : st key = some text) (hne : text ≠ [])
    (hx : ¬ ∃ x, Decodes lib cls template_obj text x) :
    Reports lib cls template_obj key st false (some "JSON parsing error", none) where
  notFound := ⟨fun heq => absurd heq (by simp), fun h => absurd (h.2.eq_nil htext) hne⟩
  storage hthrew := absurd hthrew Bool.false_ne_true
  parsing := ⟨fun _ => ⟨rfl, text, htext, hne, hx⟩, fun _ => rfl⟩
  object text' y _ htext' _ hy := by
    obtain rfl := Option.some.inj (htext.symm.trans htext')
    exact absurd ⟨y, hy⟩ hx

/-! ## What `read` returns -/

/-- Nothing to read: no key, an empty value, or a `GET` that threw. -/
theorem read_of_nil {threw : Bool}
    (h : ((RedisStorage.read key).run (respond threw) st).1 = []) :
    ((read lib cls key template_obj).run (respond threw) st).1 = (some "Key not found", none) := by
  rw [read, Program.run_bind, h]
  rfl

/-- A text that decodes. -/
theorem read_of_decodes {threw : Bool} {text : Bytes} {x : T}
    (h : ((RedisStorage.read key).run (respond threw) st).1 = text) (hne : text ≠ [])
    (hx : Decodes lib cls template_obj text x) :
    ((read lib cls key template_obj).run (respond threw) st).1 = (none, some x) := by
  obtain ⟨j, hj, hfrom⟩ := hx
  rw [read, Program.run_bind, h]
  simp [hne, hj, hfrom]

/-- A text that does not decode, with a template that throws JSON exceptions only. -/
theorem read_of_not_decodes (hcls : ∀ j, cls.from_json template_obj j ≠ .error .other)
    {threw : Bool} {text : Bytes}
    (h : ((RedisStorage.read key).run (respond threw) st).1 = text) (hne : text ≠ [])
    (hx : ¬ ∃ x, Decodes lib cls template_obj text x) :
    ((read lib cls key template_obj).run (respond threw) st).1 =
      (some "JSON parsing error", none) := by
  rw [read, Program.run_bind, h, if_neg hne]
  cases hj : lib.parse text with
  | none => rfl
  | some j =>
    cases hfrom : cls.from_json template_obj j with
    | ok x => exact absurd ⟨x, j, hj, hfrom⟩ hx
    | error e =>
      cases e with
      | json => simp [hfrom]
      | other => exact absurd hfrom (hcls j)

/-- The error names the cause if the `GET` did not throw. -/
theorem reports_of_replied (hcls : ∀ j, cls.from_json template_obj j ≠ .error .other) :
    Reports lib cls template_obj key st false
      ((read lib cls key template_obj).run (respond false) st).1 := by
  have hrun := storage_read_run key st false
  cases htext : st key with
  | none =>
    rw [htext] at hrun
    rw [read_of_nil hrun]
    exact reports_missing (Or.inl htext)
  | some text =>
    rw [htext] at hrun
    by_cases hne : text = []
    · subst hne
      rw [read_of_nil hrun]
      exact reports_missing (Or.inr htext)
    by_cases hx : ∃ x, Decodes lib cls template_obj text x
    · obtain ⟨x, hx⟩ := hx
      rw [read_of_decodes hrun hne hx]
      exact reports_decodes htext hne hx
    · rw [read_of_not_decodes hcls hrun hne hx]
      exact reports_not_decodes htext hne hx

/-- **The true cause of a failure**: the error that `read` returns names it exactly if
the `GET` did not throw. -/
theorem reports_iff (hcls : ∀ j, cls.from_json template_obj j ≠ .error .other) (threw : Bool) :
    Reports lib cls template_obj key st threw
      ((read lib cls key template_obj).run (respond threw) st).1 ↔ threw = false := by
  constructor
  · intro h
    by_contra hthrew
    have htrue : threw = true := by simpa using hthrew
    subst htrue
    -- the empty string stands for the exception, and for a key that does not exist
    have hread : ((read lib cls key template_obj).run (respond true) st).1 =
        (some "Key not found", none) := read_of_nil rfl
    have herror := h.storage rfl
    rw [hread] at herror
    exact absurd herror (by simp)
  · rintro rfl
    exact reports_of_replied hcls

end Read

/-! ## An outage -/

/-- The key holds the text of the double `1.5`, and the `GET` throws. -/
theorem not_reports_outage : ¬ ∀ (lib : JsonLibrary) (cls : StateObj (Object floatFields Unit))
    (template_obj : Object floatFields Unit) (key : Bytes) (st : Store) (threw : Bool),
    (∀ j, cls.from_json template_obj j ≠ .error .other) →
    Reports lib cls template_obj key st threw
      ((read lib cls key template_obj).run (respond threw) st).1 := by
  intro hall
  have h := hall (floatLibrary ['1', '.', '5'] 0x3ff8000000000000)
    (defineType (floatLibrary ['1', '.', '5'] 0x3ff8000000000000) floatFields Unit)
    (floatState 0) [1] (floatStore ['1', '.', '5']) true (fun j => by
      simp only [defineType]
      split <;> simp)
  have herror : some "Key not found" = some "Storage error" := h.storage rfl
  exact absurd herror (by simp)

/-- Without an outage the double is read. -/
theorem reports_iff_float :
    Reports (floatLibrary ['1', '.', '5'] 0x3ff8000000000000)
      (defineType (floatLibrary ['1', '.', '5'] 0x3ff8000000000000) floatFields Unit)
      (floatState 0) [1] (floatStore ['1', '.', '5']) false
      ((read (floatLibrary ['1', '.', '5'] 0x3ff8000000000000)
        (defineType (floatLibrary ['1', '.', '5'] 0x3ff8000000000000) floatFields Unit)
        [1] (floatState 0)).run (respond false) (floatStore ['1', '.', '5'])).1 :=
  (reports_iff (fun j => by simp only [defineType]; split <;> simp) false).mpr rfl

end StateManager
