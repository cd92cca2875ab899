/-
# Keys of the storage and their locks

Data entries and lock entries lie in one key space: the lock of a key is the
entry named by `lockKey`, and the user may choose that very name as a key.  An
operation that runs alone changes at most the entry of its key, or that of the
lock of its key (`after_write` to `after_isLocked`), so it disturbs another key
exactly where one of the two names is the lock of the other and the shared entry
changes (`undisturbed_iff`).
-/
import RedisStateManager.RedisStorage

namespace RedisStorage

open Redis

/-! ## The store after an operation -/

/-- The store after the operation has run alone. -/
def Operation.after (op : Operation) (st : Store) : Store := (op.procedure.run serve st).2

/-- Tagging the result of an operation leaves its effect alone. -/
theorem map_run {α : Type} (f : α → Result) (p : Procedure α) (st : Store) :
    ((f <$> p).run serve st).2 = (p.run serve st).2 := by
  have hmap : f <$> p = p >>= fun x => .ret (f x) := rfl
  rw [hmap, Program.run_bind]
  rfl

section After

variable (key value : Bytes) (st : Store)

theorem setUnderLock_after : ((setUnderLock key value).run serve st).2 =
    if (st (lockKey key)).isSome then st else Function.update st key (some value) := by
  rw [setUnderLock_run]
  split <;> rfl

theorem after_write : (Operation.write key value).after st =
    if (st (lockKey key)).isSome then st else Function.update st key (some value) :=
  (map_run _ _ st).trans (setUnderLock_after key value st)

theorem after_update : (Operation.update key value).after st =
    if (st (lockKey key)).isSome then st else Function.update st key (some value) :=
  (map_run _ _ st).trans (setUnderLock_after key value st)

theorem after_erase : (Operation.erase key).after st =
    if (st (lockKey key)).isSome then st else Function.update st key none := by
  rw [Operation.after, Operation.procedure, map_run, erase_run]
  split <;> rfl

theorem after_tryLock : (Operation.tryLock key).after st =
    if (st (lockKey key)).isSome then st else Function.update st (lockKey key) (some locked) := by
  rw [Operation.after, Operation.procedure, map_run, tryLock_run]
  split <;> rfl

theorem after_unlock : (Operation.unlock key).after st =
    Function.update st (lockKey key) none := by
  rw [Operation.after, Operation.procedure, map_run, unlock_run]

theorem after_read : (Operation.read key).after st = st := by
  rw [Operation.after, Operation.procedure, map_run, read_run]

theorem after_isLocked : (Operation.isLocked key).after st = st := by
  rw [Operation.after, Operation.procedure, map_run, isLocked_run]

end After

/-! ## Disturbing another key -/

theorem lockKey_injective : Function.Injective lockKey := fun _ _ h => List.append_cancel_left h

/-- `read(key)` and `isLocked(key)` are answered after the operation as before it. -/
def Undisturbed (op : Operation) (key : Bytes) (st : Store) : Prop :=
  ((read key).run serve (op.after st)).1 = ((read key).run serve st).1 ∧
  ((isLocked key).run serve (op.after st)).1 = ((isLocked key).run serve st).1

theorem undisturbed_def {op : Operation} {key : Bytes} {st : Store} :
    Undisturbed op key st ↔ (op.after st key).getD [] = (st key).getD [] ∧
      (op.after st (lockKey key)).isSome = (st (lockKey key)).isSome := by
  simp only [Undisturbed, read_run, isLocked_run]

/-- Where one of the two names is the lock of the other, the shared entry is left
as it is: a write meets its lock taken or writes over a value, an `erase` meets
its lock taken or finds nothing, `tryLock` meets its lock taken, and `unlock`
removes at most an empty value. -/
def Operation.Spares (op : Operation) (key : Bytes) (st : Store) : Prop :=
  match op with
  | .write k _ | .update k _ =>
    k = lockKey key → (st (lockKey k)).isSome = true ∨ (st k).isSome = true
  | .erase k => k = lockKey key → (st (lockKey k)).isSome = true ∨ st k = none
  | .tryLock k => key = lockKey k → (st key).isSome = true
  | .unlock k => key = lockKey k → (st key).getD [] = []
  | .read _ | .isLocked _ => True

theorem undisturbed_of_eq {op : Operation} {key : Bytes} {st : Store} (h : op.after st = st) :
    Undisturbed op key st := by
  rw [undisturbed_def, h]
  exact ⟨rfl, rfl⟩

/-- The operation stores `v` as its data: it disturbs the key whose lock that is. -/
theorem undisturbed_of_data {op : Operation} {key : Bytes} {st : Store} {v : Option Bytes}
    (hne : op.key ≠ key) (hafter : op.after st = Function.update st op.key v) :
    Undisturbed op key st ↔ (op.key = lockKey key → v.isSome = (st op.key).isSome) := by
  rw [undisturbed_def, hafter, Function.update_of_ne hne.symm]
  by_cases hk : op.key = lockKey key
  · rw [← hk, Function.update_self]
    exact ⟨fun h _ => h.2, fun h => ⟨rfl, h rfl⟩⟩
  · rw [Function.update_of_ne (Ne.symm hk)]
    exact ⟨fun _ h => absurd h hk, fun _ => ⟨rfl, rfl⟩⟩

/-- The operation stores `v` as its lock: it disturbs the key whose data that is. -/
theorem undisturbed_of_lock {op : Operation} {key : Bytes} {st : Store} {v : Option Bytes}
    (hne : op.key ≠ key) (hafter : op.after st = Function.update st (lockKey op.key) v) :
    Undisturbed op key st ↔ (key = lockKey op.key → v.getD [] = (st key).getD []) := by
  have hlocks : lockKey key ≠ lockKey op.key := fun h => hne (lockKey_injective h).symm
  rw [undisturbed_def, hafter, Function.update_of_ne hlocks]
  by_cases hk : key = lockKey op.key
  · rw [← hk, Function.update_self]
    exact ⟨fun h _ => h.1, fun h => ⟨h rfl, rfl⟩⟩
  · rw [Function.update_of_ne hk]
    exact ⟨fun _ h => absurd h hk, fun _ => ⟨rfl, rfl⟩⟩

/-- A write under the lock disturbs the key whose lock it makes. -/
theorem undisturbed_of_set {op : Operation} {key value : Bytes} {st : Store} (hne : op.key ≠ key)
    (hafter : op.after st =
      if (st (lockKey op.key)).isSome then st else Function.update st op.key (some value)) :
    Undisturbed op key st ↔ (op.key = lockKey key →
      (st (lockKey op.key)).isSome = true ∨ (st op.key).isSome = true) := by
  by_cases hlock : (st (lockKey op.key)).isSome = true
  · rw [if_pos hlock] at hafter
    exact ⟨fun _ _ => Or.inl hlock, fun _ => undisturbed_of_eq hafter⟩
  · rw [if_neg hlock] at hafter
    rw [undisturbed_of_data hne hafter]
    constructor
    · intro h hk
      exact Or.inr (h hk).symm
    · intro h hk
      exact ((h hk).resolve_left hlock).symm

/-- **An operation disturbs another key** exactly where it changes an entry that
is the data of one of the two keys and the lock of the other. -/
theorem undisturbed_iff {op : Operation} {key : Bytes} (hne : op.key ≠ key) (st : Store) :
    Undisturbed op key st ↔ op.Spares key st := by
  cases op with
  | write k value => exact undisturbed_of_set hne (after_write k value st)
  | update k value => exact undisturbed_of_set hne (after_update k value st)
  | erase k =>
    have hafter := after_erase k st
    by_cases hlock : (st (lockKey k)).isSome = true
    · rw [if_pos hlock] at hafter
      exact ⟨fun _ _ => Or.inl hlock, fun _ => undisturbed_of_eq hafter⟩
    · rw [if_neg hlock] at hafter
      rw [undisturbed_of_data hne hafter]
      constructor
      · intro h hk
        exact Or.inr (Option.isSome_eq_false_iff.mp (h hk).symm |> Option.isNone_iff_eq_none.mp)
      · intro h hk
        have hnone : st k = none := (h hk).resolve_left hlock
        show _ = (st k).isSome
        rw [hnone]
  | tryLock k =>
    have hafter := after_tryLock k st
    by_cases hlock : (st (lockKey k)).isSome = true
    · rw [if_pos hlock] at hafter
      exact ⟨fun _ hk => by rwa [hk], fun _ => undisturbed_of_eq hafter⟩
    · rw [if_neg hlock] at hafter
      rw [undisturbed_of_lock hne hafter]
      -- the key's value appears from nothing, and `"locked"` is not the empty string
      have hnone : st (lockKey k) = none := by simpa using hlock
      refine forall_congr' fun hk => ?_
      rw [hk, Operation.key, hnone]
      decide
  | unlock k =>
    rw [undisturbed_of_lock hne (after_unlock k st)]
    exact forall_congr' fun _ => eq_comm
  | read k => exact ⟨fun _ => trivial, fun _ => undisturbed_of_eq (after_read k st)⟩
  | isLocked k => exact ⟨fun _ => trivial, fun _ => undisturbed_of_eq (after_isLocked k st)⟩

/-! ## A key named like a lock -/

/-- `write("lock:x", "v")`. -/
def writeLockName : Operation := .write (lockKey (ascii ['x'])) (ascii ['v'])

/-- The write locks the key `"x"` for good. -/
theorem disturbs_writeLockName : ¬ ∀ (op : Operation) (key : Bytes) (st : Store),
    op.key ≠ key → Undisturbed op key st := by
  intro hall
  have h := hall writeLockName (ascii ['x']) (fun _ => none) (by decide)
  rw [undisturbed_def] at h
  exact absurd h.2 (by decide)

/-- Written once more, it leaves `"x"` as locked as it was. -/
theorem undisturbed_iff_writeLockName :
    Undisturbed writeLockName (ascii ['x']) (writeLockName.after fun _ => none) :=
  have hne : writeLockName.key ≠ ascii ['x'] := by decide
  (undisturbed_iff hne _).mpr fun _ => Or.inr (by decide)

end RedisStorage
