/-
# The Redis server

The commands the storage and the channel's callers issue, each atomic at the
server: its reply and its effect on the store.  `Reply.error` is a command that
throws a `sw::redis::Error` at the client.
-/
import Mathlib.Logic.Function.Basic
import Mathlib.Tactic.Common

namespace Redis

/-- A `std::string`. -/
abbrev Bytes := List UInt8

/-- The string of ASCII characters `cs`. -/
def ascii (cs : List Char) : Bytes := cs.map fun c => c.toNat.toUInt8

abbrev Store := Bytes → Option Bytes

inductive Command
  | setnx (key value : Bytes)
  | set (key value : Bytes)
  | get (key : Bytes)
  | del (key : Bytes)
  | keyExists (key : Bytes)
  deriving DecidableEq, Repr

inductive Reply
  | status
  | integer (n : ℕ)
  | bulk (value : Option Bytes)
  | error
  deriving DecidableEq, Repr

namespace Command

def key : Command → Bytes
  | setnx k _ | set k _ | get k | del k | keyExists k => k

/-- The reply of a command that succeeds. -/
def reply : Command → Store → Reply
  | setnx k _, st => .integer (if (st k).isSome then 0 else 1)
  | set _ _, _ => .status
  | get k, st => .bulk (st k)
  | del k, st => .integer (if (st k).isSome then 1 else 0)
  | keyExists k, st => .integer (if (st k).isSome then 1 else 0)

/-- The store after a command that took effect. -/
def effect : Command → Store → Store
  | setnx k v, st => if (st k).isSome then st else Function.update st k (some v)
  | set k v, st => Function.update st k (some v)
  | get _, st => st
  | del k, st => Function.update st k none
  | keyExists _, st => st

/-- **Frame**: a command touches its own key only. -/
theorem effect_of_ne {c : Command} {k : Bytes} (h : k ≠ c.key) (st : Store) :
    c.effect st k = st k := by
  cases c with
  | setnx k' v =>
    simp only [effect]
    split
    · rfl
    · exact Function.update_of_ne h _ _
  | set k' v => exact Function.update_of_ne h _ _
  | get k' => rfl
  | del k' => exact Function.update_of_ne h _ _
  | keyExists k' => rfl

/-- Only `DEL` removes a key. -/
theorem isSome_effect {c : Command} {k : Bytes} {st : Store} (hdel : c ≠ .del k)
    (h : (st k).isSome) : (c.effect st k).isSome := by
  by_cases hk : k = c.key
  · subst hk
    cases c with
    | setnx k' v =>
      have hsome : (st k').isSome = true := h
      simp only [effect, if_pos hsome]
      exact h
    | set k' v => simp [effect, key]
    | get k' => exact h
    | del k' => exact absurd rfl hdel
    | keyExists k' => exact h
  · rwa [effect_of_ne hk]

end Command

end Redis
