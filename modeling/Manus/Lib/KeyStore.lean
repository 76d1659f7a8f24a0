import Mathlib.Data.Nat.Notation
import Mathlib.Logic.Function.Basic
import Mathlib.Tactic.Common

/-! # Keys that expire

A server keeps values under keys, each until a time of its own. A client may lose
the answer to a command, whether or not the command was carried out.
-/

namespace Manus

/-- The keys of a server: their values and the times at which they expire. -/
abbrev KeyStore (κ α : Type) := κ → Option (α × ℕ)

namespace KeyStore

variable {κ α : Type} (store : KeyStore κ α) (now : ℕ) (key : κ)

/-- The value of a key that has not expired. -/
def get : Option α := (store key).bind fun entry => if now < entry.2 then some entry.1 else none

variable [DecidableEq κ] (value : α) (ttl : ℕ)

/-- `SET key value EX ttl` -/
def set : KeyStore κ α := Function.update store key (some (value, now + ttl))

/-- `SET key value NX EX ttl`, and whether it was set. -/
def setNx : KeyStore κ α × Bool :=
  if (store.get now key).isNone then (store.set now key value ttl, true) else (store, false)

/-- `DEL key` -/
def delete : KeyStore κ α := Function.update store key none

variable {store now key value ttl}

omit [DecidableEq κ] in
theorem get_isSome_of_lt {expiry : ℕ} (h : store key = some (value, expiry)) (hlt : now < expiry) :
    (store.get now key).isSome = true := by
  simp [get, h, hlt]

@[simp] theorem set_self : store.set now key value ttl key = some (value, now + ttl) :=
  Function.update_self ..

theorem set_of_ne {key' : κ} (h : key' ≠ key) : store.set now key value ttl key' = store key' :=
  Function.update_of_ne h ..

theorem delete_of_ne {key' : κ} (h : key' ≠ key) : store.delete key key' = store key' :=
  Function.update_of_ne h ..

theorem setNx_cases (store : KeyStore κ α) (now : ℕ) (key : κ) (value : α) (ttl : ℕ) :
    (store.get now key = none ∧
      store.setNx now key value ttl = (store.set now key value ttl, true)) ∨
      store.setNx now key value ttl = (store, false) := by
  unfold setNx
  split
  · rename_i hfree
    exact .inl ⟨Option.isNone_iff_eq_none.mp hfree, rfl⟩
  · exact .inr rfl

end KeyStore

/-- What a client sees of a command: its answer, or a failure. A command that failed may have been
carried out. -/
inductive CommandReply where
  | answered
  | failed (applied : Bool)
  deriving DecidableEq, Repr

/-- The server after a command, and its answer when there is one. -/
def CommandReply.run {σ β : Type} (before : σ) (command : σ × β) : CommandReply → σ × Option β
  | answered => (command.1, some command.2)
  | failed true => (command.1, none)
  | failed false => (before, none)

theorem CommandReply.run_cases {σ β : Type} (before : σ) (command : σ × β) (reply : CommandReply) :
    reply.run before command = (command.1, some command.2) ∨
      reply.run before command = (command.1, none) ∨ reply.run before command = (before, none) := by
  cases reply with
  | answered => exact .inl rfl
  | failed applied =>
    cases applied with
    | true => exact .inr (.inl rfl)
    | false => exact .inr (.inr rfl)

end Manus
