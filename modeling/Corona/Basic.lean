import Mathlib.Logic.Function.Basic

/-! # What both versions of the library share

The builder `Coroutine`, stack allocation, and a coroutine's result channel and its poll. A
future is given by the outcomes it can resolve to, all in one value type `V`.
-/
namespace Corona

/-- A future whose item and error both live in `V`, given by the outcomes it may resolve to
(`Ok(item)` is `.ok item`, `Err(error)` is `.error error`). -/
def Fut (V : Type) := Except V V → Bool

def Fut.ok {V : Type} [DecidableEq V] (unit : V) : Fut V
  | .ok v => decide (v = unit)
  | .error _ => false

theorem Fut.ok_iff {V : Type} [DecidableEq V] {unit : V} {r : Except V V} :
    Fut.ok unit r = true ↔ r = .ok unit := by
  cases r <;> simp [Fut.ok]

inductive StackError where
  | invalidSize
  deriving DecidableEq, Repr

structure Coroutine where
  handle : Nat
  stackSize : Nat
  deriving DecidableEq, Repr

def Coroutine.setStackSize (b : Coroutine) (size : Nat) : Coroutine := { b with stackSize := size }

inductive StackState where
  | unused
  | live
  | freed
  deriving DecidableEq, Repr

inductive TaskResult (V : Type) where
  | panicked (payload : V)
  | finished (r : V)

inductive TaskFailed (V : Type) where
  | panicked (payload : V)
  | lost

/-- `CoroutineResult::poll`, the same in both files: the receiver of the result channel
holds `sent`, and `senderAlive` says whether its sender still exists. `Ok(NotReady)` is
`.ok none`. -/
def TaskResult.poll {V : Type} (sent : Option (TaskResult V)) (senderAlive : Bool) :
    Except (TaskFailed V) (Option V) :=
  match sent with
  | some (.panicked reason) => .error (.panicked reason)
  | some (.finished result) => .ok (some result)
  | none => if senderAlive then .ok none else .error .lost

theorem TaskResult.poll_some_ne_lost {V : Type} (r : TaskResult V) (alive : Bool) :
    TaskResult.poll (some r) alive ≠ .error .lost := by
  cases r <;> simp [TaskResult.poll]

end Corona
