import Corona.Basic

/-! # Tasks as the library sees them

A task is modelled by its calls into the library, each continuation a Lean function of what the
call returns, so a program is a finite tree of calls.
-/
namespace Corona.Lib

/-- The code of a task, up to its next call into the library. A spawn returns the receiver
of the child's `CoroutineResult`, named by the child's index. -/
inductive Prog (V : Type) where
  | ret (v : V)
  | panic (payload : V)
  | spawn (builder : Coroutine) (task : Prog V) (k : Except StackError Nat → Prog V)
  | future (fut : Fut V) (k : Except V V → Prog V)

def Prog.result {V : Type} : Prog V → Option (TaskResult V)
  | .ret v => some (.finished v)
  | .panic p => some (.panicked p)
  | _ => none

/-- `Await::yield_now`: `self.future(future::ok(())).unwrap()`. The payload of the `unwrap`
panic is modelled by the error it reports. -/
def Prog.yieldNow {V : Type} [DecidableEq V] (unit : V) (k : Prog V) : Prog V :=
  .future (Fut.ok unit) fun
    | .ok _ => k
    | .error e => .panic e

end Corona.Lib
