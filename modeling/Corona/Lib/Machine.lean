import Corona.Lib.Program
import Corona.Ledger

/-! # The context-switch machine of `lib.rs`

A `context::Context` is modelled by the code that runs when it is resumed. A step runs from one
point where a task or the reactor has control to the next; a library panic is a `Fault`.
-/
namespace Corona.Lib

variable {V : Type}

/-- A suspended context, as the code that runs when it is resumed. `thread` is `run_child`
called by the thread (a top-level spawn or a wakeup); `spawn co transfer k n` is `run_child`
inside `Coroutine::spawn` called by the task `co`, whose `Await` holds `transfer`, and which
continues with `k` once the child `n` switches back. -/
inductive Context (V : Type) where
  | entry (stack : Nat)
  | thread
  | spawn (co : Task) (transfer : Option (Context V)) (k : Except StackError Nat → Prog V)
      (receiver : Nat)
  | future (co : Task) (receiver : Nat) (k : Except V V → Prog V)
  | terminated (stack : Nat)

def Context.stack : Context V → Option Nat
  | .entry n => some n
  | .thread => none
  | .spawn co .. => some co.stack
  | .future co .. => some co.stack
  | .terminated n => some n

structure PerformAndSend (V : Type) where
  task : Prog V
  sender : Nat
  handle : Nat

structure After (V : Type) where
  fut : Fut V
  sender : Nat

inductive Switch (V : Type) where
  | startTask (stack : Nat) (task : PerformAndSend V)
  | scheduleWakeup (after : After V) (handle : Nat)
  | resume
  | destroy (stack : Nat)

structure Wakeup (V : Type) where
  after : After V
  handle : Nat
  context : Context V

inductive Running (V : Type) where
  | idle
  | task (co : Task) (transfer : Option (Context V)) (prog : Prog V)

/-- The thread's state. `results` are the `CoroutineResult` channels and `oneshots` the
channels of `Await::future`, by index; `stackOk` says which stack sizes allocate. -/
structure State (V : Type) where
  switch : Option (Switch V)
  running : Running V
  wakeups : List (Wakeup V)
  results : Nat → Option (TaskResult V)
  oneshots : Nat → Option (Except V V)
  stackAlloc : Nat → StackState
  nextStack : Nat
  nextOneshot : Nat
  stackOk : Nat → Bool

inductive Fault where
  | leftoverSwitch
  | missingSwitch
  | invalidEntry
  | invalidWakeup
  | invalidSwitchOut
  | wokenAfterTermination
  | transferMissing
  | futureCanceled
  | useAfterFree
  | freeInUse
  deriving DecidableEq, Repr

def Fault.message : Fault → String
  | .leftoverSwitch => "Leftover switch instruction"
  | .missingSwitch => "Missing switch instruction"
  | .invalidEntry => "Invalid switch instruction on coroutine entry"
  | .invalidWakeup => "Invalid instruction on wakeup"
  | .invalidSwitchOut => "Invalid switch instruction when switching out"
  | .wokenAfterTermination => "Woken up after termination!"
  | .transferMissing => "called `Option::unwrap()` on a `None` value"
  | .futureCanceled => "A future got canceled"
  | .useAfterFree => "resumed a context whose stack is freed"
  | .freeInUse => "dropped a stack that is not live or that control runs on"

namespace Switch

def put (sw : Switch V) : Option (Switch V) → Except Fault (Option (Switch V))
  | none => .ok (some sw)
  | some _ => .error .leftoverSwitch

def get : Option (Switch V) → Except Fault (Switch V)
  | some sw => .ok sw
  | none => .error .missingSwitch

end Switch

def Context.returnTo : Context V → Running V
  | .spawn co transfer k n => .task co transfer (k (.ok n))
  | _ => .idle

def coroutine (s : State V) (transfer : Context V) : Except Fault (State V) := do
  match ← Switch.get s.switch with
  | .startTask stack task =>
    .ok { s with switch := none,
                 running := .task ⟨task.sender, stack, task.handle⟩ (some transfer) task.task }
  | _ => .error .invalidEntry

def runChildRest (s : State V) (ret : Running V) (here : Option Nat) (transfer : Context V) :
    Except Fault (State V) := do
  match ← Switch.get s.switch with
  | .destroy stack =>
    let stackAlloc ← dropStack .freeInUse s.stackAlloc stack here
    .ok { s with switch := none, stackAlloc := stackAlloc, running := ret }
  | .scheduleWakeup after handle =>
    .ok { s with switch := none, wakeups := s.wakeups ++ [⟨after, handle, transfer⟩],
                 running := ret }
  | _ => .error .invalidSwitchOut

def futureRest (s : State V) (co : Task) (receiver : Nat) (k : Except V V → Prog V)
    (transfer : Context V) : Except Fault (State V) := do
  match ← Switch.get s.switch with
  | .resume =>
    match s.oneshots receiver with
    | some r => .ok { s with switch := none, running := .task co (some transfer) (k r) }
    | none => .error .futureCanceled
  | _ => .error .invalidWakeup

def resume (s : State V) (target transfer : Context V) : Except Fault (State V) :=
  if target.stack.all (s.stackAlloc · = .live) then
    match target with
    | .entry _ => coroutine s transfer
    | .thread => runChildRest s .idle none transfer
    | .spawn co t k n => runChildRest s (.task co t (k (.ok n))) (some co.stack) transfer
    | .future co receiver k => futureRest s co receiver k transfer
    | .terminated _ => .error .wokenAfterTermination
  else .error .useAfterFree

def runChild (s : State V) (context : Context V) (switch : Switch V) (here : Context V) :
    Except Fault (State V) := do
  let slot ← switch.put s.switch
  resume { s with switch := slot } context here

/-- `Coroutine::spawn`: allocate the stack, create a context on it, and `run_child` it with
`StartTask`. The caller is left as `here n`, `n` naming the new coroutine; on `StackError`
the caller goes on as `failed`. -/
def spawn (s : State V) (b : Coroutine) (task : Prog V) (here : Nat → Context V)
    (failed : Running V) : Except Fault (State V) :=
  if s.stackOk b.stackSize then
    let n := s.nextStack
    runChild { s with nextStack := n + 1, stackAlloc := Function.update s.stackAlloc n .live }
      (.entry n) (.startTask n ⟨task, n, b.handle⟩) (here n)
  else .ok { s with running := failed }

def future (s : State V) (co : Task) (transfer : Option (Context V)) (fut : Fut V)
    (k : Except V V → Prog V) : Except Fault (State V) := do
  let receiver := s.nextOneshot
  let slot ← (Switch.scheduleWakeup ⟨fut, receiver⟩ co.handle).put s.switch
  match transfer with
  | some parent =>
    resume { s with nextOneshot := receiver + 1, switch := slot } parent
      (.future co receiver k)
  | none => .error .transferMissing

def finish (s : State V) (co : Task) (transfer : Option (Context V)) (r : TaskResult V) :
    Except Fault (State V) := do
  let s := { s with results := Function.update s.results co.sender (some r) }
  match transfer with
  | some parent =>
    let slot ← (Switch.destroy co.stack).put s.switch
    resume { s with switch := slot } parent (.terminated co.stack)
  | none => .error .transferMissing

def runTask (s : State V) (co : Task) (transfer : Option (Context V)) :
    Prog V → Except Fault (State V)
  | .ret v => finish s co transfer (.finished v)
  | .panic p => finish s co transfer (.panicked p)
  | .spawn b task k =>
    spawn s b task (.spawn co transfer k) (.task co transfer (k (.error .invalidSize)))
  | .future fut k => future s co transfer fut k

/-- The reactor polls the `i`-th wakeup after its future resolved with `r`: the `then`
closure sends `r`, and `run_child` resumes the waiting context with `Resume`. -/
def fire (s : State V) (i : Nat) (r : Except V V) : Option (Except Fault (State V)) :=
  s.wakeups[i]?.bind fun w =>
    if w.after.fut r then
      some (runChild { s with wakeups := s.wakeups.eraseIdx i,
                              oneshots := Function.update s.oneshots w.after.sender (some r) }
        w.context .resume .thread)
    else none

inductive Event (V : Type) where
  | run
  | spawn (builder : Coroutine) (task : Prog V)
  | fire (i : Nat) (r : Except V V)

def step (s : State V) : Event V → Option (Except Fault (State V))
  | .run =>
    match s.running with
    | .task co transfer p => some (runTask s co transfer p)
    | .idle => none
  | .spawn b task =>
    match s.running with
    | .idle => some (spawn s b task (fun _ => .thread) .idle)
    | .task .. => none
  | .fire i r =>
    match s.running with
    | .idle => fire s i r
    | .task .. => none

def State.init (stackOk : Nat → Bool) : State V where
  switch := none
  running := .idle
  wakeups := []
  results := fun _ => none
  oneshots := fun _ => none
  stackAlloc := fun _ => .unused
  nextStack := 0
  nextOneshot := 0
  stackOk := stackOk

inductive Reachable : State V → Prop
  | init (stackOk : Nat → Bool) : Reachable (State.init stackOk)
  | step {s s' : State V} (e : Event V) : Reachable s → step s e = some (.ok s') → Reachable s'

/-- A busy thread: coroutine 0 waits on a wakeup of `future::ok(0)`, and coroutine 1, spawned
from the reactor after it, runs `p`. -/
theorem reachable_busy (p : Prog Nat) : ∃ s : State Nat, Reachable s ∧
    s.running = .task ⟨1, 1, 0⟩ (some .thread) p ∧ s.wakeups ≠ [] :=
  ⟨_, .step (.spawn ⟨0, 0⟩ p) (.step .run (.step (.spawn ⟨0, 0⟩
    (.future (Fut.ok 0) fun _ => .ret 0)) (.init fun _ => true) rfl) rfl) rfl, rfl,
    List.cons_ne_nil _ _⟩

theorem reachable_stuck : ∃ s : State Nat, Reachable s ∧ s.running = .idle ∧
    s.wakeups = [⟨⟨fun _ => false, 0⟩, 0, .future ⟨0, 0, 0⟩ 0 fun _ => .ret 0⟩] ∧
    s.nextStack = 1 ∧ s.results 0 = none :=
  ⟨_, .step .run (.step (.spawn ⟨0, 0⟩ (.future (fun _ => false) fun _ => .ret 0))
    (.init fun _ => true) rfl) rfl, rfl, rfl, rfl, rfl⟩

end Corona.Lib
