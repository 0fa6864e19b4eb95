import Corona.Ledger

/-! # The context-switch machine of `coroutine.rs`

Contexts are modelled as in `lib.rs`. The module `switch` it imports is not among the sources:
it is modelled from the specification, with the texts of its panics taken from `lib.rs`.
-/
namespace Corona.Contexts

variable {V : Type}

inductive Dropped where
  | dropped
  deriving DecidableEq, Repr

inductive Prog (V : Type) where
  | ret (v : V)
  | panic (payload : V)
  | spawn (builder : Coroutine) (task : Prog V) (k : Except StackError Nat → Prog V)
  | wait (fut : Fut V) (k : Except Dropped (Except V V) → Prog V)
  | reactor (k : Nat → Prog V)

def Prog.result : Prog V → Option (TaskResult V)
  | .ret v => some (.finished v)
  | .panic p => some (.panicked p)
  | _ => none

/-- A suspended context, as the code that runs when it is resumed. `thread` is `run_child`
called by the thread; `spawn co k n` is `run_child` inside `Coroutine::spawn` called by the
task `co`, which goes on with `k` once the child `n` switches back; `wait co stack handle slot k`
is `Coroutine::wait` holding the popped record's stack and handle and the result slot. -/
inductive Context (V : Type) where
  | entry (stack : Nat)
  | thread
  | spawn (co : Task) (k : Except StackError Nat → Prog V) (receiver : Nat)
  | wait (co : Task) (stack handle slot : Nat) (k : Except Dropped (Except V V) → Prog V)
  | terminated (stack : Nat)

def Context.stack : Context V → Option Nat
  | .entry n => some n
  | .thread => none
  | .spawn co .. => some co.stack
  | .wait co .. => some co.stack
  | .terminated n => some n

structure CoroutineContext (V : Type) where
  handle : Nat
  parentContext : Context V
  stack : Nat

structure Perform (V : Type) where
  task : Prog V
  sender : Nat
  handle : Nat

structure Poll (V : Type) where
  fut : Fut V
  slot : Nat

/-- Modelled from the spec: `switch::WaitTask`, the future put on the reactor for a waiting
coroutine, with the poll wrapper, the waiting context once `run_child` stored it, and the
reactor handle. -/
structure WaitTask (V : Type) where
  poll : Poll V
  context : Option (Context V)
  handle : Nat

/-- Modelled from the spec: `switch::Switch`, the instruction sent along each context switch. -/
inductive Switch (V : Type) where
  | startTask (stack : Nat) (task : Perform V)
  | waitFuture (task : WaitTask V)
  | resume
  | cleanup
  | destroy (stack : Nat)

inductive Running (V : Type) where
  | idle
  | task (co : Task) (prog : Prog V)

structure State (V : Type) where
  switch : Option (Switch V)
  contexts : List (CoroutineContext V)
  running : Running V
  waitTasks : List (WaitTask V)
  results : Nat → Option (TaskResult V)
  slots : Nat → Option (Except V V)
  stackAlloc : Nat → StackState
  nextStack : Nat
  nextSlot : Nat
  stackOk : Nat → Bool

inductive Fault where
  | leftoverSwitch
  | missingSwitch
  | invalidEntry
  | invalidWakeup
  | invalidSwitchOut
  | wokenAfterTermination
  | contextsEmpty
  | waitOutside
  | reactorOutside
  | resultMissing
  | contextMissing
  | useAfterFree
  | freeInUse
  deriving DecidableEq, Repr

def Fault.message : Fault → String
  | .leftoverSwitch => "Leftover switch instruction"
  | .missingSwitch => "Missing switch instruction"
  | .invalidEntry => "Invalid switch instruction on coroutine entry"
  | .invalidWakeup => "Invalid instruction on wakeup"
  | .invalidSwitchOut => "Invalid switch instruction when switching out"
  | .wokenAfterTermination => "Woken up after termination!"
  | .contextsEmpty | .resultMissing | .contextMissing =>
    "called `Option::unwrap()` on a `None` value"
  | .waitOutside => "Can't wait outside of a coroutine"
  | .reactorOutside => "Can't get reactor handle outside of a coroutine"
  | .useAfterFree => "resumed a context whose stack is freed"
  | .freeInUse => "dropped a stack that is not live or that control runs on"

namespace Switch

/-- Modelled from the spec: `Switch::put`. -/
def put (sw : Switch V) : Option (Switch V) → Except Fault (Option (Switch V))
  | none => .ok (some sw)
  | some _ => .error .leftoverSwitch

/-- Modelled from the spec: `Switch::get`; the slot is empty afterwards. -/
def get : Option (Switch V) → Except Fault (Switch V)
  | some sw => .ok sw
  | none => .error .missingSwitch

end Switch

def Context.returnTo : Context V → Running V
  | .spawn co k n => .task co (k (.ok n))
  | _ => .idle

def reactor (s : State V) : Except Fault Nat :=
  match s.contexts with
  | my :: _ => .ok my.handle
  | [] => .error .reactorOutside

/-- Modelled from the spec: `coroutine` up to the task. It takes `StartTask`; then `perform`
pushes the coroutine's record, with the context that resumed it as parent, and runs the task
under `catch_unwind`. -/
def coroutine (s : State V) (transfer : Context V) : Except Fault (State V) := do
  match ← Switch.get s.switch with
  | .startTask stack task =>
    .ok { s with switch := none, contexts := ⟨task.handle, transfer, stack⟩ :: s.contexts,
                 running := .task ⟨task.sender, stack, task.handle⟩ task.task }
  | _ => .error .invalidEntry

/-- Modelled from the spec: `Switch::run_child` after the child switched back with
`transfer`, running on `here`. It destroys a finished child, or stores a waiting one's
context in its `WaitTask` and spawns that on the reactor; then it returns to `ret`. -/
def runChildRest (s : State V) (ret : Running V) (here : Option Nat) (transfer : Context V) :
    Except Fault (State V) := do
  match ← Switch.get s.switch with
  | .destroy stack =>
    let stackAlloc ← dropStack .freeInUse s.stackAlloc stack here
    .ok { s with switch := none, stackAlloc := stackAlloc, running := ret }
  | .waitFuture task =>
    .ok { s with switch := none, waitTasks := s.waitTasks ++ [{ task with context := some transfer }],
                 running := ret }
  | _ => .error .invalidSwitchOut

def waitRest (s : State V) (co : Task) (stack handle slot : Nat)
    (k : Except Dropped (Except V V) → Prog V) (transfer : Context V) : Except Fault (State V) := do
  let reply ← Switch.get s.switch
  let s := { s with switch := none, contexts := ⟨handle, transfer, stack⟩ :: s.contexts }
  match reply with
  | .resume =>
    match s.slots slot with
    | some r => .ok { s with running := .task co (k (.ok r)) }
    | none => .error .resultMissing
  | .cleanup => .ok { s with running := .task co (k (.error .dropped)) }
  | _ => .error .invalidWakeup

def resume (s : State V) (target transfer : Context V) : Except Fault (State V) :=
  if target.stack.all (s.stackAlloc · = .live) then
    match target with
    | .entry _ => coroutine s transfer
    | .thread => runChildRest s .idle none transfer
    | .spawn co k n => runChildRest s (.task co (k (.ok n))) (some co.stack) transfer
    | .wait co stack handle slot k => waitRest s co stack handle slot k transfer
    | .terminated _ => .error .wokenAfterTermination
  else .error .useAfterFree

/-- Modelled from the spec: `Switch::exchange` up to its switch, as `run_child` uses it: put
the instruction and resume `context`, leaving the caller's code as `here`. -/
def runChild (s : State V) (context : Context V) (switch : Switch V) (here : Context V) :
    Except Fault (State V) := do
  let slot ← switch.put s.switch
  resume { s with switch := slot } context here

def spawn (s : State V) (b : Coroutine) (task : Prog V) (here : Nat → Context V)
    (failed : Running V) : Except Fault (State V) :=
  if s.stackOk b.stackSize then
    let n := s.nextStack
    runChild { s with nextStack := n + 1, stackAlloc := Function.update s.stackAlloc n .live }
      (.entry n) (.startTask n ⟨task, n, b.handle⟩) (here n)
  else .ok { s with running := failed }

def wait (s : State V) (co : Task) (fut : Fut V) (k : Except Dropped (Except V V) → Prog V) :
    Except Fault (State V) := do
  match s.contexts with
  | my :: rest =>
    let slot := s.nextSlot
    let sw ← (Switch.waitFuture ⟨⟨fut, slot⟩, none, my.handle⟩).put s.switch
    resume { s with contexts := rest, nextSlot := slot + 1,
                    slots := Function.update s.slots slot none, switch := sw }
      my.parentContext (.wait co my.stack my.handle slot k)
  | [] => .error .waitOutside

def finish (s : State V) (co : Task) (r : TaskResult V) : Except Fault (State V) := do
  let s := { s with results := Function.update s.results co.sender (some r) }
  match s.contexts with
  | my :: rest =>
    let sw ← (Switch.destroy my.stack).put s.switch
    resume { s with contexts := rest, switch := sw } my.parentContext (.terminated my.stack)
  | [] => .error .contextsEmpty

def runTask (s : State V) (co : Task) : Prog V → Except Fault (State V)
  | .ret v => finish s co (.finished v)
  | .panic p => finish s co (.panicked p)
  | .spawn b task k => spawn s b task (.spawn co k) (.task co (k (.error .invalidSize)))
  | .wait fut k => wait s co fut k
  | .reactor k => do .ok { s with running := .task co (k (← reactor s)) }

/-- Modelled from the spec: the reactor polls the `i`-th `WaitTask` after its future resolved
with `r`. The poll wrapper writes `r` into the result slot and reports ready; `WaitTask::poll`
then takes the context and runs it with `Resume`. -/
def fire (s : State V) (i : Nat) (r : Except V V) : Option (Except Fault (State V)) :=
  s.waitTasks[i]?.bind fun w =>
    if w.poll.fut r then
      some (match w.context with
        | some c =>
          runChild { s with waitTasks := s.waitTasks.eraseIdx i,
                            slots := Function.update s.slots w.poll.slot (some r) }
            c .resume .thread
        | none => .error .contextMissing)
    else none

/-- Modelled from the spec: the reactor is dropped while the `i`-th `WaitTask` is pending; its
`Drop` runs the waiting context with `Cleanup`. -/
def cleanup (s : State V) (i : Nat) : Option (Except Fault (State V)) :=
  s.waitTasks[i]?.map fun w =>
    match w.context with
    | some c => runChild { s with waitTasks := s.waitTasks.eraseIdx i } c .cleanup .thread
    | none => .ok { s with waitTasks := s.waitTasks.eraseIdx i }

inductive Event (V : Type) where
  | run
  | spawn (builder : Coroutine) (task : Prog V)
  | fire (i : Nat) (r : Except V V)
  | drop (i : Nat)

def step (s : State V) : Event V → Option (Except Fault (State V))
  | .run =>
    match s.running with
    | .task co p => some (runTask s co p)
    | .idle => none
  | .spawn b task =>
    match s.running with
    | .idle => some (spawn s b task (fun _ => .thread) .idle)
    | .task .. => none
  | .fire i r =>
    match s.running with
    | .idle => fire s i r
    | .task .. => none
  | .drop i =>
    match s.running with
    | .idle => cleanup s i
    | .task .. => none

def State.init (stackOk : Nat → Bool) : State V where
  switch := none
  contexts := []
  running := .idle
  waitTasks := []
  results := fun _ => none
  slots := fun _ => none
  stackAlloc := fun _ => .unused
  nextStack := 0
  nextSlot := 0
  stackOk := stackOk

inductive Reachable : State V → Prop
  | init (stackOk : Nat → Bool) : Reachable (State.init stackOk)
  | step {s s' : State V} (e : Event V) : Reachable s → step s e = some (.ok s') → Reachable s'

/-- A busy thread: coroutine 0 waits on a `WaitTask` of `future::ok(0)`, and coroutine 1,
spawned from the reactor after it, runs `p`. -/
theorem reachable_busy (p : Prog Nat) : ∃ s : State Nat, Reachable s ∧
    s.running = .task ⟨1, 1, 0⟩ p ∧ s.waitTasks ≠ [] :=
  ⟨_, .step (.spawn ⟨0, 0⟩ p) (.step .run (.step (.spawn ⟨0, 0⟩
    (.wait (Fut.ok 0) fun _ => .ret 0)) (.init fun _ => true) rfl) rfl) rfl, rfl,
    List.cons_ne_nil _ _⟩

theorem reachable_stuck : ∃ s : State Nat, Reachable s ∧ s.running = .idle ∧ s.contexts = [] ∧
    s.waitTasks = [⟨⟨fun _ => false, 0⟩, some (.wait ⟨0, 0, 0⟩ 0 0 0 fun _ => .ret 0), 0⟩] ∧
    s.nextStack = 1 ∧ s.results 0 = none :=
  ⟨_, .step .run (.step (.spawn ⟨0, 0⟩ (.wait (fun _ => false) fun _ => .ret 0))
    (.init fun _ => true) rfl) rfl, rfl, rfl, rfl, rfl, rfl⟩

theorem reachable_ended : ∃ s : State Nat, Reachable s ∧ s.running = .idle ∧ s.waitTasks = [] ∧
    s.nextStack = 1 :=
  ⟨_, .step .run (.step (.spawn ⟨0, 0⟩ (.ret 0)) (.init fun _ => true) rfl) rfl, rfl, rfl, rfl⟩

end Corona.Contexts
