import Corona.Contexts.Invariant

/-! # The cooperative scheduler implemented by `CONTEXTS`

As in `lib.rs`, with `reactor` and drops of pending wakeups; the spawners are read off the
parents of the `CONTEXTS` records.
-/
namespace Corona.Contexts

variable {V : Type}

structure Waiter (V : Type) where
  co : Task
  fut : Fut V
  k : Except Dropped (Except V V) → Prog V

/-- The scheduler's state: the coroutine whose code runs, the spawners waiting for it
innermost first, the suspended coroutines in the reactor's order, and the sent results. -/
structure Sched (V : Type) where
  running : Option (Task × Prog V)
  blocked : List (Task × (Except StackError Nat → Prog V))
  suspended : List (Waiter V)
  finished : Nat → Option (TaskResult V)
  next : Nat
  stackOk : Nat → Bool

namespace Sched

def resumeSpawner (n : Nat) :
    List (Task × (Except StackError Nat → Prog V)) →
      Option (Task × Prog V) × List (Task × (Except StackError Nat → Prog V))
  | (sp, k) :: rest => (some (sp, k (.ok n)), rest)
  | [] => (none, [])

def switchOut (a : Sched V) (n : Nat) : Sched V :=
  { a with running := (resumeSpawner n a.blocked).1, blocked := (resumeSpawner n a.blocked).2 }

def wake (a : Sched V) (i : Nat) (w : Waiter V) (o : Except Dropped (Except V V)) : Sched V :=
  { a with running := some (w.co, w.k o), suspended := a.suspended.eraseIdx i }

def step (a : Sched V) : Event V → Option (Sched V)
  | .run =>
    match a.running with
    | some (co, .ret v) =>
      some ({ a with finished := Function.update a.finished co.sender (some (.finished v)) }
        |>.switchOut co.sender)
    | some (co, .panic p) =>
      some ({ a with finished := Function.update a.finished co.sender (some (.panicked p)) }
        |>.switchOut co.sender)
    | some (co, .spawn b q k) =>
      some (if a.stackOk b.stackSize then
          { a with running := some (⟨a.next, a.next, b.handle⟩, q),
                   blocked := (co, k) :: a.blocked, next := a.next + 1 }
        else { a with running := some (co, k (.error .invalidSize)) })
    | some (co, .wait f k) =>
      some ({ a with suspended := a.suspended ++ [Waiter.mk co f k] }.switchOut co.sender)
    | some (co, .reactor k) => some { a with running := some (co, k co.handle) }
    | none => none
  | .spawn b q =>
    match a.running with
    | none => some (if a.stackOk b.stackSize then
        { a with running := some (⟨a.next, a.next, b.handle⟩, q), next := a.next + 1 } else a)
    | some _ => none
  | .fire i r =>
    match a.running with
    | none => a.suspended[i]?.bind fun w => if w.fut r then some (a.wake i w (.ok r)) else none
    | some _ => none
  | .drop i =>
    match a.running with
    | none => a.suspended[i]?.map fun w => a.wake i w (.error .dropped)
    | some _ => none

def init (stackOk : Nat → Bool) : Sched V :=
  ⟨none, [], [], fun _ => none, 0, stackOk⟩

inductive Reachable : Sched V → Prop
  | init (stackOk : Nat → Bool) : Reachable (init stackOk)
  | step {a a' : Sched V} (e : Event V) : Reachable a → step a e = some a' → Reachable a'

end Sched

/-! ## Reading the scheduler off `CONTEXTS` -/

def Context.blocked : Context V → List (Task × (Except StackError Nat → Prog V))
  | .spawn sp k _ => [(sp, k)]
  | _ => []

def blocked (rs : List (CoroutineContext V)) : List (Task × (Except StackError Nat → Prog V)) :=
  rs.flatMap (·.parentContext.blocked)

@[simp] theorem blocked_nil : blocked ([] : List (CoroutineContext V)) = [] := rfl
@[simp] theorem blocked_cons (r : CoroutineContext V) (rs : List (CoroutineContext V)) :
    blocked (r :: rs) = r.parentContext.blocked ++ blocked rs := rfl

def Running.current : Running V → Option (Task × Prog V)
  | .task co p => some (co, p)
  | .idle => none

def WaitTask.waiters (w : WaitTask V) : List (Waiter V) :=
  match w.context with
  | some (.wait co _ _ _ k) => [⟨co, w.poll.fut, k⟩]
  | _ => []

def State.abs (s : State V) : Sched V where
  running := s.running.current
  blocked := blocked s.contexts
  suspended := s.waitTasks.flatMap WaitTask.waiters
  finished := s.results
  next := s.nextStack
  stackOk := s.stackOk

theorem State.abs_init (stackOk : Nat → Bool) :
    (State.init stackOk : State V).abs = Sched.init stackOk := rfl

theorem Nested.returnTo_abs {co : Task} {c : Context V} {rest : List (CoroutineContext V)}
    (h : Nested co (⟨co.handle, c, co.stack⟩ :: rest)) :
    (c.returnTo.current, blocked rest) =
      Sched.resumeSpawner co.sender (c.blocked ++ blocked rest) := by
  cases h <;> rfl

section Refinement

variable {s : State V}

theorem Inv.waiters_length (hs : Inv s) : ∀ w ∈ s.waitTasks, w.waiters.length = 1 := by
  intro w hw
  obtain ⟨co, k, hc⟩ := hs.waitTask w hw
  simp [WaitTask.waiters, hc]

theorem run_refines (hs : Inv s) :
    (step s .run).map (Except.map State.abs) = (Sched.step s.abs .run).map Except.ok := by
  have hsw := hs.switch_none
  cases hr : s.running with
  | idle => simp [step, Sched.step, State.abs, hr, Running.current]
  | task co p =>
    have hn : Nested co s.contexts := by simpa [hr, Running.WellFormed] using hs.running
    obtain ⟨c, rest, hcx, hc, -⟩ := hn.top
    obtain ⟨hcl, hcol, hne⟩ := hs.parent hr hcx hc
    have ha := (hcx ▸ hn).returnTo_abs
    cases p with
    | ret v | panic v =>
      simp [step, runTask, finish_eq hsw hcx hc hcl hcol hne, Sched.step, State.abs, hr, hcx,
        Running.current, Sched.switchOut, ← ha, Except.map]
    | spawn b q k =>
      cases hok : s.stackOk b.stackSize
      · simp [step, runTask, spawn_of_not hok, Sched.step, State.abs, hr, hok, Running.current,
          Except.map]
      · simp [step, runTask, spawn_eq hsw hok, Sched.step, State.abs, hr, hok, Running.current,
          Context.blocked, Except.map]
    | wait f k =>
      simp [step, runTask, wait_eq hsw hcx hc hcl, Sched.step, State.abs, hr, hcx, Running.current,
        Sched.switchOut, ← ha, Except.map, WaitTask.waiters]
    | reactor k =>
      simp [step, runTask, reactor_eq hcx, Sched.step, State.abs, hr, Running.current, bind,
        Except.bind, Except.map]

theorem spawn_refines (hs : Inv s) (b : Coroutine) (q : Prog V) :
    (step s (.spawn b q)).map (Except.map State.abs) =
      (Sched.step s.abs (.spawn b q)).map Except.ok := by
  cases hr : s.running with
  | idle =>
    have hcx : s.contexts = [] := by simpa [hr, Running.WellFormed] using hs.running
    cases hok : s.stackOk b.stackSize
    · simp [step, spawn_of_not hok, Sched.step, State.abs, hr, hok, Running.current, Except.map]
    · simp [step, spawn_eq hs.switch_none hok, Sched.step, State.abs, hr, hcx, hok,
        Running.current, Context.blocked, Except.map]
  | task => simp [step, Sched.step, State.abs, hr, Running.current]

theorem Inv.suspended_getElem? (hs : Inv s) (i : Nat) :
    (s.waitTasks.flatMap WaitTask.waiters)[i]? =
      s.waitTasks[i]?.bind fun w => w.waiters.head? :=
  getElem?_flatMap_of_singleton hs.waiters_length i

theorem fire_refines (hs : Inv s) (i : Nat) (r : Except V V) :
    (step s (.fire i r)).map (Except.map State.abs) =
      (Sched.step s.abs (.fire i r)).map Except.ok := by
  cases hr : s.running with
  | task => simp [step, Sched.step, State.abs, hr, Running.current]
  | idle =>
    have hcx : s.contexts = [] := by simpa [hr, Running.WellFormed] using hs.running
    have hget := hs.suspended_getElem? i
    cases hw : s.waitTasks[i]? with
    | none => simp [step, fire, Sched.step, State.abs, hr, hget, hw, Running.current]
    | some w =>
      obtain ⟨co, k, hctx, hcol⟩ := hs.waitTask_at hw
      obtain ⟨⟨f, slot⟩, ctx, h⟩ := w
      simp only at hctx
      subst hctx
      by_cases hf : f r
      · simp [step, hr, fire_eq hs.switch_none hw hf hcol, Sched.step, Sched.wake, State.abs, hcx,
          hget, hw, hf, WaitTask.waiters, Running.current, Context.blocked, Except.map,
          eraseIdx_flatMap_of_singleton hs.waiters_length]
      · simp [step, fire, Sched.step, State.abs, hr, hget, hw, hf, WaitTask.waiters,
          Running.current]

theorem drop_refines (hs : Inv s) (i : Nat) :
    (step s (.drop i)).map (Except.map State.abs) = (Sched.step s.abs (.drop i)).map Except.ok := by
  cases hr : s.running with
  | task => simp [step, Sched.step, State.abs, hr, Running.current]
  | idle =>
    have hcx : s.contexts = [] := by simpa [hr, Running.WellFormed] using hs.running
    have hget := hs.suspended_getElem? i
    cases hw : s.waitTasks[i]? with
    | none => simp [step, cleanup, Sched.step, State.abs, hr, hget, hw, Running.current]
    | some w =>
      obtain ⟨co, k, hctx, hcol⟩ := hs.waitTask_at hw
      obtain ⟨p, ctx, h⟩ := w
      simp only at hctx
      subst hctx
      simp [step, hr, cleanup_eq hs.switch_none hw hcol, Sched.step, Sched.wake, State.abs, hcx,
        hget, hw, WaitTask.waiters, Running.current, Context.blocked, Except.map,
        eraseIdx_flatMap_of_singleton hs.waiters_length]

theorem step_refines (hs : Inv s) (e : Event V) :
    (step s e).map (Except.map State.abs) = (Sched.step s.abs e).map Except.ok := by
  cases e with
  | run => exact run_refines hs
  | spawn b q => exact spawn_refines hs b q
  | fire i r => exact fire_refines hs i r
  | drop i => exact drop_refines hs i

theorem Reachable.sched_reachable {s : State V} (h : Reachable s) : Sched.Reachable s.abs := by
  induction h with
  | init stackOk => exact State.abs_init stackOk ▸ .init stackOk
  | @step s s' e hs hstep ih =>
    have hr := step_refines hs.inv e
    rw [hstep] at hr
    cases ha : Sched.step s.abs e with
    | none => simp [ha] at hr
    | some a =>
      simp only [ha, Option.map_some', Option.some.injEq, Except.map, Except.ok.injEq] at hr
      exact .step e ih (by rw [ha, hr])

theorem Inv.lift_step {s : State V} (hs : Inv s) {e : Event V} {a' : Sched V}
    (h : Sched.step s.abs e = some a') : ∃ s', step s e = some (.ok s') ∧ s'.abs = a' := by
  have hr := step_refines hs e
  rw [h] at hr
  obtain ⟨r, hstep, hr⟩ := Option.map_eq_some'.mp hr
  cases r with
  | error f => cases hr
  | ok s' => exact ⟨s', hstep, Except.ok.inj hr⟩

/-- Every run of the scheduler is a run of the machine. -/
theorem Sched.Reachable.realized {a : Sched V} (h : Sched.Reachable a) :
    ∃ s : State V, Corona.Contexts.Reachable s ∧ s.abs = a := by
  induction h with
  | init stackOk => exact ⟨_, .init stackOk, State.abs_init stackOk⟩
  | step e _ ha ih =>
    obtain ⟨s, hs, rfl⟩ := ih
    obtain ⟨s', hstep, rfl⟩ := hs.inv.lift_step ha
    exact ⟨s', .step e hs hstep, rfl⟩

end Refinement

/-- `coroutine.rs` implements the cooperative scheduler with cleanup: the abstraction of the
initial state is the scheduler's initial state; the reachable states of the scheduler are
exactly the abstractions of the machine's reachable states; and from every reachable state each
step of the machine is defined exactly when the scheduler's step on the abstraction is, never
faults, and maps to it. -/
theorem contexts_refine_scheduler (stackOk : Nat → Bool) :
    (State.init stackOk : State V).abs = Sched.init stackOk ∧
    (∀ a : Sched V, Sched.Reachable a ↔ ∃ s : State V, Reachable s ∧ s.abs = a) ∧
    ∀ s : State V, Reachable s → ∀ e : Event V,
      (step s e).map (Except.map State.abs) = (Sched.step s.abs e).map Except.ok :=
  ⟨rfl, fun _ => ⟨Sched.Reachable.realized, fun ⟨_, hs, ha⟩ => ha ▸ hs.sched_reachable⟩,
    fun _ h => step_refines h.inv⟩

/-- On a busy thread the abstraction is a state the scheduler reaches, and each step of the
machine is the scheduler's step. -/
theorem contexts_refine_scheduler_busy :
    ∃ s : State Nat, Reachable s ∧ s.running = .task ⟨1, 1, 0⟩ (.ret 1) ∧ s.waitTasks ≠ [] ∧
      Sched.Reachable s.abs ∧ ∀ e : Event Nat,
        (step s e).map (Except.map State.abs) = (Sched.step s.abs e).map Except.ok :=
  let ⟨s, hs, hr, hw⟩ := reachable_busy (.ret 1)
  ⟨s, hs, hr, hw, ((contexts_refine_scheduler fun _ => true).2.1 s.abs).mpr ⟨s, hs, rfl⟩,
    (contexts_refine_scheduler fun _ => true).2.2 s hs⟩

end Corona.Contexts
