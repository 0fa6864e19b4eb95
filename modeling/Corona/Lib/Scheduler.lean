import Corona.Lib.Invariant

/-! # The cooperative scheduler implemented by the switch protocol

One coroutine's code runs at a time; a spawner waits for its child's first suspension, and each
step of the machine from a reachable state is one step of the scheduler.
-/
namespace Corona.Lib

variable {V : Type}

structure Waiter (V : Type) where
  id : Nat
  fut : Fut V
  k : Except V V → Prog V

/-- The scheduler's state: the coroutine whose code runs, the spawners waiting for it
innermost first, the suspended coroutines in the reactor's order, and the sent results. -/
structure Sched (V : Type) where
  running : Option (Nat × Prog V)
  blocked : List (Nat × (Except StackError Nat → Prog V))
  suspended : List (Waiter V)
  finished : Nat → Option (TaskResult V)
  next : Nat
  stackOk : Nat → Bool

namespace Sched

def resumeSpawner (n : Nat) :
    List (Nat × (Except StackError Nat → Prog V)) →
      Option (Nat × Prog V) × List (Nat × (Except StackError Nat → Prog V))
  | (m, k) :: rest => (some (m, k (.ok n)), rest)
  | [] => (none, [])

def switchOut (a : Sched V) (n : Nat) : Sched V :=
  { a with running := (resumeSpawner n a.blocked).1, blocked := (resumeSpawner n a.blocked).2 }

def step (a : Sched V) : Event V → Option (Sched V)
  | .run =>
    match a.running with
    | some (n, .ret v) =>
      some ({ a with finished := Function.update a.finished n (some (.finished v)) }.switchOut n)
    | some (n, .panic p) =>
      some ({ a with finished := Function.update a.finished n (some (.panicked p)) }.switchOut n)
    | some (n, .spawn b q k) =>
      some (if a.stackOk b.stackSize then
          { a with running := some (a.next, q), blocked := (n, k) :: a.blocked, next := a.next + 1 }
        else { a with running := some (n, k (.error .invalidSize)) })
    | some (n, .future f k) =>
      some ({ a with suspended := a.suspended ++ [Waiter.mk n f k] }.switchOut n)
    | none => none
  | .spawn b q =>
    match a.running with
    | none => some (if a.stackOk b.stackSize then
        { a with running := some (a.next, q), next := a.next + 1 } else a)
    | some _ => none
  | .fire i r =>
    match a.running with
    | none => a.suspended[i]?.bind fun w =>
        if w.fut r then
          some { a with running := some (w.id, w.k r), suspended := a.suspended.eraseIdx i }
        else none
    | some _ => none

def init (stackOk : Nat → Bool) : Sched V :=
  ⟨none, [], [], fun _ => none, 0, stackOk⟩

inductive Reachable : Sched V → Prop
  | init (stackOk : Nat → Bool) : Reachable (init stackOk)
  | step {a a' : Sched V} (e : Event V) : Reachable a → step a e = some a' → Reachable a'

end Sched

/-! ## Reading the scheduler off the switch protocol -/

def Context.blocked : Context V → List (Nat × (Except StackError Nat → Prog V))
  | .spawn co (some c) k _ => (co.sender, k) :: c.blocked
  | .spawn co none k _ => [(co.sender, k)]
  | _ => []

def Running.current : Running V → Option (Nat × Prog V)
  | .task co _ p => some (co.sender, p)
  | .idle => none

def Running.blocked : Running V → List (Nat × (Except StackError Nat → Prog V))
  | .task _ (some c) _ => c.blocked
  | _ => []

@[simp] theorem Running.current_task (co : Task) (t : Option (Context V)) (p : Prog V) :
    (Running.task co t p).current = some (co.sender, p) := rfl
@[simp] theorem Running.current_idle : (Running.idle : Running V).current = none := rfl
@[simp] theorem Running.blocked_task (co : Task) (c : Context V) (p : Prog V) :
    (Running.task co (some c) p).blocked = c.blocked := rfl
@[simp] theorem Running.blocked_idle : (Running.idle : Running V).blocked = [] := rfl

def Wakeup.waiters (w : Wakeup V) : List (Waiter V) :=
  match w.context with
  | .future co _ k => [⟨co.sender, w.after.fut, k⟩]
  | _ => []

def State.abs (s : State V) : Sched V where
  running := s.running.current
  blocked := s.running.blocked
  suspended := s.wakeups.flatMap Wakeup.waiters
  finished := s.results
  next := s.nextStack
  stackOk := s.stackOk

theorem Waits.returnTo_abs {n : Nat} {c : Context V} (h : Waits n c) :
    (c.returnTo.current, c.returnTo.blocked) = Sched.resumeSpawner n c.blocked := by
  cases h <;> rfl

theorem State.abs_init (stackOk : Nat → Bool) :
    (State.init stackOk : State V).abs = Sched.init stackOk := rfl

section Refinement

variable {s : State V}

theorem Inv.waiters_length (hs : Inv s) : ∀ w ∈ s.wakeups, w.waiters.length = 1 := by
  intro w hw
  obtain ⟨co, k, hc⟩ := hs.wakeup w hw
  simp [Wakeup.waiters, hc]

theorem run_refines (hs : Inv s) :
    (Corona.Lib.step s .run).map (Except.map State.abs) =
      (Sched.step s.abs .run).map Except.ok := by
  have hsw := hs.switch_none
  cases hr : s.running with
  | idle => simp [Corona.Lib.step, Sched.step, State.abs, hr]
  | task co t p =>
    obtain ⟨c, rfl, hc⟩ : ∃ c, t = some c ∧ Waits co.sender c := by
      simpa [hr, Running.WellFormed] using hs.running
    obtain ⟨hcl, hcol, hne⟩ := hs.parent hr hc
    have ha := hc.returnTo_abs
    cases p with
    | ret v | panic v =>
      simp [Corona.Lib.step, Corona.Lib.runTask, finish_eq hsw hc hcl hcol hne, Sched.step, State.abs, hr,
        Sched.switchOut, ← ha, Except.map]
    | spawn b q k =>
      cases hok : s.stackOk b.stackSize
      · simp [Corona.Lib.step, Corona.Lib.runTask, spawn_of_not hok, Sched.step, State.abs, hr, hok,
          Except.map]
      · simp [Corona.Lib.step, Corona.Lib.runTask, spawn_eq hsw hok, Sched.step, State.abs, hr, hok,
          Context.blocked, Except.map]
    | future f k =>
      simp [Corona.Lib.step, Corona.Lib.runTask, future_eq hsw hc hcl, Sched.step, State.abs, hr,
        Sched.switchOut, ← ha, Except.map, Wakeup.waiters]

theorem spawn_refines (hs : Inv s) (b : Coroutine) (q : Prog V) :
    (Corona.Lib.step s (.spawn b q)).map (Except.map State.abs) =
      (Sched.step s.abs (.spawn b q)).map Except.ok := by
  cases hr : s.running with
  | idle =>
    cases hok : s.stackOk b.stackSize
    · simp [Corona.Lib.step, spawn_of_not hok, Sched.step, State.abs, hr, hok, Except.map]
    · simp [Corona.Lib.step, spawn_eq hs.switch_none hok, Sched.step, State.abs, hr, hok,
        Context.blocked, Except.map]
  | task => simp [Corona.Lib.step, Sched.step, State.abs, hr]

theorem fire_refines (hs : Inv s) (i : Nat) (r : Except V V) :
    (Corona.Lib.step s (.fire i r)).map (Except.map State.abs) =
      (Sched.step s.abs (.fire i r)).map Except.ok := by
  cases hr : s.running with
  | task => simp [Corona.Lib.step, Sched.step, State.abs, hr]
  | idle =>
    have hget := getElem?_flatMap_of_singleton hs.waiters_length i
    cases hw : s.wakeups[i]? with
    | none => simp [Corona.Lib.step, Sched.step, State.abs, hr, hget, hw, Corona.Lib.fire]
    | some w =>
      obtain ⟨co, k, hctx⟩ := hs.wakeup w (List.getElem?_mem hw)
      obtain ⟨⟨f, rx⟩, hh, ctx⟩ := w
      simp only at hctx
      subst hctx
      have hcol : s.stackAlloc co.stack = .live := by
        refine (hs.ledger.live co ?_).2.2.1
        simp only [State.tasks, hr, Running.tasks, List.nil_append, State.suspended]
        exact List.mem_flatMap.mpr ⟨_, List.getElem?_mem hw, by simp [Context.tasks]⟩
      by_cases hf : f r
      · simp [Corona.Lib.step, hr, fire_eq hs.switch_none hw hf hcol, Sched.step, State.abs,
          hget, hw, hf, Wakeup.waiters, Except.map, Context.blocked,
          eraseIdx_flatMap_of_singleton hs.waiters_length]
      · simp [Corona.Lib.step, Sched.step, State.abs, hr, hget, hw, Corona.Lib.fire, hf, Wakeup.waiters]

theorem step_refines (hs : Inv s) (e : Event V) :
    (Corona.Lib.step s e).map (Except.map State.abs) = (Sched.step s.abs e).map Except.ok := by
  cases e with
  | run => exact run_refines hs
  | spawn b q => exact spawn_refines hs b q
  | fire i r => exact fire_refines hs i r

end Refinement

/-- Eager cooperative semantics: the abstraction of the initial state is the scheduler's
initial state, and from every reachable state each step of the switch protocol is defined
exactly when the scheduler's step on the abstraction is, never faults, and maps to it. -/
theorem switch_protocol_refines_scheduler (stackOk : Nat → Bool) :
    (State.init stackOk : State V).abs = Sched.init stackOk ∧
    ∀ s : State V, Reachable s → ∀ e : Event V,
      (step s e).map (Except.map State.abs) = (Sched.step s.abs e).map Except.ok := by
  exact ⟨rfl, fun s h e => step_refines h.inv e⟩

/-- On a busy thread each step of the switch protocol is the scheduler's step. -/
theorem switch_protocol_refines_scheduler_busy :
    (State.init fun _ => true : State Nat).abs = Sched.init (fun _ => true) ∧
      ∃ s : State Nat, Reachable s ∧ s.running = .task ⟨1, 1, 0⟩ (some .thread) (.ret 1) ∧
        s.wakeups ≠ [] ∧ ∀ e : Event Nat,
          (step s e).map (Except.map State.abs) = (Sched.step s.abs e).map Except.ok :=
  let ⟨s, hs, hr, hw⟩ := reachable_busy (.ret 1)
  ⟨(switch_protocol_refines_scheduler fun _ => true).1, s, hs, hr, hw,
    (switch_protocol_refines_scheduler fun _ => true).2 s hs⟩

theorem Reachable.abs_reachable {s : State V} (h : Reachable s) : Sched.Reachable s.abs := by
  induction h with
  | init stackOk => exact State.abs_init stackOk ▸ .init stackOk
  | @step s s' e hs hstep ih =>
    have hr := step_refines hs.inv e
    rw [hstep] at hr
    cases ha : Sched.step s.abs e with
    | none => simp [ha] at hr
    | some a =>
      simp only [ha, Option.map_some', Option.some.injEq, Except.map, Except.ok.injEq] at hr
      exact .step e ih (by rw [ha, hr])

/-- A step of the scheduler from the abstraction of a machine state is taken by the machine. -/
theorem Inv.lift_step {s : State V} (hs : Inv s) {e : Event V} {a' : Sched V}
    (h : Sched.step s.abs e = some a') : ∃ s', step s e = some (.ok s') ∧ s'.abs = a' := by
  have hr := step_refines hs e
  rw [h] at hr
  obtain ⟨r, hstep, hr⟩ := Option.map_eq_some'.mp hr
  cases r with
  | error f => cases hr
  | ok s' => exact ⟨s', hstep, Except.ok.inj hr⟩

/-- Every run of the scheduler is a run of the switch protocol: each reachable scheduler state
is the abstraction of a reachable state. -/
theorem Sched.Reachable.realized {a : Sched V} (h : Sched.Reachable a) :
    ∃ s : State V, Corona.Lib.Reachable s ∧ s.abs = a := by
  induction h with
  | init stackOk => exact ⟨_, .init stackOk, State.abs_init stackOk⟩
  | step e _ ha ih =>
    obtain ⟨s, hs, rfl⟩ := ih
    obtain ⟨s', hstep, rfl⟩ := hs.inv.lift_step ha
    exact ⟨s', .step e hs hstep, rfl⟩

/-- The runs of the scheduler are exactly the abstractions of the runs of the switch
protocol. -/
theorem scheduler_runs_exact {a : Sched V} :
    Sched.Reachable a ↔ ∃ s : State V, Reachable s ∧ s.abs = a :=
  ⟨Sched.Reachable.realized, fun ⟨_, hs, ha⟩ => ha ▸ hs.abs_reachable⟩

/-- The abstraction of a busy thread, with a coroutine running and one suspended, is a state
the scheduler reaches. -/
theorem scheduler_runs_exact_busy :
    ∃ s : State Nat, Reachable s ∧ s.running = .task ⟨1, 1, 0⟩ (some .thread) (.ret 1) ∧
      s.wakeups ≠ [] ∧ Sched.Reachable s.abs :=
  let ⟨s, hs, hr, hw⟩ := reachable_busy (.ret 1)
  ⟨s, hs, hr, hw, scheduler_runs_exact.mpr ⟨s, hs, rfl⟩⟩

end Corona.Lib
