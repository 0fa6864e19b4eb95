import Corona.Contexts.Scheduler
import Corona.Work

/-! # Runs of `coroutine.rs` end, shutdown is clean, and waits stop only on futures with no outcome

Dropping the pending `WaitTask`s always runs everything to its end; without a drop, task steps
and wakeups stop only where every coroutine has ended or waits on an unresolved future.
-/
namespace Corona.Contexts

variable {V : Type}

/-! ## Pending work in the scheduler -/

def Prog.parts : Prog V → List (Work (Prog V))
  | .spawn _ q k => [.prog q, .cont k]
  | .wait _ k => [.cont k]
  | .reactor k => [.cont k]
  | .ret _ | .panic _ => []

theorem Prog.acc (p : Prog V) : Acc (Work.Part Prog.parts) (.prog p) := by
  induction p with
  | ret v | panic v => exact Work.acc_prog (by simp [Prog.parts])
  | spawn b q k ihq ihk => exact Work.acc_prog (by simp [Prog.parts, ihq, Work.acc_cont ihk])
  | wait f k ih | reactor k ih => exact Work.acc_prog (by simp [Prog.parts, Work.acc_cont ih])

def Sched.waiting (a : Sched V) : Multiset (Work (Prog V)) :=
  ↑(a.blocked.map fun x => Work.cont x.2) + ↑(a.suspended.map fun w => Work.cont w.k)

def Sched.work (a : Sched V) : Multiset (Work (Prog V)) :=
  ↑(a.running.toList.map fun x => Work.prog x.2) + a.waiting

section Descent

variable {a a' : Sched V}

theorem Sched.work_running {co : Task} {p : Prog V} (hr : a.running = some (co, p)) :
    a.work = .prog p ::ₘ a.waiting := by
  simp [Sched.work, hr]

theorem Sched.switchOut_work (n : Nat) :
    Relation.ReflTransGen (Relation.CutExpand (Work.Below Prog.parts)) (a.switchOut n).work
      a.waiting := by
  cases hb : a.blocked <;>
    simpa [Sched.switchOut, Sched.resumeSpawner, Sched.work, Sched.waiting, hb] using
      (Work.resume_first a.blocked (.ok n) ↑(a.suspended.map fun w => Work.cont w.k) :
        Relation.ReflTransGen (Relation.CutExpand (Work.Below Prog.parts)) _ _)

theorem Sched.wake_work {i : Nat} {w : Waiter V} (hr : a.running = none)
    (hw : a.suspended[i]? = some w) (o : Except Dropped (Except V V)) :
    Relation.CutExpand (Work.Below Prog.parts) (a.wake i w o).work a.work := by
  simpa [Sched.work, Sched.waiting, Sched.wake, hr] using
    Work.take_at (fun w : Waiter V => Work.cont w.k) hw
      (Work.below_cont o : Work.Below Prog.parts _ (.cont w.k))
      ↑(a.blocked.map fun x => Work.cont x.2)

theorem Sched.step_shrinks {e : Event V} (he : ∀ b q, e ≠ .spawn b q) (h : a.step e = some a') :
    Work.Shrinks Prog.parts a'.work a.work := by
  cases e with
  | spawn b q => exact absurd rfl (he b q)
  | run =>
    cases hr : a.running with
    | none => simp [Sched.step, hr] at h
    | some x =>
      obtain ⟨co, p⟩ := x
      rw [Sched.work_running hr]
      cases p with
      | ret v | panic v =>
        simp only [Sched.step, hr, Option.some.injEq] at h
        subst h
        exact .tail' (Sched.switchOut_work _) (Work.remove _ _)
      | spawn b q k =>
        simp only [Sched.step, hr, Option.some.injEq] at h
        subst h
        split_ifs
        · have hq : Work.Below Prog.parts (.prog q) (.prog (.spawn b q k)) :=
            Work.below_part (by simp [Prog.parts])
          have hk : Work.Below Prog.parts (.cont k) (.prog (.spawn b q k)) :=
            Work.below_part (by simp [Prog.parts])
          refine .single ?_
          simpa [Sched.work, Sched.waiting] using
            Work.replace (t := {.prog q, .cont k}) (by simp [hq, hk]) a.waiting
        · have hk : Work.Below Prog.parts (.prog (k (.error .invalidSize)))
              (.prog (.spawn b q k)) := Work.below_apply (by simp [Prog.parts]) _
          exact .single (by simpa [Sched.work] using Work.replace_one hk a.waiting)
      | wait f k =>
        simp only [Sched.step, hr, Option.some.injEq] at h
        subst h
        have hk : Work.Below Prog.parts (.cont k) (.prog (.wait f k)) :=
          Work.below_part (by simp [Prog.parts])
        refine .tail' (Sched.switchOut_work _) ?_
        have h := Work.replace_one hk a.waiting
        simp only [Sched.waiting, List.map_append, List.map_cons, List.map_nil, ← Multiset.coe_add,
          ← Multiset.cons_coe, Multiset.coe_nil, Multiset.add_cons, Multiset.cons_add,
          add_zero] at h ⊢
        exact h
      | reactor k =>
        simp only [Sched.step, hr, Option.some.injEq] at h
        subst h
        have hk : Work.Below Prog.parts (.prog (k co.handle)) (.prog (.reactor k)) :=
          Work.below_apply (by simp [Prog.parts]) _
        exact .single (by simpa [Sched.work] using Work.replace_one hk a.waiting)
  | fire i r =>
    cases hr : a.running with
    | some => simp [Sched.step, hr] at h
    | none =>
      simp only [Sched.step, hr] at h
      obtain ⟨w, hw, h⟩ := Option.bind_eq_some.mp h
      split_ifs at h
      cases h
      exact .single (Sched.wake_work hr hw _)
  | drop i =>
    cases hr : a.running with
    | some => simp [Sched.step, hr] at h
    | none =>
      simp only [Sched.step, hr] at h
      obtain ⟨w, hw, rfl⟩ := Option.map_eq_some'.mp h
      exact .single (Sched.wake_work hr hw _)

end Descent

/-! ## Runs of the machine -/

section Runs

variable {s s' : State V}

theorem Inv.sched_step (hs : Inv s) {e : Event V} (h : step s e = some (.ok s')) :
    Sched.step s.abs e = some s'.abs :=
  some_of_map_ok (step_refines hs e) h

/-- Every run of `coroutine.rs` in which the reactor spawns nothing new is finite: from
reachable states, steps that are a task's call, a wakeup or the drop of a `WaitTask` cannot go
on for ever. -/
theorem runs_finite :
    WellFounded fun s' s : State V =>
      Reachable s ∧ ∃ e : Event V, (∀ b q, e ≠ .spawn b q) ∧ step s e = some (.ok s') :=
  Subrelation.wf (fun ⟨hs, _, he, h⟩ => Sched.step_shrinks he (hs.inv.sched_step h))
    (InvImage.wf (fun s : State V => s.abs.work) (Work.shrinks_wf Prog.acc))

/-- A step of shutting the reactor down: a task's next call, or the drop of a pending
`WaitTask`. -/
def ShutdownStep (s s' : State V) : Prop :=
  step s .run = some (.ok s') ∨ ∃ i, step s (.drop i) = some (.ok s')

/-- The thread once everything has ended: the reactor has control, no `WaitTask` is pending,
`CONTEXTS` is empty, and every coroutine spawned has sent its result and had its stack
freed. -/
structure Finished (s : State V) : Prop where
  idle : s.running = .idle
  noWaitTasks : s.waitTasks = []
  noContexts : s.contexts = []
  ended : ∀ n < s.nextStack, s.stackAlloc n = .freed ∧ (s.results n).isSome

theorem Inv.finished (hs : Inv s) (hr : s.running = .idle) (hw : s.waitTasks = []) :
    Finished s := by
  have hcx : s.contexts = [] := by simpa [hr, Running.WellFormed] using hs.running
  have ht : s.tasks = [] := by simp [State.tasks, State.suspended, hr, hcx, hw]
  exact ⟨hr, hw, hcx, fun n hn => hs.ledger.ended n hn (by simp [ht])⟩

/-- Unless everything has ended, a shutdown step is possible: the running task's next call,
or else the drop of the first pending `WaitTask`. -/
theorem Inv.shutdown_progress (hs : Inv s) : Finished s ∨ ∃ s', ShutdownStep s s' := by
  cases hr : s.running with
  | task co p =>
    obtain ⟨s', h, -⟩ := runTask_inv hs hr
    exact .inr ⟨s', .inl (by simp [step, hr, h])⟩
  | idle =>
    cases hw : s.waitTasks with
    | nil => exact .inl (hs.finished hr hw)
    | cons w ws =>
      rcases cleanup_inv 0 hs hr with hn | ⟨s', h, -⟩
      · simp [cleanup, hw] at hn
      · exact .inr ⟨s', .inr ⟨0, by simp [step, hr, h]⟩⟩

theorem ShutdownStep.internal (h : ShutdownStep s s') :
    ∃ e : Event V, (∀ b q, e ≠ .spawn b q) ∧ step s e = some (.ok s') := by
  rcases h with h | ⟨i, h⟩
  · exact ⟨.run, nofun, h⟩
  · exact ⟨.drop i, nofun, h⟩

end Runs

/-- Shutting the reactor down always ends cleanly. From every reachable state, dropping the
pending `WaitTask`s and running the tasks this resumes reaches a state where every coroutine
has finished, with its result sent and its stack freed; and a reachable state from which no
such step is possible is one. -/
theorem clean_shutdown :
    (∀ s : State V, Reachable s →
      ∃ s', Relation.ReflTransGen ShutdownStep s s' ∧ Finished s') ∧
    ∀ s : State V, Reachable s → (∀ s', ¬ ShutdownStep s s') → Finished s :=
  ⟨exists_run_to (fun _ _ hs h => let ⟨e, _, he⟩ := h.internal; .step e hs he)
      (Subrelation.wf (fun ⟨hs, h⟩ => ⟨hs, h.internal⟩) runs_finite)
      (fun _ hs => hs.inv.shutdown_progress),
    fun _ hs hno => hs.inv.shutdown_progress.resolve_right fun ⟨s', h⟩ => hno s' h⟩

/-- From a busy thread, shutting the reactor down runs everything to its end; and a thread
where one coroutine has returned and nothing is pending is finished. -/
theorem clean_shutdown_busy :
    (∃ s : State Nat, Reachable s ∧ s.running = .task ⟨1, 1, 0⟩ (.ret 1) ∧ s.waitTasks ≠ [] ∧
      ∃ s', Relation.ReflTransGen ShutdownStep s s' ∧ Finished s') ∧
    ∃ s : State Nat, Reachable s ∧ s.nextStack = 1 ∧ (∀ s', ¬ ShutdownStep s s') ∧ Finished s := by
  obtain ⟨s, hs, hr, hw⟩ := reachable_busy (.ret 1)
  obtain ⟨t, ht, htr, htw, htn⟩ := reachable_ended
  have hno : ∀ t', ¬ ShutdownStep t t' := by
    rintro t' (h | ⟨i, h⟩) <;> simp [step, htr, cleanup, htw] at h
  exact ⟨⟨s, hs, hr, hw, clean_shutdown.1 s hs⟩,
    t, ht, htn, hno, clean_shutdown.2 t ht hno⟩

/-! ## Waits stop only on futures with no outcome -/

section Completion

variable {s s' : State V}

def CompletionStep (s s' : State V) : Prop :=
  step s .run = some (.ok s') ∨ ∃ i r, step s (.fire i r) = some (.ok s')

theorem CompletionStep.internal (h : CompletionStep s s') :
    ∃ e : Event V, (∀ b q, e ≠ .spawn b q) ∧ step s e = some (.ok s') := by
  rcases h with h | ⟨i, r, h⟩
  · exact ⟨.run, nofun, h⟩
  · exact ⟨.fire i r, nofun, h⟩

/-- Where no task step and no wakeup is possible, the reactor has control, `CONTEXTS` is empty,
and no pending `WaitTask`'s future has an outcome. -/
theorem Inv.stuck (hs : Inv s) (hno : ∀ s', ¬ CompletionStep s s') :
    s.running = .idle ∧ s.contexts = [] ∧ ∀ w ∈ s.waitTasks, ∀ r, w.poll.fut r = false := by
  have hr : s.running = .idle := by
    cases hr : s.running with
    | idle => rfl
    | task co p =>
      obtain ⟨s', h, -⟩ := runTask_inv hs hr
      exact absurd (.inl (by simp [step, hr, h])) (hno s')
  refine ⟨hr, by simpa [hr, Running.WellFormed] using hs.running, fun w hw r => ?_⟩
  obtain ⟨i, hi⟩ := List.mem_iff_getElem?.mp hw
  rcases fire_inv i r hs hr with hn | ⟨s', h, -⟩
  · obtain ⟨co, k, hctx, -⟩ := hs.waitTask_at hi
    obtain ⟨⟨f, slot⟩, ctx, hh⟩ := w
    simp only at hctx ⊢
    subst hctx
    simpa [fire, hi] using hn
  · exact absurd (.inr ⟨i, r, by simp [step, hr, h]⟩) (hno s')

theorem Inv.ended_or_waiting (hs : Inv s) (hr : s.running = .idle) {n : Nat}
    (hn : n < s.nextStack) : (s.stackAlloc n = .freed ∧ (s.results n).isSome) ∨
      ∃ w ∈ s.waitTasks, ∃ co k,
        w.context = some (.wait co co.stack co.handle w.poll.slot k) ∧ co.stack = n := by
  by_cases hm : n ∈ s.tasks.map Task.stack
  · have hcx : s.contexts = [] := by simpa [hr, Running.WellFormed] using hs.running
    obtain ⟨co, hco, rfl⟩ := List.mem_map.mp hm
    simp only [State.tasks, State.suspended, hr, hcx, Running.tasks, chain_nil, List.nil_append,
      List.mem_flatMap] at hco
    obtain ⟨w, hw, hco⟩ := hco
    obtain ⟨co', k, hctx⟩ := hs.waitTask w hw
    simp only [WaitTask.tasks, hctx, Option.map_some', Option.getD_some, Context.tasks,
      List.mem_singleton] at hco
    exact .inr ⟨w, hw, co', k, hctx, by rw [hco]⟩
  · exact .inl (hs.ledger.ended n hn hm)

end Completion

/-- Task steps and wakeups of `coroutine.rs` never go on for ever, and without a drop they stop
only on futures with no outcome. Where no task step and no wakeup is possible, the reactor has
control, `CONTEXTS` is empty, no pending `WaitTask`'s future has an outcome, and every coroutine
spawned has ended, with its result sent and its stack freed, or waits on one of those
`WaitTask`s. So a stuck state whose pending futures all have an outcome is one where everything
has ended, with no coroutine having seen `Err(Dropped)`. -/
theorem stuck_only_on_unresolved_waits :
    (WellFounded fun s' s : State V => Reachable s ∧ CompletionStep s s') ∧
    (∀ s : State V, Reachable s → (∀ s', ¬ CompletionStep s s') →
      s.running = .idle ∧ s.contexts = [] ∧ (∀ w ∈ s.waitTasks, ∀ r, w.poll.fut r = false) ∧
      ∀ n < s.nextStack, (s.stackAlloc n = .freed ∧ (s.results n).isSome) ∨
        ∃ w ∈ s.waitTasks, ∃ co k,
          w.context = some (.wait co co.stack co.handle w.poll.slot k) ∧ co.stack = n) ∧
    ∀ s : State V, Reachable s → (∀ s', ¬ CompletionStep s s') →
      (∀ w ∈ s.waitTasks, ∃ r, w.poll.fut r) → Finished s := by
  refine ⟨Subrelation.wf (fun ⟨hs, h⟩ => ⟨hs, h.internal⟩) runs_finite,
    fun s hs hno => ?_, fun s hs hno hres => ?_⟩
  · obtain ⟨hr, hcx, hf⟩ := hs.inv.stuck hno
    exact ⟨hr, hcx, hf, fun n hn => hs.inv.ended_or_waiting hr hn⟩
  · obtain ⟨hr, -, hf⟩ := hs.inv.stuck hno
    refine hs.inv.finished hr (List.eq_nil_iff_forall_not_mem.mpr fun w hw => ?_)
    obtain ⟨r, hr⟩ := hres w hw
    simp [hf w hw r] at hr

/-- A coroutine spawned to wait on a future with no outcome leaves the thread stuck, on its
`WaitTask`. -/
theorem stuck_only_on_unresolved_waits_pending :
    ∃ s : State Nat, Reachable s ∧ (∀ s', ¬ CompletionStep s s') ∧ s.waitTasks ≠ [] ∧
      ∃ w ∈ s.waitTasks, ∃ co k,
        w.context = some (.wait co co.stack co.handle w.poll.slot k) ∧ co.stack = 0 := by
  obtain ⟨s, hs, hr, -, hw, hn, hres⟩ := reachable_stuck
  have hno : ∀ s', ¬ CompletionStep s s' := by
    rintro s' (h | ⟨i, r, h⟩)
    · simp [step, hr] at h
    · cases i <;> simp [step, hr, fire, hw] at h
  refine ⟨s, hs, hno, by simp [hw], ?_⟩
  exact ((stuck_only_on_unresolved_waits.2.1 s hs hno).2.2.2 0 (by omega)).resolve_left
    (by simp [hres])

end Corona.Contexts
