import Corona.Lib.Machine

/-! # The invariant of the switch protocol

Which tasks exist is read off the contexts. Under the invariant each operation of the library
has one closed form, and the invariant holds in every state a run reaches.
-/
namespace Corona.Lib

variable {V : Type}

def Context.tasks : Context V → List Task
  | .spawn co (some c) _ _ => co :: c.tasks
  | .spawn co none _ _ => [co]
  | .future co _ _ => [co]
  | _ => []

def Running.tasks : Running V → List Task
  | .task co (some c) _ => co :: c.tasks
  | .task co none _ => [co]
  | .idle => []

@[simp] theorem Context.tasks_spawn (co : Task) (c : Context V) (k : Except StackError Nat → Prog V)
    (n : Nat) : (Context.spawn co (some c) k n).tasks = co :: c.tasks := rfl
@[simp] theorem Context.tasks_future (co : Task) (n : Nat) (k : Except V V → Prog V) :
    (Context.future co n k).tasks = [co] := rfl
@[simp] theorem Context.tasks_thread : (Context.thread : Context V).tasks = [] := rfl
@[simp] theorem Running.tasks_task (co : Task) (c : Context V) (p : Prog V) :
    (Running.task co (some c) p).tasks = co :: c.tasks := rfl
@[simp] theorem Running.tasks_idle : (Running.idle : Running V).tasks = [] := rfl

def State.suspended (s : State V) : List Task := s.wakeups.flatMap (·.context.tasks)

def State.tasks (s : State V) : List Task := s.running.tasks ++ s.suspended

/-- `Waits n c`: `c` is the `run_child` that resumed coroutine `n`, and every spawner below it
is waited for by the context its `Await` holds, down to the thread. -/
inductive Waits : Nat → Context V → Prop
  | thread {n : Nat} : Waits n .thread
  | spawn {n : Nat} {co : Task} {c : Context V} {k : Except StackError Nat → Prog V} :
      Waits co.sender c → Waits n (.spawn co (some c) k n)

def Running.WellFormed : Running V → Prop
  | .idle => True
  | .task co t _ => ∃ c, t = some c ∧ Waits co.sender c

/-- The invariant: no instruction is left in `SWITCH`, the running task can switch back to its
parent, every wakeup holds a coroutine suspended in `Await::future` on the wakeup's oneshot,
and the coroutines are accounted for. -/
structure Inv (s : State V) : Prop where
  switch_none : s.switch = none
  running : s.running.WellFormed
  wakeup : ∀ w ∈ s.wakeups, ∃ co k, w.context = .future co w.after.sender k
  ledger : Ledger s.tasks s.stackAlloc s.results s.nextStack

theorem Waits.returnTo_tasks {n : Nat} {c : Context V} (h : Waits n c) :
    c.returnTo.tasks = c.tasks := by
  cases h <;> rfl

theorem Waits.returnTo_wellFormed {n : Nat} {c : Context V} (h : Waits n c) :
    c.returnTo.WellFormed := by
  cases h with
  | thread => trivial
  | spawn h => exact ⟨_, rfl, h⟩

/-! ## One closed form per operation -/

section Spec

variable {s : State V} {c t : Context V} {co : Task} {n m : Nat}

theorem resume_scheduleWakeup {a : After V} {h : Nat} (hc : Waits n c)
    (hl : c.stack.all (s.stackAlloc · = .live)) (hsw : s.switch = some (.scheduleWakeup a h)) :
    resume s c t =
      .ok { s with switch := none, wakeups := s.wakeups ++ [⟨a, h, t⟩], running := c.returnTo } := by
  cases hc <;> simp_all [resume, runChildRest, Switch.get, Context.returnTo, Context.stack, bind,
    Except.bind]

theorem resume_destroy (hc : Waits n c) (hl : c.stack.all (s.stackAlloc · = .live))
    (hm : s.stackAlloc m = .live) (hne : c.stack ≠ some m) (hsw : s.switch = some (.destroy m)) :
    resume s c t =
      .ok { s with switch := none, stackAlloc := Function.update s.stackAlloc m .freed,
                   running := c.returnTo } := by
  cases hc <;> simp_all [resume, runChildRest, Switch.get, Context.returnTo, Context.stack,
    dropStack, bind, Except.bind]

theorem resume_entry {q : Prog V} {sender h : Nat} (hm : s.stackAlloc m = .live)
    (hsw : s.switch = some (.startTask m ⟨q, sender, h⟩)) :
    resume s (.entry m) t = .ok { s with switch := none, running := .task ⟨sender, m, h⟩ (some t) q } := by
  simp [resume, coroutine, Switch.get, Context.stack, hm, hsw, bind, Except.bind]

theorem resume_future {r : Except V V} {k : Except V V → Prog V}
    (hl : s.stackAlloc co.stack = .live) (ho : s.oneshots n = some r) (hsw : s.switch = some .resume) :
    resume s (.future co n k) t = .ok { s with switch := none, running := .task co (some t) (k r) } := by
  simp [resume, futureRest, Switch.get, Context.stack, hl, ho, hsw, bind, Except.bind]

theorem future_eq (hsw : s.switch = none) (hc : Waits co.sender c)
    (hl : c.stack.all (s.stackAlloc · = .live)) (f : Fut V) (k : Except V V → Prog V) :
    future s co (some c) f k =
      .ok { s with switch := none, nextOneshot := s.nextOneshot + 1,
                   wakeups := s.wakeups ++ [⟨⟨f, s.nextOneshot⟩, co.handle,
                     .future co s.nextOneshot k⟩],
                   running := c.returnTo } := by
  simp only [future, hsw, Switch.put, bind, Except.bind]
  exact resume_scheduleWakeup hc hl rfl

theorem finish_eq (hsw : s.switch = none) (hc : Waits n c)
    (hl : c.stack.all (s.stackAlloc · = .live)) (hm : s.stackAlloc co.stack = .live)
    (hne : c.stack ≠ some co.stack) (r : TaskResult V) :
    finish s co (some c) r =
      .ok { s with switch := none, results := Function.update s.results co.sender (some r),
                   stackAlloc := Function.update s.stackAlloc co.stack .freed, running := c.returnTo } := by
  simp only [finish, hsw, Switch.put, bind, Except.bind]
  exact resume_destroy hc hl hm hne rfl

theorem spawn_eq (hsw : s.switch = none) {b : Coroutine} (hok : s.stackOk b.stackSize)
    (task : Prog V) (here : Nat → Context V) (failed : Running V) :
    spawn s b task here failed =
      .ok { s with switch := none, nextStack := s.nextStack + 1,
                   stackAlloc := Function.update s.stackAlloc s.nextStack .live,
                   running := .task ⟨s.nextStack, s.nextStack, b.handle⟩
                     (some (here s.nextStack)) task } := by
  simp only [spawn, hok, if_true, runChild, hsw, Switch.put, bind, Except.bind]
  apply resume_entry <;> simp

theorem spawn_of_not {b : Coroutine} (hok : s.stackOk b.stackSize = false) (task : Prog V)
    (here : Nat → Context V) (failed : Running V) :
    spawn s b task here failed = .ok { s with running := failed } := by
  simp [spawn, hok]

theorem fire_eq (hsw : s.switch = none) {i rx h : Nat} {f : Fut V} {k : Except V V → Prog V}
    (hw : s.wakeups[i]? = some ⟨⟨f, rx⟩, h, .future co rx k⟩) {r : Except V V} (hf : f r)
    (hl : s.stackAlloc co.stack = .live) :
    fire s i r =
      some (.ok { s with switch := none, wakeups := s.wakeups.eraseIdx i,
                         oneshots := Function.update s.oneshots rx (some r),
                         running := .task co (some .thread) (k r) }) := by
  simp only [fire, hw, Option.some_bind, hf, if_true, runChild, hsw, Switch.put, bind,
    Except.bind]
  congr 1
  apply resume_future <;> simp [hl]

end Spec

/-! ## The invariant along a run -/

theorem Waits.stack_eq {n : Nat} {c : Context V} (h : Waits n c) :
    c.stack = c.tasks.head?.map Task.stack := by
  cases h <;> rfl

theorem mem_tasks_of_wakeup {s : State V} {w : Wakeup V} (hw : w ∈ s.wakeups) {co : Task}
    {rx : Nat} {k : Except V V → Prog V} (hc : w.context = .future co rx k) : co ∈ s.tasks :=
  List.mem_append_right _ (List.mem_flatMap.mpr ⟨w, hw, by simp [hc, Context.tasks]⟩)

theorem Inv.init (stackOk : Nat → Bool) : Inv (State.init stackOk : State V) :=
  ⟨rfl, trivial, by simp [State.init], Ledger.init⟩

section Preservation

variable {s s' : State V}

theorem Inv.parent {co : Task} {c : Context V} {p : Prog V} (hs : Inv s)
    (hr : s.running = .task co (some c) p) (hc : Waits co.sender c) :
    c.stack.all (s.stackAlloc · = .live) ∧ s.stackAlloc co.stack = .live ∧ c.stack ≠ some co.stack := by
  have hl := hs.ledger
  simp only [State.tasks, hr, Running.tasks] at hl
  rw [hc.stack_eq]
  refine ⟨?_, (hl.live co (by simp)).2.2.1, ?_⟩
  · cases hh : c.tasks with
    | nil => rfl
    | cons x xs => simp [(hl.live x (by simp [hh])).2.2.1]
  · cases hh : c.tasks with
    | nil => simp
    | cons x xs =>
      have hnd := hl.nodup
      simp only [hh, List.cons_append, List.map_cons, List.nodup_cons, List.mem_cons] at hnd
      simpa using fun he => hnd.1 (Or.inl he.symm)

theorem runTask_inv {co : Task} {t : Option (Context V)} {p : Prog V} (hs : Inv s)
    (hr : s.running = .task co t p) : ∃ s', runTask s co t p = .ok s' ∧ Inv s' := by
  obtain ⟨c, rfl, hc⟩ : ∃ c, t = some c ∧ Waits co.sender c := by
    simpa [hr, Running.WellFormed] using hs.running
  obtain ⟨hcl, hcol, hne⟩ := hs.parent hr hc
  have hl : Ledger (co :: (c.tasks ++ s.suspended)) s.stackAlloc s.results s.nextStack := by
    simpa [State.tasks, hr, Running.tasks] using hs.ledger
  have hsw := hs.switch_none
  cases p with
  | ret v =>
    refine ⟨_, finish_eq hsw hc hcl hcol hne _, rfl, hc.returnTo_wellFormed, hs.wakeup, ?_⟩
    simpa [State.tasks, hc.returnTo_tasks] using hl.finish (.finished v)
  | panic e =>
    refine ⟨_, finish_eq hsw hc hcl hcol hne _, rfl, hc.returnTo_wellFormed, hs.wakeup, ?_⟩
    simpa [State.tasks, hc.returnTo_tasks] using hl.finish (.panicked e)
  | spawn b q k =>
    cases hok : s.stackOk b.stackSize
    · refine ⟨_, spawn_of_not hok _ _ _, hsw, ⟨c, rfl, hc⟩, hs.wakeup, ?_⟩
      simpa [State.tasks, Running.tasks] using hl
    · refine ⟨_, spawn_eq hsw hok _ _ _, rfl, ⟨_, rfl, .spawn hc⟩, hs.wakeup, ?_⟩
      simpa [State.tasks, Running.tasks] using hl.spawn b.handle
  | future f k =>
    refine ⟨_, future_eq hsw hc hcl f k, rfl, hc.returnTo_wellFormed, ?_, ?_⟩
    · intro w hw
      rcases List.mem_append.mp hw with hw | hw
      · exact hs.wakeup w hw
      · simp only [List.mem_singleton] at hw
        exact ⟨co, k, by rw [hw]⟩
    · refine hl.perm ?_
      simpa [State.tasks, State.suspended, hc.returnTo_tasks, Context.tasks] using
        (List.perm_append_singleton co (c.tasks ++ s.suspended)).symm

theorem spawnTop_inv (b : Coroutine) (q : Prog V) (hs : Inv s) (hr : s.running = .idle) :
    ∃ s', spawn s b q (fun _ => .thread) .idle = .ok s' ∧ Inv s' := by
  have hl : Ledger s.suspended s.stackAlloc s.results s.nextStack := by
    simpa [State.tasks, hr, Running.tasks] using hs.ledger
  cases hok : s.stackOk b.stackSize
  · refine ⟨_, spawn_of_not hok _ _ _, hs.switch_none, trivial, hs.wakeup, ?_⟩
    simpa [State.tasks, Running.tasks] using hl
  · refine ⟨_, spawn_eq hs.switch_none hok _ _ _, rfl, ⟨_, rfl, .thread⟩, hs.wakeup, ?_⟩
    simpa [State.tasks, Running.tasks, Context.tasks] using hl.spawn b.handle

theorem fire_inv (i : Nat) (r : Except V V) (hs : Inv s) (hr : s.running = .idle) :
    fire s i r = none ∨ ∃ s', fire s i r = some (.ok s') ∧ Inv s' := by
  have hl : Ledger s.suspended s.stackAlloc s.results s.nextStack := by
    simpa [State.tasks, hr, Running.tasks] using hs.ledger
  cases hw : s.wakeups[i]? with
  | none => simp [Corona.Lib.fire, hw]
  | some w =>
    obtain ⟨co, k, hctx⟩ := hs.wakeup w (List.getElem?_mem hw)
    obtain ⟨⟨f, rx⟩, hh, ctx⟩ := w
    simp only at hctx
    subst hctx
    have hp : (co :: (s.wakeups.eraseIdx i).flatMap (·.context.tasks)).Perm s.suspended := by
      simpa [State.suspended, Context.tasks] using
        (perm_cons_eraseIdx hw).flatMap_right (·.context.tasks)
    have hcol : s.stackAlloc co.stack = .live := (hl.live co (hp.subset (by simp))).2.2.1
    by_cases hf : f r
    · refine .inr ⟨_, fire_eq hs.switch_none hw hf hcol, rfl, ⟨_, rfl, .thread⟩,
        fun w' hw' => hs.wakeup w' (List.mem_of_mem_eraseIdx hw'), hl.perm ?_⟩
      simpa [State.tasks, State.suspended, Running.tasks, Context.tasks] using hp.symm
    · simp [Corona.Lib.fire, hw, hf]

/-- The step lemma: from a state satisfying the invariant no step faults, and every step
reaches a state satisfying it. -/
theorem step_inv {e : Event V} {r : Except Fault (State V)} (hs : Inv s)
    (h : step s e = some r) : ∃ s', r = .ok s' ∧ Inv s' := by
  cases e with
  | run =>
    cases hr : s.running with
    | idle => simp [Corona.Lib.step, hr] at h
    | task co t p =>
      simp only [Corona.Lib.step, hr, Option.some.injEq] at h
      obtain ⟨s', hs', hi⟩ := runTask_inv hs hr
      exact ⟨s', h ▸ hs', hi⟩
  | spawn b q =>
    cases hr : s.running with
    | idle =>
      simp only [Corona.Lib.step, hr, Option.some.injEq] at h
      obtain ⟨s', hs', hi⟩ := spawnTop_inv b q hs hr
      exact ⟨s', h ▸ hs', hi⟩
    | task => simp [Corona.Lib.step, hr] at h
  | fire i r =>
    cases hr : s.running with
    | idle =>
      simp only [Corona.Lib.step, hr] at h
      rcases fire_inv i r hs hr with hn | ⟨s', hs', hi⟩
      · simp [hn] at h
      · exact ⟨s', Option.some.inj (h.symm.trans hs'), hi⟩
    | task => simp [Corona.Lib.step, hr] at h

end Preservation

theorem Reachable.inv {s : State V} (h : Reachable s) : Inv s := by
  induction h with
  | init stackOk => exact Inv.init stackOk
  | step _ _ hs ih =>
    obtain ⟨_, he, hi⟩ := step_inv ih hs
    exact Except.ok.inj he ▸ hi

/-- Mailbox framing: whenever a task or the reactor has control, no instruction is left in
`SWITCH`, and no step faults, so every `put` finds the slot empty and every `get` finds the
instruction its site expects. -/
theorem switch_framing {s : State V} (h : Reachable s) :
    s.switch = none ∧ ∀ e f, step s e ≠ some (.error f) := by
  refine ⟨h.inv.switch_none, fun e f he => ?_⟩
  obtain ⟨_, hr, -⟩ := step_inv h.inv he
  cases hr

/-- On a busy thread the slot is empty and no step faults. -/
theorem switch_framing_busy :
    ∃ s : State Nat, Reachable s ∧ s.running = .task ⟨1, 1, 0⟩ (some .thread) (.ret 1) ∧
      s.wakeups ≠ [] ∧ s.switch = none ∧ ∀ e f, step s e ≠ some (.error f) :=
  let ⟨s, hs, hr, hw⟩ := reachable_busy (.ret 1)
  ⟨s, hs, hr, hw, switch_framing hs⟩

end Corona.Lib
