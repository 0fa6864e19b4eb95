import Corona.Contexts.Machine

/-! # The invariant of `CONTEXTS`

`Nested co rs`: the records `rs`, top first, belong to the running coroutine `co` and to the
spawners it is nested in. Each operation has one closed form under the invariant.
-/
namespace Corona.Contexts

variable {V : Type}

def Context.tasks : Context V → List Task
  | .spawn co .. => [co]
  | .wait co .. => [co]
  | _ => []

def Running.tasks : Running V → List Task
  | .task co _ => [co]
  | .idle => []

@[simp] theorem Context.tasks_spawn (co : Task) (k : Except StackError Nat → Prog V) (n : Nat) :
    (Context.spawn co k n).tasks = [co] := rfl
@[simp] theorem Context.tasks_wait (co : Task) (stack handle slot : Nat)
    (k : Except Dropped (Except V V) → Prog V) :
    (Context.wait co stack handle slot k).tasks = [co] := rfl
@[simp] theorem Context.tasks_thread : (Context.thread : Context V).tasks = [] := rfl
@[simp] theorem Running.tasks_task (co : Task) (p : Prog V) : (Running.task co p).tasks = [co] :=
  rfl
@[simp] theorem Running.tasks_idle : (Running.idle : Running V).tasks = [] := rfl

def chain (rs : List (CoroutineContext V)) : List Task := rs.flatMap (·.parentContext.tasks)

@[simp] theorem chain_nil : chain ([] : List (CoroutineContext V)) = [] := rfl
@[simp] theorem chain_cons (r : CoroutineContext V) (rs : List (CoroutineContext V)) :
    chain (r :: rs) = r.parentContext.tasks ++ chain rs := rfl

def WaitTask.tasks (w : WaitTask V) : List Task := (w.context.map Context.tasks).getD []

def State.suspended (s : State V) : List Task := s.waitTasks.flatMap WaitTask.tasks

def State.tasks (s : State V) : List Task := s.running.tasks ++ chain s.contexts ++ s.suspended

def Context.IsRunChild : Context V → Prop
  | .thread => True
  | .spawn .. => True
  | _ => False

/-- `Nested co rs`: the records `rs`, top first, are those of `co` and of the spawners it is
nested in, each with the `run_child` that last resumed its coroutine as parent. -/
inductive Nested : Task → List (CoroutineContext V) → Prop
  | thread {co : Task} : Nested co [⟨co.handle, .thread, co.stack⟩]
  | spawn {co sp : Task} {k : Except StackError Nat → Prog V} {rs : List (CoroutineContext V)} :
      Nested sp rs → Nested co (⟨co.handle, .spawn sp k co.sender, co.stack⟩ :: rs)

def Running.WellFormed : Running V → List (CoroutineContext V) → Prop
  | .idle, rs => rs = []
  | .task co _, rs => Nested co rs

/-- The invariant: no instruction is left in `SWITCH`, `CONTEXTS` nests the running coroutine,
every `WaitTask` holds a coroutine inside `wait` on the task's own result slot, and the
coroutines are accounted for. -/
structure Inv (s : State V) : Prop where
  switch_none : s.switch = none
  running : s.running.WellFormed s.contexts
  waitTask : ∀ w ∈ s.waitTasks, ∃ co k, w.context = some (.wait co co.stack co.handle w.poll.slot k)
  ledger : Ledger s.tasks s.stackAlloc s.results s.nextStack

theorem Context.IsRunChild.stack_eq {c : Context V} (hc : c.IsRunChild) :
    c.stack = c.tasks.head?.map Task.stack := by
  cases c <;> first | rfl | exact hc.elim

theorem Context.IsRunChild.returnTo_tasks {c : Context V} (hc : c.IsRunChild) :
    c.returnTo.tasks = c.tasks := by
  cases c <;> first | rfl | exact hc.elim

theorem Nested.top {co : Task} {rs : List (CoroutineContext V)} (h : Nested co rs) :
    ∃ c rest, rs = ⟨co.handle, c, co.stack⟩ :: rest ∧ c.IsRunChild ∧
      c.returnTo.WellFormed rest := by
  cases h with
  | thread => exact ⟨_, _, rfl, trivial, rfl⟩
  | spawn h => exact ⟨_, _, rfl, trivial, h⟩

/-! ## One closed form per operation -/

section Spec

variable {s : State V} {c t : Context V} {co : Task} {m : Nat}

theorem resume_waitFuture {p : Poll V} {old : Option (Context V)} {h : Nat} (hc : c.IsRunChild)
    (hl : c.stack.all (s.stackAlloc · = .live)) (hsw : s.switch = some (.waitFuture ⟨p, old, h⟩)) :
    resume s c t = .ok { s with switch := none, waitTasks := s.waitTasks ++ [⟨p, some t, h⟩],
                                running := c.returnTo } := by
  cases c <;> simp_all [resume, runChildRest, Switch.get, Context.returnTo, Context.stack,
    Context.IsRunChild, bind, Except.bind]

theorem resume_destroy (hc : c.IsRunChild) (hl : c.stack.all (s.stackAlloc · = .live))
    (hm : s.stackAlloc m = .live) (hne : c.stack ≠ some m) (hsw : s.switch = some (.destroy m)) :
    resume s c t =
      .ok { s with switch := none, stackAlloc := Function.update s.stackAlloc m .freed,
                   running := c.returnTo } := by
  cases c <;> simp_all [resume, runChildRest, Switch.get, Context.returnTo, Context.stack,
    Context.IsRunChild, dropStack, bind, Except.bind]

theorem resume_entry {q : Prog V} {sender h : Nat} (hm : s.stackAlloc m = .live)
    (hsw : s.switch = some (.startTask m ⟨q, sender, h⟩)) :
    resume s (.entry m) t = .ok { s with switch := none, contexts := ⟨h, t, m⟩ :: s.contexts,
                                         running := .task ⟨sender, m, h⟩ q } := by
  simp [resume, coroutine, Switch.get, Context.stack, hm, hsw, bind, Except.bind]

theorem resume_wait_resume {stack handle slot : Nat} {k : Except Dropped (Except V V) → Prog V}
    {r : Except V V} (hl : s.stackAlloc co.stack = .live) (ho : s.slots slot = some r)
    (hsw : s.switch = some .resume) :
    resume s (.wait co stack handle slot k) t =
      .ok { s with switch := none, contexts := ⟨handle, t, stack⟩ :: s.contexts,
                   running := .task co (k (.ok r)) } := by
  simp [resume, waitRest, Switch.get, Context.stack, hl, ho, hsw, bind, Except.bind]

theorem resume_wait_cleanup {stack handle slot : Nat} {k : Except Dropped (Except V V) → Prog V}
    (hl : s.stackAlloc co.stack = .live) (hsw : s.switch = some .cleanup) :
    resume s (.wait co stack handle slot k) t =
      .ok { s with switch := none, contexts := ⟨handle, t, stack⟩ :: s.contexts,
                   running := .task co (k (.error .dropped)) } := by
  simp [resume, waitRest, Switch.get, Context.stack, hl, hsw, bind, Except.bind]

variable {my : CoroutineContext V} {rest : List (CoroutineContext V)}

theorem wait_eq (hsw : s.switch = none) (hcx : s.contexts = my :: rest)
    (hc : my.parentContext.IsRunChild) (hl : my.parentContext.stack.all (s.stackAlloc · = .live))
    (f : Fut V) (k : Except Dropped (Except V V) → Prog V) :
    wait s co f k =
      .ok { s with switch := none, contexts := rest, nextSlot := s.nextSlot + 1,
                   slots := Function.update s.slots s.nextSlot none,
                   waitTasks := s.waitTasks ++ [⟨⟨f, s.nextSlot⟩,
                     some (.wait co my.stack my.handle s.nextSlot k), my.handle⟩],
                   running := my.parentContext.returnTo } := by
  simp only [wait, hcx, hsw, Switch.put, bind, Except.bind]
  apply resume_waitFuture hc
  exacts [hl, rfl]

theorem finish_eq (hsw : s.switch = none) (hcx : s.contexts = my :: rest)
    (hc : my.parentContext.IsRunChild) (hl : my.parentContext.stack.all (s.stackAlloc · = .live))
    (hm : s.stackAlloc my.stack = .live) (hne : my.parentContext.stack ≠ some my.stack)
    (r : TaskResult V) :
    finish s co r =
      .ok { s with switch := none, results := Function.update s.results co.sender (some r),
                   contexts := rest, stackAlloc := Function.update s.stackAlloc my.stack .freed,
                   running := my.parentContext.returnTo } := by
  simp only [finish, hcx, hsw, Switch.put, bind, Except.bind]
  apply resume_destroy hc
  exacts [hl, hm, hne, rfl]

theorem spawn_eq (hsw : s.switch = none) {b : Coroutine} (hok : s.stackOk b.stackSize)
    (task : Prog V) (here : Nat → Context V) (failed : Running V) :
    spawn s b task here failed =
      .ok { s with switch := none, nextStack := s.nextStack + 1,
                   stackAlloc := Function.update s.stackAlloc s.nextStack .live,
                   contexts := ⟨b.handle, here s.nextStack, s.nextStack⟩ :: s.contexts,
                   running := .task ⟨s.nextStack, s.nextStack, b.handle⟩ task } := by
  simp only [spawn, hok, if_true, runChild, hsw, Switch.put, bind, Except.bind]
  apply resume_entry <;> simp

theorem spawn_of_not {b : Coroutine} (hok : s.stackOk b.stackSize = false) (task : Prog V)
    (here : Nat → Context V) (failed : Running V) :
    spawn s b task here failed = .ok { s with running := failed } := by
  simp [spawn, hok]

theorem reactor_eq (hcx : s.contexts = my :: rest) : reactor s = .ok my.handle := by
  simp [reactor, hcx]

variable {i stack handle slot h : Nat} {k : Except Dropped (Except V V) → Prog V}

theorem fire_eq (hsw : s.switch = none) {f : Fut V}
    (hw : s.waitTasks[i]? = some ⟨⟨f, slot⟩, some (.wait co stack handle slot k), h⟩)
    {r : Except V V} (hf : f r) (hl : s.stackAlloc co.stack = .live) :
    fire s i r =
      some (.ok { s with switch := none, waitTasks := s.waitTasks.eraseIdx i,
                         slots := Function.update s.slots slot (some r),
                         contexts := ⟨handle, .thread, stack⟩ :: s.contexts,
                         running := .task co (k (.ok r)) }) := by
  simp only [fire, hw, Option.some_bind, hf, if_true, runChild, hsw, Switch.put, bind,
    Except.bind]
  congr 1
  apply resume_wait_resume <;> simp [hl]

theorem cleanup_eq (hsw : s.switch = none) {p : Poll V}
    (hw : s.waitTasks[i]? = some ⟨p, some (.wait co stack handle slot k), h⟩)
    (hl : s.stackAlloc co.stack = .live) :
    cleanup s i =
      some (.ok { s with switch := none, waitTasks := s.waitTasks.eraseIdx i,
                         contexts := ⟨handle, .thread, stack⟩ :: s.contexts,
                         running := .task co (k (.error .dropped)) }) := by
  simp only [cleanup, hw, Option.map_some', runChild, hsw, Switch.put, bind, Except.bind]
  congr 1
  apply resume_wait_cleanup <;> simp [hl]

end Spec

/-! ## The invariant along a run -/

theorem Inv.init (stackOk : Nat → Bool) : Inv (State.init stackOk : State V) :=
  ⟨rfl, rfl, by simp [State.init], Ledger.init⟩

section Preservation

variable {s : State V} {co : Task} {i : Nat}

theorem Inv.parent {p : Prog V} {c : Context V} {rest : List (CoroutineContext V)} (hs : Inv s)
    (hr : s.running = .task co p) (hcx : s.contexts = ⟨co.handle, c, co.stack⟩ :: rest)
    (hc : c.IsRunChild) :
    c.stack.all (s.stackAlloc · = .live) ∧ s.stackAlloc co.stack = .live ∧
      c.stack ≠ some co.stack := by
  have hl : Ledger (co :: c.tasks ++ (chain rest ++ s.suspended)) s.stackAlloc s.results
      s.nextStack := by
    simpa [State.tasks, hr, hcx] using hs.ledger
  rw [hc.stack_eq]
  refine ⟨?_, (hl.live co (by simp)).2.2.1, ?_⟩
  · cases hh : c.tasks with
    | nil => rfl
    | cons x xs => simp [(hl.live x (by simp [hh])).2.2.1]
  · cases hh : c.tasks with
    | nil => simp
    | cons x xs =>
      have hnd := hl.nodup
      simp only [hh, List.cons_append, List.map_cons, List.nodup_cons, List.mem_cons] at hnd
      simpa using fun he => hnd.1 (Or.inl he.symm)

theorem runTask_inv {p : Prog V} (hs : Inv s) (hr : s.running = .task co p) :
    ∃ s', runTask s co p = .ok s' ∧ Inv s' := by
  have hn : Nested co s.contexts := by simpa [hr, Running.WellFormed] using hs.running
  obtain ⟨c, rest, hcx, hc, hwf⟩ := hn.top
  have hct := hc.returnTo_tasks
  obtain ⟨hcl, hcol, hne⟩ := hs.parent hr hcx hc
  have hl : Ledger (co :: (c.tasks ++ chain rest ++ s.suspended)) s.stackAlloc s.results
      s.nextStack := by
    simpa [State.tasks, hr, hcx] using hs.ledger
  have hsw := hs.switch_none
  cases p with
  | ret v =>
    refine ⟨_, finish_eq hsw hcx hc hcl hcol hne _, rfl, hwf, hs.waitTask, ?_⟩
    simpa [State.tasks, hct] using hl.finish (.finished v)
  | panic e =>
    refine ⟨_, finish_eq hsw hcx hc hcl hcol hne _, rfl, hwf, hs.waitTask, ?_⟩
    simpa [State.tasks, hct] using hl.finish (.panicked e)
  | spawn b q k =>
    cases hok : s.stackOk b.stackSize
    · exact ⟨_, spawn_of_not hok _ _ _, hsw, hn, hs.waitTask, by simpa [State.tasks, hr] using hs.ledger⟩
    · refine ⟨_, spawn_eq hsw hok _ _ _, rfl, .spawn hn, hs.waitTask, ?_⟩
      simpa [State.tasks, hr] using hs.ledger.spawn b.handle
  | wait f k =>
    refine ⟨_, wait_eq hsw hcx hc hcl f k, rfl, hwf, fun w hw => ?_, hl.perm ?_⟩
    · rcases List.mem_append.mp hw with hw | hw
      · exact hs.waitTask w hw
      · exact ⟨co, k, by rw [List.mem_singleton.mp hw]⟩
    · simpa [State.tasks, State.suspended, hct, WaitTask.tasks] using
        (List.perm_append_singleton co (c.tasks ++ chain rest ++ s.suspended)).symm
  | reactor k =>
    refine ⟨{ s with running := .task co (k co.handle) }, ?_, hsw, hn, hs.waitTask,
      by simpa [State.tasks, hr] using hs.ledger⟩
    simp only [runTask, reactor_eq hcx, bind, Except.bind]

theorem spawnTop_inv (b : Coroutine) (q : Prog V) (hs : Inv s) (hr : s.running = .idle) :
    ∃ s', spawn s b q (fun _ => .thread) .idle = .ok s' ∧ Inv s' := by
  have hcx : s.contexts = [] := by simpa [hr, Running.WellFormed] using hs.running
  cases hok : s.stackOk b.stackSize
  · exact ⟨_, spawn_of_not hok _ _ _, hs.switch_none, by simpa [hr] using hs.running,
      hs.waitTask, by simpa [State.tasks, hr] using hs.ledger⟩
  · refine ⟨_, spawn_eq hs.switch_none hok _ _ _, rfl, by simp only [hcx]; exact .thread,
      hs.waitTask, ?_⟩
    simpa [State.tasks, hr, hcx] using hs.ledger.spawn b.handle

theorem Inv.waitTask_at {w : WaitTask V} (hs : Inv s) (hw : s.waitTasks[i]? = some w) :
    ∃ co k, w.context = some (.wait co co.stack co.handle w.poll.slot k) ∧
      s.stackAlloc co.stack = .live := by
  obtain ⟨co, k, hctx⟩ := hs.waitTask w (List.getElem?_mem hw)
  have hm : co ∈ s.tasks :=
    List.mem_append_right _ (List.mem_flatMap.mpr ⟨w, List.getElem?_mem hw, by simp [hctx, WaitTask.tasks]⟩)
  exact ⟨co, k, hctx, (hs.ledger.live co hm).2.2.1⟩

theorem Inv.resumed {p : Poll V} {h : Nat} {k : Except Dropped (Except V V) → Prog V}
    (hs : Inv s) (hr : s.running = .idle)
    (hw : s.waitTasks[i]? = some ⟨p, some (.wait co co.stack co.handle p.slot k), h⟩)
    (slots : Nat → Option (Except V V)) (q : Prog V) :
    Inv { s with switch := none, waitTasks := s.waitTasks.eraseIdx i, slots := slots,
                 contexts := ⟨co.handle, .thread, co.stack⟩ :: s.contexts, running := .task co q } := by
  have hcx : s.contexts = [] := by simpa [hr, Running.WellFormed] using hs.running
  have hp : (co :: (s.waitTasks.eraseIdx i).flatMap WaitTask.tasks).Perm s.suspended := by
    simpa [State.suspended, WaitTask.tasks] using
      (perm_cons_eraseIdx hw).flatMap_right WaitTask.tasks
  refine ⟨rfl, by simp only [hcx]; exact .thread,
    fun w' hw' => hs.waitTask w' (List.mem_of_mem_eraseIdx hw'), ?_⟩
  have hl : Ledger s.suspended s.stackAlloc s.results s.nextStack := by
    simpa [State.tasks, hr, hcx] using hs.ledger
  simpa [State.tasks, State.suspended, hcx] using hl.perm hp.symm

theorem fire_inv (i : Nat) (r : Except V V) (hs : Inv s) (hr : s.running = .idle) :
    fire s i r = none ∨ ∃ s', fire s i r = some (.ok s') ∧ Inv s' := by
  cases hw : s.waitTasks[i]? with
  | none => simp [Corona.Contexts.fire, hw]
  | some w =>
    obtain ⟨co, k, hctx, hcol⟩ := hs.waitTask_at hw
    obtain ⟨⟨f, slot⟩, ctx, h⟩ := w
    simp only at hctx
    subst hctx
    by_cases hf : f r
    · exact .inr ⟨_, fire_eq hs.switch_none hw hf hcol, hs.resumed hr hw _ _⟩
    · simp [Corona.Contexts.fire, hw, hf]

theorem cleanup_inv (i : Nat) (hs : Inv s) (hr : s.running = .idle) :
    cleanup s i = none ∨ ∃ s', cleanup s i = some (.ok s') ∧ Inv s' := by
  cases hw : s.waitTasks[i]? with
  | none => simp [Corona.Contexts.cleanup, hw]
  | some w =>
    obtain ⟨co, k, hctx, hcol⟩ := hs.waitTask_at hw
    obtain ⟨p, ctx, h⟩ := w
    simp only at hctx
    subst hctx
    exact .inr ⟨_, cleanup_eq hs.switch_none hw hcol, hs.resumed hr hw s.slots _⟩

/-- The step lemma: from a state satisfying the invariant no step faults, and every step
reaches a state satisfying it. -/
theorem step_inv {e : Event V} {r : Except Fault (State V)} (hs : Inv s)
    (h : step s e = some r) : ∃ s', r = .ok s' ∧ Inv s' := by
  have of_opt : ∀ {o : Option (Except Fault (State V))}, o = some r →
      (o = none ∨ ∃ s', o = some (.ok s') ∧ Inv s') → ∃ s', r = .ok s' ∧ Inv s' := by
    rintro o rfl (hn | ⟨s', hs', hi⟩)
    · cases hn
    · exact ⟨s', Option.some.inj hs', hi⟩
  cases hr : s.running with
  | idle =>
    cases e with
    | run => simp [Corona.Contexts.step, hr] at h
    | spawn b q =>
      simp only [Corona.Contexts.step, hr, Option.some.injEq] at h
      obtain ⟨s', hs', hi⟩ := spawnTop_inv b q hs hr
      exact ⟨s', h ▸ hs', hi⟩
    | fire i r => exact of_opt (by simpa [Corona.Contexts.step, hr] using h) (fire_inv i r hs hr)
    | drop i => exact of_opt (by simpa [Corona.Contexts.step, hr] using h) (cleanup_inv i hs hr)
  | task co p =>
    cases e with
    | run =>
      simp only [Corona.Contexts.step, hr, Option.some.injEq] at h
      obtain ⟨s', hs', hi⟩ := runTask_inv hs hr
      exact ⟨s', h ▸ hs', hi⟩
    | _ => simp [Corona.Contexts.step, hr] at h

end Preservation

theorem Reachable.inv {s : State V} (h : Reachable s) : Inv s := by
  induction h with
  | init stackOk => exact Inv.init stackOk
  | step _ _ hs ih =>
    obtain ⟨_, he, hi⟩ := step_inv ih hs
    exact Except.ok.inj he ▸ hi

/-- Everything a step can do from a state satisfying the invariant: the running task ends,
waits, or spawns; its code goes on after a failed spawn or a `reactor` call; or the reactor
spawns, fires a `WaitTask`, or drops one. -/
theorem step_cases {s s' : State V} {e : Event V} (hs : Inv s) (h : step s e = some (.ok s')) :
    (∃ co p r c rest, s.running = .task co p ∧ p.result = some r ∧
      s.contexts = ⟨co.handle, c, co.stack⟩ :: rest ∧ c.IsRunChild ∧ c.stack ≠ some co.stack ∧
      s' = { s with switch := none, results := Function.update s.results co.sender (some r),
                    contexts := rest, stackAlloc := Function.update s.stackAlloc co.stack .freed,
                    running := c.returnTo }) ∨
    (∃ co f k c rest, s.running = .task co (.wait f k) ∧
      s.contexts = ⟨co.handle, c, co.stack⟩ :: rest ∧ c.IsRunChild ∧
      s' = { s with switch := none, contexts := rest, nextSlot := s.nextSlot + 1,
                    slots := Function.update s.slots s.nextSlot none,
                    waitTasks := s.waitTasks ++ [⟨⟨f, s.nextSlot⟩,
                      some (.wait co co.stack co.handle s.nextSlot k), co.handle⟩],
                    running := c.returnTo }) ∨
    (∃ (b : Coroutine) (q : Prog V) (here : Context V), s.stackOk b.stackSize ∧
      s' = { s with switch := none, nextStack := s.nextStack + 1,
                    stackAlloc := Function.update s.stackAlloc s.nextStack .live,
                    contexts := ⟨b.handle, here, s.nextStack⟩ :: s.contexts,
                    running := .task ⟨s.nextStack, s.nextStack, b.handle⟩ q }) ∨
    (∃ r : Running V, r.tasks = s.running.tasks ∧ s' = { s with running := r }) ∨
    (∃ i r co f slot k h, e = .fire i r ∧ s.running = .idle ∧
      s.waitTasks[i]? = some ⟨⟨f, slot⟩, some (.wait co co.stack co.handle slot k), h⟩ ∧ f r ∧
      s' = { s with switch := none, waitTasks := s.waitTasks.eraseIdx i,
                    slots := Function.update s.slots slot (some r),
                    contexts := ⟨co.handle, .thread, co.stack⟩ :: s.contexts,
                    running := .task co (k (.ok r)) }) ∨
    (∃ i co p k h, e = .drop i ∧ s.running = .idle ∧
      s.waitTasks[i]? = some ⟨p, some (.wait co co.stack co.handle p.slot k), h⟩ ∧
      s' = { s with switch := none, waitTasks := s.waitTasks.eraseIdx i,
                    contexts := ⟨co.handle, .thread, co.stack⟩ :: s.contexts,
                    running := .task co (k (.error .dropped)) }) := by
  have hsw := hs.switch_none
  cases e with
  | run =>
    cases hr : s.running with
    | idle => simp [step, hr] at h
    | task co p =>
      have hn : Nested co s.contexts := by simpa [hr, Running.WellFormed] using hs.running
      obtain ⟨c, rest, hcx, hc, -⟩ := hn.top
      obtain ⟨hcl, hcol, hne⟩ := hs.parent hr hcx hc
      simp only [step, hr, Option.some.injEq] at h
      cases p with
      | ret v | panic v =>
        rw [runTask, finish_eq hsw hcx hc hcl hcol hne, Except.ok.injEq] at h
        exact .inl ⟨co, _, _, c, rest, rfl, rfl, hcx, hc, hne, h.symm⟩
      | wait f k =>
        rw [runTask, wait_eq hsw hcx hc hcl, Except.ok.injEq] at h
        exact .inr (.inl ⟨co, f, k, c, rest, rfl, hcx, hc, h.symm⟩)
      | spawn b q k =>
        cases hok : s.stackOk b.stackSize
        · rw [runTask, spawn_of_not hok, Except.ok.injEq] at h
          exact .inr (.inr (.inr (.inl ⟨.task co (k (.error .invalidSize)), rfl, h.symm⟩)))
        · rw [runTask, spawn_eq hsw hok, Except.ok.injEq] at h
          exact .inr (.inr (.inl ⟨b, q, _, hok, h.symm⟩))
      | reactor k =>
        simp only [runTask, reactor_eq hcx, bind, Except.bind, Except.ok.injEq] at h
        exact .inr (.inr (.inr (.inl ⟨.task co (k co.handle), rfl, h.symm⟩)))
  | spawn b q =>
    cases hr : s.running with
    | task => simp [step, hr] at h
    | idle =>
      simp only [step, hr, Option.some.injEq] at h
      cases hok : s.stackOk b.stackSize
      · rw [spawn_of_not hok, Except.ok.injEq] at h
        exact .inr (.inr (.inr (.inl ⟨.idle, rfl, h.symm⟩)))
      · rw [spawn_eq hsw hok, Except.ok.injEq] at h
        exact .inr (.inr (.inl ⟨b, q, _, hok, h.symm⟩))
  | fire i r =>
    cases hr : s.running with
    | task => simp [step, hr] at h
    | idle =>
      simp only [step, hr] at h
      cases hw : s.waitTasks[i]? with
      | none => simp [fire, hw] at h
      | some w =>
        obtain ⟨co, k, hctx, hcol⟩ := hs.waitTask_at hw
        obtain ⟨⟨f, slot⟩, ctx, hh⟩ := w
        simp only at hctx
        subst hctx
        by_cases hf : f r
        · rw [fire_eq hsw hw hf hcol, Option.some.injEq, Except.ok.injEq] at h
          exact .inr (.inr (.inr (.inr (.inl ⟨i, r, co, f, slot, k, hh, rfl, rfl, hw, hf, h.symm⟩))))
        · simp [fire, hw, hf] at h
  | drop i =>
    cases hr : s.running with
    | task => simp [step, hr] at h
    | idle =>
      simp only [step, hr] at h
      cases hw : s.waitTasks[i]? with
      | none => simp [cleanup, hw] at h
      | some w =>
        obtain ⟨co, k, hctx, hcol⟩ := hs.waitTask_at hw
        obtain ⟨p, ctx, hh⟩ := w
        simp only at hctx
        subst hctx
        rw [cleanup_eq hsw hw hcol, Option.some.injEq, Except.ok.injEq] at h
        exact .inr (.inr (.inr (.inr (.inr ⟨i, co, p, k, hh, rfl, rfl, hw, h.symm⟩))))

end Corona.Contexts
