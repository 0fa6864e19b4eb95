import Corona.Lib.Scheduler
import Mathlib.Data.List.Nodup

/-! # Linear resumption and the life of a stack

Each coroutine is active, suspended on exactly one wakeup, or finished; it is resumed only by its
own wakeup, and its stack is freed once, from another stack.
-/
namespace Corona.Lib

variable {V : Type} {s s' : State V}

def State.active (s : State V) : List Nat := s.running.tasks.map Task.stack

def State.owners (s : State V) (n : Nat) : Nat :=
  s.wakeups.countP fun w => w.context.stack = some n

theorem countP_stack_eq {l : List (Wakeup V)}
    (hl : ∀ w ∈ l, ∃ co k, w.context = .future co w.after.sender k) (n : Nat) :
    l.countP (fun w => w.context.stack = some n) =
      ((l.flatMap (·.context.tasks)).map Task.stack).count n := by
  induction l with
  | nil => rfl
  | cons w l ih =>
    obtain ⟨co, k, hw⟩ := hl w (List.mem_cons_self _ _)
    rw [List.countP_cons, ih fun x hx => hl x (List.mem_cons_of_mem _ hx)]
    simp [hw, Context.stack, Context.tasks, List.count_cons]

theorem owners_eq (hs : Inv s) (n : Nat) :
    s.owners n = (s.suspended.map Task.stack).count n :=
  countP_stack_eq hs.wakeup n

theorem tasks_map_stack (s : State V) :
    s.tasks.map Task.stack = s.active ++ s.suspended.map Task.stack := by
  simp [State.tasks, State.active]

/-- Each allocated coroutine is in exactly one state: active with no wakeup, held by exactly
one wakeup, or finished with its result sent and its stack freed. -/
theorem partition (hs : Inv s) {n : Nat} (hn : n < s.nextStack) :
    (n ∈ s.active ∧ s.owners n = 0 ∧ s.results n = none ∧ s.stackAlloc n = .live) ∨
    (n ∉ s.active ∧ s.owners n = 1 ∧ s.results n = none ∧ s.stackAlloc n = .live) ∨
    (n ∉ s.active ∧ s.owners n = 0 ∧ (s.results n).isSome ∧ s.stackAlloc n = .freed) := by
  have hl := hs.ledger
  have hnd := hl.nodup
  rw [tasks_map_stack] at hnd
  have live : n ∈ s.tasks.map Task.stack → s.results n = none ∧ s.stackAlloc n = .live := by
    intro hm
    obtain ⟨co, hco, rfl⟩ := List.mem_map.mp hm
    exact ⟨(hl.live co hco).2.2.2, (hl.live co hco).2.2.1⟩
  rw [owners_eq hs, tasks_map_stack] at *
  by_cases ha : n ∈ s.active
  · exact .inl ⟨ha, List.count_eq_zero.mpr fun hm => List.disjoint_of_nodup_append hnd ha hm,
      live (List.mem_append_left _ ha)⟩
  · by_cases hsu : n ∈ s.suspended.map Task.stack
    · exact .inr (.inl ⟨ha, List.count_eq_one_of_mem (List.nodup_append.mp hnd).2.1 hsu,
        live (List.mem_append_right _ hsu)⟩)
    · have he := hl.ended n hn (by rw [tasks_map_stack]; simp [ha, hsu])
      exact .inr (.inr ⟨ha, List.count_eq_zero.mpr hsu, he.2, he.1⟩)

/-- Everything a step can do from a state satisfying the invariant: the running task ends,
suspends on a future, or spawns; or the reactor spawns or fires a wakeup. -/
theorem step_cases {e : Event V} (hs : Inv s) (h : step s e = some (.ok s')) :
    (∃ co c p r, s.running = .task co (some c) p ∧ p.result = some r ∧ Waits co.sender c ∧
      c.stack ≠ some co.stack ∧
      s' = { s with switch := none, results := Function.update s.results co.sender (some r),
                    stackAlloc := Function.update s.stackAlloc co.stack .freed, running := c.returnTo }) ∨
    (∃ co c f k, s.running = .task co (some c) (.future f k) ∧ Waits co.sender c ∧
      s' = { s with switch := none, nextOneshot := s.nextOneshot + 1,
                    wakeups := s.wakeups ++ [⟨⟨f, s.nextOneshot⟩, co.handle,
                      .future co s.nextOneshot k⟩],
                    running := c.returnTo }) ∨
    (∃ (b : Coroutine) (q : Prog V) (here : Context V) (k : Except StackError Nat → Prog V),
      s.stackOk b.stackSize ∧ here.tasks = s.running.tasks ∧ Waits s.nextStack here ∧
      (e = .spawn b q ∨ ∃ co c, s.running = .task co (some c) (.spawn b q k)) ∧
      s' = { s with switch := none, nextStack := s.nextStack + 1,
                    stackAlloc := Function.update s.stackAlloc s.nextStack .live,
                    running := .task ⟨s.nextStack, s.nextStack, b.handle⟩ (some here) q }) ∨
    (∃ r, r.tasks = s.running.tasks ∧ r.WellFormed ∧ s' = { s with running := r }) ∨
    (∃ i r co rx h f k, e = .fire i r ∧ s.running = .idle ∧
      s.wakeups[i]? = some ⟨⟨f, rx⟩, h, .future co rx k⟩ ∧ f r ∧
      s' = { s with switch := none, wakeups := s.wakeups.eraseIdx i,
                    oneshots := Function.update s.oneshots rx (some r),
                    running := .task co (some .thread) (k r) }) := by
  have hsw := hs.switch_none
  cases e with
  | run =>
    cases hr : s.running with
    | idle => simp [step, hr] at h
    | task co t p =>
      obtain ⟨c, rfl, hc⟩ : ∃ c, t = some c ∧ Waits co.sender c := by
        simpa [hr, Running.WellFormed] using hs.running
      obtain ⟨hcl, hcol, hne⟩ := hs.parent hr hc
      simp only [step, hr, Option.some.injEq] at h
      cases p with
      | ret v | panic v =>
        rw [runTask, finish_eq hsw hc hcl hcol hne, Except.ok.injEq] at h
        exact .inl ⟨co, c, _, _, rfl, rfl, hc, hne, h.symm⟩
      | future f k =>
        rw [runTask, future_eq hsw hc hcl, Except.ok.injEq] at h
        exact .inr (.inl ⟨co, c, f, k, rfl, hc, h.symm⟩)
      | spawn b q k =>
        cases hok : s.stackOk b.stackSize
        · rw [runTask, spawn_of_not hok, Except.ok.injEq] at h
          exact .inr (.inr (.inr (.inl ⟨.task co (some c) (k (.error .invalidSize)), rfl, ⟨c, rfl, hc⟩,
            h.symm⟩)))
        · rw [runTask, spawn_eq hsw hok, Except.ok.injEq] at h
          exact .inr (.inr (.inl ⟨b, q, .spawn co (some c) k s.nextStack, k, hok, rfl, .spawn hc,
            .inr ⟨co, c, rfl⟩, h.symm⟩))
  | spawn b q =>
    cases hr : s.running with
    | task => simp [step, hr] at h
    | idle =>
      simp only [step, hr, Option.some.injEq] at h
      cases hok : s.stackOk b.stackSize
      · rw [spawn_of_not hok, Except.ok.injEq] at h
        exact .inr (.inr (.inr (.inl ⟨.idle, rfl, trivial, h.symm⟩)))
      · rw [spawn_eq hsw hok, Except.ok.injEq] at h
        exact .inr (.inr (.inl ⟨b, q, .thread, fun _ => q, hok, by simp [hr, Context.tasks,
          Running.tasks], .thread, .inl rfl, h.symm⟩))
  | fire i r =>
    cases hr : s.running with
    | task => simp [step, hr] at h
    | idle =>
      simp only [step, hr] at h
      cases hw : s.wakeups[i]? with
      | none => simp [fire, hw] at h
      | some w =>
        obtain ⟨co, k, hctx⟩ := hs.wakeup w (List.getElem?_mem hw)
        obtain ⟨⟨f, rx⟩, hh, ctx⟩ := w
        simp only at hctx
        subst hctx
        by_cases hf : f r
        · have hcol : s.stackAlloc co.stack = .live := by
            refine (hs.ledger.live co ?_).2.2.1
            simp only [State.tasks, hr, Running.tasks, List.nil_append, State.suspended]
            exact List.mem_flatMap.mpr ⟨_, List.getElem?_mem hw, by simp [Context.tasks]⟩
          rw [fire_eq hsw hw hf hcol, Option.some.injEq, Except.ok.injEq] at h
          exact .inr (.inr (.inr (.inr ⟨i, r, co, rx, hh, f, k, rfl, rfl, hw, hf, h.symm⟩)))
        · simp [fire, hw, hf] at h

theorem suspended_not_active (hs : Inv s) {n : Nat} (hn : n ∈ s.suspended.map Task.stack) :
    n ∉ s.active ∧ n < s.nextStack := by
  have hnd := hs.ledger.nodup
  rw [tasks_map_stack] at hnd
  obtain ⟨co, hco, rfl⟩ := List.mem_map.mp hn
  exact ⟨fun ha => List.disjoint_of_nodup_append hnd ha hn,
    (hs.ledger.live co (List.mem_append_right _ hco)).2.1⟩

/-- A stack is freed only in the step where its coroutine's task ends: by the `run_child` on
another stack that the coroutine's last switch returns to, after the result is sent, and with
no active frame or wakeup left on it. -/
theorem freed_at_end {e : Event V} (hs : Inv s) (h : step s e = some (.ok s')) {n : Nat}
    (hb : s.stackAlloc n ≠ .freed) (ha : s'.stackAlloc n = .freed) :
    ∃ co c p r, s.running = .task co (some c) p ∧ co.stack = n ∧ p.result = some r ∧
      c.stack ≠ some n ∧ s'.results n = some r ∧ n ∉ s'.active ∧ s'.owners n = 0 := by
  rcases step_cases hs h with ⟨co, c, p, r, hr, hp, hc, hne, rfl⟩ | ⟨co, c, f, k, -, -, rfl⟩ |
      ⟨b, q, here, k, -, -, -, -, rfl⟩ | ⟨r, -, -, rfl⟩ | ⟨i, r, co, rx, hh, f, k, -, -, -, -, rfl⟩
  · by_cases he : n = co.stack
    · subst he
      have hco : co ∈ s.tasks := by simp [State.tasks, hr]
      have hsend := (hs.ledger.live co hco).1
      have hnd := hs.ledger.nodup
      simp only [tasks_map_stack, State.active, hr, Running.tasks_task, List.map_cons,
        List.cons_append, List.nodup_cons, List.mem_append, not_or] at hnd
      refine ⟨co, c, p, r, hr, rfl, hp, hne, by rw [← hsend]; simp, ?_, ?_⟩
      · simpa [State.active, hc.returnTo_tasks] using hnd.1.1
      · show s.owners co.stack = 0
        rw [owners_eq hs]
        exact List.count_eq_zero.mpr hnd.1.2
    · exact absurd (by simpa [Function.update_noteq he] using ha) hb
  · exact absurd ha hb
  · by_cases he : n = s.nextStack
    · subst he
      simp at ha
    · exact absurd (by simpa [Function.update_noteq he] using ha) hb
  · exact absurd ha hb
  · exact absurd ha hb

theorem freed_stays {e : Event V} (hs : Inv s) (h : step s e = some (.ok s')) {n : Nat}
    (hf : s.stackAlloc n = .freed) : s'.stackAlloc n = .freed := by
  rcases step_cases hs h with ⟨co, c, p, r, hr, -, -, -, rfl⟩ | ⟨co, c, f, k, -, -, rfl⟩ |
      ⟨b, q, here, k, -, -, -, -, rfl⟩ | ⟨r, -, -, rfl⟩ | ⟨i, r, co, rx, hh, f, k, -, -, -, -, rfl⟩
  · have hlive := (hs.ledger.live co (by simp [State.tasks, hr])).2.2.1
    have hne : n ≠ co.stack := fun he => by simp [he, hlive] at hf
    simpa [Function.update_noteq hne] using hf
  · exact hf
  · have hne : n ≠ s.nextStack := fun he => by simp [he, (hs.ledger.fresh _ le_rfl).1] at hf
    simpa [Function.update_noteq hne] using hf
  · exact hf
  · exact hf

/-- What linear resumption and the life of a stack say about a state and the steps from it. -/
structure Lifecycle (s : State V) : Prop where
  status : ∀ n < s.nextStack,
    (n ∈ s.active ∧ s.owners n = 0 ∧ s.results n = none ∧ s.stackAlloc n = .live) ∨
    (n ∉ s.active ∧ s.owners n = 1 ∧ s.results n = none ∧ s.stackAlloc n = .live) ∨
    (n ∉ s.active ∧ s.owners n = 0 ∧ (s.results n).isSome ∧ s.stackAlloc n = .freed)
  resumed_by_own : ∀ e s', step s e = some (.ok s') → ∀ n, s.owners n = 1 → n ∈ s'.active →
    ∃ i r w, e = .fire i r ∧ s.wakeups[i]? = some w ∧ w.context.stack = some n
  fired_resumes : ∀ i w r n, s.running = .idle → s.wakeups[i]? = some w → w.after.fut r →
    w.context.stack = some n →
    ∃ s', step s (.fire i r) = some (.ok s') ∧ n ∈ s'.active ∧ s'.owners n = 0
  freed_when_ended : ∀ e s', step s e = some (.ok s') → ∀ n, s.stackAlloc n ≠ .freed →
    s'.stackAlloc n = .freed →
    ∃ co c p r, s.running = .task co (some c) p ∧ co.stack = n ∧ p.result = some r ∧
      c.stack ≠ some n ∧ s'.results n = some r ∧ n ∉ s'.active ∧ s'.owners n = 0
  freed_forever : ∀ e s', step s e = some (.ok s') → ∀ n, s.stackAlloc n = .freed →
    s'.stackAlloc n = .freed

end Corona.Lib
