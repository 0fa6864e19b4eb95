import Corona.Contexts.Discipline
import Mathlib.Data.List.Nodup

/-! # Faults and the life of a stack in `coroutine.rs`

No step of a reachable state faults, and each coroutine is active, suspended on one `WaitTask`,
or finished, its stack freed once, from another stack.
-/
namespace Corona.Contexts

variable {V : Type} {s s' : State V}

/-- Mailbox framing and fault freedom. Whenever a task or the reactor has control, `SWITCH`
is empty, and no step faults:
- every `put` finds the slot empty, and every `get` finds the instruction its site expects;
- `wait`, `reactor` and the trampoline always find a record in `CONTEXTS`;
- the result slot and the `WaitTask`'s context are there when unwrapped;
- no stack is resumed after it was freed, or freed while it is live and control runs on it. -/
theorem contexts_switch_framing (h : Reachable s) :
    s.switch = none ∧ ∀ e f, step s e ≠ some (.error f) := by
  refine ⟨h.inv.switch_none, fun e f he => ?_⟩
  obtain ⟨_, hr, -⟩ := step_inv h.inv he
  cases hr

theorem contexts_switch_framing_busy :
    ∃ s : State Nat, Reachable s ∧ s.running = .task ⟨1, 1, 0⟩ (.ret 1) ∧ s.waitTasks ≠ [] ∧
      s.switch = none ∧ ∀ e f, step s e ≠ some (.error f) :=
  let ⟨s, hs, hr, hw⟩ := reachable_busy (.ret 1)
  ⟨s, hs, hr, hw, contexts_switch_framing hs⟩

def State.holders (s : State V) (n : Nat) : Nat :=
  s.waitTasks.countP fun w => w.context.bind Context.stack = some n

theorem countP_holders {l : List (WaitTask V)}
    (hl : ∀ w ∈ l, ∃ co k, w.context = some (.wait co co.stack co.handle w.poll.slot k)) (n : Nat) :
    l.countP (fun w => w.context.bind Context.stack = some n) =
      ((l.flatMap WaitTask.tasks).map Task.stack).count n := by
  induction l with
  | nil => rfl
  | cons w l ih =>
    obtain ⟨co, k, hw⟩ := hl w (List.mem_cons_self _ _)
    rw [List.countP_cons, ih fun x hx => hl x (List.mem_cons_of_mem _ hx)]
    simp [hw, Context.stack, WaitTask.tasks, List.count_cons]

theorem Inv.holders_eq (hs : Inv s) (n : Nat) :
    s.holders n = (s.suspended.map Task.stack).count n :=
  countP_holders hs.waitTask n

theorem Inv.tasks_map_stack (hs : Inv s) :
    s.tasks.map Task.stack =
      s.contexts.map CoroutineContext.stack ++ s.suspended.map Task.stack := by
  rw [hs.contexts_map_stack]
  simp [State.tasks]

/-- Each allocated coroutine is in exactly one state: its record in `CONTEXTS` and no
`WaitTask`; held by exactly one `WaitTask`; or finished, with its result sent and its stack
freed. -/
theorem Inv.partition (hs : Inv s) {n : Nat} (hn : n < s.nextStack) :
    (n ∈ s.contexts.map CoroutineContext.stack ∧ s.holders n = 0 ∧ s.results n = none ∧
      s.stackAlloc n = .live) ∨
    (n ∉ s.contexts.map CoroutineContext.stack ∧ s.holders n = 1 ∧ s.results n = none ∧
      s.stackAlloc n = .live) ∨
    (n ∉ s.contexts.map CoroutineContext.stack ∧ s.holders n = 0 ∧ (s.results n).isSome ∧
      s.stackAlloc n = .freed) := by
  have hl := hs.ledger
  have hnd := hs.tasks_map_stack ▸ hl.nodup
  have live : n ∈ s.tasks.map Task.stack → s.results n = none ∧ s.stackAlloc n = .live := by
    intro hm
    obtain ⟨co, hco, rfl⟩ := List.mem_map.mp hm
    exact ⟨(hl.live co hco).2.2.2, (hl.live co hco).2.2.1⟩
  rw [hs.holders_eq, hs.tasks_map_stack] at *
  by_cases ha : n ∈ s.contexts.map CoroutineContext.stack
  · exact .inl ⟨ha, List.count_eq_zero.mpr fun hm => List.disjoint_of_nodup_append hnd ha hm,
      live (List.mem_append_left _ ha)⟩
  · by_cases hsu : n ∈ s.suspended.map Task.stack
    · exact .inr (.inl ⟨ha, List.count_eq_one_of_mem (List.nodup_append.mp hnd).2.1 hsu,
        live (List.mem_append_right _ hsu)⟩)
    · have he := hl.ended n hn (by rw [hs.tasks_map_stack]; simp [ha, hsu])
      exact .inr (.inr ⟨ha, List.count_eq_zero.mpr hsu, he.2, he.1⟩)

/-- A stack is freed only in the step where its coroutine's task ends: by the `run_child`
on another stack that the coroutine's last switch returns to, after the result is sent, with
its record popped and no `WaitTask` left on it. -/
theorem Inv.freed_at_end (hs : Inv s) {e : Event V} (h : step s e = some (.ok s')) {n : Nat}
    (hb : s.stackAlloc n ≠ .freed) (ha : s'.stackAlloc n = .freed) :
    ∃ (co : Task) (p : Prog V) (r : TaskResult V) (c : Context V), s.running = .task co p ∧
      co.stack = n ∧ p.result = some r ∧ c.IsRunChild ∧ c.stack ≠ some n ∧ s'.running = c.returnTo ∧ s'.results n = some r ∧
      n ∉ s'.contexts.map CoroutineContext.stack ∧ s'.holders n = 0 := by
  revert ha
  rcases step_cases hs h with ⟨co, p, r, c, rest, hr, hp, hcx, hc, hne, rfl⟩ |
      ⟨-, -, -, -, -, -, -, -, rfl⟩ | ⟨-, -, -, -, rfl⟩ | ⟨-, -, rfl⟩ |
      ⟨-, -, -, -, -, -, -, -, -, -, -, -, rfl⟩ | ⟨-, -, -, -, -, -, -, -, rfl⟩
  · intro ha
    by_cases he : n = co.stack
    · subst he
      have hco : co ∈ s.tasks := by simp [State.tasks, hr]
      have hsend := (hs.ledger.live co hco).1
      have hnd := hs.tasks_map_stack ▸ hs.ledger.nodup
      simp only [hcx, List.map_cons, List.cons_append, List.nodup_cons, List.mem_append,
        not_or] at hnd
      refine ⟨co, p, r, c, hr, rfl, hp, hc, hne, rfl, by rw [← hsend]; simp, hnd.1.1, ?_⟩
      show s.holders co.stack = 0
      rw [hs.holders_eq]
      exact List.count_eq_zero.mpr hnd.1.2
    · exact absurd (by simpa [Function.update_noteq he] using ha) hb
  · exact fun ha => absurd ha hb
  · intro ha
    by_cases he : n = s.nextStack
    · subst he
      simp at ha
    · exact absurd (by simpa [Function.update_noteq he] using ha) hb
  all_goals exact fun ha => absurd ha hb

theorem Inv.freed_stays (hs : Inv s) {e : Event V} (h : step s e = some (.ok s')) {n : Nat}
    (hf : s.stackAlloc n = .freed) : s'.stackAlloc n = .freed := by
  rcases step_cases hs h with ⟨co, p, r, c, rest, hr, -, -, -, -, rfl⟩ |
      ⟨-, -, -, -, -, -, -, -, rfl⟩ | ⟨-, -, -, -, rfl⟩ | ⟨-, -, rfl⟩ |
      ⟨-, -, -, -, -, -, -, -, -, -, -, -, rfl⟩ | ⟨-, -, -, -, -, -, -, -, rfl⟩
  · have hlive := (hs.ledger.live co (by simp [State.tasks, hr])).2.2.1
    have hne : n ≠ co.stack := fun he => by simp [he, hlive] at hf
    simpa [Function.update_noteq hne] using hf
  · exact hf
  · have hne : n ≠ s.nextStack := fun he => by simp [he, (hs.ledger.fresh _ le_rfl).1] at hf
    simpa [Function.update_noteq hne] using hf
  · exact hf
  · exact hf
  · exact hf

/-- The life of coroutines and their stacks in a state `s` and the steps from it. -/
structure Lifecycle (s : State V) : Prop where
  status : ∀ n < s.nextStack,
    (n ∈ s.contexts.map CoroutineContext.stack ∧ s.holders n = 0 ∧ s.results n = none ∧
      s.stackAlloc n = .live) ∨
    (n ∉ s.contexts.map CoroutineContext.stack ∧ s.holders n = 1 ∧ s.results n = none ∧
      s.stackAlloc n = .live) ∨
    (n ∉ s.contexts.map CoroutineContext.stack ∧ s.holders n = 0 ∧ (s.results n).isSome ∧
      s.stackAlloc n = .freed)
  freed_at_end : ∀ e s' n, step s e = some (.ok s') → s.stackAlloc n ≠ .freed →
    s'.stackAlloc n = .freed →
    ∃ (co : Task) (p : Prog V) (r : TaskResult V) (c : Context V), s.running = .task co p ∧
      co.stack = n ∧ p.result = some r ∧ c.IsRunChild ∧ c.stack ≠ some n ∧ s'.running = c.returnTo ∧ s'.results n = some r ∧
      n ∉ s'.contexts.map CoroutineContext.stack ∧ s'.holders n = 0
  freed_stays : ∀ e s' n, step s e = some (.ok s') → s.stackAlloc n = .freed →
    s'.stackAlloc n = .freed

/-- Linear resumption and stack lifecycle hold in every reachable state of `coroutine.rs`. -/
theorem contexts_lifecycle (h : Reachable s) : Lifecycle s where
  status _ hn := h.inv.partition hn
  freed_at_end _ _ _ hstep hb ha := h.inv.freed_at_end hstep hb ha
  freed_stays _ _ _ hstep hf := h.inv.freed_stays hstep hf

theorem contexts_lifecycle_busy :
    ∃ s : State Nat, Reachable s ∧ s.running = .task ⟨1, 1, 0⟩ (.ret 1) ∧ s.waitTasks ≠ [] ∧
      Lifecycle s :=
  let ⟨s, hs, hr, hw⟩ := reachable_busy (.ret 1)
  ⟨s, hs, hr, hw, contexts_lifecycle hs⟩

end Corona.Contexts
