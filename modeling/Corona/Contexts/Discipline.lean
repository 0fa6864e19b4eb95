import Corona.Contexts.Invariant
import Mathlib.Data.List.Nodup

/-! # The discipline of `CONTEXTS`

`CONTEXTS` holds the records of exactly the active coroutines, top first, so every call that
reads it finds the record it expects.
-/
namespace Corona.Contexts

variable {V : Type} {s : State V}

theorem Nested.map_stack {co : Task} {rs : List (CoroutineContext V)} (h : Nested co rs) :
    rs.map CoroutineContext.stack = (co :: chain rs).map Task.stack := by
  induction h with
  | thread => rfl
  | spawn _ ih => simp [ih]

theorem Inv.contexts_map_stack (hs : Inv s) :
    s.contexts.map CoroutineContext.stack = (s.running.tasks ++ chain s.contexts).map Task.stack := by
  have hw := hs.running
  cases hr : s.running with
  | idle => simp_all [Running.WellFormed]
  | task co p =>
    have hn : Nested co s.contexts := by simpa [hr, Running.WellFormed] using hw
    simpa [hr] using hn.map_stack

theorem Inv.held_iff (hs : Inv s) (n : Nat) :
    (∃ w ∈ s.waitTasks, w.context.bind Context.stack = some n) ↔ n ∈ s.suspended.map Task.stack := by
  simp only [State.suspended, List.mem_map, List.mem_flatMap]
  constructor
  · rintro ⟨w, hw, hn⟩
    obtain ⟨co, k, hc⟩ := hs.waitTask w hw
    exact ⟨co, ⟨w, hw, by simp [WaitTask.tasks, hc]⟩, by simpa [hc, Context.stack] using hn⟩
  · rintro ⟨co, ⟨w, hw, hco⟩, rfl⟩
    obtain ⟨co', k, hc⟩ := hs.waitTask w hw
    simp only [WaitTask.tasks, hc, Option.map_some', Option.getD_some, Context.tasks_wait,
      List.mem_singleton] at hco
    exact ⟨w, hw, by simp [hc, hco, Context.stack]⟩

theorem Inv.active_iff (hs : Inv s) (n : Nat) :
    n ∈ s.contexts.map CoroutineContext.stack ↔
      n < s.nextStack ∧ s.results n = none ∧
        ∀ w ∈ s.waitTasks, w.context.bind Context.stack ≠ some n := by
  have e : s.tasks.map Task.stack =
      (s.running.tasks ++ chain s.contexts).map Task.stack ++ s.suspended.map Task.stack := by
    simp [State.tasks]
  have hdis := List.disjoint_of_nodup_append (e ▸ hs.ledger.nodup)
  have hmem := e ▸ hs.ledger.mem_iff n
  rw [hs.contexts_map_stack]
  constructor
  · intro ha
    exact ⟨(hmem.mp (List.mem_append_left _ ha)).1, (hmem.mp (List.mem_append_left _ ha)).2,
      fun w hw he => hdis ha ((hs.held_iff n).mp ⟨w, hw, he⟩)⟩
  · rintro ⟨hlt, hres, hno⟩
    rcases List.mem_append.mp (hmem.mpr ⟨hlt, hres⟩) with ha | hb
    · exact ha
    · obtain ⟨w, hw, he⟩ := (hs.held_iff n).mpr hb
      exact absurd he (hno w hw)

theorem Inv.top {co : Task} {p : Prog V} (hs : Inv s) (hr : s.running = .task co p) :
    ∃ c rest, s.contexts = ⟨co.handle, c, co.stack⟩ :: rest ∧ c.IsRunChild ∧
      c.stack.all (s.stackAlloc · = .live) ∧ s.stackAlloc co.stack = .live ∧
      c.stack ≠ some co.stack := by
  obtain ⟨c, rest, hcx, hc, -⟩ := (show Nested co s.contexts by
    simpa [hr, Running.WellFormed] using hs.running).top
  exact ⟨c, rest, hcx, hc, hs.parent hr hcx hc⟩

theorem Inv.contexts_eq_nil (hs : Inv s) : s.contexts = [] ↔ s.running = .idle := by
  cases hr : s.running with
  | idle => simpa [hr, Running.WellFormed] using hs.running
  | task co p =>
    obtain ⟨c, rest, hcx, -⟩ := hs.top hr
    simp [hcx]

theorem reactor_error_iff : reactor s = .error .reactorOutside ↔ s.contexts = [] := by
  cases h : s.contexts <;> simp [reactor, h]

theorem Inv.wait_error_iff (hs : Inv s) (co : Task) (f : Fut V)
    (k : Except Dropped (Except V V) → Prog V) :
    wait s co f k = .error .waitOutside ↔ s.contexts = [] := by
  cases hcx : s.contexts with
  | nil => simp [wait, hcx]
  | cons my rest =>
    obtain ⟨co', p, hr⟩ : ∃ co' p, s.running = .task co' p := by
      cases hr : s.running with
      | idle => exact absurd (hs.contexts_eq_nil.mpr hr) (by simp [hcx])
      | task co' p => exact ⟨co', p, rfl⟩
    obtain ⟨c, rest', hcx', hc, hcl, -⟩ := hs.top hr
    rw [hcx] at hcx'
    obtain ⟨rfl, rfl⟩ := List.cons.inj hcx'
    simp [wait_eq hs.switch_none hcx hc hcl f k]

theorem step_run {co : Task} {p : Prog V} (hr : s.running = .task co p) :
    step s .run = some (runTask s co p) := by
  simp [step, hr]

theorem runTask_of_result {co : Task} {p : Prog V} {r : TaskResult V} (h : p.result = some r) :
    runTask s co p = finish s co r := by
  cases p <;> simp_all [Prog.result, runTask]

/-- What `CONTEXTS` is in a state `s`, and what the calls that read it find there. -/
structure Discipline (s : State V) : Prop where
  active : ∀ n, n ∈ s.contexts.map CoroutineContext.stack ↔
    n < s.nextStack ∧ s.results n = none ∧ ∀ w ∈ s.waitTasks, w.context.bind Context.stack ≠ some n
  nested : ∀ co p, s.running = .task co p → Nested co s.contexts
  empty : s.contexts = [] ↔ s.running = .idle
  outside : (reactor s = .error .reactorOutside ↔ s.running = .idle) ∧
    ∀ co f k, wait s co f k = .error .waitOutside ↔ s.running = .idle
  reactor_handle : ∀ co p, s.running = .task co p → reactor s = .ok co.handle
  spawn_pushes : ∀ b q here failed, s.stackOk b.stackSize → ∃ s',
    spawn s b q here failed = .ok s' ∧
      s'.contexts = ⟨b.handle, here s.nextStack, s.nextStack⟩ :: s.contexts ∧
      s'.running = .task ⟨s.nextStack, s.nextStack, b.handle⟩ q
  wait_pops : ∀ co f k, s.running = .task co (.wait f k) → ∃ c rest s',
    s.contexts = ⟨co.handle, c, co.stack⟩ :: rest ∧ step s .run = some (.ok s') ∧
      s'.contexts = rest ∧ s'.running = c.returnTo ∧
      s'.waitTasks = s.waitTasks ++ [⟨⟨f, s.nextSlot⟩, some (.wait co co.stack co.handle s.nextSlot k),
        co.handle⟩]
  resume_pushes : ∀ i w, s.waitTasks[i]? = some w → ∃ co k,
    w.context = some (.wait co co.stack co.handle w.poll.slot k) ∧
    (∀ r s', step s (.fire i r) = some (.ok s') →
      s'.contexts = [⟨co.handle, .thread, co.stack⟩] ∧ s'.running = .task co (k (.ok r))) ∧
    (∀ s', step s (.drop i) = some (.ok s') →
      s'.contexts = [⟨co.handle, .thread, co.stack⟩] ∧ s'.running = .task co (k (.error .dropped)))
  final_pop : ∀ co p r, s.running = .task co p → p.result = some r → ∃ c rest s',
    s.contexts = ⟨co.handle, c, co.stack⟩ :: rest ∧ step s .run = some (.ok s') ∧
      s'.contexts = rest ∧ s'.running = c.returnTo ∧ s'.stackAlloc co.stack = .freed


section Discipline

variable (hs : Inv s)
include hs

theorem Inv.wait_pops {co : Task} {f : Fut V} {k : Except Dropped (Except V V) → Prog V}
    (hr : s.running = .task co (.wait f k)) : ∃ c rest s',
    s.contexts = ⟨co.handle, c, co.stack⟩ :: rest ∧ step s .run = some (.ok s') ∧
      s'.contexts = rest ∧ s'.running = c.returnTo ∧
      s'.waitTasks = s.waitTasks ++ [⟨⟨f, s.nextSlot⟩, some (.wait co co.stack co.handle s.nextSlot k),
        co.handle⟩] := by
  obtain ⟨c, rest, hcx, hc, hcl, -⟩ := hs.top hr
  exact ⟨c, rest, _, hcx,
    (step_run hr).trans (congrArg some (wait_eq hs.switch_none hcx hc hcl f k)), rfl, rfl, rfl⟩

theorem Inv.end_eq {co : Task} {p : Prog V} {r : TaskResult V} (hr : s.running = .task co p)
    (hp : p.result = some r) : ∃ c rest, s.contexts = ⟨co.handle, c, co.stack⟩ :: rest ∧
      step s .run = some (.ok
        { s with switch := none, results := Function.update s.results co.sender (some r),
                 contexts := rest, stackAlloc := Function.update s.stackAlloc co.stack .freed,
                 running := c.returnTo }) := by
  obtain ⟨c, rest, hcx, hc, hcl, hcol, hne⟩ := hs.top hr
  exact ⟨c, rest, hcx, (step_run hr).trans (congrArg some
    ((runTask_of_result hp).trans (finish_eq hs.switch_none hcx hc hcl hcol hne r)))⟩

theorem Inv.final_pop {co : Task} {p : Prog V} {r : TaskResult V} (hr : s.running = .task co p)
    (hp : p.result = some r) : ∃ c rest s',
    s.contexts = ⟨co.handle, c, co.stack⟩ :: rest ∧ step s .run = some (.ok s') ∧
      s'.contexts = rest ∧ s'.running = c.returnTo ∧ s'.stackAlloc co.stack = .freed := by
  obtain ⟨c, rest, hcx, he⟩ := hs.end_eq hr hp
  exact ⟨c, rest, _, hcx, he, rfl, rfl, Function.update_same _ _ _⟩

theorem Inv.resume_pushes {i : Nat} {w : WaitTask V} (hw : s.waitTasks[i]? = some w) : ∃ co k,
    w.context = some (.wait co co.stack co.handle w.poll.slot k) ∧
    (∀ r s', step s (.fire i r) = some (.ok s') →
      s'.contexts = [⟨co.handle, .thread, co.stack⟩] ∧ s'.running = .task co (k (.ok r))) ∧
    (∀ s', step s (.drop i) = some (.ok s') →
      s'.contexts = [⟨co.handle, .thread, co.stack⟩] ∧ s'.running = .task co (k (.error .dropped))) := by
  obtain ⟨co, k, hctx, hcol⟩ := hs.waitTask_at hw
  obtain ⟨⟨f, slot⟩, ctx, h⟩ := w
  simp only at hctx
  subst hctx
  refine ⟨co, k, rfl, fun r s' he => ?_, fun s' he => ?_⟩ <;> cases hr : s.running <;>
    simp only [step, hr, reduceCtorEq] at he
  · have hcx := hs.contexts_eq_nil.mpr hr
    by_cases hf : f r
    · simp only [fire_eq hs.switch_none hw hf hcol, Option.some.injEq, Except.ok.injEq] at he
      simp [← he, hcx]
    · simp [fire, hw, hf] at he
  · simp only [cleanup_eq hs.switch_none hw hcol, Option.some.injEq, Except.ok.injEq] at he
    simp [← he, hs.contexts_eq_nil.mpr hr]

end Discipline

/-- The `CONTEXTS` discipline holds in every reachable state. -/
theorem contexts_discipline {s : State V} (h : Reachable s) : Discipline s := by
  have hs := h.inv
  refine ⟨hs.active_iff, fun co p hr => by simpa [hr, Running.WellFormed] using hs.running,
    hs.contexts_eq_nil, ⟨reactor_error_iff.trans hs.contexts_eq_nil,
      fun co f k => (hs.wait_error_iff co f k).trans hs.contexts_eq_nil⟩, fun co p hr => ?_,
    fun b q here failed hok => ⟨_, spawn_eq hs.switch_none hok q here failed, rfl, rfl⟩,
    fun co f k hr => hs.wait_pops hr, fun i w hw => hs.resume_pushes hw,
    fun co p r hr hp => hs.final_pop hr hp⟩
  obtain ⟨c, rest, hcx, -⟩ := hs.top hr
  exact reactor_eq hcx

theorem contexts_discipline_busy :
    ∃ s : State Nat, Reachable s ∧ s.running = .task ⟨1, 1, 0⟩ (.ret 1) ∧ s.waitTasks ≠ [] ∧
      Discipline s :=
  let ⟨s, hs, hr, hw⟩ := reachable_busy (.ret 1)
  ⟨s, hs, hr, hw, contexts_discipline hs⟩

end Corona.Contexts
