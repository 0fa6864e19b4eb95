import Corona.Lib.Lifecycle
import Corona.Contexts.Lifecycle
import Corona.Contexts.Scheduler
import Corona.Work

/-! # Code that never suspends runs to its end inside `spawn`

By induction on the child's code in the scheduler, carried to each machine by the refinement.
-/
namespace Corona

variable {V : Type}

namespace Lib

/-- Code that never suspends: no `Await::future`, and what it spawns and goes on with never
suspends either. -/
inductive Prog.Sync : Prog V → Prop
  | ret (v : V) : Prog.Sync (.ret v)
  | panic (p : V) : Prog.Sync (.panic p)
  | spawn {b : Coroutine} {q : Prog V} {k : Except StackError Nat → Prog V} :
      q.Sync → (∀ r, (k r).Sync) → Prog.Sync (.spawn b q k)

theorem Sched.step_run_of_result {a : Sched V} {n : Nat} {p : Prog V} {r : TaskResult V}
    (hr : a.running = some (n, p)) (hp : p.result = some r) :
    a.step .run =
      some ({ a with finished := Function.update a.finished n (some r) }.switchOut n) := by
  cases p <;> simp_all [Prog.result, Sched.step]

/-- Code that never suspends runs to its end on task steps alone, as if it had ended at once:
control goes where `resumeSpawner` sends it, nothing new is suspended, and its result is sent. -/
theorem Sched.sync_runs {p : Prog V} (hp : p.Sync) :
    ∀ {a : Sched V} {n : Nat}, a.running = some (n, p) →
      ∃ a', Relation.ReflTransGen (fun a a' => a.step .run = some a') a a' ∧
        (a'.running, a'.blocked) = Sched.resumeSpawner n a.blocked ∧
        a'.suspended = a.suspended ∧ (a'.finished n).isSome ∧ a.next ≤ a'.next := by
  induction hp with
  | ret v | panic v =>
    intro a n hr
    exact ⟨_, .single (Sched.step_run_of_result hr rfl), rfl, rfl, by simp [Sched.switchOut],
      le_rfl⟩
  | @spawn b q k _ _ ihq ihk =>
    intro a n hr
    by_cases hok : a.stackOk b.stackSize
    · obtain ⟨a2, h12, hrb2, hsu2, -, hn2⟩ := ihq (a := { a with
        running := some (a.next, q), blocked := (n, k) :: a.blocked, next := a.next + 1 }) rfl
      simp only [Sched.resumeSpawner, Prod.mk.injEq] at hrb2
      obtain ⟨a3, h23, hrb3, hsu3, hf3, hn3⟩ := ihk (.ok a.next) hrb2.1
      refine ⟨a3, .head (by simp [Sched.step, hr, hok]) (h12.trans h23), hrb2.2 ▸ hrb3,
        hsu3.trans hsu2, hf3, ?_⟩
      dsimp only at hn2
      omega
    · obtain ⟨a2, h, hrb, hsu, hf, hn⟩ :=
        ihk (.error .invalidSize) (a := { a with running := some (n, k (.error .invalidSize)) }) rfl
      exact ⟨a2, .head (by simp [Sched.step, hr, hok]) h, hrb, hsu, hf, hn⟩

theorem sync_runs_through {s : State V} (hs : Reachable s) {co : Task} {t : Option (Context V)}
    {p : Prog V} (hr : s.running = .task co t p) (hp : p.Sync) :
    ∃ s', Relation.ReflTransGen (fun s s' => step s .run = some (.ok s')) s s' ∧
      (s'.abs.running, s'.abs.blocked) = Sched.resumeSpawner co.sender s.abs.blocked ∧
      s'.abs.suspended = s.abs.suspended ∧ (s'.results co.sender).isSome ∧
      s'.stackAlloc co.stack = .freed := by
  obtain ⟨a', hrun, hrb, hsu, hf, hn⟩ :=
    Sched.sync_runs hp (show s.abs.running = some (co.sender, p) by simp [State.abs, hr])
  obtain ⟨s', hrun', hs', rfl⟩ := lift_run (fun s _ hs h =>
    let ⟨s', h', he⟩ := hs.inv.lift_step h; ⟨s', h', .step _ hs h', he⟩) hs hrun
  obtain ⟨hsend, hlt, -⟩ :=
    hs.inv.ledger.live co (by cases t <;> simp [State.tasks, hr, Running.tasks])
  refine ⟨s', hrun', hrb, hsu, hf, hsend ▸ hs'.inv.ledger.freed_of_sent ?_ hf⟩
  simp only [State.abs] at hn
  omega

end Lib

namespace Contexts

inductive Prog.Sync : Prog V → Prop
  | ret (v : V) : Prog.Sync (.ret v)
  | panic (p : V) : Prog.Sync (.panic p)
  | spawn {b : Coroutine} {q : Prog V} {k : Except StackError Nat → Prog V} :
      q.Sync → (∀ r, (k r).Sync) → Prog.Sync (.spawn b q k)
  | reactor {k : Nat → Prog V} : (∀ h, (k h).Sync) → Prog.Sync (.reactor k)

theorem Sched.step_run_of_result {a : Sched V} {co : Task} {p : Prog V} {r : TaskResult V}
    (hr : a.running = some (co, p)) (hp : p.result = some r) :
    a.step .run = some ({ a with finished := Function.update a.finished co.sender (some r) }
      |>.switchOut co.sender) := by
  cases p <;> simp_all [Prog.result, Sched.step]

theorem Sched.sync_runs {p : Prog V} (hp : p.Sync) :
    ∀ {a : Sched V} {co : Task}, a.running = some (co, p) →
      ∃ a', Relation.ReflTransGen (fun a a' => a.step .run = some a') a a' ∧
        (a'.running, a'.blocked) = Sched.resumeSpawner co.sender a.blocked ∧
        a'.suspended = a.suspended ∧ (a'.finished co.sender).isSome ∧ a.next ≤ a'.next := by
  induction hp with
  | ret v | panic v =>
    intro a co hr
    exact ⟨_, .single (Sched.step_run_of_result hr rfl), rfl, rfl, by simp [Sched.switchOut],
      le_rfl⟩
  | @spawn b q k _ _ ihq ihk =>
    intro a co hr
    by_cases hok : a.stackOk b.stackSize
    · obtain ⟨a2, h12, hrb2, hsu2, -, hn2⟩ := ihq (a := { a with
        running := some (⟨a.next, a.next, b.handle⟩, q), blocked := (co, k) :: a.blocked,
        next := a.next + 1 }) rfl
      simp only [Sched.resumeSpawner, Prod.mk.injEq] at hrb2
      obtain ⟨a3, h23, hrb3, hsu3, hf3, hn3⟩ := ihk (.ok a.next) hrb2.1
      refine ⟨a3, .head (by simp [Sched.step, hr, hok]) (h12.trans h23), hrb2.2 ▸ hrb3,
        hsu3.trans hsu2, hf3, ?_⟩
      dsimp only at hn2
      omega
    · obtain ⟨a2, h, hrb, hsu, hf, hn⟩ :=
        ihk (.error .invalidSize) (a := { a with running := some (co, k (.error .invalidSize)) })
          rfl
      exact ⟨a2, .head (by simp [Sched.step, hr, hok]) h, hrb, hsu, hf, hn⟩
  | @reactor k _ ih =>
    intro a co hr
    obtain ⟨a2, h, hrb, hsu, hf, hn⟩ :=
      ih co.handle (a := { a with running := some (co, k co.handle) }) rfl
    exact ⟨a2, .head (by simp [Sched.step, hr]) h, hrb, hsu, hf, hn⟩

theorem sync_runs_through {s : State V} (hs : Reachable s) {co : Task} {p : Prog V}
    (hr : s.running = .task co p) (hp : p.Sync) :
    ∃ s', Relation.ReflTransGen (fun s s' => step s .run = some (.ok s')) s s' ∧
      (s'.abs.running, s'.abs.blocked) = Sched.resumeSpawner co.sender s.abs.blocked ∧
      s'.abs.suspended = s.abs.suspended ∧ (s'.results co.sender).isSome ∧
      s'.stackAlloc co.stack = .freed := by
  obtain ⟨a', hrun, hrb, hsu, hf, hn⟩ :=
    Sched.sync_runs hp (show s.abs.running = some (co, p) by simp [State.abs, hr, Running.current])
  obtain ⟨s', hrun', hs', rfl⟩ := lift_run (fun s _ hs h =>
    let ⟨s', h', he⟩ := hs.inv.lift_step h; ⟨s', h', .step _ hs h', he⟩) hs hrun
  obtain ⟨hsend, hlt, -⟩ := hs.inv.ledger.live co (by simp [State.tasks, hr])
  refine ⟨s', hrun', hrb, hsu, hf, hsend ▸ hs'.inv.ledger.freed_of_sent ?_ hf⟩
  simp only [State.abs] at hn
  omega

end Contexts

/-- A coroutine whose code never suspends runs to its end inside the call that resumed it, in
both versions. From every reachable state in which the running coroutine's code makes no wait,
nor does anything it spawns or goes on with, task steps alone, with no event of the reactor,
reach a state where its result is sent and its stack freed. Control is then back with the
innermost spawner, which goes on with the coroutine's `CoroutineResult`, or with the reactor,
and no coroutine has newly been suspended. -/
theorem sync_children_finish_in_spawn :
    (∀ (s : Lib.State V) (co : Task) (t : Option (Lib.Context V)) (p : Lib.Prog V),
      Lib.Reachable s → s.running = .task co t p → p.Sync →
      ∃ s', Relation.ReflTransGen (fun s s' => Lib.step s .run = some (.ok s')) s s' ∧
        (s'.abs.running, s'.abs.blocked) = Lib.Sched.resumeSpawner co.sender s.abs.blocked ∧
        s'.abs.suspended = s.abs.suspended ∧ (s'.results co.sender).isSome ∧
        s'.stackAlloc co.stack = .freed) ∧
    ∀ (s : Contexts.State V) (co : Task) (p : Contexts.Prog V),
      Contexts.Reachable s → s.running = .task co p → p.Sync →
      ∃ s', Relation.ReflTransGen (fun s s' => Contexts.step s .run = some (.ok s')) s s' ∧
        (s'.abs.running, s'.abs.blocked) =
          Contexts.Sched.resumeSpawner co.sender s.abs.blocked ∧
        s'.abs.suspended = s.abs.suspended ∧ (s'.results co.sender).isSome ∧
        s'.stackAlloc co.stack = .freed :=
  ⟨fun _ _ _ _ hs hr hp => Lib.sync_runs_through hs hr hp,
    fun _ _ _ hs hr hp => Contexts.sync_runs_through hs hr hp⟩

/-- A coroutine spawned from the reactor that returns at once has ended, with its result sent
and its stack freed, before the reactor gets control back. -/
theorem sync_children_finish_in_spawn_top :
    (∃ s : Lib.State Nat,
      Lib.step (Lib.State.init fun _ => true) (.spawn ⟨0, 0⟩ (.ret 0)) = some (.ok s) ∧
      s.running = .task ⟨0, 0, 0⟩ (some .thread) (.ret 0) ∧
      ∃ s', Relation.ReflTransGen (fun s s' => Lib.step s .run = some (.ok s')) s s' ∧
        s'.abs.running = none ∧ (s'.results 0).isSome ∧ s'.stackAlloc 0 = .freed) ∧
    ∃ s : Contexts.State Nat,
      Contexts.step (Contexts.State.init fun _ => true) (.spawn ⟨0, 0⟩ (.ret 0)) = some (.ok s) ∧
      s.running = .task ⟨0, 0, 0⟩ (.ret 0) ∧
      ∃ s', Relation.ReflTransGen (fun s s' => Contexts.step s .run = some (.ok s')) s s' ∧
        s'.abs.running = none ∧ (s'.results 0).isSome ∧ s'.stackAlloc 0 = .freed := by
  refine ⟨⟨_, rfl, rfl, ?_⟩, ⟨_, rfl, rfl, ?_⟩⟩
  · obtain ⟨s', h, hrb, -, hres, hfree⟩ := (sync_children_finish_in_spawn (V := Nat)).1 _ _ _ _
      (.step (.spawn ⟨0, 0⟩ (.ret 0)) (.init fun _ => true) rfl) rfl (.ret 0)
    exact ⟨s', h, congrArg Prod.fst hrb, hres, hfree⟩
  · obtain ⟨s', h, hrb, -, hres, hfree⟩ := (sync_children_finish_in_spawn (V := Nat)).2 _ _ _
      (.step (.spawn ⟨0, 0⟩ (.ret 0)) (.init fun _ => true) rfl) rfl (.ret 0)
    exact ⟨s', h, congrArg Prod.fst hrb, hres, hfree⟩

end Corona
