import Corona.Contexts.Discipline

/-! # What a suspension and a join handle deliver in `coroutine.rs`

Only the poll wrapper writes a result slot, and `wait` returns what it wrote or `Err(Dropped)`.
-/
namespace Corona.Contexts

variable {V : Type} {s s' : State V}

def State.poll (s : State V) (n : Nat) : Except (TaskFailed V) (Option V) :=
  TaskResult.poll (s.results n) (decide (n ∈ s.tasks.map Task.sender))

theorem resume_results (s : State V) (x : Nat → Option (TaskResult V)) (c t : Context V) :
    resume { s with results := x } c t = (resume s c t).map fun s' => { s' with results := x } := by
  unfold resume
  split_ifs
  · cases c <;> rcases hsw : s.switch with _ | ⟨_ | _ | _ | _ | _⟩ <;>
      simp [coroutine, runChildRest, waitRest, dropStack, Switch.get, hsw, bind, Except.bind,
        Except.map] <;>
      split <;> rfl
  · rfl

theorem finish_results (s : State V) (co : Task) (r r' : TaskResult V) :
    finish s co r = (finish s co r').map fun s' =>
      { s' with results := Function.update s.results co.sender (some r) } := by
  cases hcx : s.contexts with
  | nil => simp [finish, hcx, Except.map]
  | cons my rest =>
    cases hsw : s.switch with
    | some _ => simp [finish, hcx, hsw, Switch.put, bind, Except.bind, Except.map]
    | none =>
      simp only [finish, hcx, hsw, Switch.put, bind, Except.bind]
      have h1 := resume_results { s with contexts := rest, switch := some (.destroy my.stack) }
        (Function.update s.results co.sender (some r)) my.parentContext (.terminated my.stack)
      have h2 := resume_results { s with contexts := rest, switch := some (.destroy my.stack) }
        (Function.update s.results co.sender (some r')) my.parentContext (.terminated my.stack)
      dsimp only at h1 h2
      rw [h1, h2]
      cases resume { s with contexts := rest, switch := some (.destroy my.stack) }
        my.parentContext (.terminated my.stack) <;> rfl

section Outcome

variable (hs : Inv s)
include hs

theorem Inv.suspended_not_active {co : Task} (hco : co ∈ s.suspended) :
    co.stack ∉ (s.running.tasks ++ chain s.contexts).map Task.stack ∧ co.stack < s.nextStack := by
  have hnd := hs.ledger.nodup
  simp only [State.tasks, List.map_append] at hnd
  have hm : co.stack ∈ s.suspended.map Task.stack := List.mem_map_of_mem Task.stack hco
  refine ⟨fun ha => List.disjoint_of_nodup_append hnd (by simpa using ha) hm, ?_⟩
  exact ((hs.ledger.mem_iff _).mp (by simp [State.tasks, hm])).1

/-- A coroutine waiting in `wait` runs again only when its own `WaitTask` resumes it: fired
with an outcome `r` of the future, after the poll wrapper wrote `r` into the slot that `wait`
then reads; or dropped, with `Err(Dropped)` and the slots left alone. -/
theorem Inv.resumed_with_outcome {e : Event V} (h : step s e = some (.ok s')) {co : Task}
    {q : Prog V} (hr' : s'.running = .task co q) (hco : co ∈ s.suspended) :
    (∃ i r f slot k hh, e = .fire i r ∧
      s.waitTasks[i]? = some ⟨⟨f, slot⟩, some (.wait co co.stack co.handle slot k), hh⟩ ∧ f r ∧
      s'.slots slot = some r ∧ q = k (.ok r)) ∨
    (∃ i p k hh, e = .drop i ∧
      s.waitTasks[i]? = some ⟨p, some (.wait co co.stack co.handle p.slot k), hh⟩ ∧
      s'.slots = s.slots ∧ q = k (.error .dropped)) := by
  obtain ⟨hna, hlt⟩ := hs.suspended_not_active hco
  have hmem : co ∈ (Running.task co q).tasks := by simp
  rcases step_cases hs h with ⟨co', p, r, c, rest, hr, -, hcx, hc, -, rfl⟩ |
      ⟨co', f, k, c, rest, hr, hcx, hc, rfl⟩ | ⟨b, q', here, -, rfl⟩ | ⟨r, hrt, rfl⟩ |
      ⟨i, r, co', f, slot, k, hh, rfl, -, hw, hf, rfl⟩ | ⟨i, co', p, k, hh, rfl, -, hw, rfl⟩
  · rw [← hr', hc.returnTo_tasks] at hmem
    exact absurd (by simp [hr, hcx, List.mem_map_of_mem Task.stack hmem]) hna
  · rw [← hr', hc.returnTo_tasks] at hmem
    exact absurd (by simp [hr, hcx, List.mem_map_of_mem Task.stack hmem]) hna
  · obtain ⟨rfl, -⟩ := Running.task.inj hr'
    exact absurd hlt (lt_irrefl _)
  · rw [← hr', hrt] at hmem
    exact absurd (by simp [List.mem_map_of_mem Task.stack hmem]) hna
  · obtain ⟨rfl, rfl⟩ := Running.task.inj hr'
    exact .inl ⟨i, r, f, slot, k, hh, rfl, hw, hf, by simp, rfl⟩
  · obtain ⟨rfl, rfl⟩ := Running.task.inj hr'
    exact .inr ⟨i, p, k, hh, rfl, hw, rfl, rfl⟩

/-- Only the poll wrapper writes an outcome into a result slot, the outcome its future
resolved with, in the step where it reports ready; `wait` only creates its slot empty. -/
theorem Inv.slot_writer {e : Event V} (h : step s e = some (.ok s')) (n : Nat) :
    s'.slots n = s.slots n ∨ (n = s.nextSlot ∧ s'.slots n = none) ∨
      ∃ i r w, e = .fire i r ∧ s.waitTasks[i]? = some w ∧ w.poll.slot = n ∧ w.poll.fut r ∧
        s'.slots n = some r := by
  rcases step_cases hs h with ⟨-, -, -, -, -, -, -, -, -, -, rfl⟩ | ⟨-, -, -, -, -, -, -, -, rfl⟩ |
      ⟨-, -, -, -, rfl⟩ | ⟨-, -, rfl⟩ | ⟨i, r, co, f, slot, k, hh, rfl, -, hw, hf, rfl⟩ |
      ⟨-, -, -, -, -, -, -, -, rfl⟩
  · exact .inl rfl
  · by_cases he : n = s.nextSlot
    · exact .inr (.inl ⟨he, by subst he; exact Function.update_same _ _ _⟩)
    · exact .inl (by simp [Function.update_noteq he])
  · exact .inl rfl
  · exact .inl rfl
  · by_cases he : n = slot
    · exact .inr (.inr ⟨i, r, _, rfl, hw, he.symm, hf, by subst he; exact Function.update_same _ _ _⟩)
    · exact .inl (by simp [Function.update_noteq he])
  · exact .inl rfl

theorem Inv.fire_delivers (hr : s.running = .idle) {i : Nat} {w : WaitTask V}
    (hw : s.waitTasks[i]? = some w) {r : Except V V} (hf : w.poll.fut r) :
    ∃ co k s', w.context = some (.wait co co.stack co.handle w.poll.slot k) ∧
      step s (.fire i r) = some (.ok s') ∧ s'.slots w.poll.slot = some r ∧
        s'.running = .task co (k (.ok r)) := by
  obtain ⟨co, k, hctx, hcol⟩ := hs.waitTask_at hw
  obtain ⟨⟨f, slot⟩, ctx, hh⟩ := w
  simp only at hctx hf ⊢
  subst hctx
  exact ⟨co, k, _, rfl, by simp only [step, hr]; exact fire_eq hs.switch_none hw hf hcol,
    by simp, rfl⟩

/-- One step from a state holding the `WaitTask` of `co`'s `wait`: the `WaitTask` stays
pending; or the step fires it with an outcome `r` of its future, the poll wrapper writes `r`
into the slot, and `co` goes on with `Ok(r)`; or the step drops it, and `co` goes on with
`Err(Dropped)`. -/
theorem Inv.waitTask_step {e : Event V} (h : step s e = some (.ok s')) {f : Fut V}
    {slot hh : Nat} {co : Task} {k : Except Dropped (Except V V) → Prog V}
    (hw : ⟨⟨f, slot⟩, some (.wait co co.stack co.handle slot k), hh⟩ ∈ s.waitTasks) :
    ⟨⟨f, slot⟩, some (.wait co co.stack co.handle slot k), hh⟩ ∈ s'.waitTasks ∨
    (∃ i r, e = .fire i r ∧
      s.waitTasks[i]? = some ⟨⟨f, slot⟩, some (.wait co co.stack co.handle slot k), hh⟩ ∧ f r ∧
      s'.slots slot = some r ∧ s'.running = .task co (k (.ok r))) ∨
    ∃ i, e = .drop i ∧
      s.waitTasks[i]? = some ⟨⟨f, slot⟩, some (.wait co co.stack co.handle slot k), hh⟩ ∧
      s'.running = .task co (k (.error .dropped)) := by
  rcases step_cases hs h with ⟨-, -, -, -, -, -, -, -, -, -, rfl⟩ | ⟨-, -, -, -, -, -, -, -, rfl⟩ |
      ⟨-, -, -, -, rfl⟩ | ⟨-, -, rfl⟩ | ⟨i, r, _, _, _, _, _, rfl, -, hi, hf, rfl⟩ |
      ⟨i, _, _, _, _, rfl, -, hi, rfl⟩
  · exact .inl hw
  · exact .inl (List.mem_append_left _ hw)
  · exact .inl hw
  · exact .inl hw
  · rcases List.mem_cons.mp ((perm_cons_eraseIdx hi).mem_iff.mpr hw) with he | hw'
    · cases he
      exact .inr (.inl ⟨i, r, rfl, hi, hf, by simp, rfl⟩)
    · exact .inl hw'
  · rcases List.mem_cons.mp ((perm_cons_eraseIdx hi).mem_iff.mpr hw) with he | hw'
    · cases he
      exact .inr (.inr ⟨i, rfl, hi, rfl⟩)
    · exact .inl hw'

theorem Inv.waiting {f : Fut V} {slot hh : Nat} {co : Task}
    {k : Except Dropped (Except V V) → Prog V}
    (hw : ⟨⟨f, slot⟩, some (.wait co co.stack co.handle slot k), hh⟩ ∈ s.waitTasks) :
    (∀ q, s.running ≠ .task co q) ∧ (s.running = .idle → ∀ r, f r → ∃ i s',
      step s (.fire i r) = some (.ok s') ∧ s'.slots slot = some r ∧
        s'.running = .task co (k (.ok r))) := by
  refine ⟨fun q hr => ?_, fun hr r hf => ?_⟩
  · have hco : co ∈ s.suspended :=
      List.mem_flatMap.mpr ⟨_, hw, by simp [WaitTask.tasks, Context.tasks]⟩
    exact (hs.suspended_not_active hco).1 (by simp [hr, Running.tasks])
  · obtain ⟨i, hi⟩ := List.mem_iff_getElem?.mp hw
    obtain ⟨co', k', s', hctx, h, hsl, hr'⟩ := hs.fire_delivers hr hi hf
    cases hctx
    exact ⟨i, s', h, hsl, hr'⟩

theorem Inv.sent_once {e : Event V} (h : step s e = some (.ok s')) {n : Nat} :
    s'.results n ≠ s.results n →
      s.results n = none ∧ ∃ co p, s.running = .task co p ∧ co.sender = n ∧
        p.result = s'.results n := by
  rcases step_cases hs h with ⟨co, p, r, c, rest, hr, hp, -, -, -, rfl⟩ |
      ⟨-, -, -, -, -, -, -, -, rfl⟩ | ⟨-, -, -, -, rfl⟩ | ⟨-, -, rfl⟩ |
      ⟨-, -, -, -, -, -, -, -, -, -, -, -, rfl⟩ | ⟨-, -, -, -, -, -, -, -, rfl⟩
  · intro hn
    by_cases he : n = co.sender
    · subst he
      obtain ⟨hsend, -, -, hnone⟩ := hs.ledger.live co (by simp [State.tasks, hr])
      exact ⟨hsend ▸ hnone, co, p, hr, rfl, by simp [hp]⟩
    · exact absurd (by simp [Function.update_noteq he]) hn
  all_goals exact fun hn => absurd rfl hn

theorem Inv.poll_ne_lost {n : Nat} (hn : n < s.nextStack) : s.poll n ≠ .error .lost := by
  cases hres : s.results n with
  | some r => simpa [State.poll, hres] using TaskResult.poll_some_ne_lost r _
  | none =>
    obtain ⟨co, hco, rfl⟩ := List.mem_map.mp ((hs.ledger.mem_iff n).mpr ⟨hn, hres⟩)
    have hm : co.stack ∈ s.tasks.map Task.sender :=
      (hs.ledger.live co hco).1 ▸ List.mem_map_of_mem Task.sender hco
    simp [State.poll, hres, hm, TaskResult.poll]

theorem Inv.ends {co : Task} {p : Prog V} {r : TaskResult V} (hr : s.running = .task co p)
    (hp : p.result = some r) : ∃ c rest s', s.contexts = ⟨co.handle, c, co.stack⟩ :: rest ∧
      step s .run = some (.ok s') ∧ s'.contexts = rest ∧ s'.running = c.returnTo ∧
        s'.poll co.sender = TaskResult.poll (some r) false := by
  obtain ⟨c, rest, hcx, he⟩ := hs.end_eq hr hp
  refine ⟨c, rest, _, hcx, he, rfl, rfl, ?_⟩
  cases r <;> simp [State.poll, TaskResult.poll]

end Outcome

def Next (s s' : State V) : Prop := ∃ e, step s e = some (.ok s')

theorem Reachable.steps (hs : Reachable s) (h : Relation.ReflTransGen Next s s') :
    Reachable s' := by
  induction h with
  | refl => exact hs
  | tail _ hn ih => exact .step _ ih hn.choose_spec

/-- What `Coroutine::wait(f)` guarantees once `co` waits on its `WaitTask`, with result slot
`slot` and continuation `k`: in every run, either the `WaitTask` is still pending, `co` does not
run, and the `WaitTask` fires with every outcome of `f` once the reactor has control; or it was
fired with an outcome `r` of `f`, the poll wrapper wrote `r` into the slot, and `co` went on
with `Ok(r)`; or it was dropped, and `co` went on with `Err(Dropped)`. -/
def WaitsOutcome (s : State V) (co : Task) (f : Fut V) (slot : Nat)
    (k : Except Dropped (Except V V) → Prog V) : Prop :=
  ∀ s', Relation.ReflTransGen Next s s' →
    (⟨⟨f, slot⟩, some (.wait co co.stack co.handle slot k), co.handle⟩ ∈ s'.waitTasks ∧
      (∀ q, s'.running ≠ .task co q) ∧
      (s'.running = .idle → ∀ r, f r → ∃ i s'', step s' (.fire i r) = some (.ok s'') ∧
        s''.slots slot = some r ∧ s''.running = .task co (k (.ok r)))) ∨
    (∃ sm i r sm', Relation.ReflTransGen Next s sm ∧
      sm.waitTasks[i]? = some ⟨⟨f, slot⟩, some (.wait co co.stack co.handle slot k), co.handle⟩ ∧
      step sm (.fire i r) = some (.ok sm') ∧ f r ∧ sm'.slots slot = some r ∧
      sm'.running = .task co (k (.ok r)) ∧ Relation.ReflTransGen Next sm' s') ∨
    ∃ sm i sm', Relation.ReflTransGen Next s sm ∧
      sm.waitTasks[i]? = some ⟨⟨f, slot⟩, some (.wait co co.stack co.handle slot k), co.handle⟩ ∧
      step sm (.drop i) = some (.ok sm') ∧ sm'.running = .task co (k (.error .dropped)) ∧
      Relation.ReflTransGen Next sm' s'

theorem waitsOutcome_of_pending (hs : Reachable s) {co : Task} {f : Fut V} {slot : Nat}
    {k : Except Dropped (Except V V) → Prog V}
    (hw : ⟨⟨f, slot⟩, some (.wait co co.stack co.handle slot k), co.handle⟩ ∈ s.waitTasks) :
    WaitsOutcome s co f slot k := by
  intro s' h
  induction h with
  | refl => exact .inl ⟨hw, hs.inv.waiting hw⟩
  | tail hrun hn ih =>
    obtain ⟨e, he⟩ := hn
    rcases ih with ⟨hw', -⟩ | ⟨sm, i, r, sm', h1, hi, h2, hf, hsl, hr, h3⟩ |
        ⟨sm, i, sm', h1, hi, h2, hr, h3⟩
    · rcases (hs.steps hrun).inv.waitTask_step he hw' with hw'' | ⟨i, r, rfl, hi, hf, hsl, hr⟩ |
          ⟨i, rfl, hi, hr⟩
      · exact .inl ⟨hw'', (Reachable.step _ (hs.steps hrun) he).inv.waiting hw''⟩
      · exact .inr (.inl ⟨_, i, r, _, hrun, hi, he, hf, hsl, hr, .refl⟩)
      · exact .inr (.inr ⟨_, i, _, hrun, hi, he, hr, .refl⟩)
    · exact .inr (.inl ⟨sm, i, r, sm', h1, hi, h2, hf, hsl, hr, h3.tail ⟨e, he⟩⟩)
    · exact .inr (.inr ⟨sm, i, sm', h1, hi, h2, hr, h3.tail ⟨e, he⟩⟩)

/-- `Coroutine::wait(f)` called by the running task `co` pops its record and suspends it on a
new `WaitTask` with a fresh, empty result slot, from which it returns only an outcome of `f`, or
`Err(Dropped)`. -/
theorem wait_called (hs : Reachable s) {co : Task} {f : Fut V}
    {k : Except Dropped (Except V V) → Prog V} (hr : s.running = .task co (.wait f k)) :
    ∃ s', step s .run = some (.ok s') ∧ s'.slots s.nextSlot = none ∧
      s'.waitTasks = s.waitTasks ++
        [⟨⟨f, s.nextSlot⟩, some (.wait co co.stack co.handle s.nextSlot k), co.handle⟩] ∧
      WaitsOutcome s' co f s.nextSlot k := by
  obtain ⟨c, rest, hcx, hc, -⟩ := (show Nested co s.contexts by
    simpa [hr, Running.WellFormed] using hs.inv.running).top
  have h : step s .run = some (wait s co f k) := by simp [step, hr, runTask]
  rw [wait_eq hs.inv.switch_none hcx hc (hs.inv.parent hr hcx hc).1 f k] at h
  exact ⟨_, h, by simp, rfl, waitsOutcome_of_pending (.step _ hs h) (by simp)⟩

/-- What `Coroutine::wait` delivers in a state `s`: a waiting coroutine runs again only through
its own `WaitTask`, with the outcome the poll wrapper wrote or with `Err(Dropped)`; only the poll
wrapper writes a result slot; a `WaitTask` fires once its future resolves; `result.unwrap()`
never fails; and a call of `wait(f)` suspends its caller on a new `WaitTask` of `f`. -/
structure Delivery (s : State V) : Prop where
  resumed_with_outcome : ∀ e s' co q, step s e = some (.ok s') → s'.running = .task co q →
    co ∈ s.suspended →
    (∃ i r f slot k h, e = .fire i r ∧
      s.waitTasks[i]? = some ⟨⟨f, slot⟩, some (.wait co co.stack co.handle slot k), h⟩ ∧ f r ∧
      s'.slots slot = some r ∧ q = k (.ok r)) ∨
    (∃ i p k h, e = .drop i ∧
      s.waitTasks[i]? = some ⟨p, some (.wait co co.stack co.handle p.slot k), h⟩ ∧
      s'.slots = s.slots ∧ q = k (.error .dropped))
  slot_writer : ∀ e s' n, step s e = some (.ok s') →
    s'.slots n = s.slots n ∨ (n = s.nextSlot ∧ s'.slots n = none) ∨
      ∃ i r w, e = .fire i r ∧ s.waitTasks[i]? = some w ∧ w.poll.slot = n ∧ w.poll.fut r ∧
        s'.slots n = some r
  fire_delivers : ∀ i w r, s.running = .idle → s.waitTasks[i]? = some w → w.poll.fut r →
    ∃ co k s', w.context = some (.wait co co.stack co.handle w.poll.slot k) ∧
      step s (.fire i r) = some (.ok s') ∧ s'.slots w.poll.slot = some r ∧
        s'.running = .task co (k (.ok r))
  never_missing : ∀ e, step s e ≠ some (.error .resultMissing)
  called : ∀ co f k, s.running = .task co (.wait f k) → ∃ s',
    step s .run = some (.ok s') ∧ s'.slots s.nextSlot = none ∧
    s'.waitTasks = s.waitTasks ++
      [⟨⟨f, s.nextSlot⟩, some (.wait co co.stack co.handle s.nextSlot k), co.handle⟩] ∧
    WaitsOutcome s' co f s.nextSlot k

/-- What a `CoroutineResult` reports in a state `s`: `Ok(v)` after a return of `v`,
`Err(Panicked(p))` after a panic with `p`, written once, and never `Lost`. -/
structure JoinHandle (s : State V) : Prop where
  returned : ∀ co v, s.running = .task co (.ret v) → ∃ c rest s',
    s.contexts = ⟨co.handle, c, co.stack⟩ :: rest ∧ step s .run = some (.ok s') ∧
      s'.contexts = rest ∧ s'.running = c.returnTo ∧ s'.poll co.sender = .ok (some v)
  panicked : ∀ co p, s.running = .task co (.panic p) → ∃ c rest s',
    s.contexts = ⟨co.handle, c, co.stack⟩ :: rest ∧ step s .run = some (.ok s') ∧
      s'.contexts = rest ∧ s'.running = c.returnTo ∧ s'.poll co.sender = .error (.panicked p)
  sent_once : ∀ e s' n, step s e = some (.ok s') → s'.results n ≠ s.results n →
    s.results n = none ∧ ∃ co p, s.running = .task co p ∧ co.sender = n ∧
      p.result = s'.results n
  never_lost : ∀ n < s.nextStack, s.poll n ≠ .error .lost

theorem Reachable.delivery (hs : Reachable s) : Delivery s where
  resumed_with_outcome _ _ _ _ h hr hco := hs.inv.resumed_with_outcome h hr hco
  slot_writer _ _ n h := hs.inv.slot_writer h n
  fire_delivers _ _ _ hr hw hf := hs.inv.fire_delivers hr hw hf
  never_missing e he := by
    obtain ⟨_, hr, -⟩ := step_inv hs.inv he
    cases hr
  called _ _ _ hr := wait_called hs hr

theorem Inv.joinHandle (hs : Inv s) : JoinHandle s where
  returned _ _ hr := hs.ends hr rfl
  panicked _ _ hr := hs.ends hr rfl
  sent_once _ _ _ h := hs.sent_once h
  never_lost _ hn := hs.poll_ne_lost hn

end Corona.Contexts
