import Corona.Lib.Lifecycle

/-! # What a suspension and a join handle deliver in `lib.rs`

The wakeup's `then` closure sends the outcome on the oneshot before it resumes the coroutine, so
`Await::future` returns exactly that outcome.
-/
namespace Corona.Lib

variable {V : Type} {s s' : State V}

def State.poll (s : State V) (n : Nat) : Except (TaskFailed V) (Option V) :=
  TaskResult.poll (s.results n) (decide (n ∈ s.tasks.map Task.sender))

theorem Running.mem_tasks (co : Task) (t : Option (Context V)) (q : Prog V) :
    co ∈ (Running.task co t q).tasks := by
  cases t <;> simp [Running.tasks]

theorem resume_results (s : State V) (x : Nat → Option (TaskResult V)) (c t : Context V) :
    resume { s with results := x } c t = (resume s c t).map fun s' => { s' with results := x } := by
  unfold resume
  split_ifs
  · cases c <;> rcases hsw : s.switch with _ | ⟨_ | _ | _ | _⟩ <;>
      simp [coroutine, runChildRest, futureRest, dropStack, Switch.get, hsw, bind, Except.bind,
        Except.map] <;>
      split <;> rfl
  · rfl

theorem finish_results (s : State V) (co : Task) (t : Option (Context V)) (r r' : TaskResult V) :
    finish s co t r = (finish s co t r').map fun s' =>
      { s' with results := Function.update s.results co.sender (some r) } := by
  cases t with
  | none => rfl
  | some c =>
    cases hsw : s.switch with
    | some _ => simp [finish, hsw, Switch.put, bind, Except.bind, Except.map]
    | none =>
      simp only [finish, hsw, Switch.put, bind, Except.bind]
      have h1 := resume_results { s with switch := some (.destroy co.stack) }
        (Function.update s.results co.sender (some r)) c (.terminated co.stack)
      have h2 := resume_results { s with switch := some (.destroy co.stack) }
        (Function.update s.results co.sender (some r')) c (.terminated co.stack)
      dsimp only at h1 h2
      rw [h1, h2]
      cases resume { s with switch := some (.destroy co.stack) } c (.terminated co.stack) <;> rfl

section Outcome

variable (hs : Inv s)
include hs

/-- A coroutine held by a wakeup runs again only in the step that fires that wakeup with an
outcome of its future, and goes on with exactly that outcome, which its oneshot holds. -/
theorem Inv.resumed_with_outcome {e : Event V} (h : step s e = some (.ok s')) {co : Task}
    {t : Option (Context V)} {q : Prog V} (hr' : s'.running = .task co t q) (hco : co ∈ s.suspended) :
    ∃ i r rx hh f k, e = .fire i r ∧ s.wakeups[i]? = some ⟨⟨f, rx⟩, hh, .future co rx k⟩ ∧ f r ∧
      s'.oneshots rx = some r ∧ q = k r := by
  obtain ⟨hna, hlt⟩ := suspended_not_active hs (List.mem_map_of_mem Task.stack hco)
  have hmem := Running.mem_tasks co t q
  rcases step_cases hs h with ⟨co', c, p, r, hr, -, hc, -, rfl⟩ | ⟨co', c, f, k, hr, hc, rfl⟩ |
      ⟨b, q', here, k, -, -, -, -, rfl⟩ | ⟨r, hrt, -, rfl⟩ |
      ⟨i, r, co', rx, hh, f, k, rfl, -, hw, hf, rfl⟩
  · rw [← hr', hc.returnTo_tasks] at hmem
    exact absurd (by simp [State.active, hr, List.mem_map_of_mem Task.stack hmem]) hna
  · rw [← hr', hc.returnTo_tasks] at hmem
    exact absurd (by simp [State.active, hr, List.mem_map_of_mem Task.stack hmem]) hna
  · obtain ⟨rfl, -⟩ := Running.task.inj hr'
    exact absurd hlt (lt_irrefl _)
  · rw [← hr', hrt] at hmem
    exact absurd (List.mem_map_of_mem Task.stack hmem) hna
  · obtain ⟨rfl, -, rfl⟩ := Running.task.inj hr'
    exact ⟨i, r, rx, hh, f, k, rfl, hw, hf, by simp, rfl⟩

/-- Once its future resolves with `r`, a wakeup fires without fault; the oneshot then holds
`r` and the coroutine goes on with it. -/
theorem Inv.fire_delivers (hr : s.running = .idle) {i rx hh : Nat} {f : Fut V} {co : Task}
    {k : Except V V → Prog V} (hw : s.wakeups[i]? = some ⟨⟨f, rx⟩, hh, .future co rx k⟩)
    {r : Except V V} (hf : f r) :
    ∃ s', step s (.fire i r) = some (.ok s') ∧ s'.oneshots rx = some r ∧
      s'.running = .task co (some .thread) (k r) := by
  have hcol := (hs.ledger.live co (mem_tasks_of_wakeup (List.getElem?_mem hw) rfl)).2.2.1
  exact ⟨_, by simp only [step, hr]; exact fire_eq hs.switch_none hw hf hcol, by simp, rfl⟩

/-- One step from a state holding the wakeup of `Await::future` for `co`: the wakeup stays
pending, or the step fires it with an outcome `r` of its future, the oneshot then holds `r`, and
`co` goes on with `k r`. -/
theorem Inv.wakeup_step {e : Event V} (h : step s e = some (.ok s')) {f : Fut V} {rx hh : Nat}
    {co : Task} {k : Except V V → Prog V} (hw : ⟨⟨f, rx⟩, hh, .future co rx k⟩ ∈ s.wakeups) :
    ⟨⟨f, rx⟩, hh, .future co rx k⟩ ∈ s'.wakeups ∨ ∃ i r, e = .fire i r ∧
      s.wakeups[i]? = some ⟨⟨f, rx⟩, hh, .future co rx k⟩ ∧ f r ∧ s'.oneshots rx = some r ∧
      s'.running = .task co (some .thread) (k r) := by
  rcases step_cases hs h with ⟨-, -, -, -, -, -, -, -, rfl⟩ | ⟨-, -, -, -, -, -, rfl⟩ |
      ⟨-, -, -, -, -, -, -, -, rfl⟩ | ⟨-, -, -, rfl⟩ | ⟨i, r, _, _, _, _, _, rfl, -, hi, hf, rfl⟩
  · exact .inl hw
  · exact .inl (List.mem_append_left _ hw)
  · exact .inl hw
  · exact .inl hw
  · rcases List.mem_cons.mp ((perm_cons_eraseIdx hi).mem_iff.mpr hw) with he | hw'
    · cases he
      exact .inr ⟨i, r, rfl, hi, hf, by simp, rfl⟩
    · exact .inl hw'

theorem Inv.awaiting {f : Fut V} {rx hh : Nat} {co : Task} {k : Except V V → Prog V}
    (hw : ⟨⟨f, rx⟩, hh, .future co rx k⟩ ∈ s.wakeups) :
    (∀ t q, s.running ≠ .task co t q) ∧ (s.running = .idle → ∀ r, f r → ∃ i s',
      step s (.fire i r) = some (.ok s') ∧ s'.oneshots rx = some r ∧
        s'.running = .task co (some .thread) (k r)) := by
  refine ⟨fun t q hr => ?_, fun hr r hf => ?_⟩
  · have hm : co.stack ∈ s.suspended.map Task.stack :=
      List.mem_map_of_mem _ (List.mem_flatMap.mpr ⟨_, hw, by simp [Context.tasks]⟩)
    refine (suspended_not_active hs hm).1 ?_
    rw [State.active, hr]
    exact List.mem_map_of_mem _ (Running.mem_tasks co t q)
  · obtain ⟨i, hi⟩ := List.mem_iff_getElem?.mp hw
    exact ⟨i, hs.fire_delivers hr hi hf⟩

theorem Inv.ends {co : Task} {t : Option (Context V)} {p : Prog V} {r : TaskResult V}
    (hr : s.running = .task co t p) (hp : p.result = some r) :
    ∃ c s', t = some c ∧ step s .run = some (.ok s') ∧ s'.running = c.returnTo ∧
      s'.results co.sender = some r := by
  obtain ⟨c, rfl, hc⟩ : ∃ c, t = some c ∧ Waits co.sender c := by
    simpa [hr, Running.WellFormed] using hs.running
  obtain ⟨hcl, hcol, hne⟩ := hs.parent hr hc
  have hrun : runTask s co (some c) p = finish s co (some c) r := by
    cases p <;> simp_all [Prog.result, runTask]
  have hstep : step s .run = some (runTask s co (some c) p) := by simp [step, hr]
  exact ⟨c, _, rfl, hstep.trans (congrArg some (hrun.trans (finish_eq hs.switch_none hc hcl hcol hne r))),
    rfl, by simp⟩

theorem Inv.sent_once {e : Event V} (h : step s e = some (.ok s')) {n : Nat}
    (hn : s'.results n ≠ s.results n) :
    s.results n = none ∧ ∃ co t p, s.running = .task co t p ∧ co.sender = n ∧
      p.result = s'.results n := by
  revert hn
  rcases step_cases hs h with ⟨co, c, p, r, hr, hp, -, -, rfl⟩ | ⟨-, -, -, -, -, -, rfl⟩ |
      ⟨-, -, -, -, -, -, -, -, rfl⟩ | ⟨-, -, -, rfl⟩ | ⟨-, -, -, -, -, -, -, -, -, -, -, rfl⟩
  · intro hn
    by_cases he : n = co.sender
    · subst he
      obtain ⟨hsend, -, -, hnone⟩ := hs.ledger.live co (by simp [State.tasks, hr])
      exact ⟨hsend ▸ hnone, co, c, p, hr, rfl, by simp [hp]⟩
    · exact absurd (by simp [Function.update_noteq he]) hn
  all_goals exact fun hn => absurd rfl hn

theorem Inv.poll_ne_lost {n : Nat} (hn : n < s.nextStack) : s.poll n ≠ .error .lost := by
  cases hres : s.results n with
  | some r => simpa [State.poll, hres] using TaskResult.poll_some_ne_lost r _
  | none =>
    obtain ⟨co, hco, rfl⟩ := List.mem_map.mp ((hs.ledger.mem_iff n).mpr ⟨hn, hres⟩)
    have hm : co.stack ∈ s.tasks.map Task.sender :=
      (hs.ledger.live co hco).1 ▸ List.mem_map_of_mem Task.sender hco
    simp [State.poll, hres, hm, TaskResult.poll]

end Outcome

def Next (s s' : State V) : Prop := ∃ e, step s e = some (.ok s')

theorem Reachable.steps (hs : Reachable s) (h : Relation.ReflTransGen Next s s') :
    Reachable s' := by
  induction h with
  | refl => exact hs
  | tail _ hn ih => exact .step _ ih hn.choose_spec

/-- What `Await::future(f)` guarantees once `co` is suspended on its wakeup, with oneshot `rx`
and continuation `k`: in every run, either the wakeup is still pending, `co` does not run, and
the wakeup fires with every outcome of `f` once the reactor has control; or the wakeup was
fired with an outcome `r` of `f`, the oneshot then held `r`, and `co` went on with `k r`. -/
def AwaitsOutcome (s : State V) (co : Task) (f : Fut V) (rx : Nat) (k : Except V V → Prog V) :
    Prop :=
  ∀ s', Relation.ReflTransGen Next s s' →
    (⟨⟨f, rx⟩, co.handle, .future co rx k⟩ ∈ s'.wakeups ∧ (∀ t q, s'.running ≠ .task co t q) ∧
      (s'.running = .idle → ∀ r, f r → ∃ i s'', step s' (.fire i r) = some (.ok s'') ∧
        s''.oneshots rx = some r ∧ s''.running = .task co (some .thread) (k r))) ∨
    ∃ sm i r sm', Relation.ReflTransGen Next s sm ∧
      sm.wakeups[i]? = some ⟨⟨f, rx⟩, co.handle, .future co rx k⟩ ∧
      step sm (.fire i r) = some (.ok sm') ∧ f r ∧ sm'.oneshots rx = some r ∧
      sm'.running = .task co (some .thread) (k r) ∧ Relation.ReflTransGen Next sm' s'

theorem awaitsOutcome_of_pending (hs : Reachable s) {co : Task} {f : Fut V} {rx : Nat}
    {k : Except V V → Prog V} (hw : ⟨⟨f, rx⟩, co.handle, .future co rx k⟩ ∈ s.wakeups) :
    AwaitsOutcome s co f rx k := by
  intro s' h
  induction h with
  | refl => exact .inl ⟨hw, hs.inv.awaiting hw⟩
  | tail hrun hn ih =>
    obtain ⟨e, he⟩ := hn
    rcases ih with ⟨hw', -⟩ | ⟨sm, i, r, sm', h1, hi, h2, hf, ho, hr, h3⟩
    · rcases (hs.steps hrun).inv.wakeup_step he hw' with hw'' | ⟨i, r, rfl, hi, hf, ho, hr⟩
      · exact .inl ⟨hw'', (Reachable.step _ (hs.steps hrun) he).inv.awaiting hw''⟩
      · exact .inr ⟨_, i, r, _, hrun, hi, he, hf, ho, hr, .refl⟩
    · exact .inr ⟨sm, i, r, sm', h1, hi, h2, hf, ho, hr, h3.tail ⟨e, he⟩⟩

/-- `Await::future(f)` called by the running task `co` suspends it on a new wakeup with a fresh
oneshot, from which it returns only an outcome of `f`. -/
theorem future_called (hs : Reachable s) {co : Task} {t : Option (Context V)}
    {f : Fut V} {k : Except V V → Prog V} (hr : s.running = .task co t (.future f k)) :
    ∃ s', step s .run = some (.ok s') ∧
      s'.wakeups = s.wakeups ++ [⟨⟨f, s.nextOneshot⟩, co.handle, .future co s.nextOneshot k⟩] ∧
      AwaitsOutcome s' co f s.nextOneshot k := by
  obtain ⟨c, rfl, hc⟩ : ∃ c, t = some c ∧ Waits co.sender c := by
    simpa [hr, Running.WellFormed] using hs.inv.running
  have h : step s .run = some (future s co (some c) f k) := by simp [step, hr, runTask]
  rw [future_eq hs.inv.switch_none hc (hs.inv.parent hr hc).1 f k] at h
  exact ⟨_, h, rfl, awaitsOutcome_of_pending (.step _ hs h) (by simp)⟩

/-- What `Await::future` delivers in a state `s`: a suspended coroutine runs again only through
its own wakeup, fired with an outcome of its future, which it then gets; a wakeup fires once its
future resolves; `receiver.wait().expect(..)` never fails; and a call of `Await::future(f)`
suspends its caller on a new wakeup of `f` from which it returns only an outcome of `f`. -/
structure Delivery (s : State V) : Prop where
  resumed_with_outcome : ∀ e s' co t q, step s e = some (.ok s') → s'.running = .task co t q →
    co ∈ s.suspended → ∃ i r rx h f k, e = .fire i r ∧
      s.wakeups[i]? = some ⟨⟨f, rx⟩, h, .future co rx k⟩ ∧ f r ∧ s'.oneshots rx = some r ∧ q = k r
  fire_delivers : ∀ i rx h f co k r, s.running = .idle →
    s.wakeups[i]? = some ⟨⟨f, rx⟩, h, .future co rx k⟩ → f r → ∃ s',
      step s (.fire i r) = some (.ok s') ∧ s'.oneshots rx = some r ∧
        s'.running = .task co (some .thread) (k r)
  never_canceled : ∀ e, step s e ≠ some (.error .futureCanceled)
  called : ∀ co t f k, s.running = .task co t (.future f k) → ∃ s',
    step s .run = some (.ok s') ∧
    s'.wakeups = s.wakeups ++ [⟨⟨f, s.nextOneshot⟩, co.handle, .future co s.nextOneshot k⟩] ∧
    AwaitsOutcome s' co f s.nextOneshot k

/-- What a `CoroutineResult` reports in a state `s`: `Ok(v)` after a return of `v`,
`Err(Panicked(p))` after a panic with `p`, written once, and never `Lost`. -/
structure JoinHandle (s : State V) : Prop where
  returned : ∀ co t v, s.running = .task co t (.ret v) → ∃ c s', t = some c ∧
    step s .run = some (.ok s') ∧ s'.running = c.returnTo ∧ s'.poll co.sender = .ok (some v)
  panicked : ∀ co t p, s.running = .task co t (.panic p) → ∃ c s', t = some c ∧
    step s .run = some (.ok s') ∧ s'.running = c.returnTo ∧
      s'.poll co.sender = .error (.panicked p)
  sent_once : ∀ e s' n, step s e = some (.ok s') → s'.results n ≠ s.results n →
    s.results n = none ∧ ∃ co t p, s.running = .task co t p ∧ co.sender = n ∧
      p.result = s'.results n
  never_lost : ∀ n < s.nextStack, s.poll n ≠ .error .lost

theorem Reachable.delivery (hs : Reachable s) : Delivery s where
  resumed_with_outcome _ _ _ _ _ h hr hco := hs.inv.resumed_with_outcome h hr hco
  fire_delivers _ _ _ _ _ _ _ hr hw hf := hs.inv.fire_delivers hr hw hf
  never_canceled e he := by
    obtain ⟨_, hr, -⟩ := step_inv hs.inv he
    cases hr
  called _ _ _ _ hr := future_called hs hr

theorem Inv.joinHandle (hs : Inv s) : JoinHandle s where
  returned co t v hr := by
    obtain ⟨c, s', hc, hstep, hrun, hres⟩ := hs.ends hr rfl
    exact ⟨c, s', hc, hstep, hrun, by simp [State.poll, hres, TaskResult.poll]⟩
  panicked co t p hr := by
    obtain ⟨c, s', hc, hstep, hrun, hres⟩ := hs.ends hr rfl
    exact ⟨c, s', hc, hstep, hrun, by simp [State.poll, hres, TaskResult.poll]⟩
  sent_once _ _ _ h hn := hs.sent_once h hn
  never_lost _ hn := hs.poll_ne_lost hn

end Corona.Lib
