import Corona.Lib.Completion
import Corona.Contexts.Completion

/-! # `coroutine.rs` runs the tasks of `lib.rs` as `lib.rs` does

Each `Await::future` becomes `Coroutine::wait`; after `Err(Dropped)`, which `lib.rs` cannot
report, the translated task goes on as a fixed task `dropped`, and drops are left out.
-/
namespace Corona

variable {V : Type}

/-- A task of `lib.rs` as a task of `coroutine.rs`. -/
def Lib.Prog.toContexts (dropped : Contexts.Prog V) : Lib.Prog V → Contexts.Prog V
  | .ret v => .ret v
  | .panic p => .panic p
  | .spawn b q k => .spawn b (q.toContexts dropped) fun r => (k r).toContexts dropped
  | .future f k => .wait f fun
    | .ok r => (k r).toContexts dropped
    | .error _ => dropped

def Lib.waitCont (dropped : Contexts.Prog V) (k : Except V V → Lib.Prog V) :
    Except Contexts.Dropped (Except V V) → Contexts.Prog V
  | .ok r => (k r).toContexts dropped
  | .error _ => dropped

@[simp] theorem Lib.Prog.toContexts_future (d : Contexts.Prog V) (f : Fut V)
    (k : Except V V → Lib.Prog V) :
    (Lib.Prog.future f k).toContexts d = .wait f (Lib.waitCont d k) := by
  simp only [Lib.Prog.toContexts]
  congr

def Lib.Event.toContexts (dropped : Contexts.Prog V) : Lib.Event V → Contexts.Event V
  | .run => .run
  | .spawn b q => .spawn b (q.toContexts dropped)
  | .fire i r => .fire i r

structure SchedView (V : Type) where
  running : Option (Nat × Contexts.Prog V)
  blocked : List (Nat × (Except StackError Nat → Contexts.Prog V))
  suspended : List (Nat × Fut V × (Except Contexts.Dropped (Except V V) → Contexts.Prog V))
  finished : Nat → Option (TaskResult V)
  next : Nat
  stackOk : Nat → Bool

def Lib.Sched.view (d : Contexts.Prog V) (a : Lib.Sched V) : SchedView V where
  running := a.running.map fun x => (x.1, x.2.toContexts d)
  blocked := a.blocked.map fun x => (x.1, fun r => (x.2 r).toContexts d)
  suspended := a.suspended.map fun w => (w.id, w.fut, Lib.waitCont d w.k)
  finished := a.finished
  next := a.next
  stackOk := a.stackOk

def Contexts.Sched.view (b : Contexts.Sched V) : SchedView V where
  running := b.running.map fun x => (x.1.sender, x.2)
  blocked := b.blocked.map fun x => (x.1.sender, x.2)
  suspended := b.suspended.map fun w => (w.co.sender, w.fut, w.k)
  finished := b.finished
  next := b.next
  stackOk := b.stackOk

theorem map_eraseIdx {α β : Type} (f : α → β) (l : List α) (i : Nat) :
    (l.eraseIdx i).map f = (l.map f).eraseIdx i := by
  induction l generalizing i with
  | nil => rfl
  | cons a l ih => cases i <;> simp [ih]

section Simulation

variable {d : Contexts.Prog V} {a : Lib.Sched V} {b : Contexts.Sched V}

theorem switchOut_view (h : b.view = a.view d) (n : Nat) :
    (b.switchOut n).view = (a.switchOut n).view d := by
  simp only [Contexts.Sched.view, Lib.Sched.view, SchedView.mk.injEq] at h ⊢
  obtain ⟨-, hb, hrest⟩ := h
  refine ⟨?_, ?_, hrest⟩ <;>
  · cases ha : a.blocked <;> cases hb' : b.blocked <;>
      simp_all [Contexts.Sched.switchOut, Lib.Sched.switchOut, Contexts.Sched.resumeSpawner,
        Lib.Sched.resumeSpawner]

theorem step_view (h : b.view = a.view d) (e : Lib.Event V) :
    Option.Rel (fun a' b' => Contexts.Sched.view b' = a'.view d) (a.step e)
      (b.step (e.toContexts d)) := by
  have hv := h
  simp only [Contexts.Sched.view, Lib.Sched.view, SchedView.mk.injEq] at hv
  obtain ⟨hr, hb, hsu, hf, hn, hok⟩ := hv
  cases har : a.running with
  | none =>
    have hbr : b.running = none := by simpa [har] using hr
    cases e with
    | run => simp [Lib.Sched.step, Contexts.Sched.step, Lib.Event.toContexts, har, hbr]; exact .none
    | spawn c q =>
      simp only [Lib.Sched.step, Contexts.Sched.step, Lib.Event.toContexts, har, hbr, hok]
      refine .some ?_
      split_ifs
      · simp_all [Contexts.Sched.view, Lib.Sched.view]
      · exact h
    | fire i r =>
      have hget : b.suspended[i]?.map (fun w => (w.co.sender, w.fut, w.k)) =
          a.suspended[i]?.map fun w => (w.id, w.fut, Lib.waitCont d w.k) := by
        rw [← List.getElem?_map, ← List.getElem?_map, hsu]
      simp only [Lib.Sched.step, Contexts.Sched.step, Lib.Event.toContexts, har, hbr]
      cases hw : a.suspended[i]? with
      | none =>
        have hbw : b.suspended[i]? = none := by simpa [hw] using hget
        simp only [hw, hbw, Option.none_bind]
        exact .none
      | some w =>
        obtain ⟨w', hw', hww⟩ := Option.map_eq_some'.mp (hget.trans (by rw [hw]; rfl))
        simp only [Prod.mk.injEq] at hww
        obtain ⟨hid, hfut, hk⟩ := hww
        simp only [hw, hw', Option.some_bind, hfut]
        split_ifs
        · refine .some ?_
          simp_all [Contexts.Sched.view, Lib.Sched.view, Contexts.Sched.wake, Lib.waitCont,
            map_eraseIdx]
        · exact .none
  | some x =>
    obtain ⟨n, p⟩ := x
    obtain ⟨⟨co, p'⟩, hbr, hco⟩ := Option.map_eq_some'.mp (hr.trans (by rw [har]; rfl))
    simp only [Prod.mk.injEq] at hco
    obtain ⟨rfl, rfl⟩ := hco
    cases e with
    | spawn c q | fire i r =>
      simp [Lib.Sched.step, Contexts.Sched.step, Lib.Event.toContexts, har, hbr]
      exact .none
    | run =>
      cases p with
      | ret v | panic v =>
        simp only [Lib.Sched.step, Contexts.Sched.step, Lib.Event.toContexts, har, hbr,
          Lib.Prog.toContexts, hf]
        exact .some (switchOut_view (by simp_all [Contexts.Sched.view, Lib.Sched.view,
          Lib.Prog.toContexts]) _)
      | spawn c q k =>
        simp only [Lib.Sched.step, Contexts.Sched.step, Lib.Event.toContexts, har, hbr,
          Lib.Prog.toContexts, hok]
        refine .some ?_
        split_ifs <;> simp_all [Contexts.Sched.view, Lib.Sched.view]
      | future f k =>
        simp only [Lib.Sched.step, Contexts.Sched.step, Lib.Event.toContexts, har, hbr,
          Lib.Prog.toContexts_future]
        exact .some (switchOut_view (by simp_all [Contexts.Sched.view, Lib.Sched.view]) _)

/-- Every run of the `lib.rs` scheduler is matched by a run of the `coroutine.rs` scheduler on
the translated tasks. -/
theorem Lib.Sched.Reachable.simulated (d : Contexts.Prog V) (h : Lib.Sched.Reachable a) :
    ∃ b : Contexts.Sched V, Contexts.Sched.Reachable b ∧ b.view = a.view d := by
  induction h with
  | init stackOk => exact ⟨Contexts.Sched.init stackOk, .init stackOk, rfl⟩
  | step e _ ha ih =>
    obtain ⟨b, hb, hv⟩ := ih
    have hr := step_view hv e
    rw [ha] at hr
    generalize hb' : b.step (e.toContexts d) = ob at hr
    cases hr with
    | some hv' => exact ⟨_, .step _ hb hb', hv'⟩

end Simulation

/-- `coroutine.rs` runs the tasks of `lib.rs` as `lib.rs` does. From corresponding scheduler
states the two take each event of `lib.rs` together, to corresponding states; and each
reachable state of the `lib.rs` machine has a reachable counterpart in the `coroutine.rs`
machine, with the same coroutine running the same code, the same spawners waiting, the same
coroutines suspended on the same futures, and the same results sent. -/
theorem versions_agree (d : Contexts.Prog V) :
    (∀ (a : Lib.Sched V) (b : Contexts.Sched V), b.view = a.view d → ∀ e : Lib.Event V,
      Option.Rel (fun a' b' => Contexts.Sched.view b' = a'.view d) (a.step e)
        (b.step (e.toContexts d))) ∧
    ∀ sl : Lib.State V, Lib.Reachable sl →
      ∃ sc : Contexts.State V, Contexts.Reachable sc ∧ sc.abs.view = sl.abs.view d := by
  refine ⟨fun _ _ h => step_view h, fun sl hl => ?_⟩
  obtain ⟨b, hb, hv⟩ := hl.abs_reachable.simulated d
  obtain ⟨sc, hc, rfl⟩ := hb.realized
  exact ⟨sc, hc, hv⟩

/-- A busy thread of `lib.rs` has a counterpart in `coroutine.rs`, and the two take the
running task's next call together. -/
theorem versions_agree_busy :
    ∃ sl : Lib.State Nat, Lib.Reachable sl ∧
      sl.running = .task ⟨1, 1, 0⟩ (some .thread) (.ret 1) ∧ sl.wakeups ≠ [] ∧
      ∃ sc : Contexts.State Nat, Contexts.Reachable sc ∧ sc.abs.view = sl.abs.view (.ret 0) ∧
        Option.Rel (fun a' b' => Contexts.Sched.view b' = a'.view (.ret 0)) (sl.abs.step .run)
          (sc.abs.step (Lib.Event.run.toContexts (.ret 0))) := by
  obtain ⟨sl, hl, hr, hw⟩ := Lib.reachable_busy (.ret 1)
  obtain ⟨sc, hc, hv⟩ := (versions_agree (.ret 0)).2 sl hl
  exact ⟨sl, hl, hr, hw, sc, hc, hv,
    (versions_agree (.ret 0)).1 _ _ hv .run⟩

end Corona
