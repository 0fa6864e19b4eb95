import Corona.Lib.Outcome
import Corona.Contexts.Outcome

/-! # Outcomes and results in both versions of the library

A suspension returns the awaited future's outcome, and a `CoroutineResult` reports what its task
returned or panicked with, is written once, and never reports `Lost`.
-/
namespace Corona

variable {V : Type}

/-- Suspension delivers the future's outcome, in both files and in every order of events. In
`lib.rs`, `yield_now` is one suspension on `future::ok(())`: its coroutine runs again only when
that wakeup fires with `Ok(())`, and then goes on with the caller's code. -/
theorem future_outcome_delivered [DecidableEq V] {sl : Lib.State V} {sc : Contexts.State V}
    (hl : Lib.Reachable sl) (hc : Contexts.Reachable sc) :
    Lib.Delivery sl ∧ Contexts.Delivery sc ∧
      ∀ (unit : V) co t k, sl.running = .task co t (Lib.Prog.yieldNow unit k) → ∃ s' g,
        Lib.step sl .run = some (.ok s') ∧ Lib.AwaitsOutcome s' co (Fut.ok unit) sl.nextOneshot g ∧
        ∀ r, Fut.ok unit r → g r = k :=
  ⟨hl.delivery, hc.delivery, fun _ co t _ hr =>
    let ⟨s', h, _, ha⟩ := hl.delivery.called co t _ _ hr
    ⟨s', _, h, ha, fun _ hr => by rw [Fut.ok_iff.mp hr]⟩⟩

/-- On busy threads whose running coroutine calls `yield_now` in `lib.rs` and `wait` in
`coroutine.rs`, each call suspends it on a new wakeup from which it returns only the future's
outcome. -/
theorem future_outcome_delivered_busy :
    ∃ (sl : Lib.State Nat) (sc : Contexts.State Nat), Lib.Reachable sl ∧ Contexts.Reachable sc ∧
      sl.running = .task ⟨1, 1, 0⟩ (some .thread) (Lib.Prog.yieldNow 0 (.ret 1)) ∧
      sl.wakeups ≠ [] ∧ sc.running = .task ⟨1, 1, 0⟩ (.wait (Fut.ok 0) fun _ => .ret 1) ∧
      sc.waitTasks ≠ [] ∧ Lib.Delivery sl ∧ Contexts.Delivery sc ∧
      (∃ s' g, Lib.step sl .run = some (.ok s') ∧
        Lib.AwaitsOutcome s' ⟨1, 1, 0⟩ (Fut.ok 0) sl.nextOneshot g ∧
        ∀ r, Fut.ok 0 r → g r = .ret 1) ∧
      ∃ s', Contexts.step sc .run = some (.ok s') ∧
        Contexts.WaitsOutcome s' ⟨1, 1, 0⟩ (Fut.ok 0) sc.nextSlot fun _ => .ret 1 := by
  obtain ⟨sl, hl, hlr, hlw⟩ := Lib.reachable_busy (Lib.Prog.yieldNow 0 (.ret 1))
  obtain ⟨sc, hc, hcr, hcw⟩ := Contexts.reachable_busy (.wait (Fut.ok 0) fun _ => .ret 1)
  obtain ⟨hdl, hdc, hy⟩ := future_outcome_delivered hl hc
  obtain ⟨s', h, -, -, hw⟩ := hdc.called _ _ _ hcr
  exact ⟨sl, sc, hl, hc, hlr, hlw, hcr, hcw, hdl, hdc, hy 0 _ _ _ hlr, s', h, hw⟩

/-- Join handles are correct in both files, and in both the trampoline runs the same code
after a caught panic as after a return: from any state, the two differ only in the result
sent. -/
theorem join_handle_correct {sl : Lib.State V} {sc : Contexts.State V} (hl : Lib.Reachable sl)
    (hc : Contexts.Reachable sc) :
    Lib.JoinHandle sl ∧ Contexts.JoinHandle sc ∧
      (∀ (s : Lib.State V) co t v p, Lib.runTask s co t (.panic p) =
        (Lib.runTask s co t (.ret v)).map fun s' =>
          { s' with results := Function.update s.results co.sender (some (.panicked p)) }) ∧
      ∀ (s : Contexts.State V) co v p, Contexts.runTask s co (.panic p) =
        (Contexts.runTask s co (.ret v)).map fun s' =>
          { s' with results := Function.update s.results co.sender (some (.panicked p)) } :=
  ⟨hl.inv.joinHandle, hc.inv.joinHandle, fun s co t _ _ => Lib.finish_results s co t _ _,
    fun s co _ _ => Contexts.finish_results s co _ _⟩

/-- On busy threads, a running coroutine that returns `1` has its `CoroutineResult` poll
`Ok(1)` in both files. -/
theorem join_handle_correct_busy :
    ∃ (sl : Lib.State Nat) (sc : Contexts.State Nat), Lib.Reachable sl ∧ Contexts.Reachable sc ∧
      sl.running = .task ⟨1, 1, 0⟩ (some .thread) (.ret 1) ∧ sl.wakeups ≠ [] ∧
      sc.running = .task ⟨1, 1, 0⟩ (.ret 1) ∧ sc.waitTasks ≠ [] ∧
      Lib.JoinHandle sl ∧ Contexts.JoinHandle sc ∧
      (∃ s', Lib.step sl .run = some (.ok s') ∧ s'.poll 1 = .ok (some 1)) ∧
      ∃ s', Contexts.step sc .run = some (.ok s') ∧ s'.poll 1 = .ok (some 1) := by
  obtain ⟨sl, hl, hlr, hlw⟩ := Lib.reachable_busy (.ret 1)
  obtain ⟨sc, hc, hcr, hcw⟩ := Contexts.reachable_busy (.ret 1)
  obtain ⟨hjl, hjc, -⟩ := join_handle_correct hl hc
  obtain ⟨-, s', -, h, -, hp⟩ := hjl.returned _ _ _ hlr
  obtain ⟨-, -, t', -, h', -, -, hp'⟩ := hjc.returned _ _ hcr
  exact ⟨sl, sc, hl, hc, hlr, hlw, hcr, hcw, hjl, hjc, ⟨s', h, hp⟩, t', h', hp'⟩

end Corona
