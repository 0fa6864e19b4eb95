import Corona.Basic
import Mathlib.Data.List.Perm.Basic

/-! # Bookkeeping of coroutines

A coroutine is named by the index of its stack and result channel; `Ledger` says what is known
of those that have not ended, and how spawning and ending one change it.
-/
namespace Corona

variable {V : Type}

/-- A coroutine that has not ended: the sender of its result channel, its stack, and the
reactor handle it was spawned with. In `lib.rs` these are locals below the task (the sender of
`perform_and_send`, the stack held by `coroutine`, the handle of its `Await`); in `coroutine.rs`
the stack and the handle move into its `CONTEXTS` record. -/
structure Task where
  sender : Nat
  stack : Nat
  handle : Nat
  deriving DecidableEq, Repr

def dropStack {F : Type} (freeInUse : F) (stackAlloc : Nat → StackState) (n : Nat)
    (current : Option Nat) : Except F (Nat → StackState) :=
  if stackAlloc n = .live ∧ current ≠ some n then .ok (Function.update stackAlloc n .freed)
  else .error freeInUse

/-- What is known about the coroutines `ts` that have not ended: distinct live stacks and no
result yet; every other allocated stack is freed with its result sent; nothing is allocated
from `next` on. -/
structure Ledger (ts : List Task) (stackAlloc : Nat → StackState)
    (results : Nat → Option (TaskResult V)) (next : Nat) : Prop where
  nodup : (ts.map Task.stack).Nodup
  live : ∀ co ∈ ts, co.sender = co.stack ∧ co.stack < next ∧ stackAlloc co.stack = .live ∧
    results co.stack = none
  ended : ∀ n < next, n ∉ ts.map Task.stack → stackAlloc n = .freed ∧ (results n).isSome
  fresh : ∀ n, next ≤ n → stackAlloc n = .unused ∧ results n = none

namespace Ledger

variable {ts ts' : List Task} {stackAlloc : Nat → StackState}
  {results : Nat → Option (TaskResult V)} {next : Nat}

theorem init : Ledger [] (fun _ => .unused) (fun _ => (none : Option (TaskResult V))) 0 :=
  ⟨List.nodup_nil, by simp, by simp, by simp⟩

theorem perm (h : Ledger ts stackAlloc results next) (hp : ts.Perm ts') :
    Ledger ts' stackAlloc results next where
  nodup := (hp.map _).nodup_iff.mp h.nodup
  live co hco := h.live co (hp.mem_iff.mpr hco)
  ended n hn hnot := h.ended n hn fun hm => hnot ((hp.map _).mem_iff.mp hm)
  fresh := h.fresh

theorem mem_iff (h : Ledger ts stackAlloc results next) (n : Nat) :
    n ∈ ts.map Task.stack ↔ n < next ∧ results n = none := by
  constructor
  · intro hm
    obtain ⟨co, hco, rfl⟩ := List.mem_map.mp hm
    exact ⟨(h.live co hco).2.1, (h.live co hco).2.2.2⟩
  · rintro ⟨hn, hr⟩
    by_contra hm
    simpa [hr] using (h.ended n hn hm).2

/-- A coroutine whose result is sent has had its stack freed. -/
theorem freed_of_sent (h : Ledger ts stackAlloc results next) {n : Nat} (hn : n < next)
    (hres : (results n).isSome) : stackAlloc n = .freed :=
  (h.ended n hn fun hm => by simp [((h.mem_iff n).mp hm).2] at hres).1

/-- A coroutine that ends leaves the live tasks with its stack freed and its result sent. -/
theorem finish {co : Task} (h : Ledger (co :: ts) stackAlloc results next) (r : TaskResult V) :
    Ledger ts (Function.update stackAlloc co.stack .freed)
      (Function.update results co.sender (some r)) next := by
  obtain ⟨hs, hlt, -, -⟩ := h.live co (List.mem_cons_self _ _)
  have hnot : co.stack ∉ ts.map Task.stack := (List.nodup_cons.mp h.nodup).1
  rw [hs]
  refine ⟨(List.nodup_cons.mp h.nodup).2, fun c hc => ?_, fun n hn hn' => ?_, fun n hn => ?_⟩
  · have hne : c.stack ≠ co.stack := fun he => hnot (he ▸ List.mem_map_of_mem _ hc)
    simpa [Function.update_noteq hne] using h.live c (List.mem_cons_of_mem _ hc)
  · by_cases he : n = co.stack
    · subst he
      simp
    · simpa [Function.update_noteq he] using h.ended n hn (by simp_all)
  · simpa [Function.update_noteq (show n ≠ co.stack by omega)] using h.fresh n hn

/-- A spawned coroutine takes the next stack, which is live and has no result yet. -/
theorem spawn (h : Ledger ts stackAlloc results next) (handle : Nat) :
    Ledger (⟨next, next, handle⟩ :: ts) (Function.update stackAlloc next .live) results (next + 1) := by
  have hlt : ∀ co ∈ ts, co.stack < next := fun co hco => (h.live co hco).2.1
  refine ⟨?_, fun co hco => ?_, fun n hn hn' => ?_, fun n hn => ?_⟩
  · refine List.nodup_cons.mpr ⟨fun hm => ?_, h.nodup⟩
    obtain ⟨co, hco, he⟩ := List.mem_map.mp hm
    exact absurd (hlt co hco) (by simp [he])
  · rcases List.mem_cons.mp hco with rfl | hco
    · simp [(h.fresh next le_rfl).2]
    · obtain ⟨h1, h2, h3, h4⟩ := h.live co hco
      exact ⟨h1, by omega, by simp [Function.update_noteq (Nat.ne_of_lt h2), h3], h4⟩
  · have hne : n ≠ next := fun he => hn' (by simp [he])
    simpa [Function.update_noteq hne] using
      h.ended n (by omega) fun hm => hn' (List.mem_cons_of_mem _ hm)
  · simpa [Function.update_noteq (show n ≠ next by omega)] using h.fresh n (by omega)

end Ledger

/-! ## Removing the `i`-th pending wakeup, in both machines -/

theorem perm_cons_eraseIdx {α : Type} {l : List α} {i : Nat} {a : α} (h : l[i]? = some a) :
    (a :: l.eraseIdx i).Perm l := by
  induction l generalizing i with
  | nil => simp at h
  | cons b l ih =>
    cases i with
    | zero =>
      simp only [List.getElem?_cons_zero, Option.some.injEq] at h
      simp [h]
    | succ i =>
      simp only [List.getElem?_cons_succ] at h
      exact (List.Perm.swap b a _).trans ((ih h).cons b)

theorem getElem?_flatMap_of_singleton {α β : Type} {l : List α} {g : α → List β}
    (hg : ∀ a ∈ l, (g a).length = 1) (i : Nat) :
    (l.flatMap g)[i]? = l[i]?.bind fun a => (g a).head? := by
  induction l generalizing i with
  | nil => simp
  | cons a l ih =>
    obtain ⟨x, hx⟩ := List.length_eq_one.mp (hg a (List.mem_cons_self _ _))
    cases i with
    | zero => simp [hx]
    | succ i => simpa [hx] using ih (fun b hb => hg b (List.mem_cons_of_mem _ hb)) i

theorem eraseIdx_flatMap_of_singleton {α β : Type} {l : List α} {g : α → List β}
    (hg : ∀ a ∈ l, (g a).length = 1) (i : Nat) :
    (l.eraseIdx i).flatMap g = (l.flatMap g).eraseIdx i := by
  induction l generalizing i with
  | nil => simp
  | cons a l ih =>
    obtain ⟨x, hx⟩ := List.length_eq_one.mp (hg a (List.mem_cons_self _ _))
    cases i with
    | zero => simp [hx]
    | succ i => simpa [hx] using ih (fun b hb => hg b (List.mem_cons_of_mem _ hb)) i

end Corona
