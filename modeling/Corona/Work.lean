import Corona.Ledger
import Mathlib.Logic.Hydra

/-! # Pending work and its descent

What a state still has to run is a multiset of code and continuations; a step that takes out one
piece and puts back only its parts descends in `Relation.CutExpand`, which is well-founded.
-/
namespace Corona

/-- A piece of pending work over programs `P`: code about to run, or a continuation waiting
for the value it is resumed with. -/
inductive Work (P : Type) : Type 1 where
  | prog (p : P)
  | cont {α : Type} (k : α → P)

namespace Work

variable {P : Type} (parts : P → List (Work P))

inductive Part : Work P → Work P → Prop
  | part {p : P} {w : Work P} : w ∈ parts p → Part w (.prog p)
  | apply {α : Type} {k : α → P} (x : α) : Part (.prog (k x)) (.cont k)

def Below : Work P → Work P → Prop := Relation.TransGen (Part parts)

def Shrinks : Multiset (Work P) → Multiset (Work P) → Prop :=
  Relation.TransGen (Relation.CutExpand (Below parts))

variable {parts}

theorem below_part {p : P} {w : Work P} (h : w ∈ parts p) : Below parts w (.prog p) :=
  .single (.part h)

theorem below_cont {α : Type} {k : α → P} (x : α) : Below parts (.prog (k x)) (.cont k) :=
  .single (.apply x)

theorem below_apply {p : P} {α : Type} {k : α → P} (h : .cont k ∈ parts p) (x : α) :
    Below parts (.prog (k x)) (.prog p) :=
  .tail (.single (.apply x)) (.part h)

theorem acc_cont {α : Type} {k : α → P} (h : ∀ x, Acc (Part parts) (.prog (k x))) :
    Acc (Part parts) (.cont k) :=
  ⟨_, fun w hw => by cases hw with | apply x => exact h x⟩

theorem acc_prog {p : P} (h : ∀ w ∈ parts p, Acc (Part parts) w) : Acc (Part parts) (.prog p) :=
  ⟨_, fun w hw => by cases hw with | part hm => exact h w hm⟩

/-- Pending work cannot descend for ever once every program is accessible. -/
theorem shrinks_wf (hacc : ∀ p, Acc (Part parts) (.prog p)) : WellFounded (Shrinks parts) := by
  have hwf : WellFounded (Part parts) := ⟨fun w => by
    cases w with
    | prog p => exact hacc p
    | cont k => exact acc_cont fun x => hacc _⟩
  exact hwf.transGen.cutExpand.transGen

theorem replace {x : Work P} {t : Multiset (Work P)} (h : ∀ y ∈ t, Below parts y x)
    (rest : Multiset (Work P)) : Relation.CutExpand (Below parts) (t + rest) (x ::ₘ rest) := by
  rw [← Multiset.singleton_add]
  exact (Relation.cutExpand_add_right rest).2 (Relation.cutExpand_singleton h)

theorem remove (x : Work P) (rest : Multiset (Work P)) :
    Relation.CutExpand (Below parts) rest (x ::ₘ rest) := by
  simpa using replace (t := 0) (by simp) rest

theorem replace_one {x y : Work P} (h : Below parts y x) (rest : Multiset (Work P)) :
    Relation.CutExpand (Below parts) (y ::ₘ rest) (x ::ₘ rest) := by
  simpa using replace (t := {y}) (by simpa using h) rest

theorem resume_first {α β : Type} (ks : List (α × (β → P))) (x : β) (rest : Multiset (Work P)) :
    Relation.ReflTransGen (Relation.CutExpand (Below parts))
      (↑((ks.head?.map fun y => prog (y.2 x)).toList) + (↑(ks.tail.map fun y => cont y.2) + rest))
      (↑(ks.map fun y => cont y.2) + rest) := by
  cases ks with
  | nil => simpa using .refl
  | cons y ks =>
    rw [List.map_cons, ← Multiset.cons_coe, Multiset.cons_add]
    exact .single (by simpa using replace_one (below_cont (k := y.2) x) _)

theorem take_at {γ : Type} (g : γ → Work P) {l : List γ} {i : Nat} {c : γ} (hc : l[i]? = some c)
    {y : Work P} (hy : Below parts y (g c)) (rest : Multiset (Work P)) :
    Relation.CutExpand (Below parts) (y ::ₘ (rest + ↑((l.eraseIdx i).map g)))
      (rest + ↑(l.map g)) := by
  rw [← Multiset.coe_eq_coe.mpr ((perm_cons_eraseIdx hc).map g), List.map_cons,
    ← Multiset.cons_coe, Multiset.add_cons]
  exact replace_one hy _

end Work

/-! ## Runs of a well-founded step relation -/

section Runs

variable {σ : Type} {R : σ → σ → Prop} {P Q : σ → Prop}

/-- A drain: when steps from the states `P` holds of are well-founded, keep `P`, and are
possible until `Q` holds, some run from each such state reaches `Q`. -/
theorem exists_run_to (hstep : ∀ s s', P s → R s s' → P s')
    (hwf : WellFounded fun s' s => P s ∧ R s s') (hprog : ∀ s, P s → Q s ∨ ∃ s', R s s')
    (s : σ) (hs : P s) : ∃ s', Relation.ReflTransGen R s s' ∧ Q s' := by
  induction s using hwf.induction with
  | _ s ih =>
    rcases hprog s hs with hq | ⟨s', h⟩
    · exact ⟨s, .refl, hq⟩
    · obtain ⟨s'', hr, hq⟩ := ih s' ⟨hs, h⟩ (hstep s s' hs h)
      exact ⟨s'', .head h hr, hq⟩

/-- A run of an abstract step relation `A` from the abstraction of a state is a run of `R`, when
each `A` step from the abstraction of a state `P` holds of is taken by an `R` step keeping `P`. -/
theorem lift_run {α : Type} {A : α → α → Prop} {abs : σ → α}
    (hlift : ∀ s a', P s → A (abs s) a' → ∃ s', R s s' ∧ P s' ∧ abs s' = a') {s : σ} (hs : P s)
    {a' : α} (h : Relation.ReflTransGen A (abs s) a') :
    ∃ s', Relation.ReflTransGen R s s' ∧ P s' ∧ abs s' = a' := by
  induction h with
  | refl => exact ⟨s, .refl, hs, rfl⟩
  | tail _ hstep ih =>
    obtain ⟨s1, h1, hs1, rfl⟩ := ih
    obtain ⟨s2, h2, hs2, rfl⟩ := hlift s1 _ hs1 hstep
    exact ⟨s2, h1.tail h2, hs2, rfl⟩

end Runs

theorem some_of_map_ok {ε σ α : Type} {f : σ → α} {x : Option (Except ε σ)} {y : Option α}
    (h : x.map (Except.map f) = y.map Except.ok) {s : σ} (hx : x = some (.ok s)) :
    y = some (f s) := by
  subst hx
  cases y <;> simp_all [Except.map]

end Corona
