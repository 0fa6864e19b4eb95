import Corona.Basic
import Mathlib.Data.List.Basic

/-! # Stream iteration

`resolve` is what `Await::future(stream.into_future())` returns; a finite stream is the list of
its successive resolutions.
-/
namespace Corona.Lib

variable {I E S : Type}

structure StreamIterator (S : Type) where
  stream : Option S

def Await.stream (stream : S) : StreamIterator S := ⟨some stream⟩

/-- `StreamIterator::next`; `resolve stream` is what `Await::future(stream.into_future())`
returns. `none` is the panic of `self.stream.take().unwrap()`. -/
def StreamIterator.next (resolve : S → Except (E × S) (Option I × S)) (it : StreamIterator S) :
    Option (Option (Except E I) × StreamIterator S) :=
  it.stream.map fun stream =>
    let (result, stream) := match resolve stream with
      | .ok (none, stream) => (none, stream)
      | .ok (some ok, stream) => (some (.ok ok), stream)
      | .error (e, stream) => (some (.error e), stream)
    (result, ⟨some stream⟩)

def StreamIterator.nextN (resolve : S → Except (E × S) (Option I × S)) :
    Nat → StreamIterator S → Option (List (Option (Except E I)) × StreamIterator S)
  | 0, it => some ([], it)
  | n + 1, it => (it.next resolve).bind fun (x, it) =>
    (nextN resolve n it).map fun (xs, it) => (x :: xs, it)

def listIntoFuture : List (Except E I) → Except (E × List (Except E I)) (Option I × List (Except E I))
  | [] => .ok (none, [])
  | .ok x :: rest => .ok (some x, rest)
  | .error e :: rest => .error (e, rest)

theorem next_nil :
    (Await.stream ([] : List (Except E I))).next listIntoFuture = some (none, Await.stream []) :=
  rfl

theorem next_cons (r : Except E I) (rs : List (Except E I)) :
    (Await.stream (r :: rs)).next listIntoFuture = some (some r, Await.stream rs) := by
  cases r <;> rfl

/-- Iterating a finite stream yields each of its items and errors once, in order, and then
`None` on every later call; the iterator holds the stream after every call, so no call
panics. -/
theorem stream_iteration_faithful (rs : List (Except E I)) (n : Nat) :
    (Await.stream rs).nextN listIntoFuture n =
      some ((rs.map some ++ List.replicate n none).take n, Await.stream (rs.drop n)) := by
  induction n generalizing rs with
  | zero => rfl
  | succ n ih =>
    cases rs with
    | nil =>
      simp only [StreamIterator.nextN, next_nil, Option.some_bind, ih, Option.map_some']
      simp [List.take_replicate, List.replicate_succ]
    | cons r rs =>
      simp only [StreamIterator.nextN, next_cons, Option.some_bind, ih, Option.map_some']
      simp [List.take_append_eq_append_take, List.take_replicate]
      omega

example :
    (Await.stream [.ok 1, .error 7, .ok 2] : StreamIterator (List (Except Nat Nat))).nextN
      listIntoFuture 5 =
      some ([some (.ok 1), some (.error 7), some (.ok 2), none, none], Await.stream []) := rfl

end Corona.Lib
