import Corona.Lib.Outcome
import Corona.Lib.Producer

/-! # `StreamIterator::next` and `Producer::produce` in the code of a task

Each helper's `Await::future` resumes its coroutine only with an outcome of the future: the
outcome the stream and producer models take as given.
-/
namespace Corona.Lib

variable {V I E S : Type} {s : State V}

/-- `StreamIterator::next` as task code: `Await::future` on `stream.into_future()`, whose
outcome `decode` reads as what the stream resolved with, then `k` on what `next` returns and on
the iterator it leaves. A taken stream is the panic of `unwrap`, with payload `taken`. -/
def StreamIterator.nextCall (into : S → Fut V) (decode : Except V V → Except (E × S) (Option I × S))
    (taken : V) (k : Option (Except E I) → StreamIterator S → Prog V) (it : StreamIterator S) :
    Prog V :=
  match it.stream with
  | some stream => .future (into stream) fun r =>
    match it.next fun _ => decode r with
    | some (y, it') => k y it'
    | none => .panic taken
  | none => .panic taken

/-- `StreamIterator::next` called by a running coroutine suspends it on a wakeup of the
stream's `into_future`. It runs again only with an outcome `r` of that future, and goes on with
what `next` returns when the stream resolves with `decode r`. -/
theorem next_called (hs : Reachable s) {co : Task} {t : Option (Context V)} {into : S → Fut V}
    {decode : Except V V → Except (E × S) (Option I × S)} {taken : V}
    {k : Option (Except E I) → StreamIterator S → Prog V} {it : StreamIterator S} {stream : S}
    (hit : it.stream = some stream)
    (hr : s.running = .task co t (it.nextCall into decode taken k)) :
    ∃ s' g, step s .run = some (.ok s') ∧ AwaitsOutcome s' co (into stream) s.nextOneshot g ∧
      ∀ r, ∃ y it', it.next (fun _ => decode r) = some (y, it') ∧ g r = k y it' := by
  simp only [StreamIterator.nextCall, hit] at hr
  obtain ⟨s', h, -, ha⟩ := future_called hs hr
  refine ⟨s', _, h, ha, fun r => ?_⟩
  obtain ⟨y, it', hy⟩ : ∃ y it', it.next (fun _ => decode r) = some (y, it') := by
    simp [StreamIterator.next, hit]
  exact ⟨y, it', hy, by simp only [hy]⟩

/-- `Producer::produce(item)` as task code, with `sink` saying whether `Producer::sink` holds
the sender: take it; if it was there, `Await::future` on `sink.send(item)`, then `k` on whether
the sender came back with `Ok`; if not, `k false` at once. -/
def produceCall (send : I → Fut V) (sink : Bool) (item : I) (k : Bool → Prog V) : Prog V :=
  if sink then .future (send item) fun r => k r.isOk else k false

/-- `Producer::produce` with the sender in `Producer::sink` suspends its coroutine on the send.
It runs again only with an outcome `r` of the send, and goes on with the sink `Pipe.sent`
leaves for that outcome: back exactly when `r` is `Ok`. Without the sender it goes on at once,
with the sink `Pipe.produce` leaves. -/
theorem produce_called (hs : Reachable s) {co : Task} {t : Option (Context V)}
    {send : I → Fut V} {item : I} {k : Bool → Prog V} (p : Pipe I) (rest : List I)
    (hr : s.running = .task co t (produceCall send p.sink item k)) :
    (p.sink = true → ∃ s' g, step s .run = some (.ok s') ∧
      AwaitsOutcome s' co (send item) s.nextOneshot g ∧
      ∀ r, g r = k ((p.produce item rest).sent item r.isOk).sink) ∧
    (p.sink = false → produceCall send p.sink item k = k (p.produce item rest).sink) := by
  refine ⟨fun hk => ?_, fun hk => by simp [produceCall, Pipe.produce, hk]⟩
  simp only [produceCall, hk, if_true] at hr
  obtain ⟨s', h, -, ha⟩ := future_called hs hr
  refine ⟨s', _, h, ha, fun r => ?_⟩
  cases r <;> simp [Pipe.produce, Pipe.sent, hk, Except.isOk, Except.toBool]

end Corona.Lib
