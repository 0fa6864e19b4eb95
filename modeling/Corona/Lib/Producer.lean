import Corona.Lib.Stream
import Corona.Work

/-! # A producer and a consumer over a bounded channel

`Producer::produce` is cut at its `Await::future`; the channel behaves as `futures` documents it.
Every interleaving is a run, and the receiver may be dropped at any point.
-/
namespace Corona.Lib

variable {I : Type}

/-- The two coroutines and the channel between them. `sink` is `Producer::sink`, `sending` the
item of the send the producer waits on, and `consumer` the consumer's `StreamIterator` over
the receiver. -/
structure Pipe (I : Type) where
  toProduce : List I
  sink : Bool
  sending : Option I
  producerDone : Bool
  buffer : List I
  capacity : Nat
  receiverAlive : Bool
  consumer : StreamIterator Unit
  collected : List I
  consumerDone : Bool
  accepted : List I
  dropped : List I

def Pipe.senderAlive (p : Pipe I) : Bool := p.sink || p.sending.isSome

def Pipe.produce (p : Pipe I) (item : I) (rest : List I) : Pipe I :=
  if p.sink then { p with sink := false, sending := some item, toProduce := rest }
  else { p with toProduce := rest, dropped := p.dropped ++ [item] }

def Pipe.sent (p : Pipe I) (item : I) (ok : Bool) : Pipe I :=
  if ok then
    { p with sending := none, sink := true, buffer := p.buffer ++ [item],
             accepted := p.accepted ++ [item] }
  else { p with sending := none, dropped := p.dropped ++ [item] }

def Pipe.received (p : Pipe I) : Option (Option I) :=
  match p.buffer with
  | x :: _ => some (some x)
  | [] => if p.senderAlive then none else some none

def Pipe.consume (p : Pipe I) (o : Option I) : Option (Pipe I) :=
  (p.consumer.next fun rx => (.ok (o, rx) : Except (Unit × Unit) (Option I × Unit))).map
    fun (y, it) =>
      match y with
      | some (.ok x) => { p with consumer := it, buffer := p.buffer.tail, collected := p.collected ++ [x] }
      | some (.error _) => { p with consumer := it }
      | none => { p with consumer := it, consumerDone := true }

inductive PipeEvent where
  | produce
  | sendAccepted
  | sendFailed
  | finish
  | next
  | dropReceiver

def Pipe.step (p : Pipe I) : PipeEvent → Option (Pipe I)
  | .produce =>
    match p.sending, p.toProduce with
    | none, item :: rest => if p.producerDone then none else some (p.produce item rest)
    | _, _ => none
  | .sendAccepted =>
    match p.sending with
    | some item =>
      if p.receiverAlive ∧ p.buffer.length < p.capacity then some (p.sent item true) else none
    | none => none
  | .sendFailed =>
    match p.sending with
    | some item => if p.receiverAlive then none else some (p.sent item false)
    | none => none
  | .finish =>
    match p.sending, p.toProduce with
    | none, [] => if p.producerDone then none else some { p with producerDone := true, sink := false }
    | _, _ => none
  | .next =>
    if p.receiverAlive ∧ p.consumerDone = false then p.received.bind p.consume else none
  | .dropReceiver =>
    if p.receiverAlive then some { p with receiverAlive := false, buffer := [] } else none

def Pipe.init (items : List I) (capacity : Nat) : Pipe I where
  toProduce := items
  sink := true
  sending := none
  producerDone := false
  buffer := []
  capacity := capacity
  receiverAlive := true
  consumer := Await.stream ()
  collected := []
  consumerDone := false
  accepted := []
  dropped := []

inductive Pipe.Reachable (items : List I) (capacity : Nat) : Pipe I → Prop
  | init : Pipe.Reachable items capacity (Pipe.init items capacity)
  | step {p p' : Pipe I} (e : PipeEvent) : Pipe.Reachable items capacity p → p.step e = some p' →
      Pipe.Reachable items capacity p'

section Run

variable {items : List I} {p p' : Pipe I}

theorem Pipe.received_some {o : Option I} (h : p.received = some o) :
    (∃ x rest, p.buffer = x :: rest ∧ o = some x) ∨
      (p.buffer = [] ∧ p.senderAlive = false ∧ o = none) := by
  unfold Pipe.received at h
  split at h
  · exact .inl ⟨_, _, ‹_›, (Option.some.inj h).symm⟩
  · split at h
    · cases h
    · exact .inr ⟨‹_›, by simpa using ‹¬_ = true›, (Option.some.inj h).symm⟩

theorem Pipe.consume_some (hc : p.consumer = Await.stream ()) (x : I) :
    p.consume (some x) = some { p with consumer := Await.stream (), buffer := p.buffer.tail,
                                       collected := p.collected ++ [x] } := by
  simp [Pipe.consume, hc, StreamIterator.next, Await.stream]

theorem Pipe.consume_none (hc : p.consumer = Await.stream ()) :
    p.consume none = some { p with consumer := Await.stream (), consumerDone := true } := by
  simp [Pipe.consume, hc, StreamIterator.next, Await.stream]

theorem Pipe.step_cases {e : PipeEvent} (h : p.step e = some p') :
    (∃ item rest, e = .produce ∧ p.sending = none ∧ p.toProduce = item :: rest ∧
      p.producerDone = false ∧ p' = p.produce item rest) ∨
    (∃ item, e = .sendAccepted ∧ p.sending = some item ∧ p.receiverAlive = true ∧
      p' = p.sent item true) ∨
    (∃ item, e = .sendFailed ∧ p.sending = some item ∧ p.receiverAlive = false ∧
      p' = p.sent item false) ∨
    (e = .finish ∧ p.sending = none ∧ p.toProduce = [] ∧ p.producerDone = false ∧
      p' = { p with producerDone := true, sink := false }) ∨
    (∃ o, e = .next ∧ p.receiverAlive = true ∧ p.consumerDone = false ∧ p.received = some o ∧
      p.consume o = some p') ∨
    (e = .dropReceiver ∧ p.receiverAlive = true ∧
      p' = { p with receiverAlive := false, buffer := [] }) := by
  cases e <;> simp only [Pipe.step] at h
  · split at h
    · split at h
      · cases h
      · exact .inl ⟨_, _, rfl, ‹_›, ‹_›, by simpa using ‹¬_ = true›, (Option.some.inj h).symm⟩
    · cases h
  · split at h
    · split at h
      · exact .inr (.inl ⟨_, rfl, ‹_›, (‹_ ∧ _›).1, (Option.some.inj h).symm⟩)
      · cases h
    · cases h
  · split at h
    · split at h
      · cases h
      · exact .inr (.inr (.inl ⟨_, rfl, ‹_›, by simpa using ‹¬_ = true›, (Option.some.inj h).symm⟩))
    · cases h
  · split at h
    · split at h
      · cases h
      · exact .inr (.inr (.inr (.inl ⟨rfl, ‹_›, ‹_›, by simpa using ‹¬_ = true›, (Option.some.inj h).symm⟩)))
    · cases h
  · split at h
    · obtain ⟨o, ho, hc⟩ := Option.bind_eq_some.mp h
      exact .inr (.inr (.inr (.inr (.inl ⟨o, rfl, (‹_ ∧ _›).1, (‹_ ∧ _›).2, ho, hc⟩))))
    · cases h
  · split at h
    · exact .inr (.inr (.inr (.inr (.inr ⟨rfl, ‹_›, (Option.some.inj h).symm⟩))))
    · cases h

/-- What holds along every run: the items split into those the channel took, the one being
sent, those it did not take, and those still to produce; a failed send leaves the producer
without a sink; while the receiver lives nothing fails and the consumer has taken a prefix of
what the channel took; a finished consumer saw the buffer empty and the sender gone. -/
structure Pipe.Inv (items : List I) (p : Pipe I) : Prop where
  split : p.accepted ++ p.sending.toList ++ p.dropped ++ p.toProduce = items
  taken : ∀ x, p.sending = some x → p.sink = false
  failed : p.dropped ≠ [] → p.sink = false ∧ p.sending = none
  holds : p.producerDone = false → p.senderAlive = true ∨ p.dropped ≠ []
  done : p.producerDone = true → p.toProduce = [] ∧ p.sending = none ∧ p.sink = false
  fifo : p.receiverAlive = true → p.collected ++ p.buffer = p.accepted
  no_failure : p.receiverAlive = true → p.dropped = []
  ended : p.consumerDone = true → p.receiverAlive = true → p.senderAlive = false ∧ p.buffer = []
  iterator : p.consumer = Await.stream ()

theorem Pipe.Inv.init (items : List I) (capacity : Nat) : (Pipe.init items capacity).Inv items where
  split := rfl
  taken := by simp [Pipe.init]
  failed := by simp [Pipe.init]
  holds := by simp [Pipe.init, Pipe.senderAlive]
  done := by simp [Pipe.init]
  fifo := by simp [Pipe.init]
  no_failure := by simp [Pipe.init]
  ended := by simp [Pipe.init]
  iterator := rfl

theorem Pipe.Inv.step {e : PipeEvent} (hi : p.Inv items) (h : p.step e = some p') :
    p'.Inv items := by
  obtain ⟨hsplit, htaken, hfailed, hholds, hdone, hfifo, hnofail, hended, hiter⟩ := hi
  rcases Pipe.step_cases h with ⟨item, rest, -, hs, ht, hd, rfl⟩ | ⟨item, -, hs, hr, rfl⟩ |
      ⟨item, -, hs, hr, rfl⟩ | ⟨-, hs, ht, hd, rfl⟩ | ⟨o, -, hr, hcd, ho, hc⟩ | ⟨-, hr, rfl⟩
  · have hnd : p.producerDone ≠ true := by simp [hd]
    cases hk : p.sink
    · -- the sink is gone, after a failed send: the item is dropped
      have hdrop : p.dropped ≠ [] := by simpa [Pipe.senderAlive, hk, hs] using hholds hd
      rw [Pipe.produce, if_neg (by simp [hk])]
      exact ⟨by simpa [hs, ht] using hsplit, htaken, fun _ => ⟨hk, hs⟩, fun _ => .inr (by simp),
        (absurd · hnd), hfifo, fun hr => absurd (hnofail hr) hdrop, hended, hiter⟩
    · -- the sink is taken and the item sent
      have hdrop : p.dropped = [] := by
        by_contra hne
        simp [(hfailed hne).1] at hk
      rw [Pipe.produce, if_pos hk]
      exact ⟨by simpa [hs, ht, hdrop] using hsplit, fun _ _ => rfl, (absurd hdrop ·),
        fun _ => .inl rfl, (absurd · hnd), hfifo, hnofail,
        fun hc hr => absurd (hended hc hr).1 (by simp [Pipe.senderAlive, hk]), hiter⟩
  · have hsa : p.senderAlive = true := by simp [Pipe.senderAlive, hs]
    exact ⟨by simpa [Pipe.sent, hs] using hsplit, by simp [Pipe.sent],
      (absurd (hnofail hr) ·), fun _ => .inl rfl, fun h => absurd (hdone h).2.1 (by simp [hs]),
      fun _ => by simp only [Pipe.sent, if_true, ← List.append_assoc, hfifo hr], hnofail,
      fun hc hr => absurd (hended hc hr).1 (by simp [hsa]), hiter⟩
  · have hdrop : p.dropped = [] := by
      by_contra hne
      simp [(hfailed hne).2] at hs
    exact ⟨by simpa [Pipe.sent, hs, hdrop] using hsplit, by simp [Pipe.sent],
      fun _ => ⟨htaken item hs, rfl⟩, fun _ => .inr (by simp [Pipe.sent]),
      fun h => absurd (hdone h).2.1 (by simp [hs]), fun h => absurd h (by simp [Pipe.sent, hr]),
      fun h => absurd h (by simp [Pipe.sent, hr]), fun _ h => absurd h (by simp [Pipe.sent, hr]),
      hiter⟩
  · exact ⟨hsplit, fun x h => absurd h (by simp [hs]), fun _ => ⟨rfl, hs⟩,
      fun h => absurd h (by simp), fun _ => ⟨ht, hs, rfl⟩, hfifo, hnofail,
      fun hc hr => ⟨by simp [Pipe.senderAlive, hs], (hended hc hr).2⟩, hiter⟩
  · rcases Pipe.received_some ho with ⟨x, rest, hb, rfl⟩ | ⟨hb, hsa, rfl⟩
    · rw [Pipe.consume_some hiter] at hc
      cases hc
      exact ⟨hsplit, htaken, hfailed, hholds, hdone, fun _ => by simpa [hb] using hfifo hr,
        hnofail, fun h => absurd h (by simp [hcd]), rfl⟩
    · rw [Pipe.consume_none hiter] at hc
      cases hc
      exact ⟨hsplit, htaken, hfailed, hholds, hdone, hfifo, hnofail, fun _ _ => ⟨hsa, hb⟩, rfl⟩
  · exact ⟨hsplit, htaken, hfailed, hholds, hdone, fun h => absurd h (by simp),
      fun h => absurd h (by simp), fun _ h => absurd h (by simp), hiter⟩

theorem Pipe.Reachable.inv {capacity : Nat} (h : Pipe.Reachable items capacity p) : p.Inv items := by
  induction h with
  | init => exact Pipe.Inv.init items capacity
  | step _ _ hs ih => exact ih.step hs

theorem Pipe.step_frame {e : PipeEvent} (h : p.step e = some p') :
    p'.capacity = p.capacity ∧ (e ≠ .dropReceiver → p'.receiverAlive = p.receiverAlive) := by
  rcases Pipe.step_cases h with ⟨_, _, -, -, -, -, rfl⟩ | ⟨_, -, -, -, rfl⟩ | ⟨_, -, -, -, rfl⟩ |
      ⟨-, -, -, -, rfl⟩ | ⟨o, -, -, -, -, hc⟩ | ⟨rfl, -, rfl⟩
  · unfold Pipe.produce
    split_ifs <;> exact ⟨rfl, fun _ => rfl⟩
  · exact ⟨rfl, fun _ => rfl⟩
  · exact ⟨rfl, fun _ => rfl⟩
  · exact ⟨rfl, fun _ => rfl⟩
  · obtain ⟨⟨y, it⟩, -, rfl⟩ := Option.map_eq_some'.mp hc
    rcases y with _ | _ | _ <;> exact ⟨rfl, fun _ => rfl⟩
  · exact ⟨rfl, fun h => absurd rfl h⟩

theorem Pipe.Reachable.capacity {capacity : Nat} (h : Pipe.Reachable items capacity p) :
    p.capacity = capacity := by
  induction h with
  | init => rfl
  | step _ _ hs ih => exact (Pipe.step_frame hs).1.trans ih

def Pipe.drained (capacity : Nat) (done rest : List I) : Pipe I :=
  { Pipe.init rest capacity with collected := done, accepted := done }

theorem Pipe.Reachable.pass {capacity : Nat} (hcap : 0 < capacity) {done rest : List I} {x : I}
    (h : Pipe.Reachable items capacity (Pipe.drained capacity done (x :: rest))) :
    Pipe.Reachable items capacity (Pipe.drained capacity (done ++ [x]) rest) := by
  have h1 := h.step .produce rfl
  have h2 := h1.step .sendAccepted (by simp [Pipe.step, Pipe.produce, Pipe.drained, Pipe.init, hcap]; rfl)
  exact h2.step .next (by
    simp [Pipe.step, Pipe.sent, Pipe.received, Pipe.consume, StreamIterator.next, Pipe.produce,
      Pipe.drained, Pipe.init, Await.stream])

/-- With room for one item, some interleaving delivers every item to the consumer, which then
sees the end of the stream while its receiver lives. -/
theorem producer_delivers_all (items : List I) {capacity : Nat} (hcap : 0 < capacity) :
    ∃ p, Pipe.Reachable items capacity p ∧ p.receiverAlive = true ∧ p.consumerDone = true ∧
      p.collected = items := by
  have hrun : ∀ rest done, Pipe.Reachable items capacity (Pipe.drained capacity done rest) →
      Pipe.Reachable items capacity (Pipe.drained capacity (done ++ rest) []) := by
    intro rest
    induction rest with
    | nil => simp
    | cons x rest ih => exact fun done h => by simpa using ih _ (h.pass hcap)
  have hall := hrun items [] .init
  refine ⟨_, (hall.step .finish rfl).step .next rfl, rfl, rfl, by simp [Pipe.drained]⟩

theorem producer_delivers_all_example :
    0 < 1 ∧ ∃ p, Pipe.Reachable [42, 12] 1 p ∧ p.receiverAlive = true ∧ p.consumerDone = true ∧
      p.collected = [42, 12] :=
  ⟨by decide, producer_delivers_all [42, 12] (by decide)⟩

end Run

end Corona.Lib
