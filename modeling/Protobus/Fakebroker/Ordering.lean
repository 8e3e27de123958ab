import Mathlib.Data.List.Induction
import Protobus.Fakebroker.Conservation

/-!
# No message overtakes another

A queue hands out its messages by priority, and in the order in which it accepted them where the
priorities are the same. Messages that come back go to the front, whether their channel closed or
they were refused one by one, so that they never end up behind one that was not handed out yet.
-/
namespace Protobus.Fakebroker
open Library Table

variable {s s₀ : State} {q i bound highest : Nat} {queue : Queue} {msgs left : List Message}
  {x m : Message} {a : Act} {w w' : Work}

/-! ## The next message of a queue -/

/-- The priority of a message in a queue. -/
def level (highest : Nat) (m : Message) : Nat := min m.pub.priority highest

/-- The message at `i` is the first of those with the highest priority. -/
structure First (highest : Nat) (msgs : List Message) (i : Nat) (m : Message) : Prop where
  here : msgs[i]? = some m
  top : ∀ m' ∈ msgs, level highest m' ≤ level highest m
  first : ∀ j m', j < i → msgs[j]? = some m' → level highest m' < level highest m

theorem First.concat_higher (first : First highest msgs i m) {m' : Message}
    (higher : level highest m < level highest m') :
    First highest (msgs ++ [m']) msgs.length m' := by
  refine ⟨by simp, ?_, ?_⟩
  · intro x mem
    have := first.top x
    grind
  · intro j x lt found
    have mem : x ∈ msgs := by
      rw [List.getElem?_append_left lt] at found
      exact List.mem_of_getElem? found
    have := first.top x mem
    omega

theorem First.concat_lower (first : First highest msgs i m) {m' : Message}
    (lower : level highest m' ≤ level highest m) : First highest (msgs ++ [m']) i m := by
  have lt : i < msgs.length := (List.getElem?_eq_some_iff.mp first.here).1
  refine ⟨by rw [List.getElem?_append_left lt]; exact first.here, ?_, ?_⟩
  · intro x mem
    have := first.top x
    grind
  · intro j x below found
    rw [List.getElem?_append_left (by omega)] at found
    exact first.first j x below found

/-- The scan of `next` for the highest priority. -/
theorem scan_first (highest : Nat) (msgs : List Message) :
    msgs.zipIdx.foldl (fun (best : Nat × Int) (p : Message × Nat) =>
      let priority : Int := min p.1.pub.priority highest
      if best.2 < priority then (p.2, priority) else best) (0, -1) = (0, -1) ∧ msgs = [] ∨
    ∃ i m, First highest msgs i m ∧
      msgs.zipIdx.foldl (fun (best : Nat × Int) (p : Message × Nat) =>
        let priority : Int := min p.1.pub.priority highest
        if best.2 < priority then (p.2, priority) else best) (0, -1) =
          (i, (level highest m : Int)) := by
  induction msgs using List.reverseRecOn with
  | nil => exact .inl ⟨rfl, rfl⟩
  | append_singleton msgs m' ih =>
    right
    rw [List.zipIdx_append, List.foldl_append]
    have value : (min (m'.pub.priority : Int) highest) = (level highest m' : Int) := by
      unfold level
      omega
    obtain ⟨scanned, rfl⟩ | ⟨i, m, first, scanned⟩ := ih
    · rw [scanned]
      refine ⟨0, m', ⟨by simp, by simp, by omega⟩, ?_⟩
      simp [value]
      omega
    · rw [scanned]
      simp only [List.zipIdx_cons, List.zipIdx_nil, List.foldl_cons, List.foldl_nil, value]
      split
      · next higher => exact ⟨_, m', first.concat_higher (by omega), by simp⟩
      · next lower => exact ⟨i, m, first.concat_lower (by omega), rfl⟩

theorem next_first (found : queue.msgs[queue.next]? = some m) :
    First queue.maxPriority queue.msgs queue.next m := by
  by_cases plain : queue.maxPriority = 0
  · have next : queue.next = 0 := by simp [Queue.next, plain]
    rw [next] at found ⊢
    exact ⟨found, by simp [level, plain], by omega⟩
  · obtain ⟨-, empty⟩ | ⟨i, m', first, scanned⟩ := scan_first queue.maxPriority queue.msgs
    · simp [empty] at found
    · have next : queue.next = i := by
        rw [Queue.next, if_neg plain, scanned]
      rw [next] at found ⊢
      cases first.here.symm.trans found
      exact first

/-! ## The lanes of a queue -/

/-- `x` is older than each message that was not handed out yet, unless its priority is higher. -/
def Ahead (highest : Nat) (msgs : List Message) (x : Message) : Prop :=
  ∀ m ∈ msgs, m.redelivered = false → level highest x ≤ level highest m → x.id < m.id

theorem Ahead.sublist (ahead : Ahead highest msgs x) (fewer : left.Sublist msgs) :
    Ahead highest left x := fun m mem => ahead m (fewer.subset mem)

/-- A message that comes back does not count. -/
theorem Ahead.back (ahead : Ahead highest msgs x) :
    Ahead highest ({ m with redelivered := true } :: msgs) x := by
  intro m' mem fresh
  rcases List.mem_cons.mp mem with rfl | mem
  · cases fresh
  · exact ahead m' mem fresh

theorem Ahead.concat (ahead : Ahead highest msgs x) (older : x.id < m.id) :
    Ahead highest (msgs ++ [m]) x := by
  intro m' mem fresh le
  rcases List.mem_append.mp mem with mem | mem
  · exact ahead m' mem fresh le
  · cases List.mem_singleton.mp mem
    exact older

/-- What was not handed out yet is in the order of its numbers, and what came back is ahead. -/
structure LaneOk (bound highest : Nat) (msgs : List Message) : Prop where
  known : ∀ m ∈ msgs, m.id < bound
  sorted : msgs.Pairwise fun a b => a.redelivered = false → b.redelivered = false → a.id < b.id
  returned : ∀ x ∈ msgs, x.redelivered = true → Ahead highest msgs x

namespace LaneOk

theorem nil : LaneOk bound highest [] := ⟨by simp, .nil, by simp⟩

variable (ok : LaneOk bound highest msgs)
include ok

theorem mono {more : Nat} (le : bound ≤ more) : LaneOk more highest msgs :=
  ⟨fun m mem => Nat.lt_of_lt_of_le (ok.known m mem) le, ok.sorted, ok.returned⟩

theorem sublist (fewer : left.Sublist msgs) : LaneOk bound highest left :=
  ⟨fun m mem => ok.known m (fewer.subset mem), ok.sorted.sublist fewer,
    fun x mem back => (ok.returned x (fewer.subset mem) back).sublist fewer⟩

theorem accept (id : m.id = bound) (fresh : m.redelivered = false) :
    LaneOk (bound + 1) highest (msgs ++ [m]) := by
  refine ⟨?_, ?_, ?_⟩
  · intro x mem
    have := ok.known x
    grind
  · refine List.pairwise_append.mpr ⟨ok.sorted, by simp, ?_⟩
    intro a mem b new _ _
    cases List.mem_singleton.mp new
    exact id ▸ ok.known a mem
  · intro x mem back
    rcases List.mem_append.mp mem with mem | new
    · exact (ok.returned x mem back).concat (id ▸ ok.known x mem)
    · cases List.mem_singleton.mp new
      simp [fresh] at back

theorem back (known : m.id < bound) (ahead : Ahead highest msgs m) :
    LaneOk bound highest ({ m with redelivered := true } :: msgs) := by
  refine ⟨?_, ?_, ?_⟩
  · intro x mem
    rcases List.mem_cons.mp mem with rfl | mem
    · exact known
    · exact ok.known x mem
  · exact List.pairwise_cons.mpr ⟨fun _ _ fresh => (nomatch fresh), ok.sorted⟩
  · intro x mem returned
    rcases List.mem_cons.mp mem with rfl | mem
    · exact Ahead.back ahead
    · exact (ok.returned x mem returned).back

/-- The message that is taken is the oldest of its priority, and no other has a higher one. -/
theorem ahead_of_first (first : First highest msgs i m) : Ahead highest (msgs.eraseIdx i) m := by
  intro m' mem fresh le
  obtain ⟨j, ne, at_j⟩ := List.mem_eraseIdx_iff_getElem?.mp mem
  have there : m' ∈ msgs := List.mem_of_getElem? at_j
  cases handed : m.redelivered with
  | true => exact ok.returned m (List.mem_of_getElem? first.here) handed m' there fresh le
  | false =>
    -- an earlier place would have a lower priority
    have later : i < j := by
      by_contra earlier
      have lower := first.first j m' (by omega) at_j
      omega
    obtain ⟨lt_i, here⟩ := List.getElem?_eq_some_iff.mp first.here
    obtain ⟨lt_j, there⟩ := List.getElem?_eq_some_iff.mp at_j
    have sorted := List.pairwise_iff_getElem.mp ok.sorted i j lt_i lt_j later
    rw [here, there] at sorted
    exact sorted handed fresh

end LaneOk

/-! ## What is handed out -/

/-- Handed out from the queue, and not settled. -/
def Work.Out (w : Work) (q : Nat) (m : Message) : Prop :=
  (∃ e, w.state.Entry e ∧ e.q = q ∧ e.msg = m) ∨ (some q, m) ∈ w.hand

/-- What is handed out was so before, or is the first of its queue. -/
theorem Edit.out (edit : Edit s₀ a w w') (out : w'.Out q m) : w.Out q m ∨
    ∃ queue rr, w.state.queues[q]? = some queue ∧ queue.msgs[queue.next]? = some m ∧
      w'.state.queues = w.state.queues.set q
        { queue with rr, msgs := queue.msgs.eraseIdx queue.next } := by
  obtain ⟨e, entry, rfl, rfl⟩ | held := out
  · obtain old | ⟨queue, rr, -, found, -, at_next, queues⟩ := edit.entry entry
    · exact .inl (.inl ⟨e, old, rfl, rfl⟩)
    · exact .inr ⟨queue, rr, found, at_next, queues⟩
  · obtain old | taken := edit.held held
    · exact .inl (.inr old)
    · exact .inl (.inl taken)

/-- Every queue is in order, and what is handed out is ahead of what waits. -/
structure Lined (w : Work) : Prop where
  lanes : Rows (fun _ queue => LaneOk w.state.nextMsg queue.maxPriority queue.msgs) w.state.queues
  known : ∀ q m, w.Out q m → m.id < w.state.nextMsg
  ahead : ∀ q m queue, w.Out q m → w.state.queues[q]? = some queue →
    Ahead queue.maxPriority queue.msgs m

theorem Lined.fills (lined : Lined w) {queue' : Queue} (le : w.state.nextMsg ≤ w'.state.nextMsg)
    (fills : Fills w w' q queue') :
    LaneOk w'.state.nextMsg queue'.maxPriority queue'.msgs ∧
      ∀ x, w.Out q x → Ahead queue'.maxPriority queue'.msgs x := by
  cases fills with
  | new empty => exact ⟨empty ▸ LaneOk.nil, by simp [Ahead, empty]⟩
  | fewer queue found same sub =>
    rw [same]
    exact ⟨((lined.lanes q queue found).sublist sub).mono le,
      fun x out => (lined.ahead q x queue out found).sublist sub⟩
  | accept queue m found same id fresh log msgs =>
    have count : w'.state.nextMsg = w.state.nextMsg + 1 := by simp [State.nextMsg, log]
    rw [same, msgs, count]
    exact ⟨(lined.lanes q queue found).accept id fresh, fun x out =>
      (lined.ahead q x queue out found).concat (id ▸ lined.known q x out)⟩
  | back queue m found same held msgs =>
    have ahead := lined.ahead q m queue (.inr held) found
    rw [same, msgs]
    exact ⟨((lined.lanes q queue found).back (lined.known q m (.inr held)) ahead).mono le,
      fun x out => (lined.ahead q x queue out found).back⟩

/-- No edit lets a message overtake another. -/
theorem Edit.lined (edit : Edit s₀ a w w') (lined : Lined w) : Lined w' := by
  have le : w.state.nextMsg ≤ w'.state.nextMsg := edit.later.log.length_le
  refine ⟨fun q queue' found => (lined.fills le (edit.fills found)).1, ?_, ?_⟩
  · intro q m out
    obtain old | ⟨queue, rr, found, at_next, -⟩ := edit.out out
    · exact Nat.lt_of_lt_of_le (lined.known q m old) le
    · have known := (lined.lanes q queue found).known m (List.mem_of_getElem? at_next)
      omega
  · intro q m queue' out found'
    obtain old | ⟨queue, rr, found, at_next, queues⟩ := edit.out out
    · exact (lined.fills le (edit.fills found')).2 m old
    · rw [queues, getElem?_set_self_of_some found] at found'
      cases found'
      exact (lined.lanes q queue found).ahead_of_first (next_first at_next)

theorem lined_of_reachable (reach : broker.Reachable s) : Lined { state := s } := by
  refine holds_of_edits ⟨Rows.nil, ?_, ?_⟩ (fun _ _ _ _ _ edit _ lined => edit.lined lined) reach
  · simp [Work.Out, State.Entry]
  · simp

/-- Instances are numbered in the order in which they are accepted. Whatever was handed out from a
queue, or waits in front of a message that was not handed out yet, came before that message, unless
it has a higher priority. -/
theorem no_overtaking (reach : broker.Reachable s) (found : s.queues[q]? = some queue)
    (here : queue.msgs[i]? = some m) (fresh : m.redelivered = false) (x : Message)
    (first : (∃ (k : Nat) (chan : Channel) (e : Inflight), s.channels[k]? = some chan ∧
        e ∈ chan.unacked ∧ e.q = q ∧ e.msg = x) ∨ ∃ j < i, queue.msgs[j]? = some x)
    (le : min x.pub.priority queue.maxPriority ≤ min m.pub.priority queue.maxPriority) :
    x.id < m.id := by
  have lined := lined_of_reachable reach
  have mem : m ∈ queue.msgs := List.mem_of_getElem? here
  have ok := lined.lanes q queue found
  obtain ⟨k, chan, e, at_k, there, rfl, rfl⟩ | ⟨j, lt, at_j⟩ := first
  · have out : Work.Out { state := s } e.q e.msg := .inl ⟨e, ⟨k, chan, at_k, there⟩, rfl, rfl⟩
    exact lined.ahead e.q e.msg queue out found m mem fresh le
  · cases handed : x.redelivered with
    | true => exact ok.returned x (List.mem_of_getElem? at_j) handed m mem fresh le
    | false =>
      obtain ⟨lt_i, here⟩ := List.getElem?_eq_some_iff.mp here
      obtain ⟨lt_j, there⟩ := List.getElem?_eq_some_iff.mp at_j
      have sorted := List.pairwise_iff_getElem.mp ok.sorted j i lt_j lt_i lt
      rw [here, there] at sorted
      exact sorted handed fresh

/-- Of two messages the first is handed out, and comes back in front of the second when its channel
closes. -/
theorem no_overtaking_returned :
    ∃ s queue x m, broker.Reachable s ∧ s.queues[0]? = some queue ∧ queue.msgs = [x, m] ∧
      x.redelivered = true ∧ m.redelivered = false ∧ x.id < m.id := by
  let order : Order := ⟨fun _ xs => xs, fun _ _ => .refl _⟩
  have ran : (broker.run ([.dial, .channel 0, .queueDeclare 0 [113] true false false
        [(lit "x-max-priority", .int 5)], .publish 0 [] [113] ⟨1, []⟩ .ack, .qos 0 1,
      .consume 0 [113] [116] false false, .publish 0 [] [113] ⟨1, []⟩ .ack,
      .close 0].map fun a => (order, a)) {}).map (fun s => (s.queues[0]?).map Queue.msgs) =
        some (some [⟨0, ⟨1, []⟩, [], [113], true⟩, ⟨1, ⟨1, []⟩, [], [113], false⟩]) := by
    decide +kernel
  obtain ⟨s, run, eq⟩ := Option.map_eq_some_iff.mp ran
  obtain ⟨queue, found, msgs⟩ := Option.map_eq_some_iff.mp eq
  have reach : broker.Reachable s := System.Reachable.run (.init rfl) run
  refine ⟨s, queue, _, _, reach, found, msgs, rfl, rfl, ?_⟩
  exact no_overtaking (i := 1) reach found (by rw [msgs]; rfl) rfl _
    (.inr ⟨0, by decide, by rw [msgs]; rfl⟩) (Nat.le_refl _)

end Protobus.Fakebroker
