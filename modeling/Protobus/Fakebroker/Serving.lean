import Protobus.Fakebroker.Conservation

/-!
# No message waits for an idle consumer

A queue is served when nothing waits in it or all its consumers are at their prefetch. Every
operation that could change this ends with a `dispatch` of the queue; until then the queue is late.
A settlement gives a consumer room, which is one of the queue the settled message came from: an
entry and its consumer are of one queue (`aimed`), so that the queues `settle` touches are those it
has to dispatch.
-/
namespace Protobus.Fakebroker
open Library Table

variable {s t s₀ : State} {late : List Nat} {k q p c : Nat} {queue : Queue} {chan : Channel}
  {m : Message} {e : Inflight} {a : Act} {w w' : Work}

namespace State

/-- The queue a consumer reads. -/
def home (s : State) (c : Nat) : Option Nat := (s.consumers[c]?).map Consumer.q

def Spare (s : State) (c : Nat) : Prop :=
  ∃ cons, s.consumers[c]? = some cons ∧ cons.hasCapacity = true

def Served (s : State) (q : Nat) : Prop :=
  ∀ queue, s.queues[q]? = some queue → queue.msgs = [] ∨ ∀ c ∈ queue.consumers, ¬ s.Spare c

structure Good (late : List Nat) (s : State) : Prop where
  aimed : ∀ e, s.Entry e → s.home e.cons = some e.q
  served : ∀ q, q ∉ late → s.Served q

/-- What is waiting, who reads and who has room can only shrink. -/
theorem Served.mono (served : s.Served q)
    (rows : ∀ queue', t.queues[q]? = some queue' → ∃ queue, s.queues[q]? = some queue ∧
      (queue.msgs = [] → queue'.msgs = []) ∧
      ∀ c ∈ queue'.consumers, c ∈ queue.consumers ∧ (t.Spare c → s.Spare c)) : t.Served q := by
  intro queue' found'
  obtain ⟨queue, found, msgs, consumers⟩ := rows queue' found'
  obtain empty | full := served queue found
  · exact .inl (msgs empty)
  · right
    intro c mem spare
    exact full c (consumers c mem).1 ((consumers c mem).2 spare)

theorem Served.of_eq (served : s.Served q) (queues : t.queues = s.queues)
    (consumers : t.consumers = s.consumers) : t.Served q := by
  apply served.mono
  intro queue found
  rw [queues] at found
  exact ⟨queue, found, id, fun c mem => ⟨mem, by simp [Spare, consumers]⟩⟩

/-- A queue may lose messages, and another one get some. -/
theorem Served.set {queue' : Queue} (served : s.Served q)
    (queues : t.queues = s.queues.set p queue') (consumers : t.consumers = s.consumers)
    (found : s.queues[p]? = some queue) (same : queue'.consumers = queue.consumers)
    (fine : q ≠ p ∨ (queue.msgs = [] → queue'.msgs = [])) : t.Served q := by
  have spare : ∀ c, t.Spare c → s.Spare c := by simp [Spare, consumers]
  apply served.mono
  intro row at_q
  rw [queues] at at_q
  obtain ⟨rfl, rfl⟩ | ⟨-, at_q⟩ := getElem?_set_cases at_q
  · exact ⟨queue, found, fine.resolve_left (by simp), fun c mem => ⟨same ▸ mem, spare c⟩⟩
  · exact ⟨row, at_q, id, fun c mem => ⟨mem, spare c⟩⟩

end State

/-! ## Messages move -/

/-- Round-robin comes by every consumer. -/
theorem exists_rotation {n r j : Nat} (lt : j < n) : ∃ i < n, (r + i) % n = j := by
  have small : r % n < n := Nat.mod_lt _ (by omega)
  by_cases le : r % n ≤ j
  · refine ⟨j - r % n, by omega, ?_⟩
    rw [← Nat.mod_add_mod, Nat.add_sub_cancel' le, Nat.mod_eq_of_lt lt]
  · refine ⟨j + n - r % n, by omega, ?_⟩
    rw [← Nat.mod_add_mod, Nat.add_sub_cancel' (by omega), Nat.add_mod_right, Nat.mod_eq_of_lt lt]

theorem not_spare_of_target (full : queue.target s.consumers = none) (mem : c ∈ queue.consumers) :
    ¬ s.Spare c := by
  obtain ⟨j, lt, rfl⟩ := List.mem_iff_getElem.mp mem
  obtain ⟨i, below, rotated⟩ := exists_rotation (r := queue.rr) lt
  have skipped := List.findSome?_eq_none_iff.mp full i (List.mem_range.mpr below)
  simp only [rotated, List.getElem?_eq_getElem lt, Option.bind_some] at skipped
  rintro ⟨cons, at_c, room⟩
  simp [at_c, room] at skipped

theorem State.Rested.served (rested : s.Rested q) : s.Served q := by
  intro queue found
  obtain empty | full := rested queue found
  · exact .inl empty
  · exact .inr fun c mem => not_spare_of_target full mem

/-- A delivery takes room. -/
theorem deliver_spare (spare : (deliver s c q m).Spare p) : s.Spare p := by
  revert spare
  unfold deliver
  split
  · exact id
  · next cons at_c =>
    split
    · exact id
    · split
      · exact id
      · rintro ⟨cons', at_p, room⟩
        by_cases same : c = p
        · subst same
          rw [getElem?_set_self_of_some at_c] at at_p
          cases at_p
          refine ⟨cons, at_c, ?_⟩
          simp only [Consumer.hasCapacity] at room ⊢
          grind
        · rw [getElem?_set_of_ne same] at at_p
          exact ⟨cons', at_p, room⟩

theorem deliver_served (served : s.Served p) : (deliver s c q m).Served p := by
  apply served.mono
  intro queue found
  rw [deliver_queues] at found
  exact ⟨queue, found, id, fun d mem => ⟨mem, deliver_spare⟩⟩

/-- The consumer that gets room reads the queue of its message, which is late. -/
theorem lift_served {leaving dying : Option Nat} {hand : List Nat} (ok : s.Ok leaving dying hand)
    (served : s.Served q) (home : s.home e.cons = some e.q) (other : q ≠ e.q) :
    (s.lift k e).Served q := by
  apply served.mono
  intro queue found
  refine ⟨queue, found, id, fun d reads => ⟨reads, ?_⟩⟩
  have apart : e.cons ≠ d := by
    rintro rfl
    obtain ⟨cons, chan, at_c, at_q, -⟩ := ok.attached found reads
    simp only [State.home, at_c, Option.map_some, Option.some.injEq] at home
    exact other (at_q.symm.trans home)
  rintro ⟨cons, at_d, room⟩
  obtain ⟨old, before, rfl⟩ := getElem?_modify_some at_d
  rw [if_neg apart] at room
  exact ⟨old, before, room⟩

theorem Shift.served (shift : Shift s₀ a w w') (ok : w.Ok) (good : w.state.Good w.late)
    (fresh : q ∉ w'.late) : w'.state.Served q := by
  cases shift with
  | relax late sub =>
    by_cases mem : q ∈ w.late
    · exact ((sub q mem).resolve_left fresh).served
    · exact good.served q mem
  | take _ found =>
    apply deliver_served
    exact (good.served q fresh).set rfl rfl found rfl (.inr (by simp +contextual))
  | @accept p queue m found _ _ _ near =>
    have apart : q ≠ p := fun here => fresh (here ▸ near)
    exact (good.served q fresh).set rfl rfl found rfl (.inl apart)
  | @lift k _ _ _ _ chan e _ _ _ at_k mem _ near =>
    have apart : q ≠ e.q := fun here => fresh (here ▸ near)
    exact lift_served ok (good.served q fresh) (good.aimed e ⟨k, chan, at_k, mem⟩) apart
  | expire _ found =>
    exact (good.served q fresh).set rfl rfl found rfl (.inr (by simp +contextual))
  | @back p queue m hand _ found _ near =>
    have apart : q ≠ p := fun here => fresh (here ▸ near)
    exact (good.served q fresh).set rfl rfl found rfl (.inl apart)
  | lose | finish => exact (good.served q fresh).of_eq rfl rfl

/-! ## Consumers and queues come and go -/

theorem detach_reads {row : Queue} (found : (detach s c).queues[p]? = some row) :
    ∃ queue, s.queues[p]? = some queue ∧ row.msgs = queue.msgs ∧
      ∀ d ∈ row.consumers, d ∈ queue.consumers := by
  unfold detach at found
  split at found
  · exact ⟨row, found, rfl, fun _ => id⟩
  · obtain ⟨queue, before, rfl⟩ := getElem?_modify_some found
    refine ⟨queue, before, ?_⟩
    split <;> simp +contextual

theorem detachAll_reads {row : Queue} (cs : List Nat)
    (found : (cs.foldl detach s).queues[p]? = some row) :
    ∃ queue, s.queues[p]? = some queue ∧ row.msgs = queue.msgs ∧
      ∀ d ∈ row.consumers, d ∈ queue.consumers := by
  induction cs generalizing s with
  | nil => exact ⟨row, found, rfl, fun _ => id⟩
  | cons c cs ih =>
    obtain ⟨mid, at_mid, msgs, sub⟩ := ih found
    obtain ⟨queue, found, msgs', sub'⟩ := detach_reads at_mid
    exact ⟨queue, found, msgs.trans msgs', fun d mem => sub' d (sub d mem)⟩

theorem deleteQueue_served (served : s.Served p) (found : s.queues[q]? = some queue) :
    (deleteQueue s q).Served p := by
  have marked : (markDeleted s q queue).Served p :=
    served.set rfl rfl found rfl (.inr fun _ => rfl)
  have consumers := (deleteQueue_record found).2.1
  apply marked.mono
  intro row at_p
  simp only [deleteQueue, found] at at_p
  obtain ⟨queue', found', msgs, sub⟩ := detachAll_reads _ at_p
  refine ⟨queue', found', fun empty => msgs.trans empty, fun d mem => ⟨sub d mem, ?_⟩⟩
  rw [State.Spare, consumers]
  exact id

/-- The consumers there were keep their places in the table. -/
theorem attach_served {leaving dying : Option Nat} {hand : List Nat} {queue' : Queue}
    (ok : s.Ok leaving dying hand) (served : s.Served p) (apart : q ≠ p)
    (queues : t.queues = s.queues.set q queue') (cons : Consumer)
    (consumers : t.consumers = s.consumers ++ [cons]) : t.Served p := by
  apply served.mono
  intro row at_p
  rw [queues, getElem?_set_of_ne apart] at at_p
  refine ⟨row, at_p, id, fun c mem => ⟨mem, ?_⟩⟩
  obtain ⟨old, -, at_c, -⟩ := ok.attached at_p mem
  rintro ⟨cons', at_c', room⟩
  rw [consumers, getElem?_concat_of_some at_c] at at_c'
  cases at_c'
  exact ⟨old, at_c, room⟩

theorem Edit.served (edit : Edit s₀ a w w') (ok : w.Ok) (good : w.state.Good w.late)
    (fresh : q ∉ w'.late) : w'.state.Served q := by
  cases edit with
  | shift shift => exact shift.served ok good fresh
  | conns | channel | tune | count | exchanges | close | left | clear =>
    exact (good.served q fresh).of_eq rfl rfl
  | @declare queue _ empty =>
    intro row at_q
    obtain rfl | at_q : row = queue ∨ w.state.queues[q]? = some row := by grind
    · exact .inl empty
    · exact good.served q fresh row at_q
  | attach =>
    simp only [List.mem_cons, not_or] at fresh
    exact attach_served ok (good.served q fresh.2) (Ne.symm fresh.1) rfl _ rfl
  | detach =>
    apply (good.served q fresh).mono
    intro row at_q
    obtain ⟨queue, found, msgs, sub⟩ := detach_reads at_q
    refine ⟨queue, found, fun empty => msgs.trans empty, fun d mem => ⟨sub d mem, ?_⟩⟩
    rw [State.Spare, (detach_record w.state _).2.1]
    exact id
  | delete found => exact deleteQueue_served (good.served q fresh) found

theorem State.Later.home (later : s.Later t) (here : s.home c = some q) : t.home c = some q := by
  obtain ⟨cons, at_c, rfl⟩ := Option.map_eq_some_iff.mp here
  obtain ⟨cons', at_c', same, -⟩ := later.consumer at_c
  simp [State.home, at_c', same]

theorem Edit.good (edit : Edit s₀ a w w') (ok : w.Ok) (good : w.state.Good w.late) :
    w'.state.Good w'.late := by
  refine ⟨fun e entry => edit.later.home ?_, fun q fresh => edit.served ok good fresh⟩
  obtain old | ⟨queue, rr, whole, found, target, -⟩ := edit.entry entry
  · exact good.aimed e old
  · rw [Work.Ok, whole] at ok
    obtain ⟨cons, -, at_c, at_q, -⟩ := State.Ok.target ok found target
    simp [State.home, at_c, at_q]

theorem good_of_reachable (reach : broker.Reachable s) : s.Good [] := by
  refine holds_of_edits (P := fun w => w.state.Good w.late) ?_ ?_ reach
  · exact ⟨by simp [State.Entry], by simp [State.Served]⟩
  · exact fun _ _ _ _ _ edit ok good => edit.good ok good

/-- While messages wait in a queue, each of its consumers takes acknowledgements and has as many
messages unacknowledged as its prefetch allows. -/
theorem waiting_means_full (reach : broker.Reachable s) (found : s.queues[q]? = some queue)
    (waiting : queue.msgs ≠ []) (reads : c ∈ queue.consumers) :
    ∃ cons chan, s.consumers[c]? = some cons ∧ cons.q = q ∧ s.channels[cons.ch]? = some chan ∧
      chan.closed = false ∧ cons.autoAck = false ∧ cons.prefetch ≠ 0 ∧
      (0 < cons.prefetch →
        ((chan.unacked.filter fun e => e.cons = c ∧ e.q = q).length : Int) = cons.prefetch) := by
  have ok := ok_of_reachable reach
  have good := good_of_reachable reach
  obtain ⟨cons, chan, at_c, at_q, at_ch, -, shut⟩ := ok.attached found reads
  have opened : chan.closed = false := by
    cases closed : chan.closed with
    | false => rfl
    | true => cases shut closed
  have full : ¬ cons.hasCapacity = true := fun room =>
    (good.served q (by simp) queue found).resolve_left waiting c reads ⟨cons, at_c, room⟩
  simp only [Consumer.hasCapacity, Bool.or_eq_true, decide_eq_true_eq, not_or] at full
  obtain ⟨⟨manual, limited⟩, enough⟩ := full
  refine ⟨cons, chan, at_c, at_q, at_ch, opened, by simpa using manual, limited, fun pos => ?_⟩
  obtain ⟨a, at_a, right⟩ := ok.booked.credits c _ (State.books_consumer at_c)
  cases (State.books_channel at_ch).symm.trans at_a
  obtain ⟨count, within⟩ := right opened
  have most := within pos
  have own : (chan.unacked.filter fun e => e.cons = c ∧ e.q = q).length =
      naming c chan.unacked := by
    rw [naming, ← List.countP_eq_length_filter]
    apply List.countP_congr
    intro e mem
    have home := good.aimed e ⟨cons.ch, chan, at_ch, mem⟩
    grind [State.home]
  simp only [Consumer.credit, Channel.account] at count most
  omega

/-- Two messages for one consumer with a prefetch of one. -/
theorem waiting_means_full_one :
    ∃ s queue, broker.Reachable s ∧ s.queues[0]? = some queue ∧ queue.msgs ≠ [] ∧
      0 ∈ queue.consumers ∧ ∃ cons, s.consumers[0]? = some cons ∧ cons.autoAck = false := by
  let order : Order := ⟨fun _ xs => xs, fun _ _ => .refl _⟩
  let pub : Publishing := ⟨0, []⟩
  have ran : (broker.run ([.dial, .channel 0, .queueDeclare 0 [119] true false false [], .qos 0 1,
      .consume 0 [119] [116] false false, .publish 0 [] [119] pub .ack,
      .publish 0 [] [119] pub .ack].map fun a => (order, a)) {}).map (fun s =>
        (s.queues[0]?).any fun queue => queue.msgs ≠ [] && queue.consumers.contains 0) =
      some true := by decide +kernel
  obtain ⟨s, run, holds⟩ := Option.map_eq_some_iff.mp ran
  obtain ⟨queue, found, both⟩ := (Option.any_eq_true _ _).mp holds
  simp only [Bool.and_eq_true, decide_eq_true_eq, List.contains_iff_mem] at both
  have reach : broker.Reachable s := System.Reachable.run (.init rfl) run
  obtain ⟨cons, -, at_c, -, -, -, manual, -⟩ := waiting_means_full reach found both.1 both.2
  exact ⟨s, queue, reach, found, both.1, both.2, cons, at_c, manual⟩

end Protobus.Fakebroker
