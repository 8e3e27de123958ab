import Protobus.Fakebroker.Closing

/-!
# Every message instance is in one place

Everywhere a message is the one that its queue accepted, up to the mark that it comes again, and
when it ends, the operation that ended it says how: it was acknowledged, or taken by a consumer that
acknowledges nothing, or dead-lettered by that very operation, or lost with its queue.
-/
namespace Protobus.Fakebroker
open Library Table Ledger

variable {s t s₀ : State} {leaving dying : Option Nat} {hand : List Nat} {k q c i : Nat}
  {queue : Queue} {chan : Channel} {cons : Consumer} {m : Message} {a : Act} {w w' : Work}

/-! ## Nothing on record is taken back -/

structure State.Later (s t : State) : Prop where
  log : s.log <+: t.log
  fates : s.fates <+: t.fates
  consumers : s.consumers.map Consumer.frame <+: t.consumers.map Consumer.frame
  deleted : ∀ (q : Nat) queue, s.queues[q]? = some queue → queue.deleted = true →
    ∃ queue', t.queues[q]? = some queue' ∧ queue'.deleted = true

namespace State.Later

theorem refl : s.Later s :=
  ⟨List.prefix_rfl, List.prefix_rfl, List.prefix_rfl,
    fun _ queue found gone => ⟨queue, found, gone⟩⟩

theorem trans {u : State} (first : s.Later t) (second : t.Later u) : s.Later u := by
  refine ⟨first.log.trans second.log, first.fates.trans second.fates,
    first.consumers.trans second.consumers, ?_⟩
  intro q queue found gone
  obtain ⟨queue', found', gone'⟩ := first.deleted q queue found gone
  exact second.deleted q queue' found' gone'

/-- Neither consumers nor queues change but in what is delivered. -/
theorem of_rows (log : s.log <+: t.log) (fates : s.fates <+: t.fates)
    (consumers : t.consumers.map Consumer.frame = s.consumers.map Consumer.frame)
    (queues : t.queues.map Queue.deleted = s.queues.map Queue.deleted) : s.Later t := by
  refine ⟨log, fates, consumers ▸ List.prefix_rfl, ?_⟩
  intro q queue found gone
  have row : (t.queues.map Queue.deleted)[q]? = some true := by simp [queues, found, gone]
  simpa [Option.map_eq_some_iff] using row

theorem logged {x : Nat × Message} (later : s.Later t) (found : s.log[i]? = some x) :
    t.log[i]? = some x := by
  obtain ⟨more, eq⟩ := later.log
  grind

theorem consumer (later : s.Later t) (found : s.consumers[c]? = some cons) :
    ∃ cons', t.consumers[c]? = some cons' ∧ cons'.q = cons.q ∧ cons'.autoAck = cons.autoAck := by
  obtain ⟨more, eq⟩ := later.consumers
  have row : (t.consumers.map Consumer.frame)[c]? = some cons.frame := by
    rw [← eq, List.getElem?_append_left (by
      simpa using (List.getElem?_eq_some_iff.mp found).1)]
    simp [found]
  simp only [List.getElem?_map, Option.map_eq_some_iff] at row
  obtain ⟨cons', found', same⟩ := row
  simp only [Consumer.frame, Consumer.mk.injEq] at same
  exact ⟨cons', found', by simp [same]⟩

end State.Later

theorem Buried.later {u : State} {reason : Bytes} {copies : List Nat}
    (buried : Buried s t q m reason copies) (later : t.Later u) : Buried s u q m reason copies := by
  obtain ⟨first, le, eq, routed⟩ := buried
  refine ⟨first, le, eq, ?_⟩
  intro n target at_n
  obtain ⟨queue, found, logged⟩ := routed n target at_n
  exact ⟨queue, found, later.logged logged⟩

theorem Ends.later {fate : Fate} {u : State} (ends : Ends s a t i fate) (later : t.Later u) :
    Ends s a u i fate := by
  cases fate with
  | acked => exact ends
  | autoAcked =>
    obtain ⟨m, c, cons, logged, at_c, auto⟩ := ends
    obtain ⟨cons', at_c', same, auto'⟩ := later.consumer at_c
    exact ⟨m, c, cons', same ▸ later.logged logged, at_c', auto'.trans auto⟩
  | rejected copies =>
    obtain ⟨k, kind, tag, multiple, e, act, other, covers, id, buried⟩ := ends
    exact ⟨k, kind, tag, multiple, e, act, other, covers, id, buried.later later⟩
  | expired copies =>
    obtain ⟨q, queue, m, act, found, ttl, mem, id, buried⟩ := ends
    exact ⟨q, queue, m, act, found, ttl, mem, id, buried.later later⟩
  | gone =>
    obtain ⟨q, m, queue, logged, found, gone⟩ := ends
    obtain ⟨queue', found', gone'⟩ := later.deleted q queue found gone
    exact ⟨q, m, queue', later.logged logged, found', gone'⟩

theorem deliver_fates (s : State) (c q : Nat) (m : Message) :
    s.fates <+: (deliver s c q m).fates := by
  unfold deliver
  split
  · exact List.prefix_rfl
  · split
    · exact List.prefix_rfl
    · split
      · exact List.prefix_append _ _
      · exact List.prefix_rfl

theorem detach_record (s : State) (c : Nat) : (detach s c).log = s.log ∧
    (detach s c).consumers = s.consumers ∧ (detach s c).fates = s.fates := by
  unfold detach
  split <;> simp

theorem deleteQueue_record (found : s.queues[q]? = some queue) :
    (deleteQueue s q).log = s.log ∧ (deleteQueue s q).consumers = s.consumers ∧
      (deleteQueue s q).fates = s.fates ++ queue.msgs.map fun m => (m.id, .gone) := by
  have kept := detachAll_eq (f := fun s => (s.log, s.consumers, s.fates))
    (fun s c => by simp [detach_record]) queue.consumers (markDeleted s q queue)
  simp only [Prod.mk.injEq] at kept
  simp only [deleteQueue, found]
  exact kept

/-- A deleted queue stays among the queues, and stays deleted. -/
theorem deleteQueue_gone {p : Nat} {row : Queue} (found : s.queues[q]? = some queue)
    (at_p : s.queues[p]? = some row) (gone : p = q ∨ row.deleted = true) :
    ∃ row', (deleteQueue s q).queues[p]? = some row' ∧ row'.deleted = true := by
  have rows := deleteQueue_rows (f := Queue.deleted) (fun _ _ => rfl) found
  have deleted : ((deleteQueue s q).queues.map Queue.deleted)[p]? = some true := by
    rw [rows]
    grind
  simpa [Option.map_eq_some_iff] using deleted

theorem Shift.later (shift : Shift s₀ a w w') : w.state.Later w'.state := by
  have consumers : w'.state.frame.consumers = w.state.frame.consumers := by rw [shift.frame]
  have framed : w'.state.frame.queues.map Queue.deleted =
      w.state.frame.queues.map Queue.deleted := by rw [shift.frame]
  have queues : w'.state.queues.map Queue.deleted = w.state.queues.map Queue.deleted := by
    simpa [State.frame, Function.comp_def, Queue.frame] using framed
  refine .of_rows ?_ ?_ consumers queues
  · cases shift with
    | accept => exact List.prefix_append _ _
    | take => exact ⟨[], by rw [deliver_log, List.append_nil]⟩
    | _ => exact List.prefix_rfl
  · cases shift with
    | lose | finish => exact List.prefix_append _ _
    | take =>
      refine List.IsPrefix.trans ?_ (deliver_fates _ _ _ _)
      exact List.prefix_rfl
    | _ => exact List.prefix_rfl

theorem Edit.later (edit : Edit s₀ a w w') : w.state.Later w'.state := by
  cases edit with
  | shift shift => exact shift.later
  | conns | channel | tune | count | exchanges | close | left | clear =>
    exact .of_rows List.prefix_rfl List.prefix_rfl rfl rfl
  | declare =>
    exact ⟨List.prefix_rfl, List.prefix_rfl, List.prefix_rfl, fun q queue found gone =>
      ⟨queue, getElem?_concat_of_some found, gone⟩⟩
  | attach _ _ at_q =>
    refine ⟨List.prefix_rfl, List.prefix_rfl, by simp, ?_⟩
    intro p row at_p gone
    grind
  | detach =>
    obtain ⟨log, consumers, fates⟩ := detach_record w.state _
    exact .of_rows (log ▸ List.prefix_rfl) (fates ▸ List.prefix_rfl) (by rw [consumers])
      (detach_rows (fun _ _ => rfl) _ _)
  | @delete q queue found =>
    obtain ⟨log, consumers, fates⟩ := deleteQueue_record found
    refine ⟨log ▸ List.prefix_rfl, fates ▸ List.prefix_append _ _, consumers ▸ List.prefix_rfl, ?_⟩
    intro p row at_p gone
    exact deleteQueue_gone found at_p (.inr gone)

theorem Edits.later (edits : Edits s₀ a w w') : w.state.Later w'.state := by
  induction edits with
  | refl => exact .refl
  | tail _ edit ih => exact ih.trans edit.later

/-- Numbers are never given twice. -/
theorem nextMsg_le (reach : broker.Reachable s) (order : Order) (a : Act) :
    s.nextMsg ≤ (perform order s a).nextMsg :=
  (perform_edits (ok_of_reachable reach) order a).later.log.length_le

/-! ## Every message is the one that was accepted -/

/-- The log has the message, as it was when its queue accepted it. -/
def Logs (log : List (Nat × Message)) (q : Nat) (m : Message) : Prop :=
  log[m.id]? = some (q, { m with redelivered := false })

structure Work.Logged (w : Work) : Prop where
  waiting : Rows (fun q queue => ∀ m ∈ queue.msgs, Logs w.state.log q m) w.state.queues
  unacked : ∀ e, w.state.Entry e → Logs w.state.log e.q e.msg
  held : ∀ q m, (some q, m) ∈ w.hand → Logs w.state.log q m

theorem Edit.logged (edit : Edit s₀ a w w') (logged : w.Logged) : w'.Logged := by
  refine ⟨?_, ?_, ?_⟩
  · intro q queue' found' m mem
    cases edit.fills found' with
    | new empty => simp [empty] at mem
    | fewer queue found _ sub =>
      exact edit.later.logged (logged.waiting q queue found m (sub.subset mem))
    | accept queue m' found _ id fresh log msgs =>
      rw [msgs] at mem
      obtain old | last := List.mem_append.mp mem
      · exact edit.later.logged (logged.waiting q queue found m old)
      · obtain rfl := List.mem_singleton.mp last
        have same : { m with redelivered := false } = m := by rw [← fresh]
        rw [Logs, same, log, id]
        exact List.getElem?_concat_length
    | back queue m' found _ held msgs =>
      rw [msgs] at mem
      obtain rfl | old := List.mem_cons.mp mem
      · exact edit.later.logged (logged.held q m' held)
      · exact edit.later.logged (logged.waiting q queue found m old)
  · intro e entry
    obtain old | ⟨queue, rr, -, found, -, at_next, -⟩ := edit.entry entry
    · exact edit.later.logged (logged.unacked e old)
    · exact edit.later.logged (logged.waiting e.q queue found e.msg (List.mem_of_getElem? at_next))
  · intro q m mem
    obtain old | ⟨e, entry, rfl, rfl⟩ := edit.held mem
    · exact edit.later.logged (logged.held q m old)
    · exact edit.later.logged (logged.unacked e entry)

theorem logged_of_reachable (reach : broker.Reachable s) : Work.Logged { state := s } := by
  refine holds_of_edits ⟨Rows.nil, by simp [State.Entry], by simp⟩ ?_ reach
  exact fun _ _ _ _ _ edit _ logged => edit.logged logged

/-! ## How a message ends -/

theorem Shift.ends (shift : Shift s₀ a w w') (ok : w.Ok) (logged : w.Logged) :
    ∀ p ∈ w'.state.fates, p ∈ w.state.fates ∨ Ends s₀ a w'.state p.1 p.2 := by
  intro p mem
  cases shift with
  | relax | accept | lift | expire | back => exact .inl mem
  | @take q c rr queue m whole found target at_next =>
    rw [Work.Ok, whole] at ok
    obtain ⟨cons, chan, at_c, rfl, -, at_ch, -⟩ := State.Ok.target ok found target
    have taken := logged.waiting cons.q queue found m (List.mem_of_getElem? at_next)
    simp only [deliver, at_c, at_ch] at mem ⊢
    split at mem
    · next auto =>
      obtain old | new := List.mem_append.mp mem
      · exact .inl old
      · obtain rfl := List.mem_singleton.mp new
        rw [if_pos auto]
        exact .inr ⟨_, c, cons, taken, at_c, auto⟩
    · exact .inl mem
  | @lose q queue m hand held found gone =>
    obtain old | new := List.mem_append.mp mem
    · exact .inl old
    · obtain rfl := List.mem_singleton.mp new
      exact .inr ⟨q, _, queue, logged.held q m (held ▸ List.mem_cons_self), found, gone⟩
  | @finish m hand fate held ends =>
    obtain old | new := List.mem_append.mp mem
    · exact .inl old
    · obtain rfl := List.mem_singleton.mp new
      exact .inr (ends.later (.of_rows List.prefix_rfl (List.prefix_append _ _) rfl rfl))

theorem Edit.ends (edit : Edit s₀ a w w') (ok : w.Ok) (logged : w.Logged) :
    ∀ p ∈ w'.state.fates, p ∈ w.state.fates ∨ Ends s₀ a w'.state p.1 p.2 := by
  intro p mem
  cases edit with
  | shift shift => exact shift.ends ok logged p mem
  | detach =>
    obtain ⟨-, -, fates⟩ := detach_record w.state _
    exact .inl (fates ▸ mem)
  | @delete q queue found =>
    obtain ⟨log, -, fates⟩ := deleteQueue_record found
    rw [fates] at mem
    obtain old | new := List.mem_append.mp mem
    · exact .inl old
    · obtain ⟨m, there, rfl⟩ := List.mem_map.mp new
      obtain ⟨queue', found', gone⟩ := deleteQueue_gone found found (.inl rfl)
      exact .inr ⟨q, _, queue', log ▸ logged.waiting q queue found m there, found', gone⟩
  | _ => exact .inl mem

/-- A new fate is the doing of the operation. -/
theorem perform_ends (reach : broker.Reachable s) (order : Order) (a : Act) :
    ∀ p ∈ (perform order s a).fates, p ∈ s.fates ∨ Ends s a (perform order s a) p.1 p.2 := by
  have ok := ok_of_reachable reach
  refine ((perform_edits ok order a).keeps (P := fun w => w.Logged ∧
    ∀ p ∈ w.state.fates, p ∈ s.fates ∨ Ends s a w.state p.1 p.2) ok ?_
    ⟨logged_of_reachable reach, fun _ mem => .inl mem⟩).2
  rintro w w' edit ok ⟨logged, told⟩
  refine ⟨edit.logged logged, fun p mem => ?_⟩
  obtain old | new := edit.ends ok logged p mem
  · exact (told p old).imp_right fun ends => ends.later edit.later
  · exact .inr new

/-! ## Places -/

inductive Place
  | queue (q : Nat)
  | unacked (ch : Nat)
  | ended (fate : Fate)
deriving DecidableEq

/-- Where a message instance is, with repetitions. -/
def State.places (s : State) (i : Nat) : List Place :=
  (s.queues.zipIdx.flatMap fun p =>
    (p.1.msgs.filter fun m => m.id = i).map fun _ => .queue p.2) ++
  (s.channels.zipIdx.flatMap fun p =>
    (p.1.unacked.filter fun e => e.msg.id = i).map fun _ => .unacked p.2) ++
  (s.fates.filter fun p => p.1 = i).map fun p => .ended p.2

theorem length_filter_eq_count {α : Type} (xs : List α) (f : α → Nat) (i : Nat) :
    (xs.filter fun x => f x = i).length = (xs.map f).count i := by
  rw [List.count, List.countP_map, ← List.countP_eq_length_filter]
  apply List.countP_congr
  simp

theorem State.Ok.length_places (ok : s.Ok leaving none hand) (i : Nat) :
    ((s.places i).length : Int) = s.books.held i := by
  have queues : ((s.queues.zipIdx.flatMap fun p =>
      (p.1.msgs.filter fun m => m.id = i).map fun _ => Place.queue p.2).length : Int) =
      total (fun ids => (ids.count i : Int)) s.books.queues := by
    rw [State.books, total_map]
    apply length_flatMap_zipIdx
    intro p
    rw [List.length_map, length_filter_eq_count]
    rfl
  have channels : ((s.channels.zipIdx.flatMap fun p =>
      (p.1.unacked.filter fun e => e.msg.id = i).map fun _ => Place.unacked p.2).length : Int) =
      total (Account.count i) s.books.channels := by
    have counted : total (Account.count i) s.books.channels =
        total (fun chan => (chan.account.ids.count i : Int)) s.channels := by
      rw [State.books, total_map]
      apply total_congr
      intro chan mem
      obtain ⟨k, at_k⟩ := List.mem_iff_getElem?.mp mem
      rw [Account.count]
      split
      · next closed =>
        have nothing : chan.account.unacked = [] :=
          ok.booked.emptied k _ (State.books_channel at_k) closed (by simp)
        simp [Account.ids, nothing]
      · rfl
    rw [counted]
    apply length_flatMap_zipIdx
    intro p
    rw [List.length_map, length_filter_eq_count]
    rfl
  have fates : (((s.fates.filter fun p => p.1 = i).map fun p => Place.ended p.2).length : Int) =
      (s.books.fates.map Prod.fst).count i := by
    rw [List.length_map, length_filter_eq_count]
    rfl
  rw [State.places, List.length_append, List.length_append, Books.held, ← queues, ← channels,
    ← fates]
  simp only [Int.natCast_add]

/-- Each instance accepted so far waits in one queue, or is unacknowledged on one channel, or has
come to one end, where a dead letter's copies are instances of their own; and a consumer's count is
right and within its prefetch. Wherever it is, an instance is the message its queue accepted, and
each operation that brings one to an end does so in the way that the end says. -/
theorem one_place (reach : broker.Reachable s) :
    (∀ i, i < s.nextMsg → ∃ p, s.places i = [p]) ∧
    (∀ i, s.nextMsg ≤ i → s.places i = []) ∧
    (∀ i fate, Place.ended fate ∈ s.places i → ∀ j ∈ fate.copies, j < s.nextMsg) ∧
    (∀ (t : State) q m reason,
      (deadLetter t q m reason).2 = List.range' t.nextMsg (deadTargets t q m).length) ∧
    (∀ (q : Nat) queue c, s.queues[q]? = some queue → c ∈ queue.consumers →
      ∃ cons chan, s.consumers[c]? = some cons ∧ cons.q = q ∧ s.channels[cons.ch]? = some chan ∧
        chan.closed = false ∧ (cons.tag, c) ∈ chan.consumers) ∧
    (∀ (c : Nat) cons chan, s.consumers[c]? = some cons → s.channels[cons.ch]? = some chan →
      chan.closed = false → cons.unacked = (chan.unacked.countP fun e => e.cons = c) ∧
        (0 < cons.prefetch → cons.unacked ≤ cons.prefetch)) ∧
    (∀ (q : Nat) queue m, s.queues[q]? = some queue → m ∈ queue.msgs → Logs s.log q m) ∧
    (∀ (k : Nat) chan e, s.channels[k]? = some chan → e ∈ chan.unacked → Logs s.log e.q e.msg) ∧
    (∀ order a, s.log <+: (perform order s a).log ∧ s.fates <+: (perform order s a).fates) ∧
    (∀ order a i fate, (i, fate) ∈ (perform order s a).fates →
      (i, fate) ∈ s.fates ∨ Ends s a (perform order s a) i fate) := by
  have ok := ok_of_reachable reach
  have counted : ∀ i, ((s.places i).length : Int) = if i < s.nextMsg then 1 else 0 := by
    intro i
    have balance := ok.booked.balance i
    rw [← ok.length_places, List.count_nil, Int.natCast_zero, Int.add_zero] at balance
    exact balance
  have logged := logged_of_reachable reach
  refine ⟨?_, ?_, ?_, deadLetter_copies, ?_, ?_, ?_, ?_, ?_, ?_⟩
  · intro i lt
    have one := counted i
    rw [if_pos lt] at one
    exact List.length_eq_one_iff.mp (by omega)
  · intro i le
    have none_yet := counted i
    rw [if_neg (Nat.not_lt.mpr le)] at none_yet
    exact List.length_eq_zero_iff.mp (by omega)
  · intro i fate mem
    simp only [State.places, List.mem_append, List.mem_flatMap, List.mem_map, List.mem_filter,
      reduceCtorEq, and_false, exists_false, false_or, Place.ended.injEq] at mem
    obtain ⟨p, ⟨there, -⟩, rfl⟩ := mem
    exact ok.booked.copies p there
  · intro q queue c found mem
    obtain ⟨cons, chan, at_c, at_q, at_ch, listed, shut⟩ := ok.attached found mem
    refine ⟨cons, chan, at_c, at_q, at_ch, ?_, listed⟩
    cases closed : chan.closed with
    | false => rfl
    | true => cases shut closed
  · intro c cons chan at_c at_ch opened
    obtain ⟨a, at_a, right⟩ := ok.booked.credits c _ (State.books_consumer at_c)
    cases (State.books_channel at_ch).symm.trans at_a
    exact right opened
  · exact fun q queue m found mem => logged.waiting q queue found m mem
  · exact fun k chan e at_k mem => logged.unacked e ⟨k, chan, at_k, mem⟩
  · intro order a
    have later := (perform_edits ok order a).later
    exact ⟨later.log, later.fates⟩
  · exact fun order a i fate mem => perform_ends reach order a (i, fate) mem

/-- The first of two messages is rejected and dead-lettered, which makes room for the second. -/
theorem one_place_rejected :
    ∃ s, broker.Reachable s ∧ s.nextMsg = 3 ∧
      s.places 0 = [.ended (.rejected [2])] ∧ s.places 1 = [.unacked 0] ∧
      (∃ p, s.places 2 = [p]) ∧ (s.consumers[0]?).map Consumer.unacked = some 1 := by
  let order : Order := ⟨fun _ xs => xs, fun _ _ => .refl _⟩
  let pub : Publishing := ⟨0, []⟩
  have ran : (broker.run ([.dial, .channel 0, .exchangeDeclare 0 [100] .fanout true false false,
      .queueDeclare 0 [119] true false false [(lit "x-dead-letter-exchange", .string [100])],
      .queueDeclare 0 [112] true false false [], .queueBind 0 [112] [] [100], .qos 0 1,
      .consume 0 [119] [116] false false, .publish 0 [] [119] pub .ack,
      .publish 0 [] [119] pub .ack, .settle 0 .reject 1 false false].map fun a => (order, a))
      {}).map (fun s => decide (s.nextMsg = 3 ∧ s.places 0 = [.ended (.rejected [2])] ∧
        s.places 1 = [.unacked 0] ∧ (s.consumers[0]?).map Consumer.unacked = some 1)) =
      some true := by decide +kernel
  obtain ⟨s, run, eq⟩ := Option.map_eq_some_iff.mp ran
  obtain ⟨three, first, second, count⟩ := of_decide_eq_true eq
  have reach : broker.Reachable s := System.Reachable.run (.init rfl) run
  exact ⟨s, reach, three, first, second, (one_place reach).1 2 (by omega), count⟩

end Protobus.Fakebroker
