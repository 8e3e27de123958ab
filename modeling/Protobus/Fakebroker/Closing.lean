import Protobus.Fakebroker.Moves

/-!
# Every operation is a row of edits

The other edits declare, attach and detach, and delete queues. A channel that shuts down is marked
closed, which takes its messages into the hand, loses its consumers, gives its messages back, some
of them perhaps to a sibling that is the next to close, and is cleared. This is the only place where
the operations are gone through: what every edit keeps holds in every reachable state.
-/
namespace Protobus.Fakebroker
open Library Table

variable {s t s₀ : State} {leaving dying : Option Nat} {hand : List Nat} {k q c : Nat}
  {queue : Queue} {chan : Channel} {a : Act} {w w' : Work} {order : Order}

/-! ## Edits -/

/-- The operations that declare and delete by name. -/
def Act.touches : Act → Bool
  | .exchangeDeclare .. | .queueDeclare .. | .queueBind .. | .deleteQueue .. => true
  | _ => false

inductive Edit (s₀ : State) (a : Act) : Work → Work → Prop
  | shift {w w' : Work} (shift : Shift s₀ a w w') : Edit s₀ a w w'
  | conns {w : Work} (conns : List Conn) :
      Edit s₀ a w { w with state := { w.state with conns } }
  | channel {w : Work} (conn id : Nat) :
      Edit s₀ a w { w with
        state := { w.state with channels := w.state.channels ++ [{ conn, id }] } }
  | tune {w : Work} {k : Nat} {chan : Channel} (at_k : w.state.channels[k]? = some chan)
      (prefetch : Int) (ctagSeq : Nat) :
      Edit s₀ a w { w with
        state := { w.state with
          channels := w.state.channels.set k { chan with prefetch, ctagSeq } } }
  | count {w : Work} (touches : a.touches = true) :
      Edit s₀ a w { w with state := { w.state with nameSeq := w.state.nameSeq + 1 } }
  | exchanges {w : Work} (touches : a.touches = true) (exchanges : List Exchange) :
      Edit s₀ a w { w with state := { w.state with exchanges } }
  | declare {w : Work} {queue : Queue} (touches : a.touches = true) (empty : queue.msgs = [])
      (idle : queue.consumers = []) (live : queue.deleted = false) :
      Edit s₀ a w { w with
        state := { w.state with
          queues := w.state.queues ++ [queue]
          names := w.state.names ++ [(queue.name, w.state.queues.length)] } }
  | attach {w : Work} {k q : Nat} {chan : Channel} {queue : Queue} {tag : Bytes}
      (at_k : w.state.channels[k]? = some chan) (opened : chan.closed = false)
      (at_q : w.state.queues[q]? = some queue) (fresh : chan.consumers.lookup tag = none)
      (autoAck exclusive : Bool) :
      Edit s₀ a w { w with
        state := { w.state with
          consumers := w.state.consumers ++ [{
            tag, ch := k, q, autoAck, exclusive, prefetch := chan.prefetch }]
          channels := w.state.channels.set k
            { chan with consumers := chan.consumers ++ [(tag, w.state.consumers.length)] }
          queues := w.state.queues.set q { queue with
            consumers := queue.consumers ++ [w.state.consumers.length], hadConsumer := true } }
        late := q :: w.late }
  | detach {w : Work} {c : Nat} (own : w.state.wiring.Own c) :
      Edit s₀ a w { w with state := detach w.state c }
  | delete {w : Work} {q : Nat} {queue : Queue} (found : w.state.queues[q]? = some queue)
      (why : queue.autoDelete = true ∨ queue.exclusive = true ∨ ∃ name, a = .deleteQueue name) :
      Edit s₀ a w { w with state := deleteQueue w.state q }
  | close {w : Work} {k : Nat} {chan : Channel} (at_k : w.state.channels[k]? = some chan)
      (opened : chan.closed = false) (whole : w.leaving = none) (living : w.dying = none) :
      Edit s₀ a w { w with
        state := { w.state with channels := w.state.channels.set k { chan with closed := true } }
        hand := chan.unacked.reverse.map (fun e => (some e.q, e.msg)) ++ w.hand
        leaving := some k
        dying := some k }
  | left {w : Work} {k : Nat} (leaving : w.leaving = some k)
      (stay : w.state.wiring.Staying k []) : Edit s₀ a w { w with leaving := none }
  | clear {w : Work} {k : Nat} {chan : Channel} (dying : w.dying = some k)
      (at_k : w.state.channels[k]? = some chan) (closed : chan.closed = true) :
      Edit s₀ a w { w with
        state := { w.state with
          channels := w.state.channels.modify k fun chan => { chan with unacked := [] } }
        dying := none }

/-! ## Consumers and queues go, the books stay -/

theorem detach_books (s : State) (c : Nat) : (detach s c).books = s.books := by
  unfold detach
  split
  · rfl
  · simp only [State.books]
    congr 1
    · exact map_modify_of_eq fun _ => rfl
    · exact map_modify_of_eq fun _ => rfl

theorem detach_wiring (s : State) (c : Nat) : (detach s c).wiring = s.wiring.detach c := by
  unfold detach Wiring.detach
  cases found : s.consumers[c]? with
  | none => simp [State.wiring, found]
  | some cons =>
    have at_c : s.wiring.consumers[c]? = some cons.identity := by simp [State.wiring, found]
    simp only [at_c]
    simp only [State.wiring]
    congr 1
    · exact map_modify fun _ => rfl
    · exact map_modify fun _ => rfl

/-- What a queue has beside its consumers. -/
theorem detach_rows {α : Type} {f : Queue → α}
    (same : ∀ (queue : Queue) cs, f { queue with consumers := cs } = f queue) (s : State)
    (c : Nat) : (detach s c).queues.map f = s.queues.map f := by
  unfold detach
  split
  · rfl
  · exact map_modify_of_eq fun queue => same queue _

/-- What no `detach` changes stays when all consumers are detached. -/
theorem detachAll_eq {α : Type} {f : State → α} (same : ∀ s c, f (detach s c) = f s)
    (cs : List Nat) (s : State) : f (cs.foldl detach s) = f s := by
  induction cs generalizing s with
  | nil => rfl
  | cons c cs ih => rw [List.foldl_cons, ih, same]

theorem detachAll_wiring (s : State) (cs : List Nat) :
    (cs.foldl detach s).wiring = cs.foldl Wiring.detach s.wiring := by
  induction cs generalizing s with
  | nil => rfl
  | cons c cs ih => rw [List.foldl_cons, ih, detach_wiring, List.foldl_cons]

theorem deleteQueue_wiring (found : s.queues[q]? = some queue) : (deleteQueue s q).wiring =
    (queue.consumers.foldl Wiring.detach s.wiring).unname fun p => p.1 ≠ queue.name := by
  have marked : (markDeleted s q queue).wiring = s.wiring := by
    simp only [State.wiring, markDeleted]
    congr 1
    exact map_set_of_eq found rfl
  rw [← marked, ← detachAll_wiring]
  simp only [deleteQueue, found]
  rfl

theorem deleteQueue_books (found : s.queues[q]? = some queue) :
    (deleteQueue s q).books = (markDeleted s q queue).books := by
  have kept := detachAll_eq detach_books queue.consumers (markDeleted s q queue)
  simp only [deleteQueue, found]
  exact kept

theorem deleteQueue_rows {α : Type} {f : Queue → α}
    (same : ∀ (queue : Queue) cs, f { queue with consumers := cs } = f queue)
    (found : s.queues[q]? = some queue) : (deleteQueue s q).queues.map f =
      (s.queues.map f).set q (f { queue with deleted := true, msgs := [] }) := by
  have kept := detachAll_eq (f := fun s => s.queues.map f) (detach_rows same) queue.consumers
    (markDeleted s q queue)
  simp only [deleteQueue, found]
  rw [kept, markDeleted, List.map_set]

theorem deleteQueue_channels (s : State) (q : Nat) :
    (deleteQueue s q).books.channels = s.books.channels := by
  cases found : s.queues[q]? with
  | none => simp [deleteQueue, found]
  | some queue =>
    rw [deleteQueue_books found]
    rfl

/-- The queue that goes with its last consumer has no consumers to detach. -/
theorem removeConsumer_cases (s : State) (c : Nat) : removeConsumer s c = detach s c ∨
    ∃ q queue, (detach s c).queues[q]? = some queue ∧ queue.consumers = [] ∧
      queue.autoDelete = true ∧ removeConsumer s c = deleteQueue (detach s c) q := by
  simp only [removeConsumer]
  split
  · exact .inl rfl
  · next cons _ =>
    split
    · exact .inl rfl
    · next queue found =>
      split
      · next goes =>
        simp only [Bool.and_eq_true, List.isEmpty_iff] at goes
        exact .inr ⟨cons.q, queue, found, goes.1.2, goes.1.1.1, rfl⟩
      · exact .inl rfl

theorem removeConsumer_wiring (s : State) (c : Nat) :
    ∃ keep, (removeConsumer s c).wiring = (s.wiring.detach c).unname keep := by
  obtain eq | ⟨q, queue, found, alone, -, eq⟩ := removeConsumer_cases s c
  · refine ⟨fun _ => true, ?_⟩
    rw [eq, detach_wiring, Wiring.unname, List.filter_true]
  · exact ⟨_, by rw [eq, deleteQueue_wiring found, alone, List.foldl_nil, detach_wiring]⟩

theorem removeConsumer_channels (s : State) (c : Nat) :
    (removeConsumer s c).books.channels = s.books.channels := by
  obtain eq | ⟨q, queue, -, -, -, eq⟩ := removeConsumer_cases s c
  · rw [eq, detach_books]
  · rw [eq, deleteQueue_channels, detach_books]

/-! ## Every edit keeps the order -/

theorem State.Live.of_rows (live : s.Live) (names : t.names = s.names)
    (rows : t.queues.map (fun queue => (queue.name, queue.deleted)) =
      s.queues.map fun queue => (queue.name, queue.deleted)) : t.Live := by
  intro p mem
  obtain ⟨queue, found, name, there⟩ := live p (names ▸ mem)
  have row := congrArg (·[p.2]?) rows
  simp only [List.getElem?_map, found, Option.map_some, Option.map_eq_some_iff,
    Prod.mk.injEq] at row
  obtain ⟨queue', found', sameName, sameDeleted⟩ := row
  exact ⟨queue', found', sameName.trans name, sameDeleted.trans there⟩

/-- Another name is that of another queue. -/
theorem deleteQueue_live (live : s.Live) (found : s.queues[q]? = some queue) :
    (deleteQueue s q).Live := by
  have names : (deleteQueue s q).names = s.names.filter fun p => p.1 ≠ queue.name := by
    have kept := detachAll_eq (f := State.names) (fun s c => by unfold detach; split <;> rfl)
      queue.consumers (markDeleted s q queue)
    simp only [deleteQueue, found]
    rw [kept]
    rfl
  have rows := deleteQueue_rows (f := fun queue => (queue.name, queue.deleted)) (fun _ _ => rfl)
    found
  intro p mem
  rw [names] at mem
  obtain ⟨mem, other⟩ := List.mem_filter.mp mem
  obtain ⟨queue', found', name, there⟩ := live p mem
  have apart : q ≠ p.2 := by
    rintro rfl
    cases found.symm.trans found'
    simp [name] at other
  have row := congrArg (·[p.2]?) rows
  simp only [List.getElem?_map, getElem?_set_of_ne apart, found', Option.map_some,
    Option.map_eq_some_iff, Prod.mk.injEq] at row
  obtain ⟨queue'', found'', sameName, sameDeleted⟩ := row
  exact ⟨queue'', found'', sameName.trans name, sameDeleted.trans there⟩

/-- Its messages are gone with the queue. -/
theorem deleteQueue_ok (ok : s.Ok leaving dying hand) (found : s.queues[q]? = some queue) :
    (deleteQueue s q).Ok leaving dying hand := by
  refine ⟨?_, ?_, deleteQueue_live ok.live found⟩
  · rw [deleteQueue_wiring found]
    apply Wiring.Ok.unname
    apply ok.wired.detachAll
    intro c mem
    exact ok.wired.own_of_attached (State.wiring_queue found) mem
  · rw [deleteQueue_books found]
    have taken : Books.Ok dying (queue.ids ++ hand) { s with
        queues := s.queues.set q { queue with deleted := true, msgs := [] } }.books :=
      books_setQueue ok.booked found (.refl _)
    have ends : (queue.msgs.map fun m => (m.id, Fate.gone)).map Prod.fst = queue.ids := by
      simp [Queue.ids]
    rw [← ends] at taken
    refine taken.finish ?_
    intro p mem
    obtain ⟨m, -, rfl⟩ := List.mem_map.mp mem
    simp [Fate.copies]

/-- A new queue is empty, and has its place under its name. -/
theorem State.Ok.addQueue (ok : s.Ok leaving dying hand) (empty : queue.msgs = [])
    (idle : queue.consumers = []) (live : queue.deleted = false) :
    State.Ok leaving dying hand { s with
      queues := s.queues ++ [queue]
      names := s.names ++ [(queue.name, s.queues.length)] } := by
  refine ⟨?_, ?_, ?_⟩
  · have added := ok.wired.addQueue queue.name
    simp only [State.wiring, List.map_append, List.map_singleton, idle]
    simpa [State.wiring] using added
  · have added := ok.booked.addQueue
    simp only [State.books, List.map_append, List.map_singleton, Queue.ids, empty]
    exact added
  · intro p mem
    obtain old | new := List.mem_append.mp mem
    · obtain ⟨queue', found, rest⟩ := ok.live p old
      exact ⟨queue', getElem?_concat_of_some found, rest⟩
    · cases List.mem_singleton.mp new
      exact ⟨queue, by simp, rfl, live⟩

/-- A channel changes in what neither the wiring nor the books say. -/
theorem State.Ok.setChannel {chan' : Channel} (ok : s.Ok leaving dying hand)
    (at_k : s.channels[k]? = some chan) (listing : chan'.listing = chan.listing)
    (account : chan'.account = chan.account) :
    State.Ok leaving dying hand { s with channels := s.channels.set k chan' } := by
  refine ⟨?_, ?_, ok.live⟩
  · have unchanged : { s with channels := s.channels.set k chan' }.wiring = s.wiring := by
      simp only [State.wiring]
      congr 1
      exact map_set_of_eq at_k listing
    exact unchanged ▸ ok.wired
  · have unchanged : { s with channels := s.channels.set k chan' }.books = s.books := by
      simp only [State.books]
      congr 1
      exact map_set_of_eq at_k account
    exact unchanged ▸ ok.booked

/-- A consumer starts under a tag its channel does not list. -/
theorem State.Ok.attach {tag : Bytes} (ok : s.Ok leaving dying hand)
    (at_k : s.channels[k]? = some chan) (opened : chan.closed = false)
    (at_q : s.queues[q]? = some queue) (fresh : chan.consumers.lookup tag = none)
    (autoAck exclusive : Bool) :
    State.Ok leaving dying hand { s with
      consumers := s.consumers ++ [{
        tag, ch := k, q, autoAck, exclusive, prefetch := chan.prefetch }]
      channels := s.channels.set k
        { chan with consumers := chan.consumers ++ [(tag, s.consumers.length)] }
      queues := s.queues.set q { queue with
        consumers := queue.consumers ++ [s.consumers.length], hadConsumer := true } } := by
  refine ⟨?_, ?_, ok.live.of_rows rfl (map_set_of_eq at_q rfl)⟩
  · have new : tag ∉ chan.listing.consumers.map Prod.fst := by
      intro mem
      obtain ⟨p, listed, rfl⟩ := List.mem_map.mp mem
      simpa using List.lookup_eq_none_iff.mp fresh p listed
    have attached := ok.wired.attach (State.wiring_channel at_k) opened
      (State.wiring_queue at_q) new
    have lengths : s.wiring.consumers.length = s.consumers.length := by simp [State.wiring]
    simp only [Wiring.attach, lengths] at attached
    simp only [State.wiring, List.map_set, List.map_append, List.map_singleton]
    exact attached
  · have started := ok.booked.addConsumer (State.books_channel at_k) chan.prefetch
    have channels : (s.channels.set k { chan with
        consumers := chan.consumers ++ [(tag, s.consumers.length)] }).map Channel.account =
        s.channels.map Channel.account := map_set_of_eq at_k rfl
    have queues : (s.queues.set q { queue with
        consumers := queue.consumers ++ [s.consumers.length], hadConsumer := true }).map Queue.ids =
        s.queues.map Queue.ids := map_set_of_eq at_q rfl
    simp only [State.books, List.map_append, List.map_singleton, channels, queues]
    exact started

/-- Marked closed, the channel holds its messages in its hand. -/
theorem State.Ok.close (ok : s.Ok none none hand) (at_k : s.channels[k]? = some chan)
    (opened : chan.closed = false) :
    State.Ok (some k) (some k) ((chan.unacked.reverse.map fun e => e.msg.id) ++ hand)
      { s with channels := s.channels.set k { chan with closed := true } } := by
  refine ⟨?_, ?_, ok.live⟩
  · have closing := ok.wired.close (State.wiring_channel at_k)
    simp only [State.wiring, List.map_set]
    exact closing
  · have closing := ok.booked.close (State.books_channel at_k) opened
    have turned : (chan.account.ids ++ hand).Perm
        ((chan.unacked.reverse.map fun e => e.msg.id) ++ hand) :=
      List.Perm.append_right hand ((List.reverse_perm chan.unacked).symm.map _)
    simp only [State.books, List.map_set]
    exact closing.perm turned

theorem State.Ok.clear (ok : s.Ok leaving (some k) hand) (at_k : s.channels[k]? = some chan)
    (closed : chan.closed = true) :
    State.Ok leaving none hand { s with
      channels := s.channels.modify k fun chan => { chan with unacked := [] } } := by
  refine ⟨?_, ?_, ok.live⟩
  · have unchanged : State.wiring { s with
        channels := s.channels.modify k fun chan => { chan with unacked := [] } } = s.wiring := by
      simp only [State.wiring]
      congr 1
      exact map_modify_of_eq fun _ => rfl
    exact unchanged ▸ ok.wired
  · have cleared := ok.booked.clear (State.books_channel at_k) closed
    rw [modify_eq_set at_k]
    simp only [State.books, List.map_set]
    exact cleared

theorem Edit.ok (edit : Edit s₀ a w w') (ok : w.Ok) : w'.Ok := by
  cases edit with
  | shift shift => exact shift.ok ok
  | conns | count | exchanges => exact ⟨ok.wired, ok.booked, ok.live⟩
  | channel conn id =>
    refine ⟨?_, ?_, ok.live⟩
    · have added := ok.wired.addChannel
      simp only [State.wiring, List.map_append, List.map_singleton]
      exact added
    · have added := ok.booked.addChannel
      simp only [State.books, List.map_append, List.map_singleton]
      exact added
  | tune at_k => exact State.Ok.setChannel ok at_k rfl rfl
  | declare _ empty idle live => exact State.Ok.addQueue ok empty idle live
  | attach at_k opened at_q fresh autoAck exclusive =>
    exact State.Ok.attach ok at_k opened at_q fresh autoAck exclusive
  | detach own =>
    refine ⟨?_, ?_, ok.live.of_rows ?_ (detach_rows (fun _ _ => rfl) _ _)⟩
    · exact detach_wiring w.state _ ▸ ok.wired.detach own
    · exact detach_books w.state _ ▸ ok.booked
    · unfold Fakebroker.detach
      split <;> rfl
  | delete found => exact deleteQueue_ok ok found
  | close at_k opened whole living =>
    rw [Work.Ok, whole, living] at ok
    have closed := State.Ok.close ok at_k opened
    simpa [Work.Ok, Work.ids, Function.comp_def] using closed
  | left leaving stay =>
    refine ⟨?_, ok.booked, ok.live⟩
    have wired := ok.wired
    rw [leaving] at wired
    exact wired.left stay
  | clear dying at_k closed =>
    rw [Work.Ok, dying] at ok
    exact State.Ok.clear ok at_k closed

/-! ## Where messages come from -/

/-- A new entry is the next message of its queue, for the next consumer. -/
theorem Edit.entry {e : Inflight} (edit : Edit s₀ a w w') (entry : w'.state.Entry e) :
    w.state.Entry e ∨ ∃ queue rr, w.leaving = none ∧ w.state.queues[e.q]? = some queue ∧
      queue.target w.state.consumers = some (e.cons, rr) ∧
      queue.msgs[queue.next]? = some e.msg ∧ w'.state.queues = w.state.queues.set e.q
        { queue with rr, msgs := queue.msgs.eraseIdx queue.next } := by
  cases edit with
  | shift shift =>
    cases shift with
    | relax | accept | expire | back | lose | finish => exact .inl entry
    | @take q c rr queue m whole found target at_next =>
      obtain old | ⟨rfl, rfl, rfl⟩ := deliver_entry entry
      · exact .inl old
      · exact .inr ⟨queue, rr, whole, found, target, at_next, deliver_queues _ _ _ _⟩
    | lift _ _ _ at_k =>
      exact .inl (entry.of_set (modify_eq_set at_k) at_k fun _ => List.mem_of_mem_filter)
  | conns | count | exchanges | declare | left => exact .inl entry
  | channel =>
    obtain ⟨k, chan, at_k, mem⟩ := entry
    grind [State.Entry]
  | tune at_k | attach at_k | close at_k => exact .inl (entry.of_set rfl at_k fun _ => id)
  | detach => exact .inl (entry.of_books (congrArg Books.channels (detach_books _ _)))
  | delete => exact .inl (entry.of_books (deleteQueue_channels _ _))
  | clear _ at_k => exact .inl (entry.of_set (modify_eq_set at_k) at_k (by simp))

/-- What is in the hand was there before, or is taken from a channel. -/
theorem Edit.held {m : Message} (edit : Edit s₀ a w w') (mem : (some q, m) ∈ w'.hand) :
    (some q, m) ∈ w.hand ∨ ∃ e, w.state.Entry e ∧ e.q = q ∧ e.msg = m := by
  cases edit with
  | shift shift =>
    cases shift with
    | relax | take | accept => exact .inl mem
    | @lift k _ _ _ _ chan e dest _ _ at_k there _ _ home =>
      obtain first | later := List.mem_cons.mp mem
      · cases first
        exact .inr ⟨e, ⟨k, chan, at_k, there⟩, (home q rfl).symm, rfl⟩
      · exact .inl later
    | expire => exact .inl (by simpa using mem)
    | back held | lose held | finish held => exact .inl (held ▸ List.mem_cons_of_mem _ mem)
  | @close k chan at_k =>
    obtain new | old := List.mem_append.mp mem
    · obtain ⟨e, there, eq⟩ := List.mem_map.mp new
      cases eq
      exact .inr ⟨e, ⟨k, chan, at_k, List.mem_reverse.mp there⟩, rfl, rfl⟩
    · exact .inl old
  | _ => exact .inl mem

/-- What waits in a queue after an edit. -/
inductive Fills (w w' : Work) (q : Nat) (queue' : Queue) : Prop
  | new (empty : queue'.msgs = [])
  | fewer (queue : Queue) (found : w.state.queues[q]? = some queue)
      (same : queue'.maxPriority = queue.maxPriority) (sub : queue'.msgs.Sublist queue.msgs)
  | accept (queue : Queue) (m : Message) (found : w.state.queues[q]? = some queue)
      (same : queue'.maxPriority = queue.maxPriority) (id : m.id = w.state.nextMsg)
      (fresh : m.redelivered = false) (log : w'.state.log = w.state.log ++ [(q, m)])
      (msgs : queue'.msgs = queue.msgs ++ [m])
  | back (queue : Queue) (m : Message) (found : w.state.queues[q]? = some queue)
      (same : queue'.maxPriority = queue.maxPriority) (held : (some q, m) ∈ w.hand)
      (msgs : queue'.msgs = { m with redelivered := true } :: queue.msgs)

theorem Fills.of_eq {queue' : Queue} (found : w'.state.queues[q]? = some queue')
    (same : w'.state.queues.map (fun queue => (queue.maxPriority, queue.msgs)) =
      w.state.queues.map fun queue => (queue.maxPriority, queue.msgs)) : Fills w w' q queue' := by
  have row := congrArg (·[q]?) same
  simp only [List.getElem?_map, found, Option.map_some] at row
  obtain ⟨queue, before, eq⟩ := Option.map_eq_some_iff.mp row.symm
  obtain ⟨priority, msgs⟩ := Prod.mk.inj eq
  exact .fewer queue before priority.symm (msgs ▸ List.Sublist.refl _)

/-- The other queues stay as they are. -/
theorem Fills.of_set {p : Nat} {row queue' : Queue} (found : w'.state.queues[q]? = some queue')
    (queues : w'.state.queues = w.state.queues.set p row) (here : Fills w w' p row) :
    Fills w w' q queue' := by
  rw [queues] at found
  obtain ⟨rfl, rfl⟩ | ⟨-, before⟩ := getElem?_set_cases found
  · exact here
  · exact .fewer queue' before rfl (List.Sublist.refl _)

theorem Edit.fills {queue' : Queue} (edit : Edit s₀ a w w')
    (found' : w'.state.queues[q]? = some queue') : Fills w w' q queue' := by
  cases edit with
  | shift shift =>
    cases shift with
    | relax | lift | lose | finish => exact .of_eq found' rfl
    | @take _ _ _ queue _ _ found =>
      exact .of_set found' (deliver_queues _ _ _ _)
        (.fewer queue found rfl (List.eraseIdx_sublist _ _))
    | @accept _ queue m found _ id fresh =>
      exact .of_set found' rfl (.accept queue m found rfl id fresh rfl rfl)
    | @expire _ _ queue _ _ found =>
      exact .of_set found' rfl (.fewer queue found rfl (List.eraseIdx_sublist _ _))
    | @back _ queue m _ held found =>
      exact .of_set found' rfl (.back queue m found rfl (held ▸ List.mem_cons_self) rfl)
  | conns | channel | tune | count | exchanges | close | left | clear => exact .of_eq found' rfl
  | @declare queue _ empty =>
    obtain old | rfl : w.state.queues[q]? = some queue' ∨ queue = queue' := by grind
    · exact .fewer queue' old rfl (List.Sublist.refl _)
    · exact .new empty
  | attach _ _ at_q => exact .of_eq found' (map_set_of_eq at_q rfl)
  | detach => exact .of_eq found' (detach_rows (fun _ _ => rfl) _ _)
  | delete found =>
    have rows := deleteQueue_rows (f := fun queue => (queue.maxPriority, queue.msgs))
      (fun _ _ => rfl) found
    have row := congrArg (·[q]?) rows
    simp only [List.getElem?_map, found', Option.map_some] at row
    obtain ⟨-, eq⟩ | ⟨-, before⟩ := getElem?_set_cases row.symm
    · exact .new (Prod.mk.inj eq).2.symm
    · obtain ⟨queue, before, eq⟩ := Option.map_eq_some_iff.mp (List.getElem?_map ▸ before)
      obtain ⟨priority, msgs⟩ := Prod.mk.inj eq
      exact .fewer queue before priority.symm (msgs ▸ List.Sublist.refl _)

/-! ## Rows of edits -/

def Edits (s₀ : State) (a : Act) : Work → Work → Prop := Relation.ReflTransGen (Edit s₀ a)

namespace Edits

theorem refl : Edits s₀ a w w := Relation.ReflTransGen.refl

theorem trans {w'' : Work} (first : Edits s₀ a w w') (second : Edits s₀ a w' w'') :
    Edits s₀ a w w'' := Relation.ReflTransGen.trans first second

theorem one (edit : Edit s₀ a w w') : Edits s₀ a w w' := Relation.ReflTransGen.single edit

theorem ok (edits : Edits s₀ a w w') (ok : w.Ok) : w'.Ok := by
  induction edits with
  | refl => exact ok
  | tail _ edit ih => exact edit.ok ih

/-- What every edit keeps, an operation keeps. -/
theorem keeps {P : Work → Prop} (edits : Edits s₀ a w w') (ok : w.Ok)
    (keep : ∀ w w', Edit s₀ a w w' → w.Ok → P w → P w') (holds : P w) : P w' := by
  induction edits with
  | refl => exact holds
  | tail before edit ih => exact keep _ _ edit (Edits.ok before ok) ih

end Edits

theorem Shifts.edits (shifts : Shifts s₀ a w w') : Edits s₀ a w w' := by
  induction shifts with
  | refl => exact .refl
  | tail _ shift ih => exact ih.trans (.one (.shift shift))

/-! ## Channels and connections close -/

theorem removeConsumer_edits (own : w.state.wiring.Own c) :
    Edits s₀ a w { w with state := removeConsumer w.state c } := by
  have detached : Edit s₀ a w { w with state := detach w.state c } := .detach own
  obtain eq | ⟨q, queue, found, -, auto, eq⟩ := removeConsumer_cases w.state c
  · rw [eq]
    exact .one detached
  · rw [eq]
    refine (Edits.one detached).trans (.one ?_)
    exact .delete (w := { w with state := detach w.state c }) found (.inl auto)

/-- The consumers of a closing channel go, and its entries stay. -/
theorem removeConsumers_edits {cs : List Nat} (ok : w.Ok) (leaving : w.leaving = some k)
    (own : ∀ c ∈ cs, w.state.wiring.Own c) (stay : w.state.wiring.Staying k cs) :
    Edits s₀ a w { w with state := cs.foldl removeConsumer w.state, leaving := none } ∧
      (cs.foldl removeConsumer w.state).books.channels = w.state.books.channels := by
  induction cs generalizing w with
  | nil => exact ⟨.one (.left leaving stay), rfl⟩
  | cons c cs ih =>
    obtain ⟨keep, wiring⟩ := removeConsumer_wiring w.state c
    have removed : Edits s₀ a w _ := removeConsumer_edits (own c (by simp))
    have owned : ∀ d ∈ cs, (removeConsumer w.state c).wiring.Own d := by
      intro d mem
      rw [wiring]
      exact (own d (by simp [mem])).detach c
    have staying : (removeConsumer w.state c).wiring.Staying k cs := by
      rw [wiring]
      exact ok.wired.staying_detach stay
    obtain ⟨rest, same⟩ :=
      ih (w := { w with state := removeConsumer w.state c }) (removed.ok ok) leaving owned staying
    exact ⟨removed.trans rest, same.trans (removeConsumer_channels w.state c)⟩

/-- A closed channel stays as it is while it gives its messages back. -/
theorem requeue_shifts {es : List Inflight} {rest : List (Option Nat × Message)} (ok : w.Ok)
    (whole : w.leaving = none) (held : w.hand = es.map (fun e => (some e.q, e.msg)) ++ rest)
    (at_k : w.state.channels[k]? = some chan) (closed : chan.closed = true)
    (sub : ∀ e ∈ es, e ∈ chan.unacked) :
    Shifts s₀ a w { w with
      state := (es.map Inflight.tag).foldl (requeue k) w.state
      hand := rest } := by
  induction es generalizing w with
  | nil =>
    rw [List.map_nil, List.nil_append] at held
    rw [← held]
    exact .refl
  | cons e es ih =>
    have mem := sub e (by simp)
    obtain ⟨queue, at_q⟩ := ok.queue_of_entry at_k mem
    have first : Shifts s₀ a w { w with
        state := requeue k w.state e.tag
        hand := es.map (fun e => (some e.q, e.msg)) ++ rest } := by
      simp only [requeue, ok.entry_of_mem at_k mem]
      exact enqueue_back whole held at_q
    exact first.trans (ih (first.ok ok) whole rfl (first.shut ok at_k closed)
      fun e mem => sub e (by simp [mem]))

theorem requeueAll_edits {rest : List (Option Nat × Message)} (ok : w.Ok)
    (whole : w.leaving = none) (dying : w.dying = some k)
    (held : w.hand = chan.unacked.reverse.map (fun e => (some e.q, e.msg)) ++ rest)
    (at_k : w.state.channels[k]? = some chan) (closed : chan.closed = true) :
    Edits s₀ a w { w with state := requeueAll w.state k, hand := rest, dying := none } := by
  have given : Shifts s₀ a w _ := requeue_shifts ok whole held at_k closed (by simp)
  have still := given.shut ok at_k closed
  simp only [requeueAll, at_k, Option.elim_some, ← List.map_reverse]
  exact given.edits.trans (.one (.clear dying still closed))

theorem shutdown_edits (ok : w.Ok) (whole : w.leaving = none) (living : w.dying = none)
    (order : Order) (k : Nat) : Edits s₀ a w { w with state := shutdown order w.state k } := by
  unfold shutdown
  split
  · exact .refl
  · next chan at_k =>
    split
    · exact .refl
    · next opened =>
      have closing : Edit s₀ a w _ := .close at_k (by simpa using opened) whole living
      have marked := closing.ok ok
      have at_k' : (w.state.channels.set k { chan with closed := true })[k]? = some _ :=
        getElem?_set_self_of_some at_k
      have perm := order.perm (.consumers k) (chan.consumers.map Prod.snd)
      have listed := State.wiring_channel (s := { w.state with
        channels := w.state.channels.set k { chan with closed := true } }) at_k'
      have own : ∀ c ∈ order.pick (.consumers k) (chan.consumers.map Prod.snd),
          (State.wiring { w.state with
            channels := w.state.channels.set k { chan with closed := true } }).Own c := by
        intro c mem
        obtain ⟨p, there, rfl⟩ := List.mem_map.mp (perm.mem_iff.mp mem)
        exact marked.wired.own_of_listed listed there
      have stay := marked.wired.staying listed fun p mem =>
        perm.mem_iff.mpr (List.mem_map_of_mem mem)
      have removal : Edits s₀ a _ _ ∧ _ := removeConsumers_edits marked rfl own stay
      obtain ⟨removed, same⟩ := removal
      obtain ⟨chan', still, account⟩ := State.channel_of_books same at_k'
      have entries : chan'.unacked = chan.unacked := congrArg Account.unacked account
      have closed : chan'.closed = true := congrArg Account.closed account
      have given : Edits s₀ a _ _ :=
        requeueAll_edits (Edits.ok removed marked) rfl rfl (by rw [entries]) still closed
      cases w
      cases living
      cases whole
      exact (Edits.one closing).trans (removed.trans given)

theorem shutdowns_edits (order : Order) (ks : List Nat) (ok : w.Ok) (whole : w.leaving = none)
    (living : w.dying = none) :
    Edits s₀ a w { w with state := ks.foldl (shutdown order) w.state } := by
  induction ks generalizing w with
  | nil => exact .refl
  | cons k ks ih =>
    have first : Edits s₀ a w _ := shutdown_edits ok whole living order k
    exact first.trans (ih (first.ok ok) whole living)

/-- The queues a connection takes with it are its own. -/
theorem deleteOwn_edits {qs : List Nat}
    (own : ∀ q ∈ qs, (w.state.queues.map Queue.exclusive)[q]? = some true) :
    Edits s₀ a w { w with state := qs.foldl deleteQueue w.state } := by
  induction qs generalizing w with
  | nil => exact .refl
  | cons q qs ih =>
    have exclusive := own q (by simp)
    rw [List.getElem?_map, Option.map_eq_some_iff] at exclusive
    obtain ⟨queue, found, exclusive⟩ := exclusive
    refine (Edits.one (.delete found (.inr (.inl exclusive)))).trans
      (ih (w := { w with state := deleteQueue w.state q }) fun p mem => ?_)
    have rows := deleteQueue_rows (f := Queue.exclusive) (fun _ _ => rfl) found
    rw [rows, List.getElem?_set]
    split
    · next same =>
      subst same
      have lt := (List.getElem?_eq_some_iff.mp found).1
      simp [lt, exclusive]
    · exact own p (by simp [mem])

theorem shutdownConn_edits (ok : w.Ok) (whole : w.leaving = none) (living : w.dying = none)
    (order : Order) (c : Nat) : Edits s₀ a w { w with state := shutdownConn order w.state c } := by
  unfold shutdownConn
  split
  · exact .refl
  · next conn found =>
    split
    · exact .refl
    · have marked : Edit s₀ a w _ := .conns (w.state.conns.set c { conn with closed := true })
      refine (Edits.one marked).trans ((shutdowns_edits order _ (marked.ok ok) whole living).trans
        (deleteOwn_edits ?_))
      intro q mem
      have chosen := (order.perm _ _).mem_iff.mp mem
      simp only [State.queuesOf, List.mem_filter, Option.any_eq_true] at chosen
      obtain ⟨-, queue, at_q, own⟩ := chosen
      simp only [Bool.and_eq_true] at own
      simp [at_q, own.1]

/-! ## Settlement -/

/-- What `settle` settles was there when it began. -/
theorem settleAll_shifts {kind : Settlement} {again multiple : Bool} {tag₀ : Nat}
    {tags late : List Nat} (ok : s.Ok none none []) (act : a = .settle k kind tag₀ multiple again)
    (at_k : s.channels[k]? = some chan) (opened : chan.closed = false)
    (bound : ∀ tag ∈ tags, tag ≤ chan.nextTag ∧ if multiple then tag ≤ tag₀ else tag = tag₀)
    (near : ∀ e ∈ chan.unacked, e.tag ∈ tags → e.q ∈ late)
    (before : Shifts s a { state := s, late } { state := t, late }) :
    Shifts s a { state := t, late } { state := tags.foldl (settleOne kind again k) t, late } := by
  induction tags generalizing t with
  | nil => exact .refl
  | cons tag tags ih =>
    have first : Shifts s a { state := t, late }
        { state := settleOne kind again k t tag, late } := by
      refine settleOne_shifts (w := { state := t, late }) act rfl rfl (before.ok ok)
        before.frame before.nextMsg_le fun e found => ?_
      obtain ⟨chan', at_k', mem, rfl⟩ := State.entry_cases found
      obtain ⟨old, there, -, kept⟩ := before.grown k chan' at_k'
      cases at_k.symm.trans there
      obtain ⟨le, tagged⟩ := bound e.tag (by simp)
      have here : e ∈ chan.unacked := (kept e mem).resolve_right (by omega)
      exact ⟨⟨chan, at_k, opened, here, tagged⟩, near e here (by simp)⟩
    exact first.trans (ih (fun tag mem => bound tag (by simp [mem]))
      (fun e mem there => near e mem (by simp [there])) (before.trans first))

theorem dispatchAll_shifts {qs : List Nat} (whole : w.leaving = none)
    (all : ∀ q ∈ w.late, q ∈ qs) :
    Shifts s₀ a w { w with state := qs.foldl dispatch w.state, late := [] } := by
  induction qs generalizing w with
  | nil => exact .one (.relax [] fun q mem => .inl (all q mem))
  | cons q qs ih =>
    have given : Shifts s₀ a w _ := dispatch_shifts q whole
    have rested : Shift s₀ a { w with state := dispatch w.state q }
        { w with state := dispatch w.state q, late := w.late.filter fun p => p ≠ q } := by
      refine .relax (w := { w with state := dispatch w.state q }) _ fun p mem => ?_
      by_cases same : p = q
      · exact .inr (same ▸ dispatch_rested w.state p)
      · exact .inl (List.mem_filter.mpr ⟨mem, by simpa using same⟩)
    refine given.trans ((Shifts.one rested).trans (ih (w := { w with
      state := dispatch w.state q, late := w.late.filter fun p => p ≠ q }) whole ?_))
    intro p mem
    have := all p
    grind

theorem serve_shifts (whole : w.leaving = none) (late : w.late = [q]) :
    Shifts s₀ a w { w with state := dispatch w.state q, late := [] } := by
  have all : ∀ p ∈ w.late, p ∈ [q] := by simp [late]
  exact dispatchAll_shifts whole all

theorem settle_edits (ok : s.Ok none none []) (order : Order) (k : Nat) (kind : Settlement)
    (tag : Nat) (multiple again : Bool) :
    Edits s (.settle k kind tag multiple again) { state := s }
      { state := settle order s k kind tag multiple again } := by
  unfold settle
  split
  · exact .refl
  · next chan at_k =>
    split
    · exact .refl
    · next opened =>
      simp only
      generalize chosen : chan.unacked.filter _ = entries
      split
      · exact shutdown_edits (w := { state := s }) ok rfl rfl order k
      · have sub : ∀ e ∈ entries, e ∈ chan.unacked ∧
            if multiple then e.tag ≤ tag else e.tag = tag := by
          intro e mem
          rw [← chosen] at mem
          obtain ⟨there, covered⟩ := List.mem_filter.mp mem
          exact ⟨there, by split <;> simp_all⟩
        have account := ok.booked.accounts k _ (State.books_channel at_k)
        have nodup : (chan.unacked.map Inflight.tag).Nodup := account.sorted.imp Nat.ne_of_lt
        have late : Shift s (.settle k kind tag multiple again) { state := s }
            { state := s, late := entries.map Inflight.q } :=
          .relax (w := { state := s }) _ (by simp)
        have bound : ∀ tag' ∈ entries.map Inflight.tag, tag' ≤ chan.nextTag ∧
            if multiple then tag' ≤ tag else tag' = tag := by
          intro tag' mem
          obtain ⟨e, there, rfl⟩ := List.mem_map.mp mem
          exact ⟨account.bound e (sub e there).1, (sub e there).2⟩
        have near : ∀ e ∈ chan.unacked, e.tag ∈ entries.map Inflight.tag →
            e.q ∈ entries.map Inflight.q := by
          intro e mem tagged
          obtain ⟨e', there, same⟩ := List.mem_map.mp tagged
          obtain rfl := List.inj_on_of_nodup_map nodup (sub e' there).1 mem same
          exact List.mem_map_of_mem there
        have settled : Shifts s (.settle k kind tag multiple again) _ _ :=
          settleAll_shifts ok rfl at_k (by simpa using opened) bound near .refl
        refine Shifts.edits ((Shifts.one late).trans (settled.trans (dispatchAll_shifts rfl ?_)))
        exact fun q mem => (order.perm _ _).mem_iff.mpr (List.mem_eraseDups.mpr mem)

/-! ## The operations -/

section Operations
variable (ok : s.Ok none none [])
include ok

theorem refuse_edits (order : Order) (k : Nat) :
    Edits s₀ a { state := s } { state := shutdown order s k } :=
  shutdown_edits (w := { state := s }) ok rfl rfl order k

theorem exchangeDeclare_edits (touches : a.touches = true) (order : Order) (k : Nat)
    (ex : Exchange) :
    Edits s₀ a { state := s } { state := exchangeDeclare order s k ex } := by
  unfold exchangeDeclare
  split
  · split
    · exact .refl
    · exact refuse_edits ok order k
  · split
    · exact refuse_edits ok order k
    · exact .one (.exchanges touches _)

theorem queueBind_edits (touches : a.touches = true) (order : Order) (k : Nat)
    (name key exchange : Bytes) : Edits s₀ a { state := s }
      { state := queueBind order s k name key exchange } := by
  unfold queueBind
  split
  · exact refuse_edits ok order k
  · exact .one (.exchanges touches _)

theorem queueDeclare_edits (touches : a.touches = true) (order : Order) (k conn : Nat)
    (name : Bytes) (durable autoDelete exclusive : Bool) (args : List (Bytes × Arg)) :
    Edits s₀ a { state := s }
      { state := queueDeclare order s k conn name durable autoDelete exclusive args } := by
  have counted : Edits s₀ a { state := s }
      { state := if name = [] then { s with nameSeq := s.nameSeq + 1 } else s } := by
    split
    · exact .one (.count touches)
    · exact .refl
  have ok' := counted.ok ok
  simp only [queueDeclare]
  generalize (if name = [] then { s with nameSeq := s.nameSeq + 1 } else s) = s' at counted ok' ⊢
  refine counted.trans ?_
  split
  · split
    · exact refuse_edits ok' order k
    · split
      · exact .refl
      · exact refuse_edits ok' order k
  · split
    · exact .one (.declare (w := { state := s' }) touches rfl rfl rfl)
    · exact refuse_edits ok' order k

theorem publish_edits (order : Order) (k : Nat) (exchange key : Bytes) (pub : Publishing)
    (action : ConfirmAction) : Edits s₀ a { state := s }
      { state := publish order s k exchange key pub action } := by
  unfold publish
  split
  · exact refuse_edits ok order k
  · cases action with
    | nack | drop => exact .refl
    | ack | hold => exact (route_shifts (w := { state := s }) exchange key pub rfl ok).edits

theorem consume_edits (order : Order) (at_k : s.channels[k]? = some chan)
    (opened : chan.closed = false) (name tag : Bytes) (autoAck exclusive : Bool) :
    Edits s₀ a { state := s }
      { state := consume order s k chan name tag autoAck exclusive } := by
  unfold consume
  split
  · exact refuse_edits ok order k
  · next q _ =>
    split
    · exact .refl
    · next queue at_q =>
      split
      · exact refuse_edits ok order k
      · split
        · exact refuse_edits ok order k
        · obtain ⟨n, eq⟩ : ∃ n, (if tag = [] then { chan with ctagSeq := chan.ctagSeq + 1 }
              else chan) = { chan with ctagSeq := n } := by
            split
            · exact ⟨_, rfl⟩
            · exact ⟨chan.ctagSeq, rfl⟩
          have counted : Edit s₀ a { state := s } _ :=
            .tune (w := { state := s }) at_k chan.prefetch n
          simp only [eq]
          generalize (if tag = [] then generatedTag chan.id n else tag) = tag'
          refine (Edits.one counted).trans ?_
          split
          · exact refuse_edits (counted.ok ok) order k
          · next fresh =>
            have at_k' : (s.channels.set k { chan with ctagSeq := n })[k]? = some _ :=
              getElem?_set_self_of_some at_k
            have opened' : { chan with ctagSeq := n }.closed = false := opened
            have started : Edit s₀ a { state := { s with
                channels := s.channels.set k { chan with ctagSeq := n } } } _ :=
              .attach at_k' opened' at_q (Option.not_isSome_iff_eq_none.mp fresh) autoAck exclusive
            exact (Edits.one started).trans (Shifts.edits (serve_shifts rfl rfl))

omit ok in
theorem onChannel_edits {f : Channel → State}
    (does : ∀ chan, s.channels[k]? = some chan → chan.closed = false →
      Edits s₀ a { state := s } { state := f chan }) :
    Edits s₀ a { state := s } { state := onChannel s k f } := by
  unfold onChannel
  split
  · exact .refl
  · next chan at_k =>
    split
    · exact .refl
    · next opened => exact does chan at_k (by simpa using opened)

/-- Every operation is a row of edits. -/
theorem perform_edits (order : Order) (a : Act) :
    Edits s a { state := s } { state := perform order s a } := by
  cases a with
  | dial => exact .one (.conns _)
  | channel c =>
    rw [perform]
    split
    · exact .refl
    · split
      · exact .refl
      · next conn _ _ =>
        have named : Edit s (.channel c) { state := s } _ :=
          .conns (s.conns.set c { conn with nextID := conn.nextID + 1 })
        exact (Edits.one named).trans (.one (.channel c (conn.nextID + 1)))
  | qos k prefetch =>
    exact onChannel_edits fun chan at_k _ =>
      .one (.tune (w := { state := s }) at_k prefetch chan.ctagSeq)
  | exchangeDeclare k name kind durable autoDelete intern =>
    exact onChannel_edits fun _ _ _ => exchangeDeclare_edits ok rfl order k _
  | queueDeclare k name durable autoDelete exclusive args =>
    exact onChannel_edits fun chan _ _ =>
      queueDeclare_edits ok rfl order k chan.conn name durable autoDelete exclusive args
  | queueBind k name key exchange =>
    exact onChannel_edits fun _ _ _ => queueBind_edits ok rfl order k name key exchange
  | consume k queue tag autoAck exclusive =>
    exact onChannel_edits fun _ at_k opened =>
      consume_edits ok order at_k opened queue tag autoAck exclusive
  | cancel k tag =>
    refine onChannel_edits fun chan at_k _ => ?_
    cases found : chan.consumers.lookup tag with
    | none => exact .refl
    | some c =>
      exact removeConsumer_edits (w := { state := s })
        (ok.wired.own_of_listed (State.wiring_channel at_k) (mem_of_lookup found))
  | publish k exchange key pub action =>
    exact onChannel_edits fun _ _ _ => publish_edits ok order k exchange key pub action
  | inject exchange key pub =>
    rw [perform]
    split
    · exact .refl
    · exact (route_shifts (w := { state := s }) exchange key pub rfl ok).edits
  | settle k kind tag multiple again => exact settle_edits ok order k kind tag multiple again
  | expire q id => exact (expire_shifts ok q id).edits
  | deleteQueue name =>
    rw [perform]
    cases named : s.names.lookup name with
    | none => exact .refl
    | some q =>
      obtain ⟨queue, found, -⟩ := ok.live (name, q) (mem_of_lookup named)
      exact .one (.delete (w := { state := s }) found (.inr (.inr ⟨name, rfl⟩)))
  | close k => exact refuse_edits ok order k
  | closeConn c =>
    exact shutdownConn_edits (w := { state := s }) ok rfl rfl order c
  | killConnections =>
    rw [perform]
    generalize order.pick .conns (List.range s.conns.length) = cs
    have all : ∀ (cs : List Nat) (s' : State), s'.Ok none none [] →
        Edits s .killConnections { state := s' }
          { state := cs.foldl (shutdownConn order) s' } := by
      intro cs
      induction cs with
      | nil => exact fun _ _ => .refl
      | cons c cs ih =>
        intro s' ok'
        have first : Edits s .killConnections { state := s' } _ :=
          shutdownConn_edits (w := { state := s' }) ok' rfl rfl order c
        exact first.trans (ih _ (first.ok ok'))
    exact all cs s ok

end Operations

/-! ## Reachable states -/

theorem State.Ok.init : State.Ok none none [] {} := by
  refine ⟨⟨Rows.nil, Rows.nil, Rows.nil, by simp [State.wiring]⟩, ?_, by simp [State.Live]⟩
  exact ⟨Rows.nil, Rows.nil, Rows.nil, fun i => by
    simp [State.books, Books.held, Ledger.total, State.nextMsg], by simp [State.books]⟩

theorem ok_of_reachable (reach : broker.Reachable s) : s.Ok none none [] := by
  apply reach.invariant
  · rintro s rfl
    exact State.Ok.init
  · rintro s a t - ok step
    cases step
    exact (perform_edits ok a.1 a.2).ok ok

/-- What every edit keeps holds in every reachable state. -/
theorem holds_of_edits {P : Work → Prop} (start : P { state := {} })
    (keep : ∀ s₀ a w w', broker.Reachable s₀ → Edit s₀ a w w' → w.Ok → P w → P w')
    (reach : broker.Reachable s) : P { state := s } := by
  apply reach.invariant (fun s => P { state := s })
  · rintro s rfl
    exact start
  · rintro s a t reach holds step
    cases step
    have ok := ok_of_reachable reach
    exact (perform_edits ok a.1 a.2).keeps ok (fun w w' => keep s a.2 w w' reach) holds

end Protobus.Fakebroker
