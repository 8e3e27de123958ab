import Mathlib.Logic.Relation
import Protobus.Fakebroker.Books
import Protobus.Fakebroker.Wiring

/-!
# Messages move

However many loops an operation of the broker runs through, it is a row of small edits, and what is
claimed of every state only has to be checked against these. Here are the edits that move messages:
one is handed to a consumer, accepted at the end of a queue, taken into the hand from a channel or
from a queue, given back to the front of its queue, or comes to its end. All else stays as it is
(`frame`), and so does a closed channel, since no consumer of a queue is on one: what a closing
channel still holds stays there while it is given back.
-/
namespace Protobus.Fakebroker
open Library Table

variable {s t : State} {leaving dying : Option Nat} {hand : List Nat} {k q c : Nat}
  {queue : Queue} {chan : Channel} {cons : Consumer} {m : Message} {e : Inflight}

/-! ## A state in order -/

namespace State

theorem wiring_queue (found : s.queues[q]? = some queue) :
    s.wiring.queues[q]? = some queue.consumers := by
  simp [wiring, found]

theorem wiring_channel (found : s.channels[k]? = some chan) :
    s.wiring.channels[k]? = some chan.listing := by
  simp [wiring, found]

theorem books_queue (found : s.queues[q]? = some queue) :
    s.books.queues[q]? = some queue.ids := by
  simp [books, found]

theorem books_channel (found : s.channels[k]? = some chan) :
    s.books.channels[k]? = some chan.account := by
  simp [books, found]

theorem books_consumer (found : s.consumers[c]? = some cons) :
    s.books.consumers[c]? = some cons.credit := by
  simp [books, found]

theorem channel_of_books (same : t.books.channels = s.books.channels)
    (at_k : s.channels[k]? = some chan) :
    ∃ chan', t.channels[k]? = some chan' ∧ chan'.account = chan.account := by
  have found := books_channel at_k
  rw [← same] at found
  simpa [books, Option.map_eq_some_iff] using found

/-- Under each name is a queue of that name, which is not deleted. -/
def Live (s : State) : Prop :=
  ∀ p ∈ s.names, ∃ queue, s.queues[p.2]? = some queue ∧ queue.name = p.1 ∧ queue.deleted = false

structure Ok (leaving dying : Option Nat) (hand : List Nat) (s : State) : Prop where
  wired : s.wiring.Ok leaving
  booked : s.books.Ok dying hand
  live : s.Live

theorem Ok.attached (ok : s.Ok leaving dying hand) (found : s.queues[q]? = some queue)
    (mem : c ∈ queue.consumers) :
    ∃ cons chan, s.consumers[c]? = some cons ∧ cons.q = q ∧ s.channels[cons.ch]? = some chan ∧
      (cons.tag, c) ∈ chan.consumers ∧ (chan.closed = true → leaving = some cons.ch) := by
  obtain ⟨me, listing, at_c, at_q, at_ch, rest⟩ :=
    ok.wired.attached q queue.consumers (wiring_queue found) c mem
  simp only [wiring, List.getElem?_map, Option.map_eq_some_iff] at at_c at_ch
  obtain ⟨cons, at_c, rfl⟩ := at_c
  obtain ⟨chan, at_ch, rfl⟩ := at_ch
  exact ⟨cons, chan, at_c, at_q, at_ch, rest⟩

/-- An entry's consumer is one of the channel. -/
theorem Ok.named (ok : s.Ok leaving dying hand) (at_k : s.channels[k]? = some chan)
    (mem : e ∈ chan.unacked) : ∃ cons, s.consumers[e.cons]? = some cons := by
  obtain ⟨credit, at_c, -⟩ := (ok.booked.accounts k _ (books_channel at_k)).named e mem
  simp only [books, List.getElem?_map, Option.map_eq_some_iff] at at_c
  obtain ⟨cons, at_c, -⟩ := at_c
  exact ⟨cons, at_c⟩

theorem Ok.queue_of_entry (ok : s.Ok leaving dying hand) (at_k : s.channels[k]? = some chan)
    (mem : e ∈ chan.unacked) : ∃ queue, s.queues[e.q]? = some queue := by
  have lt := (ok.booked.accounts k _ (books_channel at_k)).queue e mem
  exact ⟨_, List.getElem?_eq_getElem (by simpa [books] using lt)⟩

/-- A tag finds its entry. -/
theorem Ok.entry_of_mem (ok : s.Ok leaving dying hand) (at_k : s.channels[k]? = some chan)
    (mem : e ∈ chan.unacked) : s.entryAt k e.tag = some e := by
  have sorted := (ok.booked.accounts k _ (books_channel at_k)).sorted
  simp only [entryAt, at_k, Option.bind_some]
  cases found : chan.unacked.find? fun e' => e'.tag = e.tag with
  | none => simpa using List.find?_eq_none.mp found e mem
  | some e' =>
    have same : e'.tag = e.tag := by simpa using List.find?_some found
    have nodup : (chan.unacked.map Inflight.tag).Nodup := sorted.imp Nat.ne_of_lt
    rw [List.inj_on_of_nodup_map nodup (List.mem_of_find?_eq_some found) mem same]

/-- A channel with an entry is open. -/
theorem Ok.opened (ok : s.Ok leaving none hand) (at_k : s.channels[k]? = some chan)
    (mem : e ∈ chan.unacked) : chan.closed = false := by
  cases closed : chan.closed with
  | false => rfl
  | true =>
    have nothing : chan.unacked = [] := ok.booked.emptied k _ (books_channel at_k) closed (by simp)
    simp [nothing] at mem

/-- A delivery that is not acknowledged yet. -/
def Entry (s : State) (e : Inflight) : Prop :=
  ∃ (k : Nat) (chan : Channel), s.channels[k]? = some chan ∧ e ∈ chan.unacked

/-- A channel keeps its entries, or loses some. -/
theorem Entry.of_set {chan' : Channel} (entry : t.Entry e)
    (channels : t.channels = s.channels.set k chan') (at_k : s.channels[k]? = some chan)
    (fewer : ∀ e ∈ chan'.unacked, e ∈ chan.unacked) : s.Entry e := by
  obtain ⟨j, row, at_j, mem⟩ := entry
  rw [channels] at at_j
  obtain ⟨rfl, rfl⟩ | ⟨-, at_j⟩ := getElem?_set_cases at_j
  · exact ⟨k, chan, at_k, fewer e mem⟩
  · exact ⟨j, row, at_j, mem⟩

theorem Entry.of_books (entry : t.Entry e) (same : t.books.channels = s.books.channels) :
    s.Entry e := by
  obtain ⟨k, chan, at_k, mem⟩ := entry
  obtain ⟨chan', at_k', account⟩ := channel_of_books same.symm at_k
  have entries : chan'.unacked = chan.unacked := congrArg Account.unacked account
  exact ⟨k, chan', at_k', entries ▸ mem⟩

theorem entry_cases {tag : Nat} (found : s.entryAt k tag = some e) :
    ∃ chan, s.channels[k]? = some chan ∧ e ∈ chan.unacked ∧ e.tag = tag := by
  obtain ⟨chan, at_k, found⟩ := Option.bind_eq_some_iff.mp found
  exact ⟨chan, at_k, List.mem_of_find?_eq_some found, by simpa using List.find?_some found⟩

end State

/-! ## What stays when messages move -/

def Queue.frame (queue : Queue) : Queue := { queue with msgs := [], rr := 0 }

def Channel.frame (chan : Channel) : Channel := { chan with nextTag := 0, unacked := [] }

def Consumer.frame (cons : Consumer) : Consumer := { cons with unacked := 0 }

theorem Queue.of_frame {queue' : Queue} (same : queue'.frame = queue.frame) :
    queue'.name = queue.name ∧ queue'.deleted = queue.deleted ∧ queue'.dlx = queue.dlx ∧
      queue'.dlxKey = queue.dlxKey := by
  simp only [Queue.frame, Queue.mk.injEq] at same
  simp [same]

namespace State

/-- A state without its messages. -/
def frame (s : State) : State :=
  { s with
    queues := s.queues.map Queue.frame
    channels := s.channels.map Channel.frame
    consumers := s.consumers.map Consumer.frame
    log := []
    fates := [] }

theorem frame_wiring (s : State) : s.frame.wiring = s.wiring := by
  simp [frame, wiring, Function.comp_def, Queue.frame, Channel.frame, Consumer.frame,
    Channel.listing, Consumer.identity]

theorem wiring_of_frame (same : t.frame = s.frame) : t.wiring = s.wiring := by
  rw [← frame_wiring, same, frame_wiring]

theorem queue_of_frame (same : t.frame = s.frame) (found : s.queues[q]? = some queue) :
    ∃ queue', t.queues[q]? = some queue' ∧ queue'.frame = queue.frame := by
  have rows : (t.frame.queues)[q]? = (s.frame.queues)[q]? := by rw [same]
  simpa [frame, found] using rows

theorem Live.of_frame (live : s.Live) (same : t.frame = s.frame) : t.Live := by
  have names : t.frame.names = s.frame.names := by rw [same]
  intro p mem
  obtain ⟨queue, found, name, there⟩ := live p (show p ∈ s.frame.names from names ▸ mem)
  obtain ⟨queue', found', row⟩ := queue_of_frame same found
  obtain ⟨names, deleted, -⟩ := Queue.of_frame row
  exact ⟨queue', found', names.trans name, deleted.trans there⟩

theorem frame_setQueue {queue' : Queue} (found : s.queues[q]? = some queue)
    (same : queue'.frame = queue.frame) :
    State.frame { s with queues := s.queues.set q queue' } = s.frame := by
  simp only [frame]
  congr 1
  exact map_set_of_eq found same

/-- Queues are found under their names. -/
theorem Live.of_targets (live : s.Live) {exchange key : Bytes} (mem : q ∈ targets s exchange key) :
    ∃ queue, s.queues[q]? = some queue ∧ queue.deleted = false := by
  have named : ∀ name, s.names.lookup name = some q →
      ∃ queue, s.queues[q]? = some queue ∧ queue.deleted = false := by
    intro name found
    obtain ⟨queue, at_q, -, there⟩ := live (name, q) (mem_of_lookup found)
    exact ⟨queue, at_q, there⟩
  unfold targets at mem
  split at mem
  · exact named key (by simpa using mem)
  · split at mem
    · simp at mem
    · obtain ⟨bd, -, found⟩ := List.mem_filterMap.mp (List.mem_eraseDups.mp mem)
      exact named bd.queue found

end State

theorem deliver_frame (s : State) (c q : Nat) (m : Message) :
    (deliver s c q m).frame = s.frame := by
  unfold deliver
  split
  · rfl
  · next cons at_c =>
    split
    · rfl
    · next chan at_ch =>
      have channels : ∀ chan' : Channel, chan'.frame = chan.frame →
          (s.channels.set cons.ch chan').map Channel.frame = s.channels.map Channel.frame :=
        fun _ => map_set_of_eq at_ch
      split
      · simp only [State.frame]
        congr 1
        exact channels _ rfl
      · simp only [State.frame]
        congr 1
        · exact channels _ rfl
        · exact map_set_of_eq at_c rfl

theorem deliver_entry (entry : (deliver s c q m).Entry e) :
    s.Entry e ∨ e.cons = c ∧ e.q = q ∧ e.msg = m := by
  revert entry
  unfold deliver
  split
  · exact .inl
  · next cons at_c =>
    split
    · exact .inl
    · next chan at_ch =>
      split
      · exact fun entry => .inl (entry.of_set rfl at_ch fun _ => id)
      · rintro ⟨k, chan', found, mem⟩
        grind [State.Entry]

/-! ## Dead letters -/

/-- The queues a dead letter is routed to. -/
def deadTargets (s : State) (q : Nat) (m : Message) : List Nat :=
  match s.queues[q]? with
  | none => []
  | some queue => match queue.dlx with
    | none => []
    | some dlx =>
      if (s.exchange? dlx).isNone then [] else targets s dlx (queue.dlxKey.getD m.key)

/-- The dead letter of a message of the queue, as the instance of a number. -/
def Queue.letter (queue : Queue) (m : Message) (reason : Bytes) (i : Nat) : Message where
  id := i
  pub := { m.pub with xDeath := ⟨reason, queue.name, m.exchange, m.key⟩ :: m.pub.xDeath }
  exchange := queue.dlx.getD []
  key := queue.dlxKey.getD m.key
  redelivered := false

/-- The copies of a message that was dead-lettered: new instances, one for each queue its letter is
routed to. -/
def Buried (s t : State) (q : Nat) (m : Message) (reason : Bytes) (copies : List Nat) : Prop :=
  ∃ first, s.nextMsg ≤ first ∧ copies = List.range' first (deadTargets s q m).length ∧
    ∀ n target, (deadTargets s q m)[n]? = some target → ∃ queue, s.queues[q]? = some queue ∧
      t.log[first + n]? = some (target, queue.letter m reason (first + n))

theorem deadTargets_of_frame (same : t.frame = s.frame) (q : Nat) (m : Message) :
    deadTargets t q m = deadTargets s q m := by
  have framed : ∀ u : State, deadTargets u.frame q m = deadTargets u q m := by
    intro u
    cases found : u.queues[q]? with
    | none => simp [deadTargets, State.frame, found]
    | some queue =>
      simp only [deadTargets, State.frame, List.getElem?_map, found, Option.map_some]
      rfl
  rw [← framed, same, framed]

theorem deliver_log (s : State) (c q : Nat) (m : Message) : (deliver s c q m).log = s.log := by
  unfold deliver
  split
  · rfl
  · split
    · rfl
    · split <;> rfl

/-- One round of `dispatch` takes the next message for the next consumer. -/
theorem dispatchWith_succ (fuel : Nat) (s : State) (q : Nat) : dispatchWith (fuel + 1) s q = s ∨
    ∃ queue c rr m, s.queues[q]? = some queue ∧ queue.target s.consumers = some (c, rr) ∧
      queue.msgs[queue.next]? = some m ∧
      dispatchWith (fuel + 1) s q = dispatchWith fuel (deliver { s with
        queues := s.queues.set q { queue with rr, msgs := queue.msgs.eraseIdx queue.next } }
          c q m) q := by
  rw [dispatchWith]
  split
  · exact .inl rfl
  · next queue found =>
    split
    · exact .inl rfl
    · next c rr target =>
      split
      · exact .inl rfl
      · next m at_next => exact .inr ⟨queue, c, rr, m, found, target, at_next, rfl⟩

theorem dispatchWith_log (fuel : Nat) (s : State) (q : Nat) :
    (dispatchWith fuel s q).log = s.log := by
  induction fuel generalizing s with
  | zero => rfl
  | succ fuel ih =>
    obtain eq | ⟨queue, c, rr, m, -, -, -, eq⟩ := dispatchWith_succ fuel s q
    · rw [eq]
    · rw [eq, ih, deliver_log]

theorem enqueue_log (s : State) (q : Nat) (m : Message) (front : Bool) :
    (enqueue s q m front).log = s.log := by
  unfold enqueue
  split
  · rfl
  · split
    · rfl
    · rw [dispatch]
      split
      · rfl
      · rw [dispatchWith_log]

theorem route_log (s : State) (exchange key : Bytes) (pub : Publishing) :
    (route s exchange key pub).log = s.log ++ (targets s exchange key).mapIdx fun n q =>
      (q, ⟨s.nextMsg + n, pub, exchange, key, false⟩) := by
  have all : ∀ (qs : List Nat) (s : State), (qs.foldl (routeTo exchange key pub) s).log =
      s.log ++ qs.mapIdx fun n q => (q, ⟨s.nextMsg + n, pub, exchange, key, false⟩) := by
    intro qs
    induction qs with
    | nil => simp
    | cons q qs ih =>
      intro s
      have next : (routeTo exchange key pub s q).log =
          s.log ++ [(q, ⟨s.nextMsg, pub, exchange, key, false⟩)] := enqueue_log _ _ _ _
      have count : (routeTo exchange key pub s q).nextMsg = s.nextMsg + 1 := by
        simp [State.nextMsg, next]
      rw [List.foldl_cons, ih, next, count, List.mapIdx_cons, List.append_assoc]
      simp only [List.singleton_append, Nat.add_zero, Nat.add_right_comm, Nat.add_assoc]
  exact all _ s

theorem route_nextMsg (s : State) (exchange key : Bytes) (pub : Publishing) :
    (route s exchange key pub).nextMsg = s.nextMsg + (targets s exchange key).length := by
  simp [State.nextMsg, route_log]

/-- One new instance for each of them. -/
theorem deadLetter_copies (s : State) (q : Nat) (m : Message) (reason : Bytes) :
    (deadLetter s q m reason).2 = List.range' s.nextMsg (deadTargets s q m).length := by
  cases found : s.queues[q]? with
  | none => simp [deadLetter, deadTargets, found]
  | some queue =>
    cases dlx : queue.dlx with
    | none => simp [deadLetter, deadTargets, found, dlx]
    | some name =>
      by_cases missing : (s.exchange? name).isNone = true
      · simp [deadLetter, deadTargets, found, dlx, missing]
      · simp [deadLetter, deadTargets, found, dlx, missing, route_nextMsg]

theorem deadLetter_log {n target : Nat} (reason : Bytes)
    (routed : (deadTargets s q m)[n]? = some target) : ∃ queue, s.queues[q]? = some queue ∧
      (deadLetter s q m reason).1.log[s.nextMsg + n]? =
        some (target, queue.letter m reason (s.nextMsg + n)) := by
  cases found : s.queues[q]? with
  | none => simp [deadTargets, found] at routed
  | some queue =>
    refine ⟨queue, rfl, ?_⟩
    cases dlx : queue.dlx with
    | none => simp [deadTargets, found, dlx] at routed
    | some name =>
      by_cases missing : (s.exchange? name).isNone = true
      · simp [deadTargets, found, dlx, missing] at routed
      · simp only [deadTargets, found, dlx, missing, Bool.false_eq_true, if_false] at routed
        simp only [deadLetter, found, dlx, missing, Bool.false_eq_true, if_false, route_log]
        rw [List.getElem?_append_right (by simp [State.nextMsg])]
        simp [State.nextMsg, routed, Queue.letter, dlx]

/-- What is dead-lettered in the course of an operation is dead-lettered by it. -/
theorem deadLetter_buried {s₀ : State} (same : s.frame = s₀.frame) (later : s₀.nextMsg ≤ s.nextMsg)
    (q : Nat) (m : Message) (reason : Bytes) :
    Buried s₀ (deadLetter s q m reason).1 q m reason (deadLetter s q m reason).2 := by
  refine ⟨s.nextMsg, later, ?_, ?_⟩
  · rw [deadLetter_copies, deadTargets_of_frame same]
  · intro n target routed
    rw [← deadTargets_of_frame same] at routed
    obtain ⟨queue, found, logged⟩ := deadLetter_log reason routed
    obtain ⟨queue', found', row⟩ := State.queue_of_frame same.symm found
    refine ⟨queue', found', logged.trans ?_⟩
    obtain ⟨name, -, dlx, dlxKey⟩ := Queue.of_frame row
    simp only [Queue.letter, name, dlx, dlxKey]

theorem Buried.copies_lt {reason : Bytes} {copies : List Nat}
    (buried : Buried s t q m reason copies) : ∀ i ∈ copies, i < t.nextMsg := by
  obtain ⟨first, -, rfl, routed⟩ := buried
  intro i mem
  obtain ⟨le, lt⟩ := List.mem_range'_1.mp mem
  obtain ⟨queue, -, logged⟩ := routed (i - first) _ (List.getElem?_eq_getElem (by omega))
  have bound := (List.getElem?_eq_some_iff.mp logged).1
  simp only [State.nextMsg]
  omega

/-! ## Edits that move messages -/

/-- An unacknowledged delivery that an acknowledgement of a tag is about. -/
def State.Covers (s : State) (k tag : Nat) (multiple : Bool) (e : Inflight) : Prop :=
  ∃ chan, s.channels[k]? = some chan ∧ chan.closed = false ∧ e ∈ chan.unacked ∧
    if multiple then e.tag ≤ tag else e.tag = tag

/-- How an operation that leads from `s` to `t` brings an instance to its end. -/
def Ends (s : State) (a : Act) (t : State) (i : Nat) : Fate → Prop
  | .acked => ∃ k tag multiple again e, a = .settle k .ack tag multiple again ∧
      s.Covers k tag multiple e ∧ e.msg.id = i
  | .autoAcked => ∃ (m : Message) (c : Nat) (cons : Consumer), t.log[i]? = some (cons.q, m) ∧
      t.consumers[c]? = some cons ∧ cons.autoAck = true
  | .rejected copies => ∃ k kind tag multiple e, a = .settle k kind tag multiple false ∧
      kind ≠ .ack ∧ s.Covers k tag multiple e ∧ e.msg.id = i ∧
      Buried s t e.q e.msg (lit "rejected") copies
  | .expired copies => ∃ q queue m, a = .expire q i ∧ s.queues[q]? = some queue ∧
      0 < queue.ttl ∧ m ∈ queue.msgs ∧ m.id = i ∧ Buried s t q m (lit "expired") copies
  | .gone => ∃ q m queue, t.log[i]? = some (q, m) ∧ t.queues[q]? = some queue ∧
      queue.deleted = true

/-- A state in the course of an operation. -/
structure Work where
  state : State
  /-- Messages that are nowhere else, with the queue if they go back to it. -/
  hand : List (Option Nat × Message) := []
  /-- A closed channel whose consumers are still attached. -/
  leaving : Option Nat := none
  /-- A closed channel whose entries are in the hand and still in its map. -/
  dying : Option Nat := none
  /-- The queues that are yet to be dispatched. -/
  late : List Nat := []

def Work.ids (w : Work) : List Nat := w.hand.map fun p => p.2.id

def Work.Ok (w : Work) : Prop := w.state.Ok w.leaving w.dying w.ids

/-- `dispatch` finds nothing to do. -/
def State.Rested (s : State) (q : Nat) : Prop :=
  ∀ queue, s.queues[q]? = some queue → queue.msgs = [] ∨ queue.target s.consumers = none

/-- An entry leaves its channel, and its consumer has room again. -/
def State.lift (s : State) (k : Nat) (e : Inflight) : State :=
  { s with
    channels := s.channels.modify k fun chan =>
      { chan with unacked := chan.unacked.filter fun e' => e'.tag ≠ e.tag }
    consumers := s.consumers.modify e.cons fun cons => { cons with unacked := cons.unacked - 1 } }

/-- The edits of an operation `a` that began at `s₀`. -/
inductive Shift (s₀ : State) (a : Act) : Work → Work → Prop
  | relax {w : Work} (late : List Nat) (sub : ∀ q ∈ w.late, q ∈ late ∨ w.state.Rested q) :
      Shift s₀ a w { w with late }
  | take {w : Work} {q c rr : Nat} {queue : Queue} {m : Message} (whole : w.leaving = none)
      (found : w.state.queues[q]? = some queue)
      (target : queue.target w.state.consumers = some (c, rr))
      (at_next : queue.msgs[queue.next]? = some m) :
      Shift s₀ a w { w with
        state := deliver { w.state with
          queues := w.state.queues.set q { queue with rr, msgs := queue.msgs.eraseIdx queue.next } }
          c q m }
  | accept {w : Work} {q : Nat} {queue : Queue} {m : Message}
      (found : w.state.queues[q]? = some queue) (live : queue.deleted = false)
      (id : m.id = w.state.nextMsg) (fresh : m.redelivered = false) (near : q ∈ w.late) :
      Shift s₀ a w { w with
        state := { w.state with
          log := w.state.log ++ [(q, m)]
          queues := w.state.queues.set q { queue with msgs := queue.msgs ++ [m] } } }
  | lift {w : Work} {k tag : Nat} {kind : Settlement} {multiple again : Bool} {chan : Channel}
      {e : Inflight} (dest : Option Nat) (act : a = .settle k kind tag multiple again)
      (covers : s₀.Covers k tag multiple e) (at_k : w.state.channels[k]? = some chan)
      (mem : e ∈ chan.unacked) (opened : chan.closed = false) (near : e.q ∈ w.late)
      (home : ∀ q ∈ dest, q = e.q) :
      Shift s₀ a w { w with state := w.state.lift k e, hand := (dest, e.msg) :: w.hand }
  | expire {w : Work} {q i : Nat} {queue : Queue} {m : Message} (act : a = .expire q m.id)
      (found : w.state.queues[q]? = some queue) (at_i : queue.msgs[i]? = some m) :
      Shift s₀ a w { w with
        state := { w.state with
          queues := w.state.queues.set q { queue with msgs := queue.msgs.eraseIdx i } }
        hand := (none, m) :: w.hand }
  | back {w : Work} {q : Nat} {queue : Queue} {m : Message} {hand : List (Option Nat × Message)}
      (held : w.hand = (some q, m) :: hand) (found : w.state.queues[q]? = some queue)
      (live : queue.deleted = false) (near : q ∈ w.late) :
      Shift s₀ a w { w with
        state := { w.state with
          queues := w.state.queues.set q { queue with
            msgs := { m with redelivered := true } :: queue.msgs } }
        hand }
  | lose {w : Work} {q : Nat} {queue : Queue} {m : Message} {hand : List (Option Nat × Message)}
      (held : w.hand = (some q, m) :: hand) (found : w.state.queues[q]? = some queue)
      (gone : queue.deleted = true) :
      Shift s₀ a w { w with
        state := { w.state with fates := w.state.fates ++ [(m.id, .gone)] }
        hand }
  | finish {w : Work} {m : Message} {hand : List (Option Nat × Message)} {fate : Fate}
      (held : w.hand = (none, m) :: hand) (ends : Ends s₀ a w.state m.id fate) :
      Shift s₀ a w { w with
        state := { w.state with fates := w.state.fates ++ [(m.id, fate)] }
        hand }

def Shifts (s₀ : State) (a : Act) : Work → Work → Prop := Relation.ReflTransGen (Shift s₀ a)

variable {s₀ : State} {a : Act} {w w' : Work}

theorem Shift.frame (shift : Shift s₀ a w w') : w'.state.frame = w.state.frame := by
  cases shift with
  | relax | lose | finish => rfl
  | take _ found => exact (deliver_frame _ _ _ _).trans (State.frame_setQueue found rfl)
  | accept found => exact State.frame_setQueue found rfl
  | expire _ found => exact State.frame_setQueue found rfl
  | back _ found => exact State.frame_setQueue found rfl
  | lift =>
    simp only [State.frame, State.lift]
    congr 1
    · exact map_modify_of_eq fun _ => rfl
    · exact map_modify_of_eq fun _ => rfl

theorem Shift.leaving_eq (shift : Shift s₀ a w w') : w'.leaving = w.leaving := by
  cases shift <;> rfl

/-! ## The books -/

theorem target_spec {consumers : List Consumer} {rr : Nat}
    (found : queue.target consumers = some (c, rr)) :
    c ∈ queue.consumers ∧ (consumers[c]?).any Consumer.hasCapacity = true := by
  obtain ⟨i, -, found⟩ := List.exists_of_findSome?_eq_some found
  obtain ⟨d, at_d, found⟩ := Option.bind_eq_some_iff.mp found
  split at found
  · next room =>
    cases found
    exact ⟨List.mem_of_getElem? at_d, room⟩
  · cases found

/-- A delivery goes to a consumer of the queue, whose channel is open. -/
theorem State.Ok.target {rr : Nat} (ok : s.Ok none dying hand) (found : s.queues[q]? = some queue)
    (target : queue.target s.consumers = some (c, rr)) :
    ∃ cons chan, s.consumers[c]? = some cons ∧ cons.q = q ∧ cons.hasCapacity = true ∧
      s.channels[cons.ch]? = some chan ∧ chan.closed = false := by
  obtain ⟨mem, room⟩ := target_spec target
  obtain ⟨cons, chan, at_c, at_q, at_ch, -, shut⟩ := ok.attached found mem
  refine ⟨cons, chan, at_c, at_q, by simpa [at_c] using room, at_ch, ?_⟩
  cases closed : chan.closed with
  | false => rfl
  | true => cases shut closed

theorem ids_eraseIdx {i : Nat} (found : queue.msgs[i]? = some m) (hand : List Nat) :
    (queue.ids ++ hand).Perm ((queue.msgs.eraseIdx i).map Message.id ++ m.id :: hand) := by
  have taken : (m.id :: (queue.msgs.eraseIdx i).map Message.id).Perm queue.ids :=
    (cons_eraseIdx_perm found).map Message.id
  exact (taken.symm.append_right hand).trans List.perm_middle.symm

/-- A queue's messages change, and the hand makes up for it. -/
theorem books_setQueue {queue' : Queue} {hand' : List Nat} (booked : s.books.Ok dying hand)
    (found : s.queues[q]? = some queue)
    (moved : (queue.ids ++ hand).Perm (queue'.ids ++ hand')) :
    Books.Ok dying hand' { s with queues := s.queues.set q queue' }.books := by
  have set := booked.setQueue (State.books_queue found) moved
  simp only [State.books, List.map_set]
  exact set

theorem deliver_books (booked : s.books.Ok dying (m.id :: hand))
    (at_c : s.consumers[c]? = some cons) (room : cons.hasCapacity = true)
    (at_ch : s.channels[cons.ch]? = some chan) (opened : chan.closed = false)
    (lt : q < s.queues.length) : (deliver s c q m).books.Ok dying hand := by
  unfold deliver
  simp only [at_c, at_ch]
  split
  · have skipped := booked.setTag (State.books_channel at_ch) (Nat.le_succ chan.nextTag)
    have ended := skipped.finish_one (f := .autoAcked) (by simp [Fate.copies])
    simp only [State.books, List.map_set]
    exact ended
  · next manual =>
    have room : cons.prefetch = 0 ∨ cons.unacked < cons.prefetch := by
      simpa [Consumer.hasCapacity, manual] using room
    have handed := booked.deliver (q := q) (State.books_consumer at_c) (State.books_channel at_ch)
      opened (by simpa [State.books] using lt) room
    simp only [State.books, List.map_set]
    exact handed

theorem lift_books (ok : s.Ok leaving dying hand) (at_k : s.channels[k]? = some chan)
    (opened : chan.closed = false) (mem : e ∈ chan.unacked) :
    (s.lift k e).books.Ok dying (e.msg.id :: hand) := by
  obtain ⟨cons, at_c⟩ := ok.named at_k mem
  have settled := ok.booked.settle (State.books_channel at_k) opened mem
    (State.books_consumer at_c)
  rw [State.lift, modify_eq_set at_k, modify_eq_set at_c]
  simp only [State.books, List.map_set]
  exact settled

theorem Ends.copies_lt {i : Nat} {fate : Fate} (ends : Ends s a t i fate) :
    ∀ j ∈ fate.copies, j < t.nextMsg := by
  cases fate with
  | acked | autoAcked | gone => simp [Fate.copies]
  | rejected copies =>
    obtain ⟨k, kind, tag, multiple, e, -, -, -, -, buried⟩ := ends
    exact buried.copies_lt
  | expired copies =>
    obtain ⟨q, queue, m, -, -, -, -, -, buried⟩ := ends
    exact buried.copies_lt

theorem Shift.booked (shift : Shift s₀ a w w') (ok : w.Ok) :
    w'.state.books.Ok w'.dying w'.ids := by
  cases shift with
  | relax => exact ok.booked
  | take whole found target at_next =>
    rw [Work.Ok, whole] at ok
    obtain ⟨cons, chan, at_c, -, room, at_ch, opened⟩ := ok.target found target
    refine deliver_books (books_setQueue ok.booked found (ids_eraseIdx at_next _)) at_c room at_ch
      opened ?_
    simpa using (List.getElem?_eq_some_iff.mp found).1
  | @accept _ queue m found _ id =>
    have fresh := ok.booked.fresh
    have moved : (queue.ids ++ w.state.books.nextMsg :: w.ids).Perm
        ((queue.ids ++ [m.id]) ++ w.ids) := by simp [id, State.books]
    have put := fresh.setQueue (State.books_queue found) moved
    simpa [State.books, State.nextMsg, Queue.ids, Work.ids] using put
  | lift _ act _ at_k mem opened => exact lift_books ok at_k opened mem
  | expire act found at_i => exact books_setQueue ok.booked found (ids_eraseIdx at_i _)
  | back held found =>
    have booked := ok.booked
    rw [Work.ids, held] at booked
    exact books_setQueue booked found (by simp [Queue.ids, Work.ids])
  | lose held =>
    have booked := ok.booked
    rw [Work.ids, held] at booked
    exact booked.finish_one (by simp [Fate.copies])
  | finish held ends =>
    have booked := ok.booked
    rw [Work.ids, held] at booked
    exact booked.finish_one ends.copies_lt

theorem Shift.ok (shift : Shift s₀ a w w') (ok : w.Ok) : w'.Ok := by
  refine ⟨?_, shift.booked ok, ok.live.of_frame shift.frame⟩
  rw [State.wiring_of_frame shift.frame, shift.leaving_eq]
  exact ok.wired

/-- A closed channel stays as it is. -/
theorem Shift.shut (shift : Shift s₀ a w w') (ok : w.Ok) {k : Nat} {chan : Channel}
    (at_k : w.state.channels[k]? = some chan) (closed : chan.closed = true) :
    w'.state.channels[k]? = some chan := by
  cases shift with
  | relax | accept | expire | back | lose | finish => exact at_k
  | take whole found target =>
    rw [Work.Ok, whole] at ok
    obtain ⟨cons, chan', at_c, -, -, at_ch, opened⟩ := ok.target found target
    have apart : cons.ch ≠ k := by
      rintro rfl
      cases at_ch.symm.trans at_k
      simp [opened] at closed
    unfold deliver
    simp only [at_c, at_ch]
    split <;> exact (getElem?_set_of_ne apart).trans at_k
  | @lift k' _ _ _ _ chan' _ _ _ _ at_k' _ opened =>
    have apart : k' ≠ k := by
      rintro rfl
      cases at_k'.symm.trans at_k
      simp [opened] at closed
    simpa [State.lift, List.getElem?_modify, apart] using at_k

/-- Entries a channel gets have tags above those it had. -/
def State.Grown (k : Nat) (s t : State) : Prop :=
  ∀ chan', t.channels[k]? = some chan' → ∃ chan, s.channels[k]? = some chan ∧
    chan.nextTag ≤ chan'.nextTag ∧ ∀ e ∈ chan'.unacked, e ∈ chan.unacked ∨ chan.nextTag < e.tag

theorem State.Grown.of_eq (same : t.channels = s.channels) : s.Grown k t :=
  fun chan found => ⟨chan, same ▸ found, Nat.le_refl _, fun _ => .inl⟩

theorem State.Grown.trans {u : State} (first : s.Grown k t) (second : t.Grown k u) :
    s.Grown k u := by
  intro chan₂ found₂
  obtain ⟨chan₁, found₁, le₁, old₁⟩ := second chan₂ found₂
  obtain ⟨chan, found, le, old⟩ := first chan₁ found₁
  refine ⟨chan, found, by omega, fun e mem => ?_⟩
  obtain before | later := old₁ e mem
  · exact old e before
  · exact .inr (by omega)

theorem deliver_grown (s : State) (c q : Nat) (m : Message) : s.Grown k (deliver s c q m) := by
  unfold deliver
  split
  · exact .of_eq rfl
  · next cons _ =>
    split
    · exact .of_eq rfl
    · next chan at_ch =>
      split <;>
      · intro chan' found
        by_cases same : cons.ch = k
        · subst same
          grind
        · exact State.Grown.of_eq rfl chan' ((getElem?_set_of_ne same).symm.trans found)

theorem Shift.grown (shift : Shift s₀ a w w') (k : Nat) : w.state.Grown k w'.state := by
  cases shift with
  | relax | accept | expire | back | lose | finish => exact .of_eq rfl
  | take => exact State.Grown.trans (.of_eq rfl) (deliver_grown _ _ _ _)
  | lift =>
    intro chan' found
    obtain ⟨chan, before, rfl⟩ := getElem?_modify_some found
    refine ⟨chan, before, ?_⟩
    grind

theorem Shift.nextMsg_le (shift : Shift s₀ a w w') : w.state.nextMsg ≤ w'.state.nextMsg := by
  cases shift with
  | relax | lift | expire | back | lose | finish => exact Nat.le_refl _
  | take => simp [State.nextMsg, deliver_log]
  | accept => simp [State.nextMsg]

/-! ## Rows of edits -/

namespace Shifts

theorem refl : Shifts s₀ a w w := Relation.ReflTransGen.refl

theorem trans {w'' : Work} (first : Shifts s₀ a w w') (second : Shifts s₀ a w' w'') :
    Shifts s₀ a w w'' := Relation.ReflTransGen.trans first second

theorem one (shift : Shift s₀ a w w') : Shifts s₀ a w w' := Relation.ReflTransGen.single shift

variable (shifts : Shifts s₀ a w w')
include shifts

theorem frame : w'.state.frame = w.state.frame := by
  induction shifts with
  | refl => rfl
  | tail _ shift ih => exact shift.frame.trans ih

theorem ok (ok : w.Ok) : w'.Ok := by
  induction shifts with
  | refl => exact ok
  | tail _ shift ih => exact shift.ok ih

theorem shut (ok : w.Ok) {chan : Channel} (at_k : w.state.channels[k]? = some chan)
    (closed : chan.closed = true) : w'.state.channels[k]? = some chan := by
  induction shifts with
  | refl => exact at_k
  | tail before shift ih => exact shift.shut (Shifts.ok before ok) ih closed

theorem grown (k : Nat) : w.state.Grown k w'.state := by
  induction shifts with
  | refl => exact .of_eq rfl
  | tail _ shift ih => exact ih.trans (shift.grown k)

theorem nextMsg_le : w.state.nextMsg ≤ w'.state.nextMsg := by
  induction shifts with
  | refl => exact Nat.le_refl _
  | tail _ shift ih => exact ih.trans shift.nextMsg_le

end Shifts

/-! ## Delivery -/

theorem dispatchWith_shifts (fuel : Nat) (q : Nat) (whole : w.leaving = none) :
    Shifts s₀ a w { w with state := dispatchWith fuel w.state q } := by
  induction fuel generalizing w with
  | zero => exact .refl
  | succ fuel ih =>
    obtain eq | ⟨queue, c, rr, m, found, target, at_next, eq⟩ :=
      dispatchWith_succ fuel w.state q
    · rw [eq]
      exact .refl
    · rw [eq]
      have taken : Shift s₀ a w _ := .take whole found target at_next
      exact (Shifts.one taken).trans (ih whole)

theorem dispatch_shifts (q : Nat) (whole : w.leaving = none) :
    Shifts s₀ a w { w with state := dispatch w.state q } := by
  unfold dispatch
  split
  · exact .refl
  · exact dispatchWith_shifts _ q whole

theorem deliver_queues (s : State) (c q : Nat) (m : Message) :
    (deliver s c q m).queues = s.queues := by
  unfold deliver
  split
  · rfl
  · split
    · rfl
    · split <;> rfl

theorem next_lt (waiting : queue.msgs ≠ []) : queue.next < queue.msgs.length := by
  have pos := List.length_pos_iff.mpr waiting
  unfold Queue.next
  split
  · exact pos
  · refine List.foldlRecOn (motive := fun best : Nat × Int => best.1 < queue.msgs.length) _ _ pos ?_
    intro best lt p mem
    simp only
    split
    · exact (List.mem_zipIdx' mem).1
    · exact lt

/-- The rounds are enough: it stops when no message waits or no consumer has capacity. -/
theorem dispatchWith_rested {fuel : Nat}
    (enough : ∀ queue, s.queues[q]? = some queue → queue.msgs.length ≤ fuel) :
    (dispatchWith fuel s q).Rested q := by
  induction fuel generalizing s with
  | zero =>
    intro queue found
    exact .inl (List.length_eq_zero_iff.mp (Nat.le_zero.mp (enough queue found)))
  | succ fuel ih =>
    rw [dispatchWith]
    split
    · next missing => simp [State.Rested, missing]
    · next queue found =>
      split
      · next idle =>
        intro queue' found'
        cases found.symm.trans found'
        exact .inr idle
      · next c rr _ =>
        split
        · next missing =>
          intro queue' found'
          cases found.symm.trans found'
          refine .inl (by_contra fun waiting => ?_)
          exact absurd (next_lt waiting) (Nat.not_lt.mpr (List.getElem?_eq_none_iff.mp missing))
        · next m at_next =>
          apply ih
          intro queue' found'
          rw [deliver_queues] at found'
          cases (getElem?_set_self_of_some found).symm.trans found'
          have lt := (List.getElem?_eq_some_iff.mp at_next).1
          have bound := enough queue found
          simp only [List.length_eraseIdx_of_lt lt]
          omega

theorem dispatch_rested (s : State) (q : Nat) : (dispatch s q).Rested q := by
  unfold dispatch
  split
  · next missing => simp [State.Rested, missing]
  · next queue found =>
    apply dispatchWith_rested
    intro queue' found'
    cases found.symm.trans found'
    exact Nat.le_refl _

/-- What is put into a queue between two dispatches of it. -/
theorem dispatch_after {s' : State} {hand : List (Option Nat × Message)} (whole : w.leaving = none)
    (put : Shift s₀ a { w with late := q :: w.late }
      { w with state := s', hand, late := q :: w.late }) :
    Shifts s₀ a w { w with state := dispatch s' q, hand } := by
  have late : Shift s₀ a w { w with late := q :: w.late } :=
    .relax _ fun p mem => .inl (List.mem_cons_of_mem q mem)
  have given : Shifts s₀ a { w with state := s', hand, late := q :: w.late } _ :=
    dispatch_shifts q whole
  refine (Shifts.one late).trans ((Shifts.one put).trans (given.trans (.one ?_)))
  refine .relax (w := { w with state := dispatch s' q, hand, late := q :: w.late }) w.late ?_
  intro p mem
  obtain rfl | mem := List.mem_cons.mp mem
  · exact .inr (dispatch_rested s' p)
  · exact .inl mem

theorem enqueue_back {m : Message} {hand : List (Option Nat × Message)} (whole : w.leaving = none)
    (held : w.hand = (some q, m) :: hand) (found : w.state.queues[q]? = some queue) :
    Shifts s₀ a w { w with
      state := enqueue w.state q { m with redelivered := true } true
      hand } := by
  unfold enqueue
  simp only [found]
  split
  · next gone => exact .one (.lose held found gone)
  · next live =>
    refine dispatch_after whole ?_
    exact .back (w := { w with late := q :: w.late }) held found (by simpa using live)
      List.mem_cons_self

/-! ## Routing -/

theorem routeTo_shifts (exchange key : Bytes) (pub : Publishing) (whole : w.leaving = none)
    (found : w.state.queues[q]? = some queue) (live : queue.deleted = false) :
    Shifts s₀ a w { w with state := routeTo exchange key pub w.state q } := by
  have there : ¬ queue.deleted = true := by simp [live]
  unfold routeTo enqueue
  simp only [found]
  rw [if_neg there]
  refine dispatch_after whole ?_
  exact .accept (w := { w with late := q :: w.late })
    (m := ⟨w.state.nextMsg, pub, exchange, key, false⟩) found live rfl rfl List.mem_cons_self

theorem routeAll_shifts (exchange key : Bytes) (pub : Publishing) {qs : List Nat}
    (whole : w.leaving = none)
    (live : ∀ q ∈ qs, ∃ queue, w.state.queues[q]? = some queue ∧ queue.deleted = false) :
    Shifts s₀ a w { w with state := qs.foldl (routeTo exchange key pub) w.state } := by
  induction qs generalizing w with
  | nil => exact .refl
  | cons q qs ih =>
    obtain ⟨queue, found, there⟩ := live q (by simp)
    have first : Shifts s₀ a w _ := routeTo_shifts exchange key pub whole found there
    refine first.trans (ih whole ?_)
    intro q' mem
    obtain ⟨queue', found', there'⟩ := live q' (by simp [mem])
    obtain ⟨row, at_q', same⟩ := State.queue_of_frame first.frame found'
    exact ⟨row, at_q', (Queue.of_frame same).2.1.trans there'⟩

theorem route_shifts (exchange key : Bytes) (pub : Publishing) (whole : w.leaving = none)
    (ok : w.Ok) : Shifts s₀ a w { w with state := route w.state exchange key pub } :=
  routeAll_shifts exchange key pub whole fun _ mem => ok.live.of_targets mem

theorem deadLetter_shifts (q : Nat) (m : Message) (reason : Bytes) (whole : w.leaving = none)
    (ok : w.Ok) : Shifts s₀ a w { w with state := (deadLetter w.state q m reason).1 } := by
  unfold deadLetter
  split
  · exact .refl
  · split
    · exact .refl
    · split
      · exact .refl
      · exact route_shifts _ _ _ whole ok

/-- A message that goes is dead-lettered and comes to its end. -/
theorem bury_shifts (q : Nat) {m : Message} {hand : List (Option Nat × Message)} (reason : Bytes)
    (fate : List Nat → Fate) (whole : w.leaving = none) (held : w.hand = (none, m) :: hand)
    (ok : w.Ok) (same : w.state.frame = s₀.frame) (later : s₀.nextMsg ≤ w.state.nextMsg)
    (ends : ∀ t copies, Buried s₀ t q m reason copies → Ends s₀ a t m.id (fate copies)) :
    Shifts s₀ a w { w with
      state := { (deadLetter w.state q m reason).1 with
        fates := (deadLetter w.state q m reason).1.fates ++
          [(m.id, fate (deadLetter w.state q m reason).2)] }
      hand } := by
  refine (deadLetter_shifts q m reason whole ok).trans (.one ?_)
  refine .finish (w := { w with state := (deadLetter w.state q m reason).1 }) held ?_
  exact ends _ _ (deadLetter_buried same later q m reason)

/-! ## Settlement and expiry -/

theorem settleOne_shifts {kind : Settlement} {again multiple : Bool} {tag₀ tag : Nat}
    (act : a = .settle k kind tag₀ multiple again) (whole : w.leaving = none)
    (living : w.dying = none) (ok : w.Ok) (same : w.state.frame = s₀.frame)
    (later : s₀.nextMsg ≤ w.state.nextMsg)
    (chosen : ∀ e, w.state.entryAt k tag = some e → s₀.Covers k tag₀ multiple e ∧ e.q ∈ w.late) :
    Shifts s₀ a w { w with state := settleOne kind again k w.state tag } := by
  unfold settleOne
  split
  · exact .refl
  · next e found =>
    obtain ⟨covers, near⟩ := chosen e found
    obtain ⟨chan, at_k, mem, rfl⟩ := State.entry_cases found
    have opened : chan.closed = false := by
      rw [Work.Ok, living] at ok
      exact ok.opened at_k mem
    have lifted (dest : Option Nat) (home : ∀ q ∈ dest, q = e.q) :
        Shift s₀ a w { w with state := w.state.lift k e, hand := (dest, e.msg) :: w.hand } :=
      .lift dest act covers at_k mem opened near home
    have taken := lifted none (by simp)
    split
    · next ack =>
      subst ack
      refine (Shifts.one taken).trans (.one ?_)
      exact .finish (w := { w with state := w.state.lift k e, hand := (none, e.msg) :: w.hand })
        rfl ⟨k, tag₀, multiple, again, e, act, covers, rfl⟩
    · next notAck =>
      split
      · obtain ⟨queue, at_q⟩ := ok.queue_of_entry at_k mem
        refine (Shifts.one (lifted (some e.q) (by simp))).trans ?_
        exact enqueue_back
          (w := { w with state := w.state.lift k e, hand := (some e.q, e.msg) :: w.hand }) whole rfl
          at_q
      · next once =>
        refine (Shifts.one taken).trans ?_
        refine bury_shifts
          (w := { w with state := w.state.lift k e, hand := (none, e.msg) :: w.hand }) e.q
          (lit "rejected") .rejected whole rfl (taken.ok ok) (taken.frame.trans same) later ?_
        intro t copies buried
        rw [Bool.not_eq_true] at once
        exact ⟨k, kind, tag₀, multiple, e, once ▸ act, notAck, covers, rfl, buried⟩

theorem expire_shifts (ok : s.Ok none none []) (q id : Nat) :
    Shifts s (.expire q id) ⟨s, [], none, none, []⟩ ⟨expire s q id, [], none, none, []⟩ := by
  unfold expire
  split
  · exact .refl
  · next queue found =>
    split
    · exact .refl
    · next i at_i =>
      split
      · exact .refl
      · next m here =>
        split
        · exact .refl
        · next timed =>
          simp only [Bool.or_eq_true, decide_eq_true_eq, not_or, Int.not_le] at timed
          have this : m.id = id := by
            obtain ⟨lt, holds, -⟩ := List.findIdx?_eq_some_iff_getElem.mp at_i
            rw [List.getElem?_eq_getElem lt] at here
            cases here
            simpa using holds
          subst this
          have taken : Shift s (.expire q m.id) ⟨s, [], none, none, []⟩ _ :=
            .expire (w := ⟨s, [], none, none, []⟩) rfl found here
          refine (Shifts.one taken).trans ?_
          refine bury_shifts (w := ⟨_, [(none, m)], none, none, []⟩) q (lit "expired") .expired rfl
            rfl (taken.ok ok) taken.frame (Nat.le_refl _) ?_
          intro t copies buried
          exact ⟨q, queue, m, rfl, found, timed.2, List.mem_of_getElem? here, rfl, buried⟩

end Protobus.Fakebroker
