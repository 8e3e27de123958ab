import Protobus.Fakebroker.Model
import Protobus.Library.Ledger
import Protobus.Library.Table
import Mathlib.Data.List.Count
import Mathlib.Data.List.Nodup

/-!
# Where the messages are

An instance waits in a queue, is unacknowledged on an open channel, or has come to an end; what an
operation holds between two of these is in its `hand`. The books balance when each instance accepted
so far is in exactly one of the four. Beside it stands each consumer's own count of its
unacknowledged messages.

The entries of a closed channel do not count: a channel that shuts down takes them into its hand at
once, gives them back one by one, and only then clears its map (`dying`).
-/
namespace Protobus.Fakebroker
open Library Table Ledger

structure Account where
  closed : Bool
  nextTag : Nat
  unacked : List Inflight

structure Credit where
  ch : Nat
  prefetch : Int
  unacked : Int

structure Books where
  queues : List (List Nat)
  channels : List Account
  consumers : List Credit
  fates : List (Nat × Fate)
  nextMsg : Nat

def Channel.account (chan : Channel) : Account := ⟨chan.closed, chan.nextTag, chan.unacked⟩

def Consumer.credit (cons : Consumer) : Credit := ⟨cons.ch, cons.prefetch, cons.unacked⟩

def Queue.ids (queue : Queue) : List Nat := queue.msgs.map Message.id

def State.books (s : State) : Books where
  queues := s.queues.map Queue.ids
  channels := s.channels.map Channel.account
  consumers := s.consumers.map Consumer.credit
  fates := s.fates
  nextMsg := s.nextMsg

/-- The instances routed in the place of a dead-lettered one. -/
def Fate.copies : Fate → List Nat
  | .rejected copies | .expired copies => copies
  | .acked | .autoAcked | .gone => []

/-- The entries that name a consumer. -/
def naming (c : Nat) (es : List Inflight) : Nat := es.countP fun e => e.cons = c

def Account.ids (a : Account) : List Nat := a.unacked.map fun e => e.msg.id

def Account.count (i : Nat) (a : Account) : Int := if a.closed then 0 else a.ids.count i

/-- What the entries of the channel `k` refer to. -/
structure Account.Ok (consumers : List Credit) (queues k : Nat) (a : Account) : Prop where
  sorted : (a.unacked.map Inflight.tag).Pairwise (· < ·)
  bound : ∀ e ∈ a.unacked, e.tag ≤ a.nextTag
  queue : ∀ e ∈ a.unacked, e.q < queues
  named : ∀ e ∈ a.unacked, ∃ credit, consumers[e.cons]? = some credit ∧ credit.ch = k

theorem Account.Ok.mono {a : Account} {consumers consumers' : List Credit} {queues k : Nat}
    (ok : a.Ok consumers queues k)
    (keep : ∀ (c : Nat) (credit : Credit), consumers[c]? = some credit →
      ∃ credit' : Credit, consumers'[c]? = some credit' ∧ credit'.ch = credit.ch) :
    a.Ok consumers' queues k := by
  refine ⟨ok.sorted, ok.bound, ok.queue, fun e mem => ?_⟩
  obtain ⟨credit, found, at_k⟩ := ok.named e mem
  obtain ⟨credit', found', same⟩ := keep e.cons credit found
  exact ⟨credit', found', same.trans at_k⟩

/-- Without the entry of a tag, the others are left. -/
theorem Account.Ok.split {a : Account} {consumers : List Credit} {queues k : Nat} {e : Inflight}
    (ok : a.Ok consumers queues k) (mem : e ∈ a.unacked) :
    ∃ before after, a.unacked = before ++ e :: after ∧
      (a.unacked.filter fun e' => e'.tag ≠ e.tag) = before ++ after := by
  obtain ⟨before, after, eq⟩ := List.append_of_mem mem
  refine ⟨before, after, eq, ?_⟩
  have sorted := ok.sorted
  rw [eq, List.map_append, List.map_cons, List.pairwise_append, List.pairwise_cons] at sorted
  obtain ⟨-, ⟨above, -⟩, below⟩ := sorted
  have first : before.filter (fun e' => e'.tag ≠ e.tag) = before := by
    rw [List.filter_eq_self]
    intro e' there
    have lt := below _ (List.mem_map_of_mem there) e.tag (by simp)
    simpa using Nat.ne_of_lt lt
  have last : after.filter (fun e' => e'.tag ≠ e.tag) = after := by
    rw [List.filter_eq_self]
    intro e' there
    have lt := above _ (List.mem_map_of_mem there)
    simpa using Nat.ne_of_gt lt
  rw [eq, List.filter_append, first, List.filter_cons, last]
  simp

/-- A consumer's own count is right as long as its channel is open. -/
def Credit.Ok (channels : List Account) (c : Nat) (credit : Credit) : Prop :=
  ∃ a, channels[credit.ch]? = some a ∧ (a.closed = false →
    credit.unacked = naming c a.unacked ∧ (0 < credit.prefetch → credit.unacked ≤ credit.prefetch))

/-- The counts stay right when a channel keeps its entries or closes. -/
theorem Credit.rows_set {channels : List Account} {consumers : List Credit} {k : Nat}
    {a a' : Account} (rows : Rows (Credit.Ok channels) consumers)
    (at_k : channels[k]? = some a)
    (same : a'.closed = false → a.closed = false ∧ a'.unacked = a.unacked) :
    Rows (Credit.Ok (channels.set k a')) consumers := by
  refine rows.imp ?_
  intro c credit _ right
  obtain ⟨a₁, at_ch, right⟩ := right
  by_cases here : k = credit.ch
  · subst here
    cases at_k.symm.trans at_ch
    refine ⟨a', getElem?_set_self_of_some at_k, fun opened => ?_⟩
    obtain ⟨before, entries⟩ := same opened
    rw [entries]
    exact right before
  · exact ⟨a₁, (getElem?_set_of_ne here).trans at_ch, right⟩

namespace Books
variable {b : Books} {dying : Option Nat} {hand : List Nat} {k q c : Nat} {a a' : Account}

/-- The places an instance is in. -/
def held (b : Books) (i : Nat) : Int :=
  total (fun ids => (ids.count i : Int)) b.queues + total (Account.count i) b.channels +
    (b.fates.map Prod.fst).count i

structure Ok (dying : Option Nat) (hand : List Nat) (b : Books) : Prop where
  accounts : Rows (Account.Ok b.consumers b.queues.length) b.channels
  credits : Rows (Credit.Ok b.channels) b.consumers
  emptied : Rows (fun k a => a.closed = true → dying ≠ some k → a.unacked = []) b.channels
  balance : ∀ i, b.held i + hand.count i = if i < b.nextMsg then 1 else 0
  copies : ∀ p ∈ b.fates, ∀ i ∈ p.2.copies, i < b.nextMsg

theorem Ok.perm {hand' : List Nat} (ok : b.Ok dying hand) (perm : hand.Perm hand') :
    b.Ok dying hand' := by
  refine ⟨ok.accounts, ok.credits, ok.emptied, fun i => ?_, ok.copies⟩
  rw [← perm.count_eq]
  exact ok.balance i

/-! ## Queues, fates and new instances -/

/-- A message goes from a queue to the hand, or from the hand to a queue. -/
theorem Ok.setQueue {ids ids' hand' : List Nat} (ok : b.Ok dying hand)
    (found : b.queues[q]? = some ids)
    (moved : (ids ++ hand).Perm (ids' ++ hand')) :
    { b with queues := b.queues.set q ids' }.Ok dying hand' := by
  refine ⟨?_, ok.credits, ok.emptied, fun i => ?_, ok.copies⟩
  · rw [List.length_set]
    exact ok.accounts
  · have before := ok.balance i
    have same := moved.count_eq i
    simp only [List.count_append] at same
    simp only [held, total_set found] at before ⊢
    omega

/-- Instances come to their ends. -/
theorem Ok.finish {ends : List (Nat × Fate)} (ok : b.Ok dying (ends.map Prod.fst ++ hand))
    (routed : ∀ p ∈ ends, ∀ i ∈ p.2.copies, i < b.nextMsg) :
    { b with fates := b.fates ++ ends }.Ok dying hand := by
  refine ⟨ok.accounts, ok.credits, ok.emptied, fun i => ?_, fun p mem => ?_⟩
  · have before := ok.balance i
    rw [List.count_append] at before
    simp only [held, List.map_append, List.count_append] at before ⊢
    omega
  · exact (List.mem_append.mp mem).elim (ok.copies p) (routed p)

theorem Ok.finish_one {i : Nat} {f : Fate} (ok : b.Ok dying (i :: hand))
    (routed : ∀ i ∈ f.copies, i < b.nextMsg) :
    { b with fates := b.fates ++ [(i, f)] }.Ok dying hand :=
  finish ok (by simpa using routed)

theorem Ok.fresh (ok : b.Ok dying hand) :
    { b with nextMsg := b.nextMsg + 1 }.Ok dying (b.nextMsg :: hand) := by
  refine ⟨ok.accounts, ok.credits, ok.emptied, fun i => ?_, fun p mem i new => ?_⟩
  · have before := ok.balance i
    have same : Books.held { b with nextMsg := b.nextMsg + 1 } i = b.held i := rfl
    rw [same, List.count_cons]
    simp only [beq_iff_eq]
    split at before <;> split <;> split <;> omega
  · exact Nat.lt_succ_of_lt (ok.copies p mem i new)

theorem Ok.addQueue (ok : b.Ok dying hand) :
    { b with queues := b.queues ++ [[]] }.Ok dying hand := by
  refine ⟨?_, ok.credits, ok.emptied, fun i => ?_, ok.copies⟩
  · refine ok.accounts.imp ?_
    intro k a _ old
    refine ⟨old.sorted, old.bound, fun e mem => ?_, old.named⟩
    rw [List.length_append]
    exact Nat.lt_add_right _ (old.queue e mem)
  · simpa [held] using ok.balance i

theorem Ok.addChannel (ok : b.Ok dying hand) :
    { b with channels := b.channels ++ [(⟨false, 0, []⟩ : Account)] }.Ok dying hand := by
  refine ⟨ok.accounts.concat ⟨by simp, by simp, by simp, by simp⟩, ?_, ok.emptied.concat (by simp),
    fun i => ?_, ok.copies⟩
  · refine ok.credits.imp ?_
    intro c credit _ old
    obtain ⟨a, found, rest⟩ := old
    exact ⟨a, getElem?_concat_of_some found, rest⟩
  · simpa [held, Account.count, Account.ids] using ok.balance i

/-! ## Entries of a channel -/

/-- No entry names a consumer yet to start. -/
theorem Ok.addConsumer (ok : b.Ok dying hand) (at_k : b.channels[k]? = some a) (prefetch : Int) :
    { b with consumers := b.consumers ++ [(⟨k, prefetch, 0⟩ : Credit)] }.Ok dying hand := by
  refine ⟨?_, ok.credits.concat ⟨a, at_k, fun _ => ⟨?_, fun pos => Int.le_of_lt pos⟩⟩, ok.emptied,
    ok.balance, ok.copies⟩
  · refine ok.accounts.imp fun k a _ old => old.mono ?_
    intro c credit found
    exact ⟨credit, getElem?_concat_of_some found, rfl⟩
  · have none_named : naming b.consumers.length a.unacked = 0 := by
      rw [naming, List.countP_eq_zero]
      intro e mem same
      obtain ⟨credit, found, -⟩ := (ok.accounts k a at_k).named e mem
      simp [of_decide_eq_true same] at found
    rw [none_named]
    rfl

/-- A channel's entries and the count of one of its consumers change together. -/
theorem Ok.setAccount {credit : Credit} {hand' : List Nat} {unacked : Int} (ok : b.Ok dying hand)
    (at_c : b.consumers[c]? = some credit) (at_k : b.channels[credit.ch]? = some a)
    (opened : a.closed = false) (opened' : a'.closed = false)
    (refers : a'.Ok b.consumers b.queues.length credit.ch)
    (counted : unacked - credit.unacked = naming c a'.unacked - naming c a.unacked)
    (others : ∀ d, d ≠ c → naming d a'.unacked = naming d a.unacked)
    (limit : 0 < credit.prefetch → unacked ≤ credit.prefetch)
    (same : ∀ i, a.ids.count i + hand.count i = a'.ids.count i + hand'.count i) :
    { b with
      channels := b.channels.set credit.ch a'
      consumers := b.consumers.set c { credit with unacked } }.Ok dying hand' := by
  have keep : ∀ (d : Nat) (old : Credit), b.consumers[d]? = some old →
      ∃ new : Credit, (b.consumers.set c { credit with unacked })[d]? = some new ∧
        new.ch = old.ch := by
    intro d old found
    by_cases eq : c = d
    · subst eq
      cases at_c.symm.trans found
      exact ⟨_, getElem?_set_self_of_some at_c, rfl⟩
    · exact ⟨old, (getElem?_set_of_ne eq).trans found, rfl⟩
  refine ⟨?_, ?_, ok.emptied.set (by simp [opened']), fun i => ?_, ok.copies⟩
  · apply Rows.set
    · exact ok.accounts.imp fun k a _ old => old.mono keep
    · exact refers.mono keep
  · intro d new found
    obtain ⟨x, at_x, right⟩ := ok.credits c credit at_c
    cases at_k.symm.trans at_x
    obtain ⟨exact_count, -⟩ := right opened
    by_cases eq : c = d
    · subst eq
      cases (getElem?_set_self_of_some at_c).symm.trans found
      refine ⟨a', getElem?_set_self_of_some at_k, fun _ => ⟨?_, limit⟩⟩
      simp only
      omega
    · rw [getElem?_set_of_ne eq] at found
      obtain ⟨a₁, at_d, right⟩ := ok.credits d new found
      by_cases here : credit.ch = new.ch
      · rw [here] at at_k ⊢
        cases at_k.symm.trans at_d
        refine ⟨a', getElem?_set_self_of_some at_k, fun _ => ?_⟩
        rw [others d (Ne.symm eq)]
        exact right opened
      · exact ⟨a₁, (getElem?_set_of_ne here).trans at_d, right⟩
  · have before := ok.balance i
    have moved := same i
    simp only [held, total_set at_k, Account.count, opened, opened', Bool.false_eq_true,
      if_false] at before ⊢
    omega

/-- A new entry has a new tag. -/
theorem Ok.deliver {credit : Credit} {m : Message} (ok : b.Ok dying (m.id :: hand))
    (at_c : b.consumers[c]? = some credit) (at_k : b.channels[credit.ch]? = some a)
    (opened : a.closed = false) (lt : q < b.queues.length)
    (room : credit.prefetch = 0 ∨ credit.unacked < credit.prefetch) :
    { b with
      channels := b.channels.set credit.ch { a with
        nextTag := a.nextTag + 1
        unacked := a.unacked ++ [(⟨a.nextTag + 1, m, q, c⟩ : Inflight)] }
      consumers := b.consumers.set c { credit with unacked := credit.unacked + 1 } }.Ok dying
        hand := by
  have refers := ok.accounts credit.ch a at_k
  refine ok.setAccount at_c at_k opened opened ⟨?_, ?_, ?_, ?_⟩ ?_ ?_ ?_ ?_
  · rw [List.map_append, List.pairwise_append]
    refine ⟨refers.sorted, by simp, fun tag mem tag' new => ?_⟩
    obtain ⟨e, there, rfl⟩ := List.mem_map.mp mem
    simp only [List.map_cons, List.map_nil, List.mem_singleton] at new
    exact new ▸ Nat.lt_succ_of_le (refers.bound e there)
  · exact List.forall_mem_append.mpr ⟨fun e old => Nat.le_succ_of_le (refers.bound e old), by simp⟩
  · exact List.forall_mem_append.mpr ⟨refers.queue, by simpa using lt⟩
  · exact List.forall_mem_append.mpr ⟨refers.named, by simpa using ⟨credit, at_c, rfl⟩⟩
  · simp [naming]
  · intro d other
    simp [naming, Ne.symm other]
  · omega
  · intro i
    simp only [Account.ids, List.map_append, List.count_append, List.map_cons, List.map_nil,
      List.count_cons, List.count_nil]
    omega

/-- The entry of a tag leaves its channel. -/
theorem Ok.settle {credit : Credit} {e : Inflight} (ok : b.Ok dying hand)
    (at_k : b.channels[k]? = some a) (opened : a.closed = false) (mem : e ∈ a.unacked)
    (at_c : b.consumers[e.cons]? = some credit) :
    { b with
      channels := b.channels.set k
        { a with unacked := a.unacked.filter fun e' => e'.tag ≠ e.tag }
      consumers := b.consumers.set e.cons { credit with unacked := credit.unacked - 1 } }.Ok dying
        (e.msg.id :: hand) := by
  have refers := ok.accounts k a at_k
  obtain ⟨credit', found, rfl⟩ := refers.named e mem
  obtain rfl : credit = credit' := Option.some.inj (at_c.symm.trans found)
  obtain ⟨_, at_k', right⟩ := ok.credits e.cons credit at_c
  obtain rfl := Option.some.inj (at_k.symm.trans at_k')
  obtain ⟨-, limit⟩ := right opened
  have sub : (a.unacked.filter fun e' => e'.tag ≠ e.tag).Sublist a.unacked := List.filter_sublist
  obtain ⟨before, after, eq, rest⟩ := refers.split mem
  refine ok.setAccount at_c at_k opened opened ⟨?_, ?_, ?_, ?_⟩ ?_ ?_ ?_ ?_
  · exact refers.sorted.sublist (sub.map _)
  · exact fun e' there => refers.bound e' (sub.subset there)
  · exact fun e' there => refers.queue e' (sub.subset there)
  · exact fun e' there => refers.named e' (sub.subset there)
  · simp only [rest]
    simp [naming, eq]
  · intro d other
    simp only [rest]
    simp [naming, eq, Ne.symm other]
  · intro pos
    have := limit pos
    omega
  · intro i
    simp only [Account.ids, rest]
    simp only [eq, List.map_append, List.count_append, List.map_cons, List.count_cons]
    omega

/-- Nothing is read of a channel but its entries and whether it is closed. -/
theorem Ok.setTag (ok : b.Ok dying hand) (at_k : b.channels[k]? = some a) {n : Nat}
    (later : a.nextTag ≤ n) :
    { b with channels := b.channels.set k { a with nextTag := n } }.Ok dying hand := by
  have refers := ok.accounts k a at_k
  refine ⟨ok.accounts.set ⟨refers.sorted, fun e mem => (refers.bound e mem).trans later,
    refers.queue, refers.named⟩, ?_, ok.emptied.set (ok.emptied k a at_k), fun i => ?_, ok.copies⟩
  · exact Credit.rows_set ok.credits at_k fun opened => ⟨opened, rfl⟩
  · have before := ok.balance i
    have same : Account.count i { a with nextTag := n } = a.count i := rfl
    simp only [held, total_set at_k, same] at before ⊢
    omega

/-- A channel that closes takes its messages into the hand. -/
theorem Ok.close (ok : b.Ok none hand) (at_k : b.channels[k]? = some a)
    (opened : a.closed = false) :
    { b with channels := b.channels.set k { a with closed := true } }.Ok (some k)
      (a.ids ++ hand) := by
  have refers := ok.accounts k a at_k
  refine ⟨ok.accounts.set ⟨refers.sorted, refers.bound, refers.queue, refers.named⟩, ?_, ?_,
    fun i => ?_, ok.copies⟩
  · exact Credit.rows_set ok.credits at_k fun never => by cases never
  · apply Rows.set
    · exact ok.emptied.imp fun _ _ _ old closed _ => old closed (by simp)
    · exact fun _ apart => absurd rfl apart
  · have before := ok.balance i
    simp only [held, total_set at_k, Account.count, opened, List.count_append, Bool.false_eq_true,
      if_false, if_true] at before ⊢
    omega

/-- Its messages given back, its map is cleared. -/
theorem Ok.clear (ok : b.Ok (some k) hand) (at_k : b.channels[k]? = some a)
    (closed : a.closed = true) :
    { b with channels := b.channels.set k { a with unacked := [] } }.Ok none hand := by
  refine ⟨ok.accounts.set ⟨by simp, by simp, by simp, by simp⟩, ?_, ?_, fun i => ?_, ok.copies⟩
  · exact Credit.rows_set ok.credits at_k fun opened => by simp [closed] at opened
  · intro j a' found shut _
    by_cases here : k = j
    · subst here
      cases (getElem?_set_self_of_some at_k).symm.trans found
      rfl
    · rw [getElem?_set_of_ne here] at found
      exact ok.emptied j a' found shut (by simpa using here)
  · have before := ok.balance i
    simp only [held, total_set at_k, Account.count, closed, if_true] at before ⊢
    omega

end Books
end Protobus.Fakebroker
