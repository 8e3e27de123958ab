import Protobus.PubChannel.Attribution
import Protobus.PubChannel.Outcome
import Protobus.Fakebroker.Conservation

/-!
# A publishing channel at the in-memory broker

The model of `pubChannel` leaves its broker open: it may return and confirm what was written as it
likes. Here the transport is a channel of the in-memory broker, in confirm mode, and the frames are
those that `PublishWithContext`, its timers and `ReleaseHeld` emit, while other clients use the
broker and may close the channel. What a call of `publish` reports is then compared with what the
broker did with the message.

A policy of the tests decides each confirm, and a delay may hold it back; both may answer anything.
-/
namespace Protobus.Fakebroker
open Library
open PubChannel (Frame Return Confirmation orderly unambiguous)

/-! ## The composed system -/

/-- Whether the channel is open. -/
def State.opened (s : State) (k : Nat) : Bool := (s.channels[k]?).any fun chan => !chan.closed

/-- What the broker did with one publication, as history: the answer of the policy, or none where
the exchange was missing, and the instances it stored. -/
structure Receipt where
  tag : Nat
  pub : Nat
  answer : Option ConfirmAction
  copies : List Nat

/-- The broker routed the message. -/
def Receipt.stored (r : Receipt) : Bool :=
  match r.answer with
  | some .ack | some .hold => true
  | _ => false

/-- A closure in `held`: the return, if there is one, and the tag to confirm. -/
structure Withheld where
  tag : Nat
  pub : Nat
  ret : Option Return

/-- The publishing channel, the broker, and what the broker's channel has for it: the last tag,
what it withholds, and the tags whose confirm waits for a timer. -/
structure Link where
  chan : PubChannel.State
  broker : State
  publishSeq : Nat := 0
  held : List Withheld := []
  timers : List Nat := []
  receipts : List Receipt := []

/-- The pump delivers the frames in the order in which they were emitted, as the wire does. -/
def Link.emitReturn (s : Link) (r : Return) (pub : Nat) : Link :=
  { s with chan := PubChannel.envNext s.chan (.brokerReturn r pub) }

def Link.emitConfirm (s : Link) (c : Confirmation) : Link :=
  { s with chan := PubChannel.envNext s.chan (.brokerConfirm c) }

def Withheld.release (s : Link) (h : Withheld) : Link :=
  (h.ret.elim s fun r => s.emitReturn r h.pub).emitConfirm ⟨h.tag, true⟩

/-- `PublishWithContext` on the open channel `k`, for the publication that the writer is about to
write. -/
def Link.publish (order : Order) (k : Nat) (s : Link) (i : Nat) (msg : Publishing)
    (action : ConfirmAction) (delayed : Bool) : Link :=
  let call := s.chan.calls i
  let tag := s.publishSeq + 1
  let after := Fakebroker.publish order s.broker k call.exchange call.key msg action
  let copies := List.range' s.broker.nextMsg (after.nextMsg - s.broker.nextMsg)
  let sent := { s with
    chan := PubChannel.writerNext s.chan i (.transmit tag), broker := after, publishSeq := tag }
  -- the broker closes the channel, but the call of the transport succeeds
  if (s.broker.exchange? call.exchange).isNone then
    { sent with held := [], receipts := s.receipts ++ [⟨tag, i, none, []⟩] }
  else
    let sent := { sent with receipts := s.receipts ++ [⟨tag, i, some action, copies⟩] }
    let ret := if targets s.broker call.exchange call.key = [] ∧ call.mandatory = true then
      some call.returnOf else none
    match action with
    | .nack => sent.emitConfirm ⟨tag, false⟩
    | .drop => sent
    | .hold => { sent with held := s.held ++ [⟨tag, i, ret⟩] }
    | .ack =>
      let sent := ret.elim sent fun r => sent.emitReturn r i
      if delayed then { sent with timers := s.timers ++ [tag] } else sent.emitConfirm ⟨tag, true⟩

/-- What the publishing channel does by itself. Its transport refuses a write only when the channel
is closed. -/
def isOwn (opened : Bool) : PubChannel.Action → Bool
  | .writer _ (.transmit _) => false
  | .writer _ (.writeFails _ errClosed) => !opened && errClosed
  | .env (.closeTransport _) | .env (.brokerReturn _ _) | .env (.brokerConfirm _) => false
  | _ => true

def Act.publishesOn (k : Nat) : Act → Bool
  | .publish l _ _ _ _ => l = k
  | _ => false

inductive LinkAct
  | own (a : PubChannel.Action)
  | publish (order : Order) (i tag : Nat) (msg : Publishing) (action : ConfirmAction)
      (delayed : Bool)
  /-- Any other operation on the broker, by anyone. -/
  | act (order : Order) (a : Act)
  | releaseHeld
  | fire (tag : Nat)
  | notifyClose (e : Option Bytes)

section
variable (cfg : PubChannel.Config) (k : Nat)

def Link.step (s : Link) : LinkAct → Option Link
  | .own a =>
    if isOwn (s.broker.opened k) a && PubChannel.enabled cfg s.chan a then
      some { s with chan := PubChannel.next cfg s.chan a }
    else none
  | .publish order i tag msg action delayed =>
    if s.broker.opened k && PubChannel.enabled cfg s.chan (.writer i (.transmit tag)) then
      some (s.publish order k i msg action delayed)
    else none
  | .act order a =>
    if a.publishesOn k then none
    else
      let after := perform order s.broker a
      some { s with broker := after, held := if after.opened k then s.held else [] }
  | .releaseHeld => some (s.held.foldl Withheld.release { s with held := [] })
  | .fire tag =>
    if tag ∈ s.timers then
      let s' := { s with timers := s.timers.erase tag }
      some (if s.broker.opened k then s'.emitConfirm ⟨tag, true⟩ else s')
    else none
  | .notifyClose e =>
    if !s.broker.opened k && PubChannel.enabled cfg s.chan (.env (.closeTransport e)) then
      some { s with chan := PubChannel.envNext s.chan (.closeTransport e) }
    else none

/-- A new publishing channel on a channel of a broker that is in use. -/
def link : System Link LinkAct where
  init s := s.chan = .start ∧ broker.Reachable s.broker ∧ s.publishSeq = 0 ∧ s.held = [] ∧
    s.timers = [] ∧ s.receipts = []
  step := Link.step cfg k

/-- No return is withheld, and the loop takes one only while no older publication alike that was
routed awaits its confirm. -/
def clear (s : Link) : LinkAct → Bool
  | .own a => unambiguous s.chan a
  | .publish _ i _ _ .hold _ => (s.broker.exchange? (s.chan.calls i).exchange).isNone ||
    !(targets s.broker (s.chan.calls i).exchange (s.chan.calls i).key).isEmpty ||
    !(s.chan.calls i).mandatory
  | _ => true

/-- The publishing channel in the environment of its own model. -/
def publisher (good : Bool) : System PubChannel.State PubChannel.Action :=
  (PubChannel.system cfg).restrict fun p a => !good || (orderly p a && unambiguous p a)

end

/-! ## The publishing channel's own steps -/

section
variable {cfg : PubChannel.Config} {p : PubChannel.State} {a : PubChannel.Action} {i tag : Nat}

theorem own_frame (cfg : PubChannel.Config) (p : PubChannel.State) {opened : Bool}
    (own : isOwn opened a = true) :
    (PubChannel.next cfg p a).nextSeq = p.nextSeq ∧
    (PubChannel.next cfg p a).transmitted = p.transmitted ∧
    (PubChannel.next cfg p a).confirmed = p.confirmed ∧
    (PubChannel.next cfg p a).bounced = p.bounced := by
  cases a with
  | caller i a => exact ⟨rfl, rfl, rfl, rfl⟩
  | handOff i => exact ⟨rfl, rfl, rfl, rfl⟩
  | writer i a =>
    cases a with
    | transmit tag => cases own
    | _ => exact ⟨rfl, rfl, rfl, rfl⟩
  | stop => exact ⟨rfl, rfl, rfl, rfl⟩
  | loop a =>
    obtain ⟨_, _, _, _, _, _, _, _, _, eq⟩ := PubChannel.loopNext_frame p a
    simp only [PubChannel.next, eq, and_self]
  | env a =>
    cases a with
    | closeTransport e => cases own
    | brokerReturn r pub => cases own
    | brokerConfirm c => cases own
    | _ => exact ⟨rfl, rfl, rfl, rfl⟩

/-- What the broker was given of a publication stays as it was. -/
def ticket (p : PubChannel.State) (i : Nat) : Bool × Return :=
  ((p.calls i).mandatory, (p.calls i).returnOf)

theorem ticket_next (shape : PubChannel.Shape p) (en : PubChannel.enabled cfg p a = true)
    (sent : (tag, i) ∈ p.transmitted) : ticket (PubChannel.next cfg p a) i = ticket p i := by
  have handed := shape.of_transmitted sent
  cases a with
  | caller j a =>
    simp only [ticket, PubChannel.next, PubChannel.callerNext, PubChannel.calls_update]
    cases a <;> simp only [PubChannel.callerEffect] <;>
      grind [PubChannel.Call.returnOf, PubChannel.Call.record, PubChannel.Call.release,
        PubChannel.Call.finish]
  | handOff j =>
    simp only [ticket, PubChannel.next, PubChannel.calls_update]
    grind [PubChannel.Call.returnOf]
  | writer j a =>
    cases a <;> simp only [ticket, PubChannel.next, PubChannel.writerNext,
      PubChannel.calls_update] <;>
      grind [PubChannel.Call.returnOf, PubChannel.Call.record, PubChannel.Call.release]
  | stop => rfl
  | loop a =>
    cases a with
    | takeReturn r pub =>
      rcases PubChannel.markReturned_cases { p with wire := p.wire.tail } r with
        eq | ⟨t, j, -, -, eq⟩ <;>
        simp only [ticket, PubChannel.next, PubChannel.loopNext, eq, PubChannel.calls_update]
      grind [PubChannel.Call.returnOf]
    | takeConfirm c =>
      rcases PubChannel.resolve_cases { p with confirms := p.confirms.tail } c with
        eq | ⟨j, -, eq⟩ <;>
        simp only [ticket, PubChannel.next, PubChannel.loopNext, eq, PubChannel.calls_update]
      grind [PubChannel.Call.returnOf]
    | settle j v | release j v =>
      simp only [ticket, PubChannel.next, PubChannel.loopNext, PubChannel.calls_update]
      grind [PubChannel.Call.returnOf, PubChannel.Call.record, PubChannel.Call.release]
    | _ => rfl
  | env a =>
    cases a with
    | call exchange key messageId uuid mandatory =>
      -- the new call is not the one that was written
      have ne : i ≠ p.started := by
        have := shape.started_of_ne_idle (i := i) (by
          intro idle
          simp [idle, PubChannel.Pc.handedOff] at handed)
        omega
      simp [ticket, PubChannel.next, PubChannel.envNext, ne]
    | endCtx j e =>
      simp only [ticket, PubChannel.next, PubChannel.envNext, PubChannel.calls_update]
      grind [PubChannel.Call.returnOf]
    | _ => rfl

end

/-! ## What the broker did and what it said -/

section
variable {cfg : PubChannel.Config} {k : Nat} {good : Bool} {s : Link} {r : Receipt}

/-- If it is mandatory and went to no queue, it was returned. -/
def Link.Told (s : Link) (r : Receipt) : Prop :=
  (s.chan.calls r.pub).mandatory = true → r.copies = [] → r.pub ∈ s.chan.bounced

def Receipt.Answers (r : Receipt) : Bool → Prop
  | true => r.stored = true
  | false => r.answer = some .nack

/-- The tags that are still to be confirmed. -/
def Link.owed (s : Link) : List Nat := s.held.map Withheld.tag ++ s.timers

def Link.confirmedTags (s : Link) : List Nat := s.chan.confirmed.map Confirmation.deliveryTag

structure Linked (cfg : PubChannel.Config) (good : Bool) (s : Link) : Prop where
  chan : (publisher cfg good).Reachable s.chan
  server : broker.Reachable s.broker
  seq : s.chan.nextSeq = s.publishSeq + 1
  numbered : s.receipts.map Receipt.tag = List.range' 1 s.publishSeq
  written : s.receipts.map (fun r => (r.tag, r.pub)) = s.chan.transmitted
  copies : ∀ r ∈ s.receipts, ∀ id ∈ r.copies, id < s.broker.nextMsg
  unstored : ∀ r ∈ s.receipts, r.stored = false → r.copies = []
  /-- Every confirm tells what became of the message, after the return if there is one. -/
  confirmed : ∀ c ∈ s.chan.confirmed, ∃ r ∈ s.receipts, r.tag = c.deliveryTag ∧ r.Answers c.ack ∧
    (c.ack = true → s.Told r)
  bounced : ∀ i ∈ s.chan.bounced, ∃ r ∈ s.receipts, r.pub = i ∧ r.stored = true ∧ r.copies = [] ∧
    (s.chan.calls i).mandatory = true
  /-- No tag is confirmed twice. -/
  fresh : s.owed.Nodup
  unconfirmed : ∀ t ∈ s.owed, t ∉ s.confirmedTags
  held : ∀ h ∈ s.held, ∃ r ∈ s.receipts, r.tag = h.tag ∧ r.pub = h.pub ∧ r.stored = true ∧
    (h.ret = none → (s.chan.calls r.pub).mandatory = true → r.copies ≠ []) ∧
    (h.ret ≠ none → good = false ∧ (s.chan.calls r.pub).mandatory = true ∧ r.copies = [])
  timers : ∀ t ∈ s.timers, ∃ r ∈ s.receipts, r.tag = t ∧ r.stored = true ∧ s.Told r

namespace Linked
variable (inv : Linked cfg good s)
include inv

theorem shape : PubChannel.Shape s.chan :=
  (PubChannel.shape_tags_of_reachable inv.chan.of_restrict).1

theorem tags : PubChannel.Tags s.chan := (PubChannel.shape_tags_of_reachable inv.chan.of_restrict).2

theorem sent (mem : r ∈ s.receipts) : (r.tag, r.pub) ∈ s.chan.transmitted := by
  rw [← inv.written]
  exact List.mem_map_of_mem (f := fun r : Receipt => (r.tag, r.pub)) mem

theorem tag_lt (mem : r ∈ s.receipts) : r.tag < s.publishSeq + 1 := by
  have there := List.mem_map_of_mem (f := Receipt.tag) mem
  rw [inv.numbered, List.mem_range'_1] at there
  omega

/-- The next tag has not been used. -/
theorem next_unused : s.publishSeq + 1 ∉ s.confirmedTags ∧ s.publishSeq + 1 ∉ s.owed := by
  constructor
  · intro mem
    obtain ⟨c, there, eq⟩ := List.mem_map.mp mem
    obtain ⟨r, mem, tag, -⟩ := inv.confirmed c there
    have := inv.tag_lt mem
    omega
  · intro mem
    rcases List.mem_append.mp mem with held | timer
    · obtain ⟨h, there, eq⟩ := List.mem_map.mp held
      obtain ⟨r, mem, tag, -⟩ := inv.held h there
      have := inv.tag_lt mem
      omega
    · obtain ⟨r, mem, tag, -⟩ := inv.timers _ timer
      have := inv.tag_lt mem
      omega

/-- Steps in which nothing is written and nothing emitted. -/
theorem move {p : PubChannel.State} {b : State} {held : List Withheld} {timers : List Nat}
    (chan : (publisher cfg good).Reachable p) (seq : p.nextSeq = s.chan.nextSeq)
    (transmitted : p.transmitted = s.chan.transmitted)
    (confirmed : p.confirmed = s.chan.confirmed) (bounced : p.bounced = s.chan.bounced)
    (tickets : ∀ tag i, (tag, i) ∈ s.chan.transmitted → ticket p i = ticket s.chan i)
    (server : broker.Reachable b) (le : s.broker.nextMsg ≤ b.nextMsg)
    (fewer : held.Sublist s.held) (fired : timers.Sublist s.timers) :
    Linked cfg good { s with chan := p, broker := b, held := held, timers := timers } := by
  have same : ∀ r ∈ s.receipts, (p.calls r.pub).mandatory = (s.chan.calls r.pub).mandatory :=
    fun r mem => (Prod.mk.inj (tickets r.tag r.pub (inv.sent mem))).1
  have told : ∀ r ∈ s.receipts, s.Told r →
      Link.Told { s with chan := p, broker := b, held := held, timers := timers } r := by
    intro r mem told
    simpa only [Link.Told, same r mem, bounced] using told
  have owed : (held.map Withheld.tag ++ timers).Sublist s.owed :=
    (fewer.map Withheld.tag).append fired
  refine ⟨chan, server, seq.trans inv.seq, inv.numbered, inv.written.trans transmitted.symm, ?_,
    inv.unstored, ?_, ?_, inv.fresh.sublist owed, ?_, ?_, ?_⟩
  · intro r mem id there
    exact Nat.lt_of_lt_of_le (inv.copies r mem id there) le
  · intro c mem
    obtain ⟨r, there, tag, answers, tells⟩ := inv.confirmed c (confirmed ▸ mem)
    exact ⟨r, there, tag, answers, fun ack => told r there (tells ack)⟩
  · intro i mem
    obtain ⟨r, there, rfl, rest⟩ := inv.bounced i (bounced ▸ mem)
    exact ⟨r, there, rfl, (same r there).symm ▸ rest⟩
  · intro t mem
    simpa only [Link.confirmedTags, confirmed] using inv.unconfirmed t (owed.subset mem)
  · intro h mem
    obtain ⟨r, there, rest⟩ := inv.held h (fewer.subset mem)
    exact ⟨r, there, (same r there).symm ▸ rest⟩
  · intro t mem
    obtain ⟨r, there, tag, stored, tells⟩ := inv.timers t (fired.subset mem)
    exact ⟨r, there, tag, stored, told r there tells⟩

theorem emitConfirm (ack : Bool) (mem : r ∈ s.receipts) (answers : r.Answers ack)
    (told : ack = true → s.Told r) (first : r.tag ∉ s.confirmedTags) (free : r.tag ∉ s.owed) :
    Linked cfg good (s.emitConfirm ⟨r.tag, ack⟩) := by
  have step : (publisher cfg good).step s.chan (.env (.brokerConfirm ⟨r.tag, ack⟩)) =
      some (s.emitConfirm ⟨r.tag, ack⟩).chan := by
    refine System.restrict_step.mpr
      ⟨by simp [orderly, unambiguous], PubChannel.step_iff.mpr ⟨?_, rfl⟩⟩
    have there := List.mem_map_of_mem (f := Prod.fst) (inv.sent mem)
    simpa [PubChannel.enabled, PubChannel.envEnabled, there, Link.confirmedTags] using first
  refine ⟨inv.chan.step step, inv.server, inv.seq, inv.numbered, inv.written, inv.copies,
    inv.unstored, ?_, inv.bounced, inv.fresh, ?_, inv.held, inv.timers⟩
  · intro c there
    rcases List.mem_append.mp there with old | new
    · exact inv.confirmed c old
    · cases List.mem_singleton.mp new
      exact ⟨r, mem, rfl, answers, told⟩
  · intro t owes there
    simp only [Link.confirmedTags, Link.emitConfirm, PubChannel.envNext, List.map_append,
      List.map_cons, List.map_nil, List.mem_append, List.mem_singleton] at there
    rcases there with old | rfl
    · exact inv.unconfirmed t owes old
    · exact free owes

theorem emitReturn {x : Return} (mem : r ∈ s.receipts) (stored : r.stored = true)
    (nowhere : r.copies = []) (mandatory : (s.chan.calls r.pub).mandatory = true)
    (ok : good = true → orderly s.chan (.env (.brokerReturn x r.pub)) = true) :
    Linked cfg good (s.emitReturn x r.pub) := by
  have step : (publisher cfg good).step s.chan (.env (.brokerReturn x r.pub)) =
      some (s.emitReturn x r.pub).chan := by
    refine System.restrict_step.mpr ⟨?_, PubChannel.step_iff.mpr ⟨rfl, rfl⟩⟩
    cases good with
    | false => rfl
    | true => simp [ok rfl, unambiguous]
  have told : ∀ r', s.Told r' → (s.emitReturn x r.pub).Told r' :=
    fun r' told mandatory nowhere => List.mem_cons_of_mem _ (told mandatory nowhere)
  refine ⟨inv.chan.step step, inv.server, inv.seq, inv.numbered, inv.written, inv.copies,
    inv.unstored, ?_, ?_, inv.fresh, inv.unconfirmed, inv.held, ?_⟩
  · intro c there
    obtain ⟨r', mem', tag, answers, tells⟩ := inv.confirmed c there
    exact ⟨r', mem', tag, answers, fun ack => told r' (tells ack)⟩
  · intro i there
    rcases List.mem_cons.mp there with rfl | old
    · exact ⟨r, mem, rfl, stored, nowhere, mandatory⟩
    · exact inv.bounced i old
  · intro t there
    obtain ⟨r', mem', tag, stored, tells⟩ := inv.timers t there
    exact ⟨r', mem', tag, stored, told r' tells⟩

/-- The writer's publication is written and the broker has dealt with it. -/
theorem send {b : State} {i tag : Nat} (answer : Option ConfirmAction) (copies : List Nat)
    (en : PubChannel.enabled cfg s.chan (.writer i (.transmit tag)) = true)
    (server : Fakebroker.broker.Reachable b) (le : s.broker.nextMsg ≤ b.nextMsg)
    (stores : ∀ id ∈ copies, id < b.nextMsg)
    (unstored : Receipt.stored ⟨s.publishSeq + 1, i, answer, copies⟩ = false → copies = []) :
    Linked cfg good { s with
      chan := PubChannel.writerNext s.chan i (.transmit tag), broker := b
      publishSeq := s.publishSeq + 1
      receipts := s.receipts ++ [⟨s.publishSeq + 1, i, answer, copies⟩] } := by
  have step : (publisher cfg good).step s.chan (.writer i (.transmit tag)) =
      some (PubChannel.writerNext s.chan i (.transmit tag)) :=
    System.restrict_step.mpr
      ⟨by simp [orderly, unambiguous], PubChannel.step_iff.mpr ⟨en, rfl⟩⟩
  refine ⟨inv.chan.step step, server, ?_, ?_, ?_, ?_, ?_, ?_, ?_, inv.fresh, inv.unconfirmed, ?_,
    ?_⟩
  · exact congrArg (· + 1) inv.seq
  · simp [List.range'_1_concat, inv.numbered, Nat.add_comm]
  · simp [PubChannel.writerNext, inv.written, inv.seq]
  · intro r mem
    rcases List.mem_append.mp mem with old | new
    · exact fun id there => Nat.lt_of_lt_of_le (inv.copies r old id there) le
    · cases List.mem_singleton.mp new
      exact stores
  · intro r mem
    rcases List.mem_append.mp mem with old | new
    · exact inv.unstored r old
    · cases List.mem_singleton.mp new
      exact unstored
  · intro c mem
    obtain ⟨r, there, rest⟩ := inv.confirmed c mem
    exact ⟨r, List.mem_append_left _ there, rest⟩
  · intro j mem
    obtain ⟨r, there, rest⟩ := inv.bounced j mem
    exact ⟨r, List.mem_append_left _ there, rest⟩
  · intro h mem
    obtain ⟨r, there, rest⟩ := inv.held h mem
    exact ⟨r, List.mem_append_left _ there, rest⟩
  · intro t mem
    obtain ⟨r, there, rest⟩ := inv.timers t mem
    exact ⟨r, List.mem_append_left _ there, rest⟩

theorem hold {h : Withheld} (mem : r ∈ s.receipts) (tag : r.tag = h.tag) (pub : r.pub = h.pub)
    (stored : r.stored = true)
    (plain : h.ret = none → (s.chan.calls r.pub).mandatory = true → r.copies ≠ [])
    (returns : h.ret ≠ none →
      good = false ∧ (s.chan.calls r.pub).mandatory = true ∧ r.copies = [])
    (first : h.tag ∉ s.confirmedTags) (free : h.tag ∉ s.owed) :
    Linked cfg good { s with held := s.held ++ [h] } := by
  have owed : (Link.owed { s with held := s.held ++ [h] }).Perm (h.tag :: s.owed) := by
    simp only [Link.owed, List.map_append, List.map_cons, List.map_nil, List.append_assoc]
    exact List.perm_middle
  refine ⟨inv.chan, inv.server, inv.seq, inv.numbered, inv.written, inv.copies,
    inv.unstored, inv.confirmed, inv.bounced, ?_, ?_, ?_, inv.timers⟩
  · exact owed.nodup_iff.mpr (List.nodup_cons.mpr ⟨free, inv.fresh⟩)
  · intro t there
    rcases List.mem_cons.mp (owed.subset there) with rfl | old
    · exact first
    · exact inv.unconfirmed t old
  · intro h' there
    rcases List.mem_append.mp there with old | new
    · exact inv.held h' old
    · cases List.mem_singleton.mp new
      exact ⟨r, mem, tag, pub, stored, plain, returns⟩

theorem delay (mem : r ∈ s.receipts) (stored : r.stored = true) (told : s.Told r)
    (first : r.tag ∉ s.confirmedTags) (free : r.tag ∉ s.owed) :
    Linked cfg good { s with timers := s.timers ++ [r.tag] } := by
  have owed : (Link.owed { s with timers := s.timers ++ [r.tag] }) = s.owed ++ [r.tag] := by
    simp only [Link.owed, List.append_assoc]
  refine ⟨inv.chan, inv.server, inv.seq, inv.numbered, inv.written, inv.copies,
    inv.unstored, inv.confirmed, inv.bounced, ?_, ?_, inv.held, ?_⟩
  · rw [owed]
    exact List.nodup_append_comm.mp (List.nodup_cons.mpr ⟨free, inv.fresh⟩)
  · intro t there
    rw [owed] at there
    rcases List.mem_append.mp there with old | new
    · exact inv.unconfirmed t old
    · cases List.mem_singleton.mp new
      exact first
  · intro t there
    rcases List.mem_append.mp there with old | new
    · exact inv.timers t old
    · cases List.mem_singleton.mp new
      exact ⟨r, mem, rfl, stored, told⟩

end Linked

/-- `ReleaseHeld`, one closure after the other. -/
theorem Linked.releaseAll {held : List Withheld} (inv : Linked cfg good { s with held := held }) :
    Linked cfg good (held.foldl Withheld.release { s with held := [] }) := by
  induction held generalizing s with
  | nil => exact inv
  | cons h held ih =>
    obtain ⟨r, mem, tag, pub, stored, plain, returns⟩ := inv.held h List.mem_cons_self
    have rest : Linked cfg good { s with held := held } :=
      inv.move inv.chan rfl rfl rfl rfl (fun _ _ _ => rfl) inv.server (Nat.le_refl _)
        (List.sublist_cons_self h held) (List.Sublist.refl _)
    have free : r.tag ∉ Link.owed { s with held := held } := by
      rw [tag]
      exact (List.nodup_cons.mp inv.fresh).1
    have first : r.tag ∉ s.confirmedTags := inv.unconfirmed r.tag (by simp [Link.owed, tag])
    rw [List.foldl_cons]
    cases ret : h.ret with
    | none =>
      have told : Link.Told { s with held := held } r :=
        fun mandatory nowhere => absurd nowhere (plain ret mandatory)
      have emitted := rest.emitConfirm true mem stored (fun _ => told) first free
      have released : Withheld.release { s with held := [] } h =
          { s.emitConfirm ⟨r.tag, true⟩ with held := [] } := by
        rw [Withheld.release, ret, ← tag]
        rfl
      rw [released]
      exact ih (s := s.emitConfirm ⟨r.tag, true⟩) emitted
    | some x =>
      obtain ⟨bad, mandatory, nowhere⟩ := returns (by simp [ret])
      have returned := rest.emitReturn (x := x) mem stored nowhere mandatory (by simp [bad])
      have told : (Link.emitReturn { s with held := held } x r.pub).Told r :=
        fun _ _ => List.mem_cons_self
      have emitted := returned.emitConfirm true mem stored (fun _ => told) first free
      have released : Withheld.release { s with held := [] } h =
          { (s.emitReturn x r.pub).emitConfirm ⟨r.tag, true⟩ with held := [] } := by
        rw [Withheld.release, ret, ← tag, ← pub]
        rfl
      rw [released]
      exact ih (s := (s.emitReturn x r.pub).emitConfirm ⟨r.tag, true⟩) emitted

/-! ## Publishing -/

theorem perform_publish {b : State} (opened : b.opened k = true) (order : Order)
    (exchange key : Bytes) (msg : Publishing) (action : ConfirmAction) :
    perform order b (.publish k exchange key msg action) =
      publish order b k exchange key msg action := by
  obtain ⟨chan, at_k, still⟩ := (Option.any_eq_true _ _).mp opened
  have closed : chan.closed = false := by simpa using still
  simp [perform, onChannel, at_k, closed]

/-- One copy for each queue, if the message is routed at all. -/
theorem publish_copies {b : State} {exchange : Bytes} (order : Order) (key : Bytes)
    (msg : Publishing) (action : ConfirmAction)
    (there : (b.exchange? exchange).isNone = false) :
    (publish order b k exchange key msg action).nextMsg - b.nextMsg =
      match action with
      | .ack | .hold => (targets b exchange key).length
      | _ => 0 := by
  cases action with
  | nack | drop => simp [publish, there]
  | ack | hold => simp [publish, there, route_nextMsg]

/-- The return of what was just written is the latest. -/
theorem Linked.orderly_return {i tag : Nat} (inv : Linked cfg good s)
    (en : PubChannel.enabled cfg s.chan (.writer i (.transmit tag)) = true)
    (mandatory : (s.chan.calls i).mandatory = true) :
    orderly (PubChannel.writerNext s.chan i (.transmit tag))
      (.env (.brokerReturn (s.chan.calls i).returnOf i)) = true := by
  have busy : s.chan.writer = .busy i (.committed tag) := by
    simp only [PubChannel.enabled, Bool.and_eq_true, decide_eq_true_eq] at en
    exact en.1
  have unreturned : i ∉ s.chan.bounced := by
    intro mem
    obtain ⟨r, there, rfl, -⟩ := inv.bounced i mem
    exact inv.tags.unsent r.pub _ r.tag busy (inv.sent there)
  have unused := inv.next_unused.1
  rw [← inv.seq] at unused
  simp only [orderly, PubChannel.writerNext, mandatory, decide_true, Bool.and_self, Bool.true_and,
    List.any_eq_true, Bool.and_eq_true, Bool.not_eq_eq_eq_not, Bool.not_true, decide_eq_true_eq,
    List.all_eq_true, Bool.or_eq_true]
  refine ⟨(s.chan.nextSeq, i), by simp, ⟨rfl, decide_eq_false unused⟩, fun older mem => ?_⟩
  rcases List.mem_append.mp mem with old | new
  · exact .inr (inv.tags.written older.1 older.2 old)
  · cases List.mem_singleton.mp new
    exact .inl (decide_eq_false unreturned)

/-- The confirm of a message that was routed comes at once or from a timer. -/
theorem Linked.ack {delayed : Bool} (inv : Linked cfg good s) (mem : r ∈ s.receipts)
    (stored : r.stored = true) (told : s.Told r) (first : r.tag ∉ s.confirmedTags)
    (free : r.tag ∉ s.owed) :
    Linked cfg good (if delayed = true then { s with timers := s.timers ++ [r.tag] }
      else s.emitConfirm ⟨r.tag, true⟩) := by
  split
  · exact inv.delay mem stored told first free
  · exact inv.emitConfirm true mem stored (fun _ => told) first free

theorem Linked.publish {i tag : Nat} {msg : Publishing} {action : ConfirmAction} {delayed : Bool}
    {order : Order} (inv : Linked cfg good s) (opened : s.broker.opened k = true)
    (en : PubChannel.enabled cfg s.chan (.writer i (.transmit tag)) = true)
    (ok : good = true → clear s (.publish order i tag msg action delayed) = true) :
    Linked cfg good (s.publish order k i msg action delayed) := by
  have server := inv.server.step (S := broker)
    (a := (order, .publish k (s.chan.calls i).exchange (s.chan.calls i).key msg action)) rfl
  have le := nextMsg_le inv.server order
    (.publish k (s.chan.calls i).exchange (s.chan.calls i).key msg action)
  rw [perform_publish opened] at server le
  unfold Link.publish
  dsimp only
  generalize after_eq : Fakebroker.publish order s.broker k (s.chan.calls i).exchange
    (s.chan.calls i).key msg action = after at server le ⊢
  generalize copies_eq : List.range' s.broker.nextMsg (after.nextMsg - s.broker.nextMsg) = copies
  have stores : ∀ id ∈ copies, id < after.nextMsg := by
    intro id mem
    rw [← copies_eq, List.mem_range'_1] at mem
    omega
  have unused := inv.next_unused
  split
  · have sent := inv.send none [] en server le (by simp) fun _ => rfl
    exact sent.move sent.chan rfl rfl rfl rfl (fun _ _ _ => rfl) sent.server (Nat.le_refl _)
      (List.nil_sublist _) (List.Sublist.refl _)
  · next there =>
    rw [Bool.not_eq_true] at there
    have count := publish_copies (k := k) order (s.chan.calls i).key msg action there
    rw [after_eq] at count
    have unstored : Receipt.stored ⟨s.publishSeq + 1, i, some action, copies⟩ = false →
        copies = [] := by
      intro no
      cases action with
      | ack | hold => cases no
      | nack | drop => rw [← copies_eq, count]; rfl
    have nowhere (routes : action = .ack ∨ action = .hold) : copies = [] ↔
        targets s.broker (s.chan.calls i).exchange (s.chan.calls i).key = [] := by
      rcases routes with rfl | rfl <;>
        rw [← copies_eq, count, List.range'_eq_nil_iff, List.length_eq_zero_iff]
    have sent := inv.send (some action) copies en server le stores unstored
    have mem : (⟨s.publishSeq + 1, i, some action, copies⟩ : Receipt) ∈
        s.receipts ++ [⟨s.publishSeq + 1, i, some action, copies⟩] := by simp
    cases action with
    | nack => exact sent.emitConfirm false mem rfl nofun unused.1 unused.2
    | drop => exact sent
    | hold =>
      have nowhere := nowhere (.inr rfl)
      refine sent.hold mem rfl rfl rfl ?_ ?_ unused.1 unused.2
      · intro none mandatory empty
        simp [nowhere.mp empty, show (s.chan.calls i).mandatory = true from mandatory] at none
      · intro some
        have both : targets s.broker (s.chan.calls i).exchange (s.chan.calls i).key = [] ∧
            (s.chan.calls i).mandatory = true := by
          by_contra no
          exact some (if_neg no)
        refine ⟨?_, both.2, nowhere.mpr both.1⟩
        by_contra on
        have := ok (by simpa using on)
        simp [clear, there, both.1, both.2] at this
    | ack =>
      have nowhere := nowhere (.inl rfl)
      by_cases returns : targets s.broker (s.chan.calls i).exchange (s.chan.calls i).key = [] ∧
          (s.chan.calls i).mandatory = true
      · simp only [if_pos returns, Option.elim_some]
        have returned := sent.emitReturn mem rfl (nowhere.mpr returns.1) returns.2
          fun _ => inv.orderly_return en returns.2
        exact returned.ack mem rfl (fun _ _ => List.mem_cons_self) unused.1 unused.2
      · simp only [if_neg returns, Option.elim_none]
        exact sent.ack mem rfl (fun mandatory empty => absurd ⟨nowhere.mp empty, mandatory⟩ returns)
          unused.1 unused.2

/-! ## Runs -/

theorem Linked.step {t : Link} {a : LinkAct} (inv : Linked cfg good s)
    (ok : good = true → clear s a = true) (hstep : (link cfg k).step s a = some t) :
    Linked cfg good t := by
  cases a with
  | own a =>
    obtain ⟨en, ⟨⟩⟩ := Option.ite_none_right_eq_some.mp hstep
    obtain ⟨own, en⟩ := Bool.and_eq_true_iff.mp en
    have calm : orderly s.chan a = true := by
      unfold orderly
      split
      · cases own
      · rfl
    have step : (publisher cfg good).step s.chan a = some (PubChannel.next cfg s.chan a) := by
      refine System.restrict_step.mpr ⟨?_, PubChannel.step_iff.mpr ⟨en, rfl⟩⟩
      cases good with
      | false => rfl
      | true => simpa [calm, clear] using ok rfl
    obtain ⟨seq, transmitted, confirmed, bounced⟩ := own_frame cfg s.chan own
    exact inv.move (inv.chan.step step) seq transmitted confirmed bounced
      (fun _ _ sent => ticket_next inv.shape en sent) inv.server (Nat.le_refl _)
      (List.Sublist.refl _) (List.Sublist.refl _)
  | publish order i tag msg action delayed =>
    obtain ⟨en, ⟨⟩⟩ := Option.ite_none_right_eq_some.mp hstep
    obtain ⟨opened, en⟩ := Bool.and_eq_true_iff.mp en
    exact inv.publish opened en ok
  | act order a =>
    simp only [link, Link.step] at hstep
    split at hstep
    · cases hstep
    · cases hstep
      refine inv.move inv.chan rfl rfl rfl rfl (fun _ _ _ => rfl)
        (inv.server.step (S := broker) (a := (order, a)) rfl)
        (nextMsg_le inv.server order a) ?_ (List.Sublist.refl _)
      split
      · exact List.Sublist.refl _
      · exact List.nil_sublist _
  | releaseHeld =>
    cases hstep
    exact inv.releaseAll
  | fire tag =>
    obtain ⟨mem, ⟨⟩⟩ := Option.ite_none_right_eq_some.mp hstep
    obtain ⟨r, there, rfl, stored, told⟩ := inv.timers tag mem
    have fired : Linked cfg good { s with timers := s.timers.erase r.tag } :=
      inv.move inv.chan rfl rfl rfl rfl (fun _ _ _ => rfl) inv.server (Nat.le_refl _)
        (List.Sublist.refl _) List.erase_sublist
    have owes : r.tag ∈ s.owed := List.mem_append_right _ mem
    split
    · refine fired.emitConfirm true there stored (fun _ => told) (inv.unconfirmed _ owes) ?_
      -- the tag was owed once
      have fresh := inv.fresh
      rw [Link.owed, List.nodup_append'] at fresh
      simp only [Link.owed, List.mem_append, not_or]
      exact ⟨fun held => fresh.2.2 held mem, fresh.2.1.not_mem_erase⟩
    · exact fired
  | notifyClose e =>
    obtain ⟨en, ⟨⟩⟩ := Option.ite_none_right_eq_some.mp hstep
    obtain ⟨-, en⟩ := Bool.and_eq_true_iff.mp en
    have step : (publisher cfg good).step s.chan (.env (.closeTransport e)) =
        some (PubChannel.envNext s.chan (.closeTransport e)) :=
      System.restrict_step.mpr
        ⟨by simp [orderly, unambiguous], PubChannel.step_iff.mpr ⟨en, rfl⟩⟩
    exact inv.move (inv.chan.step step) rfl rfl rfl rfl (fun _ _ _ => rfl) inv.server
      (Nat.le_refl _) (List.Sublist.refl _) (List.Sublist.refl _)

theorem Linked.init (start : (link cfg k).init s) : Linked cfg good s := by
  obtain ⟨chan, server, seq, held, timers, receipts⟩ := start
  constructor <;> simp_all [PubChannel.State.start, Link.owed]
  exact .init rfl

theorem linked_of_clear (reach : ((link cfg k).restrict clear).Reachable s) : Linked cfg true s :=
  reach.invariant _ (fun _ start => .init (k := k) start) fun _ _ _ _ inv hstep =>
    inv.step (fun _ => (System.restrict_step.mp hstep).1) (System.restrict_step.mp hstep).2

/-- Where the result is nil or definite, it is the recorded verdict. -/
theorem verdict_of_result {p : PubChannel.State} {i : Nat} {r : Option PubChannel.Err}
    (reach : (PubChannel.system cfg).Reachable p) (returned : (p.calls i).pc.result = some r)
    (sure : ∀ e, r = some e → ∃ x, e = .publish x ∧ x.ambiguous = false) :
    ∃ v, (p.calls i).outcome = some ⟨v, none⟩ ∧ PubChannel.Judged (p.calls i) v ∧
      (r = none → v = none) ∧ ∀ x, r = some (.publish x) → v = some x.err := by
  have sound := PubChannel.sound_of_reachable reach i
  have result := sound.result
  cases pc : (p.calls i).pc with
  | returned r' seen =>
    have handed : (p.calls i).pc.handedOff = true := by rw [pc]; rfl
    rw [pc] at result returned
    cases returned
    rcases result with ⟨⟨v, sendErr⟩, closeErr, ho, rfl, -⟩ | ⟨x, rfl, ambiguous⟩
    · have explained := sound.outcome handed _ ho
      cases sendErr with
      | some e =>
        obtain ⟨x, rfl, -⟩ := sure e rfl
        cases explained.2.1
      | none =>
        refine ⟨v, ho, explained, ?_, ?_⟩
        · cases v <;> simp [PubChannel.Call.report]
        · cases v with
          | none => simp [PubChannel.Call.report]
          | some v =>
            rintro x ⟨⟩
            rfl
    · obtain ⟨x', eq, clear⟩ := sure _ rfl
      cases eq
      simp [clear] at ambiguous
  | refused e | withdrawn e =>
    rw [pc] at result returned
    cases returned
    obtain ⟨x, rfl, -⟩ := sure e rfl
    cases result
  | _ => simp [pc, PubChannel.Pc.result] at returned

/-- The broker's receipt for what it answered. -/
theorem Linked.receipt {i : Nat} {ack : Bool} (inv : Linked cfg good s)
    (answered : PubChannel.Answered s.chan i ack) :
    ∃ e ∈ s.receipts, e.pub = i ∧ e.Answers ack ∧ (ack = true → s.Told e) := by
  obtain ⟨t, sent, confirmed⟩ := answered
  obtain ⟨e, mem, tag, answers, told⟩ := inv.confirmed _ confirmed
  have tag : e.tag = t := tag
  exact ⟨e, mem, inv.tags.unique t _ _ (tag ▸ inv.sent mem) sent, answers, told⟩

/-- A broker with one connection, one channel and one queue. -/
def oneQueue : State :=
  let order : Order := ⟨fun _ xs => xs, fun _ _ => .refl _⟩
  [Act.dial, .channel 0, .queueDeclare 0 [113] true false false []].foldl (perform order) {}

theorem oneQueue_reachable : broker.Reachable oneQueue := by
  let order : Order := ⟨fun _ xs => xs, fun _ _ => .refl _⟩
  exact .run (.init rfl) (rfl : broker.run [(order, .dial), (order, .channel 0),
    (order, .queueDeclare 0 [113] true false false [])] {} = some oneQueue)

/-- A mandatory publication to the default exchange, up to its confirm under the tag 1. -/
def publication (key : Bytes) : List LinkAct :=
  [.own (.env (.call [] key [3] [4] true)), .own (.caller 0 .enter), .own (.caller 0 .takeSlot),
    .own (.handOff 0), .own (.writer 0 .checkCtx), .own (.writer 0 .checkClosed),
    .own (.writer 0 .register), .own (.writer 0 (.commit 1)),
    .publish ⟨fun _ xs => xs, fun _ _ => .refl _⟩ 0 1 ⟨0, []⟩ .ack true,
    .own (.caller 0 .seeCommit), .fire 1]

/-- The call settles with the verdict `v`. -/
def settled (v : Option PubChannel.Cause) : List LinkAct :=
  [.own (.env (.read ⟨1, true⟩)), .own (.loop (.takeConfirm ⟨1, true⟩)),
    .own (.loop (.settle 0 v)), .own (.loop (.release 0 v)), .own (.caller 0 (.seeDone ⟨v, none⟩))]

/-- When no return is withheld or ambiguous: a mandatory message whose `publish` returns `nil` went
to a queue, and `ErrUnroutable` is only reported for a mandatory message that went to none. -/
theorem publish_routed_at_broker (reach : ((link cfg k).restrict clear).Reachable s) (i : Nat)
    (r : Option PubChannel.Err) (returned : (s.chan.calls i).pc.result = some r) :
    (r = none → (s.chan.calls i).mandatory = true →
      ∃ e ∈ s.receipts, e.pub = i ∧ e.stored = true ∧ e.copies ≠ []) ∧
    (∀ x, r = some (.publish x) → x.err = .unroutable → (s.chan.calls i).mandatory = true ∧
      ∃ e ∈ s.receipts, e.pub = i ∧ e.stored = true ∧ e.copies = []) := by
  have inv := linked_of_clear reach
  have sound := PubChannel.sound_of_reachable inv.chan.of_restrict i
  have attributed : PubChannel.Attributed s.chan := PubChannel.attributed_of_reachable inv.chan
  constructor
  · rintro rfl mandatory
    obtain ⟨v, settled, judged, nil, -⟩ := verdict_of_result inv.chan.of_restrict returned nofun
    cases nil rfl
    obtain ⟨e, mem, rfl, stored, told⟩ := inv.receipt (sound.verdict true judged)
    refine ⟨e, mem, rfl, stored, fun nowhere => ?_⟩
    -- its return was taken before its confirm
    have marked : (s.chan.calls e.pub).returned = true := by
      refine (attributed.bounced e.pub (told rfl mandatory nowhere)).resolve_right ?_
      rintro ⟨x, frame⟩
      have untaken := (attributed.framed x e.pub frame).2.2.2.2.1
      rw [show (s.chan.calls e.pub).verdict = some true from judged] at untaken
      cases untaken
    have verdict := attributed.outcome e.pub _ true settled judged
    simp [PubChannel.Call.judge, marked] at verdict
  · rintro x rfl unroutable
    obtain ⟨v, settled, judged, -, same⟩ := verdict_of_result inv.chan.of_restrict returned
      (by rintro _ ⟨⟩; exact ⟨x, rfl, by simp [PubChannel.PublishError.ambiguous, unroutable]⟩)
    rw [same x rfl, unroutable] at judged settled
    have verdict := attributed.outcome i _ true settled judged
    have marked : (s.chan.calls i).returned = true := by
      by_contra unmarked
      simp [PubChannel.Call.judge, unmarked] at verdict
    obtain ⟨e, mem, pub, stored, nowhere, mandatory⟩ :=
      inv.bounced i (attributed.returned i marked)
    exact ⟨mandatory, e, mem, pub, stored, nowhere⟩

/-- A mandatory message for a queue that does not exist. -/
theorem publish_routed_at_broker_nowhere :
    ∃ s x, ((link ⟨1, []⟩ 0).restrict clear).Reachable s ∧
      (s.chan.calls 0).pc.result = some (some (.publish x)) ∧ x.err = .unroutable ∧
      ∃ e ∈ s.receipts, e.pub = 0 ∧ e.stored = true ∧ e.copies = [] := by
  have reach : ((link ⟨1, []⟩ 0).restrict clear).Reachable _ :=
    .run (.init ⟨rfl, oneQueue_reachable, rfl, rfl, rfl, rfl⟩)
      (rfl : ((link ⟨1, []⟩ 0).restrict clear).run
        (publication [114] ++ [.own (.loop (.takeReturn ⟨[3], [], [114]⟩ 0))] ++
          settled (some .unroutable)) { chan := .start, broker := oneQueue } = some _)
  exact ⟨_, _, reach, rfl, rfl, ((publish_routed_at_broker reach 0 _ rfl).2 _ rfl rfl).2⟩

end

end Protobus.Fakebroker
