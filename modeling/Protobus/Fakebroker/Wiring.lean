import Protobus.Fakebroker.Model
import Protobus.Library.Table
import Mathlib.Data.List.Nodup

/-!
# Who consumes from what

A queue lists its consumers, a channel lists its own under their tags, and the queues have names.
Messages move without touching any of this, so it is stated for the wiring of a state alone. A
consumer of a queue is listed by its channel, and the channel is open. Only while a channel shuts
down, before its consumers are removed, is it closed and still has some (`leaving`).
-/
namespace Protobus.Fakebroker
open Library Table

structure Listing where
  closed : Bool
  consumers : List (Bytes × Nat)

/-- What a consumer is from its start. -/
structure Identity where
  tag : Bytes
  ch : Nat
  q : Nat

structure Wiring where
  queues : List (List Nat)
  channels : List Listing
  consumers : List Identity
  names : List (Bytes × Nat)

def Channel.listing (chan : Channel) : Listing := ⟨chan.closed, chan.consumers⟩

def Consumer.identity (cons : Consumer) : Identity := ⟨cons.tag, cons.ch, cons.q⟩

def State.wiring (s : State) : Wiring where
  queues := s.queues.map Queue.consumers
  channels := s.channels.map Channel.listing
  consumers := s.consumers.map Consumer.identity
  names := s.names

namespace Wiring
variable {w : Wiring} {leaving : Option Nat} {k q c : Nat} {me : Identity}

/-- A consumer of the queue `q` is listed by its channel. -/
def Attached (leaving : Option Nat) (w : Wiring) (q c : Nat) : Prop :=
  ∃ me chan, w.consumers[c]? = some me ∧ me.q = q ∧ w.channels[me.ch]? = some chan ∧
    (me.tag, c) ∈ chan.consumers ∧ (chan.closed = true → leaving = some me.ch)

structure Ok (leaving : Option Nat) (w : Wiring) : Prop where
  attached : Rows (fun q cs => ∀ c ∈ cs, Attached leaving w q c) w.queues
  listed : Rows (fun k chan => ∀ p ∈ chan.consumers,
    ∃ me, w.consumers[p.2]? = some me ∧ me.tag = p.1 ∧ me.ch = k) w.channels
  keys : Rows (fun _ chan => (chan.consumers.map Prod.fst).Nodup) w.channels
  names : ∀ p ∈ w.names, p.2 < w.queues.length

/-! ## Consumers go -/

def detach (w : Wiring) (c : Nat) : Wiring :=
  match w.consumers[c]? with
  | none => w
  | some me =>
    { w with
      channels := w.channels.modify me.ch fun chan =>
        { chan with consumers := chan.consumers.filter fun p => p.1 ≠ me.tag }
      queues := w.queues.modify me.q fun cs => cs.filter fun d => d ≠ c }

/-- Nobody else is listed under the tag of the consumer. -/
def Own (w : Wiring) (c : Nat) : Prop :=
  ∀ me chan d, w.consumers[c]? = some me → w.channels[me.ch]? = some chan →
    (me.tag, d) ∈ chan.consumers → d = c

theorem Ok.own_of_listed (ok : w.Ok leaving) {chan : Listing} {p : Bytes × Nat}
    (found : w.channels[k]? = some chan) (mem : p ∈ chan.consumers) : w.Own p.2 := by
  obtain ⟨me, at_c, tag, ch⟩ := ok.listed k chan found p mem
  intro me' chan' d at_c' found' mem'
  obtain rfl : me = me' := Option.some.inj (at_c.symm.trans at_c')
  rw [ch] at found'
  obtain rfl : chan = chan' := Option.some.inj (found.symm.trans found')
  rw [tag] at mem'
  have same := List.inj_on_of_nodup_map (ok.keys k chan found) mem' mem rfl
  rw [← same]

theorem Ok.own_of_attached (ok : w.Ok leaving) {cs : List Nat} (found : w.queues[q]? = some cs)
    (mem : c ∈ cs) : w.Own c := by
  obtain ⟨me, chan, -, -, at_ch, listed, -⟩ := ok.attached q cs found c mem
  exact ok.own_of_listed at_ch listed

theorem detach_consumers (w : Wiring) (c : Nat) : (w.detach c).consumers = w.consumers := by
  unfold detach
  split <;> rfl

theorem detach_names (w : Wiring) (c : Nat) : (w.detach c).names = w.names := by
  unfold detach
  split <;> rfl

theorem detach_length (w : Wiring) (c : Nat) :
    (w.detach c).queues.length = w.queues.length := by
  unfold detach
  split <;> simp

/-- A listing loses the tag, if it is the channel's. -/
theorem detach_channel {chan' : Listing} (found : (w.detach c).channels[k]? = some chan') :
    ∃ chan, w.channels[k]? = some chan ∧ chan'.consumers.Sublist chan.consumers := by
  unfold detach at found
  split at found
  · exact ⟨chan', found, .refl _⟩
  · obtain ⟨chan, before, rfl⟩ := getElem?_modify_some found
    refine ⟨chan, before, ?_⟩
    split
    · exact List.filter_sublist
    · exact .refl _

theorem Own.detach (own : w.Own c) (d : Nat) : (w.detach d).Own c := by
  intro me chan' e at_c found mem
  rw [detach_consumers] at at_c
  obtain ⟨chan, before, sub⟩ := detach_channel found
  exact own me chan e at_c before (sub.subset mem)

/-- A queue keeps its other consumers. -/
theorem detach_queue {cs' : List Nat} (found : (w.detach c).queues[q]? = some cs') :
    ∃ cs, w.queues[q]? = some cs ∧
      ∀ d ∈ cs', d ∈ cs ∧ (d = c → ∀ me, w.consumers[c]? = some me → me.q ≠ q) := by
  unfold detach at found
  split at found
  · next missing => exact ⟨cs', found, fun d mem => ⟨mem, fun _ me there => by simp_all⟩⟩
  · next me there =>
    obtain ⟨cs, before, rfl⟩ := getElem?_modify_some found
    refine ⟨cs, before, fun d mem => ?_⟩
    split at mem
    · obtain ⟨mem, other⟩ := List.mem_filter.mp mem
      exact ⟨mem, fun same => absurd same (by simpa using other)⟩
    · next apart =>
      refine ⟨mem, fun _ me' there' => ?_⟩
      cases there.symm.trans there'
      exact apart

theorem Attached.detach {d : Nat} (att : Attached leaving w q d) (own : w.Own c)
    (stays : d = c → ∀ me, w.consumers[c]? = some me → me.q ≠ q) :
    Attached leaving (w.detach c) q d := by
  obtain ⟨me, chan, at_d, at_q, at_ch, listed, shut⟩ := att
  unfold Wiring.detach
  split
  · exact ⟨me, chan, at_d, at_q, at_ch, listed, shut⟩
  · next mine at_c =>
    by_cases same : mine.ch = me.ch
    · have tags : me.tag ≠ mine.tag := by
        intro eq
        obtain rfl : d = c := own mine chan d at_c (same ▸ at_ch) (eq ▸ listed)
        cases at_c.symm.trans at_d
        exact stays rfl me at_d at_q
      refine ⟨me, { chan with consumers := chan.consumers.filter fun p => p.1 ≠ mine.tag }, at_d,
        at_q, ?_, List.mem_filter.mpr ⟨listed, by simpa using tags⟩, shut⟩
      simp only [same]
      rw [modify_eq_set at_ch, getElem?_set_self_of_some at_ch]
    · refine ⟨me, chan, at_d, at_q, ?_, listed, shut⟩
      simpa [List.getElem?_modify, same] using at_ch

theorem Ok.detach (ok : w.Ok leaving) (own : w.Own c) : (w.detach c).Ok leaving where
  attached := by
    intro q cs' found d mem
    obtain ⟨cs, before, rest⟩ := detach_queue found
    exact (ok.attached q cs before d (rest d mem).1).detach own (rest d mem).2
  listed := by
    intro k chan' found p mem
    obtain ⟨chan, before, sub⟩ := detach_channel found
    rw [detach_consumers]
    exact ok.listed k chan before p (sub.subset mem)
  keys := by
    intro k chan' found
    obtain ⟨chan, before, sub⟩ := detach_channel found
    exact (ok.keys k chan before).sublist (sub.map _)
  names := by
    rw [detach_names, detach_length]
    exact ok.names

theorem Ok.detachAll {cs : List Nat} (ok : w.Ok leaving) (own : ∀ c ∈ cs, w.Own c) :
    (cs.foldl Wiring.detach w).Ok leaving := by
  induction cs generalizing w with
  | nil => exact ok
  | cons c cs ih =>
    apply ih (ok.detach (own c (by simp)))
    intro d mem
    exact (own d (by simp [mem])).detach c

/-- Consumers of a channel that are still attached somewhere. -/
def Staying (w : Wiring) (k : Nat) (cs : List Nat) : Prop :=
  ∀ (q : Nat) (ds : List Nat) d me, w.queues[q]? = some ds → d ∈ ds →
    w.consumers[d]? = some me → me.ch = k → d ∈ cs

/-- A channel lists all its consumers that are attached. -/
theorem Ok.staying {chan : Listing} {cs : List Nat} (ok : w.Ok leaving)
    (found : w.channels[k]? = some chan) (all : ∀ p ∈ chan.consumers, p.2 ∈ cs) :
    w.Staying k cs := by
  intro q ds d me at_q mem at_d at_k
  obtain ⟨me', chan', at_d', -, at_ch, listed, -⟩ := ok.attached q ds at_q d mem
  cases at_d.symm.trans at_d'
  rw [at_k] at at_ch
  cases found.symm.trans at_ch
  exact all (me.tag, d) listed

theorem Ok.staying_detach {cs : List Nat} (ok : w.Ok leaving) (stay : w.Staying k (c :: cs)) :
    (w.detach c).Staying k cs := by
  intro q ds' d me found mem at_d at_k
  obtain ⟨ds, before, rest⟩ := detach_queue found
  obtain ⟨there, gone⟩ := rest d mem
  rw [detach_consumers] at at_d
  obtain rfl | later := List.mem_cons.mp (stay q ds d me before there at_d at_k)
  · obtain ⟨me', -, at_d', at_q, -⟩ := ok.attached q ds before d there
    cases at_d.symm.trans at_d'
    exact absurd at_q (gone rfl me at_d)
  · exact later

/-- Once its consumers are gone, a closed channel is like any other. -/
theorem Ok.left (ok : w.Ok (some k)) (stay : w.Staying k []) : w.Ok none := by
  refine ⟨?_, ok.listed, ok.keys, ok.names⟩
  intro q cs found c mem
  obtain ⟨me, chan, at_c, at_q, at_ch, listed, shut⟩ := ok.attached q cs found c mem
  refine ⟨me, chan, at_c, at_q, at_ch, listed, fun closed => ?_⟩
  have same := Option.some.inj (shut closed)
  exact absurd (stay q cs c me found mem at_c same.symm) List.not_mem_nil

/-! ## Channels, queues and consumers come -/

theorem Ok.close {chan : Listing} (ok : w.Ok none) (found : w.channels[k]? = some chan) :
    { w with channels := w.channels.set k { chan with closed := true } }.Ok (some k) := by
  refine ⟨?_, ok.listed.set (ok.listed k chan found), ok.keys.set (ok.keys k chan found), ok.names⟩
  intro q cs at_q c mem
  obtain ⟨me, chan', at_c, into, at_ch, listed, shut⟩ := ok.attached q cs at_q c mem
  by_cases same : k = me.ch
  · subst same
    cases found.symm.trans at_ch
    exact ⟨me, _, at_c, into, getElem?_set_self_of_some found, listed, fun _ => rfl⟩
  · refine ⟨me, chan', at_c, into, (getElem?_set_of_ne same).trans at_ch, listed, fun closed => ?_⟩
    cases shut closed

theorem Ok.addChannel (ok : w.Ok leaving) :
    { w with channels := w.channels ++ [(⟨false, []⟩ : Listing)] }.Ok leaving := by
  refine ⟨?_, ok.listed.concat (by simp), ok.keys.concat (by simp), ok.names⟩
  refine ok.attached.imp ?_
  intro q cs _ att c mem
  obtain ⟨me, chan, at_c, at_q, at_ch, rest⟩ := att c mem
  exact ⟨me, chan, at_c, at_q, getElem?_concat_of_some at_ch, rest⟩

theorem Ok.addQueue (ok : w.Ok leaving) (name : Bytes) :
    { w with
      queues := w.queues ++ [[]]
      names := w.names ++ [(name, w.queues.length)] }.Ok leaving := by
  refine ⟨ok.attached.concat (by simp), ok.listed, ok.keys, ?_⟩
  intro p mem
  rw [List.length_append, List.length_singleton]
  obtain old | new := List.mem_append.mp mem
  · exact Nat.lt_succ_of_lt (ok.names p old)
  · rw [List.mem_singleton.mp new]
    exact Nat.lt_succ_self _

def unname (w : Wiring) (keep : Bytes × Nat → Bool) : Wiring :=
  { w with names := w.names.filter keep }

theorem Ok.unname (ok : w.Ok leaving) (keep : Bytes × Nat → Bool) : (w.unname keep).Ok leaving :=
  ⟨ok.attached, ok.listed, ok.keys, fun p mem => ok.names p (List.mem_filter.mp mem).1⟩

def attach (w : Wiring) (tag : Bytes) (k q : Nat) (chan : Listing) (cs : List Nat) : Wiring where
  queues := w.queues.set q (cs ++ [w.consumers.length])
  channels := w.channels.set k
    { chan with consumers := chan.consumers ++ [(tag, w.consumers.length)] }
  consumers := w.consumers ++ [⟨tag, k, q⟩]
  names := w.names

theorem Attached.attach {tag : Bytes} {k' q' : Nat} {chan : Listing} {cs : List Nat}
    (att : Attached leaving w q c) (at_k : w.channels[k']? = some chan) :
    Attached leaving (w.attach tag k' q' chan cs) q c := by
  obtain ⟨me, chan', at_c, into, at_ch, listed, shut⟩ := att
  have at_c' : (w.attach tag k' q' chan cs).consumers[c]? = some me :=
    getElem?_concat_of_some at_c
  by_cases same : k' = me.ch
  · subst same
    cases at_k.symm.trans at_ch
    exact ⟨me, _, at_c', into, getElem?_set_self_of_some at_k,
      List.mem_append_left _ listed, shut⟩
  · exact ⟨me, chan', at_c', into, (getElem?_set_of_ne same).trans at_ch, listed, shut⟩

/-- A consumer starts under a tag its channel has not listed. -/
theorem Ok.attach {chan : Listing} {cs : List Nat} {tag : Bytes} (ok : w.Ok leaving)
    (at_k : w.channels[k]? = some chan) (opened : chan.closed = false)
    (at_q : w.queues[q]? = some cs) (fresh : tag ∉ chan.consumers.map Prod.fst) :
    (w.attach tag k q chan cs).Ok leaving := by
  have self : (w.attach tag k q chan cs).consumers[w.consumers.length]? = some ⟨tag, k, q⟩ := by
    simp [Wiring.attach]
  refine ⟨?_, ?_, ?_, ?_⟩
  · apply Rows.set
    · exact ok.attached.imp fun q' cs' _ att c mem => (att c mem).attach at_k
    · intro c mem
      obtain old | new := List.mem_append.mp mem
      · exact (ok.attached q cs at_q c old).attach at_k
      · rw [List.mem_singleton.mp new]
        refine ⟨_, _, self, rfl, getElem?_set_self_of_some at_k, by simp, ?_⟩
        intro closed
        simp [opened] at closed
  · have old : Rows (fun k' chan' => ∀ p ∈ chan'.consumers, ∃ me,
        (w.attach tag k q chan cs).consumers[p.2]? = some me ∧ me.tag = p.1 ∧ me.ch = k')
        w.channels := by
      refine ok.listed.imp ?_
      intro k' chan' _ listed p mem
      obtain ⟨me, at_c, rest⟩ := listed p mem
      exact ⟨me, getElem?_concat_of_some at_c, rest⟩
    apply Rows.set old
    intro p mem
    obtain before | new := List.mem_append.mp mem
    · exact old k chan at_k p before
    · rw [List.mem_singleton.mp new]
      exact ⟨_, self, rfl, rfl⟩
  · apply ok.keys.set
    rw [List.map_append, List.nodup_append']
    refine ⟨ok.keys k chan at_k, by simp, ?_⟩
    simpa using fresh
  · intro p mem
    have lt := ok.names p mem
    simpa [Wiring.attach] using lt

end Wiring
end Protobus.Fakebroker
