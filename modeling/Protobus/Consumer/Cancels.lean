import Protobus.Library.Bytes
import Protobus.Library.Multimap
import Protobus.Library.Table
import Protobus.Library.Transition

/-!
# Cancel registrations

A streaming handler registers its delivery under the correlation id of the request (`cancellable`),
and the delivery ends the registration (`release`), from another goroutine and in either order. A
cancel notice takes a snapshot of the entries under its id and calls them one by one. What is done
under a mutex is one step; `cancellable` holds the mutex of its delivery while it takes that of the
registry, and `release` has given it up by then.
-/
namespace Protobus.Consumer.Cancels
open Library (Bytes Multimap System)

/-- A pointer to a `cancelEntry`, with the delivery that its function cancels. -/
structure Entry where
  number : Nat
  delivery : Nat
deriving DecidableEq

/-- The function that `add` returns: it removes an entry, or nothing where the id was empty. -/
abbrev Remove := Option Entry

/-- The mutex of a delivery, with the call of `cancellable` that has it. -/
inductive Mutex
  | free
  | adding
  | added (remove : Remove)
deriving DecidableEq

/-- The fields of a `deliveryControl` that its mutex protects. `leaving` has the functions that
calls of `release` took and have not called yet. The last two fields record what happened: the
entry that was made, and that it was removed. -/
structure Control where
  released : Bool := false
  unlisten : Option Remove := none
  mu : Mutex := .free
  leaving : List Remove := []
  entry : Option Entry := none
  removed : Bool := false

/-- `listens` is false for a delivery without a registry. -/
structure Delivery where
  id : Bytes
  listens : Bool
  cancelled : Bool := false
  ctl : Control := {}

/-- A call of `cancelRegistry.cancel`: the entries it found, those it has yet to call, and those it
has called. -/
structure Call where
  id : Bytes
  snapshot : Finset Entry
  left : Finset Entry
  reached : Finset Entry := ∅

structure State where
  registry : Multimap Bytes Entry := Multimap.empty
  fresh : Nat := 0
  deliveries : List Delivery := []
  calls : List Call := []

inductive Act
  | deliver (id : Bytes) (listens : Bool)
  /-- `cancellable` locks and looks. -/
  | enter (i : Nat)
  | add (i : Nat)
  | leave (i : Nat)
  | release (i : Nat)
  | unlisten (i k : Nat)
  | cancel (id : Bytes)
  | fire (k : Nat) (e : Entry)

namespace Control
variable (c : Control)

/-- `cancellable` up to `add`, or all of it where there is nothing to do. -/
def enter (listens : Bool) : Option Control :=
  if c.mu = .free then
    if c.released || c.unlisten.isSome || !listens then some c else some { c with mu := .adding }
  else none

/-- The entry is made, unless the id is empty. -/
def add (remove : Remove) : Option Control :=
  if c.mu = .adding then some { c with mu := .added remove, entry := remove } else none

def leave : Option Control :=
  match c.mu with
  | .added remove => some { c with mu := .free, unlisten := some remove }
  | _ => none

def release : Option Control :=
  if c.mu = .free then
    some { c with released := true, unlisten := none, leaving := c.leaving ++ c.unlisten.toList }
  else none

/-- The function that `release` took is called. -/
def depart (k : Nat) : Option (Remove × Control) :=
  (c.leaving[k]?).map fun remove =>
    (remove, { c with leaving := c.leaving.eraseIdx k, removed := true })

end Control

def onControl (s : State) (i : Nat) (f : Delivery → Option Control) : Option State :=
  (s.deliveries[i]?).bind fun d => (f d).map fun ctl =>
    { s with deliveries := s.deliveries.set i { d with ctl } }

/-- `add` under an id that is not empty. -/
def register (s : State) (i : Nat) : Option State :=
  (s.deliveries[i]?).bind fun d =>
    if d.id = [] then onControl s i fun d => d.ctl.add none
    else (onControl s i fun d => d.ctl.add (some ⟨s.fresh, i⟩)).map fun t =>
      { t with registry := s.registry.add d.id ⟨s.fresh, i⟩, fresh := s.fresh + 1 }

def unregister (s : State) (i k : Nat) : Option State :=
  (s.deliveries[i]?).bind fun d => (d.ctl.depart k).map fun (remove, ctl) =>
    { s with
      deliveries := s.deliveries.set i { d with ctl }
      registry := remove.elim s.registry (s.registry.remove d.id) }

/-- `e.cancel(ErrCancelled)`. -/
def fire (s : State) (k : Nat) (e : Entry) : Option State :=
  (s.calls[k]?).bind fun call =>
    if e ∈ call.left then
      (s.deliveries[e.delivery]?).map fun d => { s with
        calls := s.calls.set k
          { call with left := call.left.erase e, reached := insert e call.reached }
        deliveries := s.deliveries.set e.delivery { d with cancelled := true } }
    else none

def step (s : State) : Act → Option State
  | .deliver id listens => some { s with deliveries := s.deliveries ++ [{ id, listens }] }
  | .enter i => onControl s i fun d => d.ctl.enter d.listens
  | .add i => register s i
  | .leave i => onControl s i fun d => d.ctl.leave
  | .release i => onControl s i fun d => d.ctl.release
  | .unlisten i k => unregister s i k
  | .cancel id => some { s with
      calls := s.calls ++ [{ id, snapshot := s.registry.get id, left := s.registry.get id }] }
  | .fire k e => fire s k e

def cancels : System State Act where
  init s := s = {}
  step := step

/-- No call is in progress. -/
def State.Quiet (s : State) : Prop :=
  (∀ d ∈ s.deliveries, d.ctl.mu = .free ∧ d.ctl.leaving = []) ∧ ∀ call ∈ s.calls, call.left = ∅

/-! ## One delivery -/

/-- A closure of `add` for the delivery `i`: without effect exactly where the id is empty. -/
def Own (i : Nat) (id : Bytes) (remove : Remove) : Prop :=
  (remove = none ↔ id = []) ∧ ∀ e, remove = some e → e.delivery = i

/-- The states of a `deliveryControl`. -/
inductive Sound (i : Nat) (id : Bytes) : Control → Prop
  | idle : Sound i id {}
  | adding : Sound i id { mu := .adding }
  | added {u : Remove} : Own i id u → Sound i id { mu := .added u, entry := u }
  | listening {u : Remove} : Own i id u → Sound i id { unlisten := some u, entry := u }
  | unused : Sound i id { released := true }
  | leaving {u : Remove} : Own i id u → Sound i id { released := true, leaving := [u], entry := u }
  | gone {u : Remove} : Own i id u → Sound i id { released := true, entry := u, removed := true }

/-- What the delivery has in the registry. -/
def Control.live (c : Control) : Option Entry := if c.removed then none else c.entry

namespace Sound
variable {i : Nat} {id : Bytes} {c c' : Control}

theorem enter {listens : Bool} (h : Sound i id c) (eq : c.enter listens = some c') :
    Sound i id c' ∧ c'.live = c.live := by
  obtain ⟨free, eq⟩ := Option.ite_none_right_eq_some.mp eq
  split at eq
  · cases eq
    exact ⟨h, rfl⟩
  · next fresh =>
    cases eq
    cases h with
    | idle => exact ⟨.adding, rfl⟩
    | adding | added => cases free
    | listening | unused | leaving | gone => simp at fresh

theorem add {u : Remove} (h : Sound i id c) (own : Own i id u) (eq : c.add u = some c') :
    Sound i id c' ∧ c.live = none ∧ c'.live = u := by
  obtain ⟨adding, ⟨⟩⟩ := Option.ite_none_right_eq_some.mp eq
  cases h with
  | adding => exact ⟨.added own, rfl, rfl⟩
  | _ => cases adding

theorem leave (h : Sound i id c) (eq : c.leave = some c') : Sound i id c' ∧ c'.live = c.live := by
  cases h with
  | added own =>
    cases eq
    exact ⟨.listening own, rfl⟩
  | _ => cases eq

theorem release (h : Sound i id c) (eq : c.release = some c') :
    Sound i id c' ∧ c'.live = c.live := by
  obtain ⟨free, ⟨⟩⟩ := Option.ite_none_right_eq_some.mp eq
  cases h with
  | idle | unused => exact ⟨.unused, rfl⟩
  | listening own | leaving own => exact ⟨.leaving own, rfl⟩
  | gone own => exact ⟨.gone own, rfl⟩
  | adding | added => cases free

theorem depart {k : Nat} {u : Remove} (h : Sound i id c) (eq : c.depart k = some (u, c')) :
    Sound i id c' ∧ c.live = u ∧ c'.live = none := by
  obtain ⟨v, found, pair⟩ := Option.map_eq_some_iff.mp eq
  cases pair
  cases h with
  | leaving own =>
    cases k with
    | zero =>
      cases found
      exact ⟨.gone own, rfl, rfl⟩
    | succ k => cases found
  | _ => cases found

/-- Only a delivery that is not released registers. -/
theorem held (h : Sound i id c) (busy : c.mu ≠ .free) : c.released = false := by
  cases h with
  | adding | added => rfl
  | _ => exact absurd rfl busy

/-- What is in the registry for a delivery is its own entry. -/
theorem live_own {e : Entry} (h : Sound i id c) (live : c.live = some e) :
    e.delivery = i ∧ id ≠ [] ∧ c.entry = some e := by
  have own {u : Remove} (h : Own i id u) (eq : u = some e) : e.delivery = i ∧ id ≠ [] :=
    ⟨h.2 e eq, fun empty => by rw [h.1.mpr empty] at eq; cases eq⟩
  cases h with
  | idle | adding | unused | gone => cases live
  | added h | listening h | leaving h => exact ⟨(own h live).1, (own h live).2, live⟩

/-- Between calls, a delivery is in the registry if it registered and was not released. -/
theorem live_iff {e : Entry} (h : Sound i id c) (free : c.mu = .free)
    (none_leaving : c.leaving = []) :
    c.live = some e ↔ c.entry = some e ∧ c.released = false := by
  cases h with
  | idle | unused | gone | listening => simp [Control.live]
  | adding | added => cases free
  | leaving => cases none_leaving

end Sound

/-! ## All deliveries -/

structure Inv (s : State) : Prop where
  sound : ∀ i d, s.deliveries[i]? = some d → Sound i d.id d.ctl
  /-- The registry has exactly what the deliveries have in it. -/
  exact' : ∀ id e, e ∈ s.registry.get id ↔
    ∃ d, s.deliveries[e.delivery]? = some d ∧ d.id = id ∧ d.ctl.live = some e
  fresh : ∀ id, ∀ e ∈ s.registry.get id, e.number < s.fresh
  /-- A call of `cancel` knows only entries of deliveries with its id. -/
  known : ∀ call ∈ s.calls, ∀ e ∈ call.snapshot, ∃ d, s.deliveries[e.delivery]? = some d ∧
    d.id = call.id ∧ (e ∈ call.reached → d.cancelled = true)
  split : ∀ call ∈ s.calls, call.snapshot = call.left ∪ call.reached
  cancelled : ∀ d ∈ s.deliveries, d.cancelled = true → ∃ call ∈ s.calls, call.id = d.id

theorem Inv.init : Inv {} := by
  constructor <;> simp [Multimap.get, Multimap.empty]

variable {s t : State} {i : Nat} {d d' : Delivery}

theorem getElem?_update (found : s.deliveries[i]? = some d) (d' : Delivery) (j : Nat) :
    (s.deliveries.set i d')[j]? = if j = i then some d' else s.deliveries[j]? := by
  obtain ⟨lt, -⟩ := List.getElem?_eq_some_iff.mp found
  rw [List.getElem?_set]
  by_cases same : i = j
  · subst same
    simp [lt]
  · rw [if_neg same, if_neg (Ne.symm same)]

/-- One delivery changes, and with it perhaps the registry. -/
theorem Inv.update (inv : Inv s) (found : s.deliveries[i]? = some d) {ctl : Control}
    (sound : Sound i d.id ctl) {registry : Multimap Bytes Entry} {fresh : Nat}
    (get : ∀ id e, e ∈ registry.get id ↔ if e.delivery = i then d.id = id ∧ ctl.live = some e
      else e ∈ s.registry.get id)
    (numbered : ∀ id, ∀ e ∈ registry.get id, e.number < fresh) :
    Inv { s with registry, fresh, deliveries := s.deliveries.set i { d with ctl } } where
  sound j d' h := by
    rw [getElem?_update found] at h
    split at h
    · next same =>
      cases h
      exact same ▸ sound
    · exact inv.sound j d' h
  exact' id e := by
    rw [get, getElem?_update found]
    split
    · simp
    · exact inv.exact' id e
  fresh := numbered
  known call mem e inSnapshot := by
    obtain ⟨d₀, at_e, own, reached⟩ := inv.known call mem e inSnapshot
    rw [getElem?_update found]
    split
    · next same =>
      rw [same, found] at at_e
      cases at_e
      exact ⟨_, rfl, own, reached⟩
    · exact ⟨d₀, at_e, own, reached⟩
  split := inv.split
  cancelled d₀ mem isCancelled := by
    obtain ⟨j, h⟩ := List.mem_iff_getElem?.mp mem
    rw [getElem?_update found] at h
    split at h
    · cases h
      exact inv.cancelled d (List.mem_of_getElem? found) isCancelled
    · exact inv.cancelled d₀ (List.mem_of_getElem? h) isCancelled

/-- A step of one delivery that the registry has no part in. -/
theorem Inv.control (inv : Inv s) (found : s.deliveries[i]? = some d) {ctl : Control}
    (sound : Sound i d.id ctl) (live : ctl.live = d.ctl.live) :
    Inv { s with deliveries := s.deliveries.set i { d with ctl } } := by
  refine inv.update found sound (fun id e => ?_) inv.fresh
  split
  · next same =>
    rw [inv.exact', live, same, found]
    simp
  · rfl

theorem onControl_eq {f : Delivery → Option Control} (h : onControl s i f = some t) :
    ∃ d ctl, s.deliveries[i]? = some d ∧ f d = some ctl ∧
      t = { s with deliveries := s.deliveries.set i { d with ctl } } := by
  obtain ⟨d, found, h⟩ := Option.bind_eq_some_iff.mp h
  obtain ⟨ctl, eq, rfl⟩ := Option.map_eq_some_iff.mp h
  exact ⟨d, ctl, found, eq, rfl⟩

/-- The entries of one delivery. -/
theorem Inv.mem_get (inv : Inv s) (found : s.deliveries[i]? = some d) {id : Bytes} {e : Entry}
    (own : e.delivery = i) : e ∈ s.registry.get id ↔ d.id = id ∧ d.ctl.live = some e := by
  rw [inv.exact', own, found]
  simp

theorem Inv.register (inv : Inv s) (h : register s i = some t) : Inv t := by
  obtain ⟨d, found, h⟩ := Option.bind_eq_some_iff.mp h
  have sound := inv.sound i d found
  split at h
  · next empty =>
    obtain ⟨d₀, ctl, found', eq, rfl⟩ := onControl_eq h
    cases found.symm.trans found'
    obtain ⟨sound', before, after⟩ := sound.add ⟨iff_of_true rfl empty, by simp⟩ eq
    exact inv.control found sound' (after.trans before.symm)
  · next named =>
    obtain ⟨mid, moves, rfl⟩ := Option.map_eq_some_iff.mp h
    obtain ⟨d₀, ctl, found', eq, rfl⟩ := onControl_eq moves
    cases found.symm.trans found'
    obtain ⟨sound', before, after⟩ := sound.add ⟨by simp [named], by simp⟩ eq
    refine inv.update found sound' (fun id e => ?_) fun id e mem => ?_
    · rw [Multimap.get_add, after]
      by_cases own : e.delivery = i
      · -- there was no entry of this delivery
        have absent (j : Bytes) : e ∉ s.registry.get j := by
          rw [inv.mem_get found own, before]
          simp
        rw [if_pos own]
        split
        · next same => simp [absent, same, eq_comm]
        · next other => simp [absent, Ne.symm other]
      · have different : e ≠ ⟨s.fresh, i⟩ := by
          rintro rfl
          exact own rfl
        rw [if_neg own]
        split
        · next same => simp [same, different]
        · rfl
    · rw [Multimap.get_add] at mem
      split at mem
      · rcases Finset.mem_insert.mp mem with rfl | mem
        · exact Nat.lt_succ_self _
        · exact Nat.lt_succ_of_lt (inv.fresh _ e mem)
      · exact Nat.lt_succ_of_lt (inv.fresh _ e mem)

theorem Inv.unregister {k : Nat} (inv : Inv s) (h : unregister s i k = some t) : Inv t := by
  obtain ⟨d, found, h⟩ := Option.bind_eq_some_iff.mp h
  obtain ⟨⟨u, ctl⟩, eq, rfl⟩ := Option.map_eq_some_iff.mp h
  have sound := inv.sound i d found
  obtain ⟨sound', before, after⟩ := sound.depart eq
  cases u with
  | none => exact inv.control found sound' (after.trans before.symm)
  | some removed =>
    obtain ⟨own, -⟩ := sound.live_own before
    refine inv.update found sound' (fun id e => ?_) fun id e mem => ?_
    · rw [Option.elim_some, Multimap.get_remove, after]
      by_cases mine : e.delivery = i
      · rw [if_pos mine]
        split
        · next same =>
          rw [Finset.mem_erase, inv.mem_get found mine, before]
          grind
        · next other =>
          rw [inv.mem_get found mine]
          simp [Ne.symm other]
      · have different : e ≠ removed := by
          rintro rfl
          exact mine own
        rw [if_neg mine]
        split
        · next same => simp [same, different]
        · rfl
    · rw [Option.elim_some, Multimap.get_remove] at mem
      split at mem
      · exact inv.fresh _ e (Finset.mem_of_mem_erase mem)
      · exact inv.fresh _ e mem

/-- What is known of a delivery stays known when one is cancelled. -/
theorem known_of_cancelled {e e₀ : Entry} {d₀ : Delivery}
    (found : s.deliveries[e.delivery]? = some d)
    (at_e : s.deliveries[e₀.delivery]? = some d₀) :
    ∃ d₁, (s.deliveries.set e.delivery { d with cancelled := true })[e₀.delivery]? = some d₁ ∧
      d₁.id = d₀.id ∧ (d₀.cancelled = true → d₁.cancelled = true) ∧
      (e₀ = e → d₁.cancelled = true) := by
  rw [getElem?_update found]
  split
  · next same =>
    rw [same, found] at at_e
    cases at_e
    exact ⟨_, rfl, rfl, fun _ => rfl, fun _ => rfl⟩
  · next other => exact ⟨d₀, at_e, rfl, id, fun same => absurd (same ▸ rfl) other⟩

theorem Inv.fire {k : Nat} {e : Entry} (inv : Inv s) (h : fire s k e = some t) : Inv t := by
  obtain ⟨call, at_k, h⟩ := Option.bind_eq_some_iff.mp h
  split at h
  · next inLeft =>
    obtain ⟨d, found, rfl⟩ := Option.map_eq_some_iff.mp h
    have callMem := List.mem_of_getElem? at_k
    have inSnapshot : e ∈ call.snapshot := by
      rw [inv.split call callMem]
      exact Finset.mem_union_left _ inLeft
    refine ⟨fun i d₀ h => ?_, fun id e₀ => ?_, inv.fresh, fun c mem e₀ known => ?_,
      fun c mem => ?_, fun d₀ mem isCancelled => ?_⟩
    · rw [getElem?_update found] at h
      split at h
      · next same =>
        cases h
        exact same ▸ inv.sound _ d found
      · exact inv.sound i d₀ h
    · rw [inv.exact', getElem?_update found]
      split
      · next same => rw [same, found]; simp
      · rfl
    · rcases List.mem_or_eq_of_mem_set mem with mem | rfl
      · obtain ⟨d₀, at_e, own, reached⟩ := inv.known c mem e₀ known
        obtain ⟨d₁, at_e, id, keeps, -⟩ := known_of_cancelled found at_e
        exact ⟨d₁, at_e, id.trans own, fun h => keeps (reached h)⟩
      · obtain ⟨d₀, at_e, own, reached⟩ := inv.known call callMem e₀ known
        obtain ⟨d₁, at_e, id, keeps, now⟩ := known_of_cancelled found at_e
        refine ⟨d₁, at_e, id.trans own, fun h => ?_⟩
        rcases Finset.mem_insert.mp h with same | h
        · exact now same
        · exact keeps (reached h)
    · rcases List.mem_or_eq_of_mem_set mem with mem | rfl
      · exact inv.split c mem
      · rw [inv.split call callMem]
        ext x
        simp only [Finset.mem_union, Finset.mem_erase, Finset.mem_insert]
        by_cases same : x = e
        · simp [same, inLeft]
        · simp [same]
    · -- the call that cancelled it is still there, under its id
      have kept {c : Call} (mem : c ∈ s.calls) : ∃ c' ∈ s.calls.set k
          { call with left := call.left.erase e, reached := insert e call.reached },
          c'.id = c.id := Library.Table.exists_mem_set at_k rfl mem
      obtain ⟨j, at_j⟩ := List.mem_iff_getElem?.mp mem
      rw [getElem?_update found] at at_j
      split at at_j
      · cases at_j
        obtain ⟨c', mem, eq⟩ := kept callMem
        obtain ⟨d₀, at_e, own, -⟩ := inv.known call callMem e inSnapshot
        cases found.symm.trans at_e
        exact ⟨c', mem, eq.trans own.symm⟩
      · obtain ⟨c, mem, eq⟩ := inv.cancelled d₀ (List.mem_of_getElem? at_j) isCancelled
        obtain ⟨c', mem, eq'⟩ := kept mem
        exact ⟨c', mem, eq'.trans eq⟩
  · cases h

theorem Inv.cancel (inv : Inv s) (id : Bytes) : Inv { s with
    calls := s.calls ++ [{ id, snapshot := s.registry.get id, left := s.registry.get id }] } where
  __ := inv
  known call mem e inSnapshot := by
    rcases List.mem_append.mp mem with mem | mem
    · exact inv.known call mem e inSnapshot
    · cases List.mem_singleton.mp mem
      obtain ⟨d, found, own, -⟩ := (inv.exact' id e).mp inSnapshot
      exact ⟨d, found, own, by simp⟩
  split call mem := by
    rcases List.mem_append.mp mem with mem | mem
    · exact inv.split call mem
    · cases List.mem_singleton.mp mem
      simp
  cancelled d mem isCancelled := by
    obtain ⟨call, mem, eq⟩ := inv.cancelled d mem isCancelled
    exact ⟨call, List.mem_append_left _ mem, eq⟩

theorem Inv.deliver (inv : Inv s) {new : Delivery} (ctl : new.ctl = {})
    (uncancelled : new.cancelled = false) :
    Inv { s with deliveries := s.deliveries ++ [new] } := by
  have old {j : Nat} {d : Delivery} (h : s.deliveries[j]? = some d) :
      (s.deliveries ++ [new])[j]? = some d :=
    (List.getElem?_append_left (List.getElem?_eq_some_iff.mp h).1).trans h
  have either {j : Nat} {d : Delivery} (h : (s.deliveries ++ [new])[j]? = some d) :
      s.deliveries[j]? = some d ∨ d = new := by
    rw [List.getElem?_append] at h
    split at h
    · exact .inl h
    · exact .inr (List.mem_singleton.mp (List.mem_of_getElem? h))
  refine ⟨fun j d h => ?_, fun id e => ?_, inv.fresh, fun call mem e known => ?_, inv.split,
    fun d mem isCancelled => ?_⟩
  · rcases either h with h | rfl
    · exact inv.sound j d h
    · rw [ctl]
      exact .idle
  · rw [inv.exact']
    constructor
    · rintro ⟨d, h, own⟩
      exact ⟨d, old h, own⟩
    · rintro ⟨d, h, own, live⟩
      rcases either h with h | rfl
      · exact ⟨d, h, own, live⟩
      · rw [ctl] at live
        cases live
  · obtain ⟨d, h, own⟩ := inv.known call mem e known
    exact ⟨d, old h, own⟩
  · rcases List.mem_append.mp mem with mem | mem
    · exact inv.cancelled d mem isCancelled
    · rw [List.mem_singleton.mp mem, uncancelled] at isCancelled
      cases isCancelled

theorem Inv.step {a : Act} (inv : Inv s) (next : step s a = some t) : Inv t := by
  cases a with
  | deliver id listens =>
    cases next
    exact inv.deliver rfl rfl
  | enter i =>
    obtain ⟨d, ctl, found, eq, rfl⟩ := onControl_eq next
    obtain ⟨sound, live⟩ := (inv.sound i d found).enter eq
    exact inv.control found sound live
  | leave i =>
    obtain ⟨d, ctl, found, eq, rfl⟩ := onControl_eq next
    obtain ⟨sound, live⟩ := (inv.sound i d found).leave eq
    exact inv.control found sound live
  | release i =>
    obtain ⟨d, ctl, found, eq, rfl⟩ := onControl_eq next
    obtain ⟨sound, live⟩ := (inv.sound i d found).release eq
    exact inv.control found sound live
  | add i => exact inv.register next
  | unlisten i k => exact inv.unregister next
  | cancel id =>
    cases next
    exact inv.cancel id
  | fire k e => exact inv.fire next

theorem inv_of_reachable (reach : cancels.Reachable s) : Inv s :=
  reach.invariant Inv (fun _ init => init ▸ Inv.init) fun _ _ _ _ inv next => inv.step next

/-! ## A delivery that is released first -/

/-- Released without having registered. -/
def Control.Barred (c : Control) : Prop := c.released = true ∧ c.mu = .free ∧ c.entry = none

/-- Another delivery changes, or this one as it may. -/
theorem barred_update {j : Nat} {registry : Multimap Bytes Entry} {fresh : Nat} {calls : List Call}
    (found : s.deliveries[j]? = some d) (keeps : d.ctl.Barred → d'.ctl.Barred)
    (barred : ∃ d, s.deliveries[i]? = some d ∧ d.ctl.Barred) :
    ∃ d, ({ registry, fresh, calls, deliveries := s.deliveries.set j d' } : State).deliveries[i]? =
      some d ∧ d.ctl.Barred := by
  obtain ⟨d₀, at_i, ctl⟩ := barred
  refine (em (i = j)).elim (fun same => ⟨d', ?_, ?_⟩) fun other => ⟨d₀, ?_, ctl⟩
  · rw [getElem?_update found, if_pos same]
  · subst same
    cases found.symm.trans at_i
    exact keeps ctl
  · rw [getElem?_update found, if_neg other]
    exact at_i

theorem barred_step {a : Act} (barred : ∃ d, s.deliveries[i]? = some d ∧ d.ctl.Barred)
    (next : step s a = some t) : ∃ d, t.deliveries[i]? = some d ∧ d.ctl.Barred := by
  cases a with
  | deliver id listens =>
    cases next
    obtain ⟨d, at_i, ctl⟩ := barred
    exact ⟨d, (List.getElem?_append_left (List.getElem?_eq_some_iff.mp at_i).1).trans at_i, ctl⟩
  | enter j =>
    obtain ⟨d, ctl, found, eq, rfl⟩ := onControl_eq next
    refine barred_update found (fun released => ?_) barred
    obtain rfl : d.ctl = ctl := by simpa [Control.enter, released.1, released.2.1] using eq
    exact released
  | leave j =>
    obtain ⟨d, ctl, found, eq, rfl⟩ := onControl_eq next
    refine barred_update found (fun released => ?_) barred
    simp [Control.leave, released.2.1] at eq
  | release j =>
    obtain ⟨d, ctl, found, eq, rfl⟩ := onControl_eq next
    refine barred_update found (fun released => ?_) barred
    obtain ⟨-, ⟨⟩⟩ := Option.ite_none_right_eq_some.mp eq
    exact ⟨rfl, released.2⟩
  | add j =>
    obtain ⟨d, found, next⟩ := Option.bind_eq_some_iff.mp next
    have never {u : Remove} {ctl : Control} (eq : d.ctl.add u = some ctl)
        (released : d.ctl.Barred) : ctl.Barred := by
      simp [Control.add, released.2.1] at eq
    split at next
    · obtain ⟨d₀, ctl, found', eq, rfl⟩ := onControl_eq next
      cases found.symm.trans found'
      exact barred_update found (never eq) barred
    · obtain ⟨mid, moves, rfl⟩ := Option.map_eq_some_iff.mp next
      obtain ⟨d₀, ctl, found', eq, rfl⟩ := onControl_eq moves
      cases found.symm.trans found'
      exact barred_update found (never eq) barred
  | unlisten j k =>
    obtain ⟨d, found, next⟩ := Option.bind_eq_some_iff.mp next
    obtain ⟨⟨u, ctl⟩, eq, rfl⟩ := Option.map_eq_some_iff.mp next
    refine barred_update found (fun released => ?_) barred
    obtain ⟨v, -, pair⟩ := Option.map_eq_some_iff.mp eq
    cases pair
    exact released
  | cancel id =>
    cases next
    exact barred
  | fire k e =>
    obtain ⟨call, -, next⟩ := Option.bind_eq_some_iff.mp next
    split at next
    · obtain ⟨d, found, rfl⟩ := Option.map_eq_some_iff.mp next
      exact barred_update found id barred
    · cases next

/-! ## The registry -/

/-- The registry never has more or less than the deliveries that registered and were not released.
A cancel notice calls exactly those it finds, and no other delivery. -/
theorem registrations_exact {s : State} (reach : cancels.Reachable s) :
    (s.Quiet → ∀ id, id ≠ [] → ∀ e, e ∈ s.registry.get id ↔
      ∃ d, s.deliveries[e.delivery]? = some d ∧ d.id = id ∧ d.ctl.entry = some e ∧
        d.ctl.released = false) ∧
    (∀ id t, cancels.step s (.cancel id) = some t →
      ∃ call, t.calls = s.calls ++ [call] ∧ call.id = id ∧ ∀ e, e ∈ call.snapshot ↔
        ∃ d, s.deliveries[e.delivery]? = some d ∧ d.id = id ∧ d.ctl.live = some e) ∧
    (∀ call ∈ s.calls, (∀ e ∈ call.reached, e ∈ call.snapshot) ∧
      ∀ e ∈ call.snapshot, ∃ d, s.deliveries[e.delivery]? = some d ∧ d.id = call.id ∧
        (call.left = ∅ → e ∈ call.reached ∧ d.cancelled = true)) ∧
    (∀ d ∈ s.deliveries, d.cancelled = true → ∃ call ∈ s.calls, call.id = d.id) ∧
    (∀ (i : Nat) (d : Delivery), s.deliveries[i]? = some d → d.ctl.released = true →
      d.ctl.entry = none → ∀ as t, cancels.run as s = some t →
        ∃ d', t.deliveries[i]? = some d' ∧ d'.ctl.entry = none) ∧
    (s.Quiet → (∀ d ∈ s.deliveries, d.ctl.released = true) → s.registry.size = 0) := by
  have inv := inv_of_reachable reach
  have between (quiet : s.Quiet) (id : Bytes) (e : Entry) : e ∈ s.registry.get id ↔
      ∃ d, s.deliveries[e.delivery]? = some d ∧ d.id = id ∧ d.ctl.entry = some e ∧
        d.ctl.released = false := by
    rw [inv.exact']
    refine exists_congr fun d => and_congr_right fun found => and_congr_right fun _ => ?_
    obtain ⟨free, leaving⟩ := quiet.1 d (List.mem_of_getElem? found)
    exact (inv.sound _ d found).live_iff free leaving
  refine ⟨fun quiet id _ => between quiet id, fun id t next => ?_,
    fun call mem => ⟨fun e called => ?_, fun e known => ?_⟩, inv.cancelled,
    fun i d found released fresh as t ran => ?_,
    fun quiet all => Multimap.size_eq_zero fun id => ?_⟩
  · cases next
    exact ⟨_, rfl, rfl, inv.exact' id⟩
  · rw [inv.split call mem]
    exact Finset.mem_union_right _ called
  · obtain ⟨d, found, own, reached⟩ := inv.known call mem e known
    refine ⟨d, found, own, fun emptied => ?_⟩
    have called : e ∈ call.reached := by
      rw [inv.split call mem, emptied] at known
      simpa using known
    exact ⟨called, reached called⟩
  · have free : d.ctl.mu = .free := by
      by_contra busy
      rw [(inv.sound i d found).held busy] at released
      cases released
    obtain ⟨d', found', barred⟩ := System.run_keeps
      (P := fun t => ∃ d : Delivery, t.deliveries[i]? = some d ∧ d.ctl.Barred)
      (fun _ _ _ barred next => barred_step barred next) ⟨d, found, released, free, fresh⟩ ran
    exact ⟨d', found', barred.2.2⟩
  · rw [Finset.eq_empty_iff_forall_notMem]
    intro e mem
    obtain ⟨d, found, -, -, held⟩ := (between quiet id e).mp mem
    rw [all d (List.mem_of_getElem? found)] at held
    cases held

/-- Two deliveries with one id; the first is released between the snapshot and its cancel. -/
theorem registrations_exact_overlapping : ∃ s : State, cancels.Reachable s ∧
    ∃ call ∈ s.calls, ⟨0, 0⟩ ∈ call.reached ∧ ⟨1, 1⟩ ∈ call.reached := by
  have ran : (cancels.run
      [.deliver [7] true, .deliver [7] true, .enter 0, .add 0, .leave 0, .enter 1, .add 1, .leave 1,
        .cancel [7], .release 0, .unlisten 0 0, .fire 0 ⟨0, 0⟩, .fire 0 ⟨1, 1⟩] {}).map
        (fun s => s.calls.map fun call =>
          decide (call.left = ∅ ∧ call.snapshot = {⟨0, 0⟩, ⟨1, 1⟩})) = some [true] := by
    decide +kernel
  obtain ⟨s, run, eq⟩ := Option.map_eq_some_iff.mp ran
  have reach : cancels.Reachable s := System.Reachable.run (.init rfl) run
  obtain ⟨call, rest, calls, finished, -⟩ := List.map_eq_cons_iff.mp eq
  obtain ⟨left, snapshot⟩ := of_decide_eq_true finished
  have mem : call ∈ s.calls := by rw [calls]; exact List.mem_cons_self
  have called {e : Entry} (known : e ∈ call.snapshot) : e ∈ call.reached := by
    obtain ⟨d, -, -, called⟩ := ((registrations_exact reach).2.2.1 call mem).2 e known
    exact (called left).1
  exact ⟨s, reach, call, mem, called (by simp [snapshot]), called (by simp [snapshot])⟩

end Protobus.Consumer.Cancels
