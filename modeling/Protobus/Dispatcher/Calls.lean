import Protobus.Dispatcher.Model

/-!
# Replies and calls are matched one to one

The same correlation id is registered again on every attempt, while readers, the supervisor and
`close` take entries out and resolve them later. What keeps them apart is that a signal goes to
an attempt and not to an id, that an attempt is out of the table before it is signalled, and
that the table holds no attempt but the one its caller has in hand.
-/
namespace Protobus.Dispatcher
open Library

/-! ## The steps of the calls -/

@[simp] theorem Calls.setPc_pcs (c : Calls) (i j : Nat) (pc : Pc) :
    (c.setPc i pc).pcs j = if j = i then pc else c.pcs j := Function.update_apply ..

/-- The attempt in hand, unless it is given up. -/
def Pc.held : Pc → Option Nat
  | registered a | sent a | waiting a => some a
  | _ => none

/-- Where a caller goes without registering or publishing: to a pair only if it was handed
out. -/
structure Pc.Plain (pc : Pc) (l : Link) : Prop where
  unheld : pc.held = none
  handed : ∀ p q, pc = .paired p q → l.pair = some (p, q)

/-- What a step of a call can be, sorted by what it changes. `goto` moves one caller on. -/
inductive CallStep (kind : Nat → Kind) (l : Link) (c : Calls) : CallAction → Calls → Prop
  | goto {x : CallAction} {i : Nat} {pc : Pc} : (∀ r, c.pcs i ≠ .returned r) →
      pc.attempt = (c.pcs i).attempt → (∀ a o, pc ≠ .returned (.outcome a o)) → pc.Plain l →
      CallStep kind l c x (c.setPc i pc)
  | register {i p q : Nat} : c.pcs i = .paired p q →
      CallStep kind l c (.register i) (c.register kind i p q)
  | send {i a : Nat} {t : Attempt} : c.pcs i = .registered a → c.attempts[a]? = some t →
      t.pub ∈ l.openPubs →
      CallStep kind l c (.send i) { c.setPc i (.sent a) with sent := a :: c.sent }
  | confirm {i a : Nat} : c.pcs i = .sent a →
      CallStep kind l c (.confirm i) { c.setPc i
        (if kind i = .oneWay then .returned .published else .waiting a) with
        confirmed := a :: c.confirmed }
  | forget {i a : Nat} {again : Bool} : c.pcs i = .forgetting a again →
      CallStep kind l c (.forget i)
        ((c.forget i a).setPc i (if again then .channel else .returned .failed))
  | receive {i a : Nat} {o : Outcome} : c.pcs i = .waiting a → kind i = .call →
      c.slots a = some o →
      CallStep kind l c (.receive i) { c.setPc i (.returned (.outcome a o)) with
        slots := Function.update c.slots a none }
  | route {id : Nat} : CallStep kind l c (.route id) (c.route kind id)
  | resolve {j a : Nat} {o : Outcome} : (a, o) ∈ c.resolving →
      CallStep kind l c (.resolve j) ({ c with resolving := c.resolving.eraseIdx j }.fill a o)

variable {kind : Nat → Kind} {l : Link} {c c' : Calls}

theorem callStep_of_step {a : CallAction} (h : c.step kind l a = some c') :
    CallStep kind l c a c' := by
  cases a with
  | invoke i | refuse i | unsent i again | unconfirmed i | abandon i =>
    simp only [Calls.step] at h
    split at h
    · rename_i pc
      cases h
      exact .goto (by simp [pc]) (by rw [pc]; rfl) (by simp) ⟨rfl, by simp⟩
    · cases h
  | pair i =>
    simp only [Calls.step] at h
    split at h
    · next pc =>
      obtain ⟨⟨p, q⟩, handed, rfl⟩ := Option.map_eq_some_iff.mp h
      refine .goto (by simp [pc]) (by rw [pc]; rfl) (by simp) ⟨rfl, ?_⟩
      intro p' q' eq
      cases eq
      exact handed
    · cases h
  | register i =>
    simp only [Calls.step] at h
    split at h
    · next p q pc =>
      cases h
      exact .register pc
    · cases h
  | send i =>
    simp only [Calls.step] at h
    split at h
    · next a pc =>
      split at h
      · next sendable =>
        cases h
        obtain ⟨t, found, live⟩ := (Option.any_eq_true _ _).mp sendable
        exact .send pc found (by simpa using live)
      · cases h
    · cases h
  | confirm i =>
    simp only [Calls.step] at h
    split at h
    · next a pc =>
      cases h
      exact .confirm pc
    · cases h
  | forget i =>
    simp only [Calls.step] at h
    split at h
    · next a again pc =>
      cases h
      exact .forget pc
    · cases h
  | receive i =>
    simp only [Calls.step] at h
    split at h
    · next a pc =>
      split at h
      · next isCall =>
        obtain ⟨o, full, rfl⟩ := Option.map_eq_some_iff.mp h
        exact .receive pc isCall full
      · cases h
    · cases h
  | route id =>
    cases h
    exact .route
  | resolve j =>
    obtain ⟨e, found, rfl⟩ := Option.map_eq_some_iff.mp h
    exact .resolve (List.mem_of_getElem? found)

/-- A delivery is passed on, or it takes out the entry under its id. -/
theorem Calls.route_cases (kind : Nat → Kind) (c : Calls) (id : Nat) :
    c.route kind id = { c with routed := c.routed ++ [⟨id, c.pending⟩] } ∨
    ∃ a, (id, a) ∈ c.pending ∧ c.route kind id = { c with
      routed := c.routed ++ [⟨id, c.pending⟩]
      pending := c.pending.filter (·.1 ≠ id)
      resolving := c.resolving ++ [(a, .reply c.routed.length)]
      signalled := c.signalled ++ [(a, .reply c.routed.length)] } := by
  unfold Calls.route
  dsimp only
  split
  · exact .inl rfl
  · split
    · next e found =>
      have key : e.1 = id := by simpa using List.find?_some found
      refine .inr ⟨e.2, ?_, rfl⟩
      rw [← key]
      exact List.mem_of_find?_eq_some found
    · exact .inl rfl

/-- What any step does to the calls. -/
theorem calls_of_step {s t : State} {a : Action} (h : (system kind).step s a = some t) :
    (∃ x, CallStep kind s.link s.calls x t.calls) ∨ t.calls = s.calls ∨
      ∃ err, t.calls = s.calls.failPending err := by
  cases a with
  | call a =>
    obtain ⟨c, moved, rfl⟩ := Option.map_eq_some_iff.mp h
    exact .inl ⟨a, callStep_of_step moved⟩
  | link a =>
    obtain ⟨⟨l, err⟩, _, rfl⟩ := Option.map_eq_some_iff.mp h
    cases err with
    | none => exact .inr (.inl rfl)
    | some err => exact .inr (.inr ⟨err, rfl⟩)

/-! ## The invariant -/

/-- The attempt belongs to the invocation. -/
def Calls.Owns (c : Calls) (i a : Nat) : Prop := ∃ t, c.attempts[a]? = some t ∧ t.invocation = i

/-- Where a signal comes from: a delivery under the id of the attempt's call, which met the
attempt in the table, or a call of `failPending`. -/
def Calls.Origin (c : Calls) (i a : Nat) : Outcome → Prop
  | .reply n => ∃ r, c.routed[n]? = some r ∧ r.id = i ∧ (i, a) ∈ r.table
  | .fault _ k => k < c.rounds

structure Matched (kind : Nat → Kind) (c : Calls) : Prop where
  owner : ∀ i a, (c.pcs i).attempt = some a → c.Owns i a
  latest : ∀ i a b, (c.pcs i).attempt = some a → c.Owns i b → b ≤ a
  current : ∀ i a, (i, a) ∈ c.pending → (c.pcs i).attempt = some a
  expects : ∀ i a, (i, a) ∈ c.pending → kind i ≠ .oneWay
  out : ∀ a o i, (a, o) ∈ c.signalled → (i, a) ∉ c.pending
  origin : ∀ a o, (a, o) ∈ c.signalled → ∃ i, c.Owns i a ∧ c.Origin i a o
  once : ∀ i a b o, (a, o) ∈ c.signalled → (b, o) ∈ c.signalled → c.Owns i a → c.Owns i b → a = b
  resolving : ∀ e ∈ c.resolving, e ∈ c.signalled
  slots : ∀ a o, c.slots a = some o → (a, o) ∈ c.signalled
  returned : ∀ i a o, c.pcs i = .returned (.outcome a o) →
    (a, o) ∈ c.signalled ∧ c.Owns i a ∧ ∀ b, c.Owns i b → b ≤ a

theorem Calls.Owns.unique {i j a : Nat} (hi : c.Owns i a) (hj : c.Owns j a) : i = j := by
  obtain ⟨t, found, rfl⟩ := hi
  obtain ⟨u, again, rfl⟩ := hj
  rw [Option.some.inj (found.symm.trans again)]

theorem Calls.Owns.lt {i a : Nat} (h : c.Owns i a) : a < c.attempts.length := by
  obtain ⟨t, found, -⟩ := h
  exact (List.getElem?_eq_some_iff.mp found).1

theorem Calls.owns_register {i j a p q : Nat} : (c.register kind i p q).Owns j a ↔
    c.Owns j a ∨ j = i ∧ a = c.attempts.length := by
  have attempts : (c.register kind i p q).attempts = c.attempts ++ [⟨i, p, q⟩] := rfl
  unfold Owns
  rw [attempts, List.getElem?_append]
  by_cases old : a < c.attempts.length
  · have : a ≠ c.attempts.length := by omega
    simp [old, this]
  · have none : c.attempts[a]? = none := List.getElem?_eq_none (by omega)
    by_cases new : a = c.attempts.length
    · subst new
      simp [eq_comm]
    · have : a - c.attempts.length ≠ 0 := by omega
      simp [old, new, this]

namespace Matched
variable (h : Matched kind c)
include h

/-- One caller moves on: with the attempt it has, or with none when nothing of it is left in
the table. -/
theorem setPc {i : Nat} {pc : Pc}
    (attempt : pc.attempt = (c.pcs i).attempt ∨ pc.attempt = none ∧ ∀ b, (i, b) ∉ c.pending)
    (result : ∀ a o, pc = .returned (.outcome a o) →
      (a, o) ∈ c.signalled ∧ c.Owns i a ∧ ∀ b, c.Owns i b → b ≤ a) :
    Matched kind (c.setPc i pc) := by
  have before : ∀ j a, ((c.setPc i pc).pcs j).attempt = some a → (c.pcs j).attempt = some a := by
    intro j a now
    rw [Calls.setPc_pcs] at now
    split at now
    · next eq =>
      subst eq
      rcases attempt with same | ⟨none, -⟩
      · rwa [same] at now
      · simp [none] at now
    · exact now
  refine { h with owner := ?_, latest := ?_, current := ?_, returned := ?_ }
  · intro j a now
    exact h.owner j a (before j a now)
  · intro j a b now
    exact h.latest j a b (before j a now)
  · intro j a mem
    rw [Calls.setPc_pcs]
    split
    · next eq =>
      subst eq
      rcases attempt with same | ⟨-, gone⟩
      · rw [same]
        exact h.current j a mem
      · exact absurd mem (gone a)
    · exact h.current j a mem
  · intro j a o now
    rw [Calls.setPc_pcs] at now
    split at now
    · next eq =>
      subst eq
      exact result a o now
    · exact h.returned j a o now

/-- The lists of what was sent and confirmed do not matter. -/
theorem history (sent confirmed : List Nat) : Matched kind { c with sent, confirmed } :=
  ⟨h.owner, h.latest, h.current, h.expects, h.out, h.origin, h.once, h.resolving, h.slots,
    h.returned⟩

/-- Entries are taken out of the table. -/
theorem remove {p : Nat × Nat → Bool} : Matched kind { c with pending := c.pending.filter p } :=
  { h with
    current := fun i a mem => h.current i a (List.mem_filter.mp mem).1
    expects := fun i a mem => h.expects i a (List.mem_filter.mp mem).1
    out := fun a o i signal mem => h.out a o i signal (List.mem_filter.mp mem).1 }

/-- A new attempt replaces what the caller had in the table. -/
theorem register {i p q : Nat} :
    Matched kind (c.register kind i p q) := by
  have pcs : ∀ j, (c.register kind i p q).pcs j =
      if j = i then .registered c.attempts.length else c.pcs j := by
    intro j
    exact Calls.setPc_pcs c i j _
  have kept : ∀ j a, (j, a) ∈ (c.register kind i p q).pending →
      (j, a) ∈ c.pending ∧ j ≠ i ∨ j = i ∧ a = c.attempts.length ∧ kind i ≠ .oneWay := by
    intro j a mem
    simp only [Calls.register] at mem
    split at mem
    · next oneWay =>
      left
      refine ⟨mem, ?_⟩
      intro eq
      subst eq
      exact h.expects j a mem oneWay
    · next expects =>
      rcases List.mem_cons.mp mem with eq | mem
      · cases eq
        exact .inr ⟨rfl, rfl, expects⟩
      · exact .inl (by simpa using mem)
  constructor
  · intro j a now
    rw [pcs] at now
    rw [Calls.owns_register]
    split at now
    · next eq => exact .inr ⟨eq, (Option.some.inj now).symm⟩
    · exact .inl (h.owner j a now)
  · intro j a b now owned
    rw [pcs] at now
    rw [Calls.owns_register] at owned
    split at now
    · obtain rfl := Option.some.inj now
      rcases owned with owned | ⟨-, rfl⟩
      · exact Nat.le_of_lt owned.lt
      · exact Nat.le_refl _
    · next ne =>
      rcases owned with owned | ⟨eq, -⟩
      · exact h.latest j a b now owned
      · exact absurd eq ne
  · intro j a mem
    rw [pcs]
    rcases kept j a mem with ⟨mem, ne⟩ | ⟨rfl, rfl, -⟩
    · rw [if_neg ne]
      exact h.current j a mem
    · rw [if_pos rfl]
      rfl
  · intro j a mem
    rcases kept j a mem with ⟨mem, -⟩ | ⟨rfl, -, expects⟩
    · exact h.expects j a mem
    · exact expects
  · intro a o j signal mem
    rcases kept j a mem with ⟨mem, -⟩ | ⟨-, rfl, -⟩
    · exact h.out a o j signal mem
    · obtain ⟨_, owned, -⟩ := h.origin _ o signal
      exact absurd owned.lt (Nat.lt_irrefl _)
  · intro a o signal
    obtain ⟨j, owned, origin⟩ := h.origin a o signal
    exact ⟨j, Calls.owns_register.mpr (.inl owned), origin⟩
  · intro j a b o first second ownsA ownsB
    have known : ∀ x, (x, o) ∈ c.signalled → (c.register kind i p q).Owns j x → c.Owns j x := by
      intro x signal owned
      rcases Calls.owns_register.mp owned with owned | ⟨-, rfl⟩
      · exact owned
      · obtain ⟨_, owned, -⟩ := h.origin _ o signal
        exact absurd owned.lt (Nat.lt_irrefl _)
    exact h.once j a b o first second (known a first ownsA) (known b second ownsB)
  · exact h.resolving
  · exact h.slots
  · intro j a o now
    rw [pcs] at now
    split at now
    · cases now
    · next ne =>
      obtain ⟨signal, owned, last⟩ := h.returned j a o now
      refine ⟨signal, Calls.owns_register.mpr (.inl owned), ?_⟩
      intro b ownsB
      rcases Calls.owns_register.mp ownsB with ownsB | ⟨eq, -⟩
      · exact last b ownsB
      · exact absurd eq ne

/-- Attempts are taken out of the table and signalled, with outcomes that are new. -/
theorem signal {new : List (Nat × Outcome)} (pcs : c'.pcs = c.pcs)
    (attempts : c'.attempts = c.attempts) (slots : c'.slots = c.slots)
    (signalled : c'.signalled = c.signalled ++ new) (resolving : c'.resolving = c.resolving ++ new)
    (pending : ∀ e ∈ c'.pending, e ∈ c.pending)
    (origin : ∀ i a o, c.Origin i a o → c'.Origin i a o)
    (fresh : ∀ a b o, (a, o) ∈ new → (b, o) ∉ c.signalled)
    (taken : ∀ a o, (a, o) ∈ new →
      ∃ i, (i, a) ∈ c.pending ∧ c'.Origin i a o ∧ ∀ j, (j, a) ∉ c'.pending) :
    Matched kind c' := by
  have owns : ∀ i a, c'.Owns i a ↔ c.Owns i a := by
    intro i a
    rw [Calls.Owns, Calls.Owns, attempts]
  have hand : ∀ i a o, (a, o) ∈ new → c.Owns i a → (c.pcs i).attempt = some a := by
    intro i a o mem owned
    obtain ⟨j, entry, -⟩ := taken a o mem
    have now := h.current j a entry
    rwa [(h.owner j a now).unique owned] at now
  constructor
  · intro i a now
    rw [pcs] at now
    exact (owns i a).mpr (h.owner i a now)
  · intro i a b now owned
    rw [pcs] at now
    exact h.latest i a b now ((owns i b).mp owned)
  · intro i a mem
    rw [pcs]
    exact h.current i a (pending _ mem)
  · intro i a mem
    exact h.expects i a (pending _ mem)
  · intro a o i mem
    rw [signalled, List.mem_append] at mem
    rcases mem with old | new
    · intro entry
      exact h.out a o i old (pending _ entry)
    · obtain ⟨_, -, -, gone⟩ := taken a o new
      exact gone i
  · intro a o mem
    rw [signalled, List.mem_append] at mem
    rcases mem with old | new
    · obtain ⟨i, owned, from'⟩ := h.origin a o old
      exact ⟨i, (owns i a).mpr owned, origin i a o from'⟩
    · obtain ⟨i, entry, from', -⟩ := taken a o new
      exact ⟨i, (owns i a).mpr (h.owner i a (h.current i a entry)), from'⟩
  · intro i a b o first second ownsA ownsB
    rw [owns] at ownsA ownsB
    rw [signalled, List.mem_append] at first second
    rcases first with first | first <;> rcases second with second | second
    · exact h.once i a b o first second ownsA ownsB
    · exact absurd first (fresh b a o second)
    · exact absurd second (fresh a b o first)
    · exact Option.some.inj ((hand i a o first ownsA).symm.trans (hand i b o second ownsB))
  · intro e mem
    rw [resolving, List.mem_append] at mem
    rw [signalled, List.mem_append]
    exact mem.imp_left (h.resolving e)
  · intro a o full
    rw [slots] at full
    rw [signalled]
    exact List.mem_append_left _ (h.slots a o full)
  · intro i a o now
    rw [pcs] at now
    obtain ⟨signal, owned, last⟩ := h.returned i a o now
    rw [signalled]
    refine ⟨List.mem_append_left _ signal, (owns i a).mpr owned, ?_⟩
    intro b ownsB
    exact last b ((owns i b).mp ownsB)

theorem failPending (err : Fault) : Matched kind (c.failPending err) := by
  refine @signal kind c (c.failPending err) h
    (c.pending.map fun e => (e.2, .fault err c.rounds)) rfl rfl rfl rfl rfl ?_ ?_ ?_ ?_
  · simp [Calls.failPending]
  · intro i a o from'
    cases o with
    | reply n => exact from'
    | fault err k => exact Nat.lt_succ_of_lt from'
  · intro a b o mem old
    obtain ⟨e, -, eq⟩ := List.mem_map.mp mem
    cases eq
    obtain ⟨_, -, round⟩ := h.origin b _ old
    exact absurd round (Nat.lt_irrefl _)
  · intro a o mem
    obtain ⟨⟨i, a⟩, entry, eq⟩ := List.mem_map.mp mem
    cases eq
    exact ⟨i, entry, Nat.lt_succ_self _, by simp [Calls.failPending]⟩

theorem route (id : Nat) : Matched kind (c.route kind id) := by
  have origin : ∀ r i a o, c.Origin i a o → { c with routed := c.routed ++ [r] }.Origin i a o := by
    intro r i a o from'
    cases o with
    | reply n =>
      obtain ⟨r', found, rest⟩ := from'
      refine ⟨r', ?_, rest⟩
      rw [List.getElem?_append_left (List.getElem?_eq_some_iff.mp found).1]
      exact found
    | fault err k => exact from'
  have logged : Matched kind { c with routed := c.routed ++ [⟨id, c.pending⟩] } :=
    @signal kind c _ h [] rfl rfl rfl (List.append_nil _).symm (List.append_nil _).symm
      (fun _ mem => mem) (origin _) (by simp) (by simp)
  rcases c.route_cases kind id with eq | ⟨a, entry, eq⟩ <;> rw [eq]
  · exact logged
  · refine @signal kind c _ h [(a, .reply c.routed.length)] rfl rfl rfl rfl rfl ?_ (origin _) ?_ ?_
    · intro x mem
      exact (List.mem_filter.mp mem).1
    · intro a b o mem old
      cases List.mem_singleton.mp mem
      obtain ⟨_, -, r, found, -⟩ := h.origin b _ old
      exact absurd (List.getElem?_eq_some_iff.mp found).1 (Nat.lt_irrefl _)
    · intro a o mem
      cases List.mem_singleton.mp mem
      refine ⟨id, entry, ⟨⟨id, c.pending⟩, by simp, rfl, entry⟩, ?_⟩
      intro j left'
      obtain ⟨mem, ne⟩ := List.mem_filter.mp left'
      have hand := h.owner j a (h.current j a mem)
      have same := hand.unique (h.owner id a (h.current id a entry))
      simp [same] at ne

/-- A slot is filled with what was signalled. -/
theorem fill {j a : Nat} {o : Outcome} (mem : (a, o) ∈ c.resolving) :
    Matched kind ({ c with resolving := c.resolving.eraseIdx j }.fill a o) := by
  have fewer : ∀ e ∈ c.resolving.eraseIdx j, e ∈ c.signalled := by
    intro e mem
    exact h.resolving e (List.mem_of_mem_eraseIdx mem)
  unfold Calls.fill
  split
  · refine { h with resolving := fewer, slots := ?_ }
    intro b p full
    change Function.update c.slots a (some o) b = some p at full
    rw [Function.update_apply] at full
    split at full
    · next eq =>
      cases full
      subst eq
      exact h.resolving _ mem
    · exact h.slots b p full
  · exact { h with resolving := fewer }

/-- The caller takes what is in its slot, and nothing of it is in the table. -/
theorem receive {i a : Nat} {o : Outcome} (pc : c.pcs i = .waiting a) (full : c.slots a = some o) :
    Matched kind { c.setPc i (.returned (.outcome a o)) with
      slots := Function.update c.slots a none } := by
  have signal := h.slots a o full
  have hand : (c.pcs i).attempt = some a := by
    rw [pc]
    rfl
  have gone : ∀ b, (i, b) ∉ c.pending := by
    intro b mem
    have := (h.current i b mem).symm.trans hand
    cases this
    exact h.out a o i signal mem
  have moved : Matched kind (c.setPc i (.returned (.outcome a o))) := by
    apply h.setPc (.inr ⟨rfl, gone⟩)
    intro b p eq
    cases eq
    exact ⟨signal, h.owner i a hand, fun b owned => h.latest i a b hand owned⟩
  refine { moved with slots := ?_ }
  intro b p held
  change Function.update c.slots a none b = some p at held
  rw [Function.update_apply] at held
  split at held
  · cases held
  · exact h.slots b p held

theorem forget {i a : Nat} {again : Bool} (pc : c.pcs i = .forgetting a again) :
    Matched kind ((c.forget i a).setPc i (if again then .channel else .returned .failed)) := by
  have removed : Matched kind (c.forget i a) := h.remove
  apply removed.setPc
  · right
    refine ⟨by cases again <;> rfl, ?_⟩
    intro b mem
    obtain ⟨mem, ne⟩ := List.mem_filter.mp mem
    have hand := h.current i b mem
    rw [pc] at hand
    cases hand
    simp at ne
  · intro b o eq
    cases again <;> cases eq

theorem step {x : CallAction} (next : CallStep kind l c x c') : Matched kind c' := by
  cases next with
  | goto _ same quiet _ => exact h.setPc (.inl same) fun a o eq => absurd eq (quiet a o)
  | register pc => exact h.register
  | @send i a t pc _ _ =>
    have moved : Matched kind (c.setPc i (.sent a)) :=
      h.setPc (.inl (by rw [pc]; rfl)) fun _ _ eq => by cases eq
    exact moved.history _ _
  | @confirm i a pc =>
    have moved : Matched kind
        (c.setPc i (if kind i = .oneWay then .returned .published else .waiting a)) := by
      split
      · next oneWay =>
        refine h.setPc (.inr ⟨rfl, ?_⟩) fun _ _ eq => by cases eq
        intro b mem
        exact h.expects i b mem oneWay
      · exact h.setPc (.inl (by rw [pc]; rfl)) fun _ _ eq => by cases eq
    exact moved.history _ _
  | forget pc => exact h.forget pc
  | receive pc _ full => exact h.receive pc full
  | route => exact h.route _
  | resolve mem => exact h.fill mem

end Matched

/-! ## Runs -/

theorem matched_start : Matched kind {} := by
  constructor <;> simp [Calls.Owns, Pc.attempt]

theorem matched_of_reachable {s : State} (reach : (system kind).Reachable s) :
    Matched kind s.calls := by
  apply reach.invariant (fun s => Matched kind s.calls)
  · rintro s rfl
    exact matched_start
  · intro s action t _ h next
    rcases calls_of_step next with ⟨x, moved⟩ | same | ⟨err, cleared⟩
    · exact h.step moved
    · rwa [same]
    · rw [cleared]
      exact h.failPending err

/-- A result is final. -/
theorem returned_of_callStep {x : CallAction} {i : Nat} {r : Result}
    (next : CallStep kind l c x c')
    (done : c.pcs i = .returned r) : c'.pcs i = .returned r := by
  have other : ∀ j pc, (∀ r, c.pcs j ≠ .returned r) → (c.setPc j pc).pcs i = .returned r := by
    intro j pc active
    have : i ≠ j := by
      intro eq
      exact active r (eq ▸ done)
    rw [Calls.setPc_pcs, if_neg this, done]
  cases next with
  | goto active => exact other _ _ active
  | register pc => exact other _ _ (by simp [pc])
  | send pc => exact other _ _ (by simp [pc])
  | confirm pc => exact other _ _ (by simp [pc])
  | @forget j a again pc =>
    have : i ≠ j := by
      intro eq
      rw [eq, pc] at done
      cases done
    rw [Calls.setPc_pcs, if_neg this]
    exact done
  | receive pc => exact other _ _ (by simp [pc])
  | @route id =>
    rcases c.route_cases kind id with eq | ⟨a, -, eq⟩ <;> rw [eq] <;> exact done
  | resolve =>
    unfold Calls.fill
    split <;> exact done

theorem returned_of_run {i : Nat} {r : Result} {s t : State} {as : List Action}
    (done : s.calls.pcs i = .returned r) (run : (system kind).run as s = some t) :
    t.calls.pcs i = .returned r := by
  refine System.run_keeps (P := fun s : State => s.calls.pcs i = .returned r) ?_ done run
  intro s action t done next
  rcases calls_of_step next with ⟨x, moved⟩ | same | ⟨err, cleared⟩
  · exact returned_of_callStep moved done
  · rwa [same]
  · rw [cleared]
    exact done

/-- The invocation can come to an end. -/
def Ends (kind : Nat → Kind) (i : Nat) (s : State) : Prop :=
  ∃ as t r, (system kind).run as s = some t ∧ t.calls.pcs i = .returned r

theorem Ends.step {i : Nat} {s : State} {a : CallAction}
    (next : s.calls.step kind s.link a = some c) (h : Ends kind i { s with calls := c }) :
    Ends kind i s := by
  obtain ⟨as, u, r, run, done⟩ := h
  have first : (system kind).step s (.call a) = some { s with calls := c } := by
    simp [system, Dispatcher.step, next]
  exact ⟨.call a :: as, u, r, by rw [System.run, first]; exact run, done⟩

theorem ends_returned {i : Nat} {s : State} {r : Result} (pc : s.calls.pcs i = .returned r) :
    Ends kind i s := ⟨[], s, r, rfl, pc⟩

theorem ends_channel {i : Nat} {s : State} (pc : s.calls.pcs i = .channel) : Ends kind i s := by
  have next : s.calls.step kind s.link (.refuse i) =
      some (s.calls.setPc i (.returned .failed)) := by
    simp only [Calls.step, pc]
  apply Ends.step next
  exact ends_returned (r := .failed) (by simp)

theorem ends_forgetting {i a : Nat} {again : Bool} {s : State}
    (pc : s.calls.pcs i = .forgetting a again) : Ends kind i s := by
  have next : s.calls.step kind s.link (.forget i) =
      some ((s.calls.forget i a).setPc i (if again then .channel else .returned .failed)) := by
    simp only [Calls.step, pc]
  apply Ends.step next
  cases again with
  | true => exact ends_channel (by simp)
  | false => exact ends_returned (r := .failed) (by simp)

/-- A caller that gives its attempt up. -/
theorem ends_of_forgetting {i a : Nat} {s : State} {action : CallAction}
    (next : s.calls.step kind s.link action = some (s.calls.setPc i (.forgetting a false))) :
    Ends kind i s := by
  apply Ends.step next
  exact @ends_forgetting kind i a false _ (by simp)

theorem ends_registered {i a : Nat} {s : State} (pc : s.calls.pcs i = .registered a) :
    Ends kind i s :=
  @ends_of_forgetting kind i a s (.unsent i false) (by simp only [Calls.step, pc])

/-- Whatever a caller is doing, it can come to an end by its own steps. -/
theorem ends_of_active {s : State} {i : Nat} (active : s.calls.pcs i ≠ .idle) : Ends kind i s := by
  cases pc : s.calls.pcs i with
  | idle => exact absurd pc active
  | channel => exact ends_channel pc
  | paired p q =>
    have next : s.calls.step kind s.link (.register i) = some (s.calls.register kind i p q) := by
      simp only [Calls.step, pc]
    apply Ends.step next
    exact ends_registered (a := s.calls.attempts.length) (by simp [Calls.register])
  | registered a => exact ends_registered pc
  | sent a =>
    exact @ends_of_forgetting kind i a s (.unconfirmed i) (by simp only [Calls.step, pc])
  | waiting a =>
    exact @ends_of_forgetting kind i a s (.abandon i) (by simp only [Calls.step, pc])
  | forgetting a again => exact ends_forgetting pc
  | returned r => exact ends_returned pc

/-- In every run: a delivery resolves at most one call; a call that returns a reply was waiting
with its last attempt, which was in the table when the delivery under the call's id was routed;
what was signalled to an earlier attempt is not what a call returns; a call can always come to
an end, and what it has returned is final; and it leaves no entry behind. -/
theorem calls_matched {s : State} (reach : (system kind).Reachable s) :
    (∀ n a b, (a, .reply n) ∈ s.calls.signalled → (b, .reply n) ∈ s.calls.signalled → a = b) ∧
    (∀ i a n, s.calls.pcs i = .returned (.outcome a (.reply n)) →
      (∃ r, s.calls.routed[n]? = some r ∧ r.id = i ∧ (i, a) ∈ r.table) ∧
      s.calls.Owns i a ∧ ∀ b, s.calls.Owns i b → b ≤ a) ∧
    (∀ i a o, s.calls.pcs i = .returned (.outcome a o) → (a, o) ∈ s.calls.signalled ∧
      ∀ b, s.calls.Owns i b → (b, o) ∈ s.calls.signalled → b = a) ∧
    (∀ i, s.calls.pcs i ≠ .idle → Ends kind i s) ∧
    (∀ i r, s.calls.pcs i = .returned r →
      ∀ as t, (system kind).run as s = some t → t.calls.pcs i = .returned r) ∧
    ∀ i r, s.calls.pcs i = .returned r → ∀ a, (i, a) ∉ s.calls.pending := by
  have h := matched_of_reachable reach
  refine ⟨?_, ?_, ?_, ?_, ?_, ?_⟩
  · intro n a b first second
    obtain ⟨i, ownsA, r, found, idA, -⟩ := h.origin a _ first
    obtain ⟨j, ownsB, r', found', idB, -⟩ := h.origin b _ second
    obtain rfl := Option.some.inj (found.symm.trans found')
    obtain rfl : i = j := idA.symm.trans idB
    exact h.once i a b _ first second ownsA ownsB
  · intro i a n done
    obtain ⟨signal, owned, last⟩ := h.returned i a _ done
    obtain ⟨j, owned', r, found, id, entry⟩ := h.origin a _ signal
    obtain rfl := owned.unique owned'
    exact ⟨⟨r, found, id, entry⟩, owned, last⟩
  · intro i a o done
    obtain ⟨signal, owned, -⟩ := h.returned i a o done
    refine ⟨signal, ?_⟩
    intro b ownsB other
    exact h.once i b a o other signal ownsB owned
  · intro i active
    exact ends_of_active active
  · intro i r done as t run
    exact returned_of_run done run
  · intro i r done a entry
    have hand := h.current i a entry
    rw [done] at hand
    cases hand

/-- The first channel of a call dies before the request is sent, and the fault that clears the
table is signalled late; the second attempt gets the reply. -/
theorem calls_matched_second_attempt :
    ∃ s : State, (system fun _ => .call).Reachable s ∧
      s.calls.pcs 0 = .returned (.outcome 1 (.reply 0)) ∧ s.calls.slots 0 =
        some (.fault .disconnected 0) ∧ ∀ a, (0, a) ∉ s.calls.pending := by
  have run : ((system fun _ => .call).run
      [.link .install, .call (.invoke 0), .call (.pair 0), .call (.register 0),
        .link .connectionDies, .link .lostFail, .call (.unsent 0 true), .call (.forget 0),
        .link .lostClear, .link .dial, .link .install, .call (.pair 0), .call (.register 0),
        .call (.send 0), .call (.resolve 0), .call (.confirm 0), .call (.route 0),
        .call (.resolve 0), .call (.receive 0)] {}).map
        (fun s => (s.calls.pcs 0, s.calls.slots 0)) =
      some (.returned (.outcome 1 (.reply 0)), some (.fault .disconnected 0)) := by
    decide +kernel
  obtain ⟨s, run, eq⟩ := Option.map_eq_some_iff.mp run
  obtain ⟨done, slot⟩ := Prod.mk.inj eq
  have reach : (system fun _ => .call).Reachable s := System.Reachable.run (.init rfl) run
  exact ⟨s, reach, done, slot, (calls_matched reach).2.2.2.2.2 0 _ done⟩

end Protobus.Dispatcher
