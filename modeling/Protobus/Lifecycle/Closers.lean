import Protobus.Library.Transition
import Mathlib.Data.List.Nodup
import Mathlib.Logic.Function.Basic

/-!
# Closing the bus

`Close` closes every component that was attached, the last first. A component may be in the middle
of `attachOnce` at that moment: it has found the bus open, it is being restored or registered, and
`Close` does not know of it yet. `attachOnce` looks again when it hands the component over, and
undoes what it did if the bus was closed in the meantime.
-/
namespace Protobus.Lifecycle.Closers
open Library

/-! ## The bus -/

/-- Where the call of `attach` for a component is. -/
inductive Phase
  | idle
  /-- In `whenReady`, at first or again. -/
  | waiting
  /-- With the restore lock. -/
  | entered
  | unclosed
  | connected
  | restored
  | registered
  /-- The bus was closed before the component could be handed over. -/
  | late
  | unregistered
  /-- The call has returned nil. -/
  | attached
  /-- It has undone everything and returned `ErrClosed`. -/
  | withdrawn
  /-- It has returned an error before anything was registered. -/
  | failed
deriving DecidableEq

/-- The component was registered with the session. -/
def Phase.enrolled : Phase → Bool
  | registered | late | unregistered | attached | withdrawn => true
  | idle | waiting | entered | unclosed | connected | restored | failed => false

/-- The call holds the restore lock. -/
def Phase.inside : Phase → Bool
  | entered | unclosed | connected | restored | registered | late | unregistered => true
  | idle | waiting | attached | withdrawn | failed => false

/-- Where the one call of `Close` is that found the bus open, with the components it has left. -/
inductive Closing
  | notCalled
  | taken (rest : List Nat)
  | running (rest : List Nat)
  /-- The first of them is unregistered and about to be closed. -/
  | unregistered (c : Nat) (rest : List Nat)
  | returned
deriving DecidableEq

inductive Holder
  | call (i : Nat)
  /-- The supervisor, a repair or a subscription. -/
  | other
deriving DecidableEq

/-- Components are numbered. `closedByClose` and `closedByAttach` are the calls of their `close`,
and `attached` lists the components in the order in which their `attach` succeeded. -/
structure State where
  closed : Bool := false
  closers : List Nat := []
  comps : List Nat := []
  finished : Bool := false
  restoreMu : Option Holder := none
  phase : Nat → Phase := fun _ => .idle
  closing : Closing := .notCalled
  closedByClose : List Nat := []
  closedByAttach : List Nat := []
  attached : List Nat := []

inductive Restored
  | ok
  | connectionGone
  | error

inductive Act
  | attach (i : Nat)
  | gone (i : Nat)
  | ready (i : Nat)
  | look (i : Nat)
  | current (i : Nat) (ready : Bool)
  | restore (i : Nat) (outcome : Restored)
  | register (i : Nat)
  | handOver (i : Nat)
  | unregister (i : Nat)
  | closeComponent (i : Nat)
  /-- A component that is closed by its owner unregisters itself. -/
  | leave (i : Nat)
  | lock
  | unlock
  | giveUp
  | close
  | finish
  | unregisterNext
  | closeNext
  | closeSession

/-- The call of a component goes on, or leaves `attachOnce` and gives the lock back. -/
def State.goes (s : State) (i : Nat) (p : Phase) : State :=
  { s with
    phase := Function.update s.phase i p
    restoreMu := if p.inside then s.restoreMu else none }

def step (s : State) : Act → Option State
  | .attach i => if s.phase i = .idle then
      some { s with phase := Function.update s.phase i .waiting } else none
  | .gone i => if s.phase i = .waiting then
      some { s with phase := Function.update s.phase i .failed } else none
  | .ready i => if s.phase i = .waiting ∧ s.restoreMu = none then
      some { s with phase := Function.update s.phase i .entered, restoreMu := some (.call i) }
    else none
  | .look i => if s.phase i = .entered then
      some (s.goes i (if s.closed then .failed else .unclosed)) else none
  | .current i ready => if s.phase i = .unclosed then
      some (s.goes i (if ready && !s.finished then .connected else .waiting)) else none
  | .restore i outcome => if s.phase i = .connected then
      some (s.goes i (match outcome with
        | .ok => .restored
        | .connectionGone => .waiting
        | .error => .failed)) else none
  | .register i => if s.phase i = .restored then
      some { s.goes i .registered with comps := s.comps ++ [i] } else none
  | .handOver i => if s.phase i = .registered then
      if s.closed then some (s.goes i .late)
      else some { s.goes i .attached with
        closers := s.closers ++ [i], attached := s.attached ++ [i] } else none
  | .unregister i => if s.phase i = .late then
      some { s.goes i .unregistered with comps := s.comps.erase i } else none
  | .closeComponent i => if s.phase i = .unregistered then
      some { s.goes i .withdrawn with closedByAttach := s.closedByAttach ++ [i] } else none
  | .leave i => if s.phase i = .attached then some { s with comps := s.comps.erase i } else none
  | .lock => if s.restoreMu = none then some { s with restoreMu := some .other } else none
  | .unlock => if s.restoreMu = some .other then some { s with restoreMu := none } else none
  | .giveUp => some { s with finished := true }
  | .close => if s.closed then some s
      else some { s with closed := true, closers := [], closing := .taken s.closers.reverse }
  | .finish => match s.closing with
    | .taken rest => some { s with closing := .running rest, finished := true }
    | _ => none
  | .unregisterNext => match s.closing with
    | .running (c :: rest) =>
      some { s with closing := .unregistered c rest, comps := s.comps.erase c }
    | _ => none
  | .closeNext => match s.closing with
    | .unregistered c rest =>
      some { s with closing := .running rest, closedByClose := s.closedByClose ++ [c] }
    | _ => none
  | .closeSession => match s.closing with
    | .running [] => some { s with closing := .returned }
    | _ => none

def bus : System State Act where
  init s := s = {}
  step := step

/-! ## What a step can do -/

inductive Steps (s : State) : State → Prop
  /-- The call for a component that is not registered yet goes on. -/
  | call {i : Nat} {p : Phase} (mu : Option Holder) : (s.phase i).enrolled = false →
      p.enrolled = false → Steps s { s with phase := Function.update s.phase i p, restoreMu := mu }
  | register {i : Nat} : s.phase i = .restored →
      Steps s { s.goes i .registered with comps := s.comps ++ [i] }
  | late {i : Nat} : s.phase i = .registered → s.closed = true → Steps s (s.goes i .late)
  | handOver {i : Nat} : s.phase i = .registered → s.closed = false →
      Steps s { s.goes i .attached with
        closers := s.closers ++ [i], attached := s.attached ++ [i] }
  | unregister {i : Nat} : s.phase i = .late →
      Steps s { s.goes i .unregistered with comps := s.comps.erase i }
  | closeComponent {i : Nat} : s.phase i = .unregistered →
      Steps s { s.goes i .withdrawn with closedByAttach := s.closedByAttach ++ [i] }
  | leave {i : Nat} : s.phase i = .attached → Steps s { s with comps := s.comps.erase i }
  /-- Only the lock and the end of the session are changed. -/
  | aside (mu : Option Holder) (ended : Bool) :
    Steps s { s with restoreMu := mu, finished := ended }
  | close : s.closed = false →
      Steps s { s with closed := true, closers := [], closing := .taken s.closers.reverse }
  | finish {rest : List Nat} : s.closing = .taken rest →
      Steps s { s with closing := .running rest, finished := true }
  | unregisterNext {c : Nat} {rest : List Nat} : s.closing = .running (c :: rest) →
      Steps s { s with closing := .unregistered c rest, comps := s.comps.erase c }
  | closeNext {c : Nat} {rest : List Nat} : s.closing = .unregistered c rest →
      Steps s { s with closing := .running rest, closedByClose := s.closedByClose ++ [c] }
  | closeSession : s.closing = .running [] → Steps s { s with closing := .returned }

theorem step_cases {s s' : State} {a : Act} (h : step s a = some s') : Steps s s' := by
  cases a <;> simp only [step, Option.ite_none_right_eq_some, Option.some.injEq] at h
  case attach i =>
    obtain ⟨at_i, rfl⟩ := h
    exact .call s.restoreMu (by simp [at_i, Phase.enrolled]) rfl
  case gone i =>
    obtain ⟨at_i, rfl⟩ := h
    exact .call s.restoreMu (by simp [at_i, Phase.enrolled]) rfl
  case ready i =>
    obtain ⟨⟨at_i, -⟩, rfl⟩ := h
    exact .call _ (by simp [at_i, Phase.enrolled]) rfl
  case look i =>
    obtain ⟨at_i, rfl⟩ := h
    exact .call _ (by simp [at_i, Phase.enrolled]) (by split <;> rfl)
  case current i ready =>
    obtain ⟨at_i, rfl⟩ := h
    exact .call _ (by simp [at_i, Phase.enrolled]) (by split <;> rfl)
  case restore i outcome =>
    obtain ⟨at_i, rfl⟩ := h
    exact .call _ (by simp [at_i, Phase.enrolled]) (by cases outcome <;> rfl)
  case register i =>
    obtain ⟨at_i, rfl⟩ := h
    exact .register at_i
  case handOver i =>
    obtain ⟨at_i, h⟩ := h
    split at h
    · next closed =>
      cases h
      exact .late at_i closed
    · next unclosed =>
      cases h
      exact .handOver at_i (by simpa using unclosed)
  case unregister i =>
    obtain ⟨at_i, rfl⟩ := h
    exact .unregister at_i
  case closeComponent i =>
    obtain ⟨at_i, rfl⟩ := h
    exact .closeComponent at_i
  case leave i =>
    obtain ⟨at_i, rfl⟩ := h
    exact .leave at_i
  case lock =>
    obtain ⟨-, rfl⟩ := h
    exact .aside _ s.finished
  case unlock =>
    obtain ⟨-, rfl⟩ := h
    exact .aside _ s.finished
  case giveUp =>
    subst h
    exact .aside s.restoreMu _
  case close =>
    split at h
    · cases h
      exact .aside s.restoreMu s.finished
    · next unclosed =>
      cases h
      exact .close (by simpa using unclosed)
  case finish =>
    split at h
    · next rest taken =>
      cases h
      exact .finish taken
    · cases h
  case unregisterNext =>
    split at h
    · next c rest running =>
      cases h
      exact .unregisterNext running
    · cases h
  case closeNext =>
    split at h
    · next c rest unregistered =>
      cases h
      exact .closeNext unregistered
    · cases h
  case closeSession =>
    split at h
    · next running =>
      cases h
      exact .closeSession running
    · cases h

/-! ## The books -/

/-- The attached components that `Close` has not closed, in the order in which it does. -/
def Closing.pending (closers : List Nat) : Closing → List Nat
  | notCalled => closers.reverse
  | taken rest | running rest => rest
  | unregistered c rest => c :: rest
  | returned => []

/-- Those that it has not unregistered. -/
def Closing.listed (closers : List Nat) : Closing → List Nat
  | notCalled => closers.reverse
  | taken rest | running rest | unregistered _ rest => rest
  | returned => []

/-- Somebody is going to unregister the component. -/
def Enlisted (phase : Nat → Phase) (listed : List Nat) (i : Nat) : Prop :=
  phase i = .registered ∨ phase i = .late ∨ i ∈ listed

structure Inv (s : State) : Prop where
  attached : ∀ i, i ∈ s.attached ↔ s.phase i = .attached
  distinct : s.attached.Nodup
  order : s.attached.reverse = s.closedByClose ++ s.closing.pending s.closers
  withdrawn : ∀ i, i ∈ s.closedByAttach ↔ s.phase i = .withdrawn
  once : s.closedByAttach.Nodup
  comps : ∀ i ∈ s.comps, Enlisted s.phase (s.closing.listed s.closers) i
  single : s.comps.Nodup
  flag : s.closed = false ↔ s.closing = .notCalled
  early : s.closing = .notCalled → s.closedByClose = []

/-- A phase that a component neither comes from nor goes to. -/
theorem mem_iff_update {l : List Nat} {phase : Nat → Phase} {i : Nat} {p q : Phase}
    (books : ∀ j, j ∈ l ↔ phase j = q) (from_i : phase i ≠ q) (to_i : p ≠ q) (j : Nat) :
    j ∈ l ↔ Function.update phase i p j = q := by
  rw [books, Function.update_apply]
  grind

theorem mem_append_iff_update {l : List Nat} {phase : Nat → Phase} {i : Nat} {q : Phase}
    (books : ∀ j, j ∈ l ↔ phase j = q) (j : Nat) :
    j ∈ l ++ [i] ↔ Function.update phase i q j = q := by
  rw [List.mem_append, List.mem_singleton, books, Function.update_apply]
  grind

/-- The others stay as they are, and the one whose call goes on is listed, or its call has it. -/
theorem Enlisted.update {phase : Nat → Phase} {listed : List Nat} {i j : Nat} {p : Phase}
    (h : Enlisted phase listed j)
    (goes : j = i → p = .registered ∨ p = .late ∨ i ∈ listed) :
    Enlisted (Function.update phase i p) listed j := by
  unfold Enlisted at *
  rw [Function.update_apply]
  grind

theorem Closing.pending_of_listed {closing : Closing} {closers : List Nat} {i : Nat}
    (mem : i ∈ closing.listed closers) : i ∈ closing.pending closers := by
  cases closing with
  | unregistered c rest => exact List.mem_cons_of_mem _ mem
  | _ => exact mem

/-- A registered component is attached, or its call is about to hand it over or to undo it. -/
theorem Inv.registered {s : State} (inv : Inv s) {i : Nat} (mem : i ∈ s.comps) :
    s.phase i = .registered ∨ s.phase i = .late ∨ s.phase i = .attached := by
  refine (inv.comps i mem).imp_right (Or.imp_right fun listed => ?_)
  rw [← inv.attached, ← List.mem_reverse, inv.order]
  exact List.mem_append_right _ (Closing.pending_of_listed listed)

theorem Inv.step {s s' : State} (inv : Inv s) (steps : Steps s s') : Inv s' := by
  have erased : ∀ {i j : Nat}, j ∈ s.comps.erase i → j ∈ s.comps ∧ j ≠ i := by
    intro i j mem
    exact ⟨List.mem_of_mem_erase mem, fun same => inv.single.not_mem_erase (same ▸ mem)⟩
  cases steps with
  | @call i p mu before after =>
    refine { inv with attached := ?_, withdrawn := ?_, comps := ?_ }
    · exact mem_iff_update inv.attached (by grind [Phase.enrolled]) (by grind [Phase.enrolled])
    · exact mem_iff_update inv.withdrawn (by grind [Phase.enrolled]) (by grind [Phase.enrolled])
    · intro j mem
      refine (inv.comps j mem).update ?_
      rintro rfl
      have := inv.comps j mem
      grind [Enlisted, Phase.enrolled]
  | @register i at_i =>
    have absent : i ∉ s.comps := fun mem => by simpa [at_i] using inv.registered mem
    refine { inv with attached := ?_, withdrawn := ?_, comps := ?_, single := ?_ }
    · exact mem_iff_update inv.attached (by simp [at_i]) (by simp)
    · exact mem_iff_update inv.withdrawn (by simp [at_i]) (by simp)
    · intro j mem
      obtain mem | mem := List.mem_append.mp mem
      · exact (inv.comps j mem).update fun _ => .inl rfl
      · exact .inl (by simp [List.mem_singleton.mp mem, State.goes])
    · exact inv.single.append (List.nodup_singleton i) (by simpa using absent)
  | @late i at_i closed =>
    refine { inv with attached := ?_, withdrawn := ?_, comps := ?_ }
    · exact mem_iff_update inv.attached (by simp [at_i]) (by simp)
    · exact mem_iff_update inv.withdrawn (by simp [at_i]) (by simp)
    · exact fun j mem => (inv.comps j mem).update fun _ => .inr (.inl rfl)
  | @handOver i at_i unclosed =>
    have before := inv.flag.mp unclosed
    have order := inv.order
    have comps := inv.comps
    simp only [before] at order comps
    refine { inv with attached := ?_, distinct := ?_, order := ?_, withdrawn := ?_, comps := ?_ }
    · exact mem_append_iff_update inv.attached
    · refine inv.distinct.append (List.nodup_singleton i) ?_
      simp [inv.attached, at_i]
    · have none := inv.early before
      simp only [Closing.pending, none, List.nil_append] at order
      simp [before, State.goes, Closing.pending, none, order]
    · exact mem_iff_update inv.withdrawn (by simp [at_i]) (by simp)
    · intro j mem
      have := comps j mem
      simp only [before, State.goes, Enlisted, Closing.listed, Function.update_apply] at this ⊢
      grind
  | @unregister i at_i =>
    refine { inv with attached := ?_, withdrawn := ?_, comps := ?_, single := inv.single.erase i }
    · exact mem_iff_update inv.attached (by simp [at_i]) (by simp)
    · exact mem_iff_update inv.withdrawn (by simp [at_i]) (by simp)
    · intro j mem
      obtain ⟨mem, other⟩ := erased mem
      exact (inv.comps j mem).update fun same => absurd same other
  | @closeComponent i at_i =>
    refine { inv with attached := ?_, withdrawn := ?_, once := ?_, comps := ?_ }
    · exact mem_iff_update inv.attached (by simp [at_i]) (by simp)
    · exact mem_append_iff_update inv.withdrawn
    · refine inv.once.append (List.nodup_singleton i) ?_
      simp [inv.withdrawn, at_i]
    · intro j mem
      refine (inv.comps j mem).update ?_
      rintro rfl
      simpa [at_i] using inv.registered mem
  | @leave i at_i =>
    exact { inv with
      comps := fun j mem => inv.comps j (erased mem).1
      single := inv.single.erase i }
  | aside mu ended => exact { inv with }
  | close unclosed =>
    have before := inv.flag.mp unclosed
    have order := inv.order
    have comps := inv.comps
    simp only [before] at order comps
    exact { inv with order, comps, flag := by simp, early := by simp }
  | @finish rest taken =>
    have order := inv.order
    have comps := inv.comps
    have flag := inv.flag
    simp only [taken] at order comps flag
    exact { inv with order, comps, flag := by simpa using flag, early := by simp }
  | @unregisterNext c rest running =>
    have order := inv.order
    have flag := inv.flag
    have comps := inv.comps
    simp only [running] at order flag comps
    refine { inv with
      order, comps := ?_, single := inv.single.erase c, flag := by simpa using flag
      early := by simp }
    intro j mem
    obtain ⟨mem, other⟩ := erased mem
    have := comps j mem
    grind [Enlisted, Closing.listed]
  | @closeNext c rest unregistered =>
    have order := inv.order
    have flag := inv.flag
    have comps := inv.comps
    simp only [unregistered] at order flag comps
    refine { inv with order := ?_, comps, flag := by simpa using flag, early := by simp }
    rw [order]
    simp [Closing.pending]
  | closeSession running =>
    have order := inv.order
    have flag := inv.flag
    have comps := inv.comps
    simp only [running] at order flag comps
    exact { inv with order, comps, flag := by simpa using flag, early := by simp }

theorem inv_of_reachable {s : State} (reach : bus.Reachable s) : Inv s := by
  refine reach.invariant _ (fun s start => ?_) fun s a t _ inv next => inv.step (step_cases next)
  subst start
  exact ⟨by simp, by simp, rfl, by simp, by simp, by simp, by simp, by simp, by simp⟩

/-! ## What closing means -/

/-- A component here is one call of `attach`. At every moment of every run, however these calls and
`Close` interleave: no component is closed twice, and those that `Close` closes are closed in the
opposite order to their attachment. Once the bus is closed no call of `attach` succeeds any more.
And when `Close` has returned, every component that was ever registered is closed and no longer
registered, unless its call is still between its registration and the end of `attachOnce`; if no
such call is left, nothing is registered. -/
theorem close_complete {s : State} (reach : bus.Reachable s) :
    (s.closedByClose ++ s.closedByAttach).Nodup ∧ s.closedByClose <+: s.attached.reverse ∧
    (s.closed = true → ∀ a s', step s a = some s' → s'.attached = s.attached) ∧
    (s.closing = .returned →
      (∀ i, (s.phase i).enrolled = true → (s.phase i).inside = true ∨
        i ∈ s.closedByClose ++ s.closedByAttach ∧ i ∉ s.comps) ∧
      ((∀ i, (s.phase i).inside = false) → s.comps = [])) := by
  have inv := inv_of_reachable reach
  have byClose : ∀ i ∈ s.closedByClose, s.phase i = .attached := by
    intro i mem
    rw [← inv.attached, ← List.mem_reverse, inv.order]
    exact List.mem_append_left _ mem
  have order : s.closedByClose <+: s.attached.reverse := ⟨_, inv.order.symm⟩
  refine ⟨?_, order, fun closed a s' next => ?_, fun returned => ?_⟩
  · refine List.Nodup.append ?_ inv.once fun i here there => ?_
    · exact (List.nodup_reverse.mpr inv.distinct).sublist order.sublist
    · simpa [byClose i here] using (inv.withdrawn i).mp there
  · cases step_cases next with
    | handOver at_i unclosed => simp [closed] at unclosed
    | _ => rfl
  · have all : s.closedByClose = s.attached.reverse := by
      rw [inv.order, returned, Closing.pending, List.append_nil]
    have gone : ∀ i, (s.phase i).inside = false → i ∉ s.comps := by
      intro i outside mem
      have := inv.comps i mem
      rw [returned] at this
      grind [Enlisted, Closing.listed, Phase.inside]
    refine ⟨fun i enrolled => ?_, fun outside => ?_⟩
    · cases inside : (s.phase i).inside with
      | true => exact .inl rfl
      | false =>
        refine .inr ⟨List.mem_append.mpr ?_, gone i inside⟩
        rw [all, List.mem_reverse, inv.attached, inv.withdrawn]
        cases eq : s.phase i <;> simp_all [Phase.enrolled, Phase.inside]
    · exact List.eq_nil_iff_forall_not_mem.mpr fun i => gone i (outside i)

/-- One component is attached when `Close` begins, another is just being restored. -/
theorem close_complete_race :
    ∃ s, bus.Reachable s ∧ s.closing = .returned ∧ s.phase 0 = .attached ∧
      s.phase 1 = .withdrawn ∧ s.closedByClose ++ s.closedByAttach = [0, 1] ∧
      1 ∉ s.comps ∧ 0 ∉ s.comps := by
  have ran : (bus.run
      [.attach 0, .ready 0, .look 0, .current 0 true, .restore 0 .ok, .register 0, .handOver 0,
        .attach 1, .ready 1, .look 1, .current 1 true, .close, .finish, .restore 1 .ok,
        .unregisterNext, .register 1, .closeNext, .handOver 1, .unregister 1, .closeComponent 1,
        .closeSession] {}).map
      (fun s => decide (s.closing = .returned ∧ s.phase 0 = .attached ∧ s.phase 1 = .withdrawn ∧
        s.closedByClose ++ s.closedByAttach = [0, 1])) = some true := by
    decide +kernel
  obtain ⟨s, run, eq⟩ := Option.map_eq_some_iff.mp ran
  obtain ⟨returned, first, second, closes⟩ := of_decide_eq_true eq
  have reach : bus.Reachable s := System.Reachable.run (.init rfl) run
  have closed := ((close_complete reach).2.2.2 returned).1
  have left : ∀ i, (s.phase i).enrolled = true → (s.phase i).inside = false → i ∉ s.comps :=
    fun i enrolled outside => ((closed i enrolled).resolve_left (by simp [outside])).2
  exact ⟨s, reach, returned, first, second, closes,
    left 1 (by rw [second]; rfl) (by rw [second]; rfl),
    left 0 (by rw [first]; rfl) (by rw [first]; rfl)⟩

end Protobus.Lifecycle.Closers
