import Protobus.Session.Model

/-!
# Readiness means that everything is restored

The supervisor installs a connection without the restore lock, and announces it without the lock
too. What orders the two with the jobs is that `runRestorers` needs the lock in between: a job
that started on an older connection has registered its component by then, and one that starts
later finds the session not ready.
-/
namespace Protobus.Session
open Library

variable {cfg : Setting} {s t : State}

/-! ## The steps -/

/-- Phases in which the supervisor has no lock and the session is not ready. -/
def Supervisor.away : Supervisor → Bool
  | .off | .lost | .waiting _ | .dialing _ | .failed _ | .restored _ _ | .announcing _ _
  | .givingUp _ => true
  | _ => false

/-- Phases that promise nothing. -/
def Supervisor.plain : Supervisor → Bool
  | .lost | .waiting _ | .dialing _ | .givingUp _ | .gaveUp | .exited => true
  | _ => false

/-- What a step of the supervisor can be, sorted by what it changes. -/
inductive SupStep (cfg : Setting) (s : State) : State → Prop
  | connect : s.supervisor = .off →
      SupStep cfg s { s with gen := s.gen + 1, supervisor := .connected }
  | announce : (s.supervisor = .connected ∨ ∃ n conn, s.supervisor = .announcing n conn) →
      SupStep cfg s { s.markReady with supervisor := .watching }
  | leave {p : Supervisor} : s.supervisor = .watching → p = .losing ∨ p = .exited →
      SupStep cfg s { s with supervisor := p }
  | lost : s.supervisor = .losing → SupStep cfg s { s.markNotReady with supervisor := .lost }
  | goto {p : Supervisor} : s.supervisor.away = true → p.plain = true →
      (p = .gaveUp → s.once = .done) → SupStep cfg s { s with supervisor := p }
  | dial {n : Nat} : s.supervisor = .dialing n →
      SupStep cfg s { s with gen := s.gen + 1, supervisor := .installed n (s.gen + 1) }
  | lock {n conn : Nat} : s.supervisor = .installed n conn → s.restoreMu = none →
      SupStep cfg s { s with
        restoreMu := some .supervisor
        supervisor := .restoring n conn s.comps }
  | restore {n conn r : Nat} {left : List Nat} : s.supervisor = .restoring n conn (r :: left) →
      SupStep cfg s { s with
        last := Function.update s.last (cfg.component r) (some conn)
        supervisor := .restoring n conn left }
  | failed {n conn : Nat} {left : List Nat} : s.supervisor = .restoring n conn left →
      SupStep cfg s { s with restoreMu := none, supervisor := .failed n }
  | unlock {n conn : Nat} : s.supervisor = .restoring n conn [] →
      SupStep cfg s { s with restoreMu := none, supervisor := .restored n conn }
  | checked {n conn : Nat} : s.supervisor = .restored n conn →
      SupStep cfg s { s with supervisor := .announcing n conn }
  | finish {err : Err} : s.once = .fresh →
      SupStep cfg s { s with once := .running, doneErr := some err }

theorem finish_eq_some {err : Err} :
    s.finish err = some t ↔
      s.once = .fresh ∧ { s with once := .running, doneErr := some err } = t := by
  simp [State.finish]

theorem supStep_of_step {a : SupAction} (h : s.supStep cfg a = some t) : SupStep cfg s t := by
  cases a with
  | connect dialed =>
    simp only [State.supStep] at h
    split at h
    · next phase =>
      split at h
      · cases h
        exact .goto (by rw [phase]; rfl) rfl (by simp)
      · cases h
        exact .connect phase
    · cases h
  | announce =>
    simp only [State.supStep] at h
    split at h
    · next phase =>
      cases h
      exact .announce (.inl phase)
    · next phase =>
      cases h
      exact .announce (.inr ⟨_, _, phase⟩)
    · cases h
  | drop =>
    simp only [State.supStep] at h
    split at h
    · next phase =>
      cases h
      refine .leave phase ?_
      split
      · exact .inr rfl
      · exact .inl rfl
    · cases h
  | stop =>
    simp only [State.supStep] at h
    split at h
    · next phase =>
      simp only [Option.ite_none_right_eq_some, Option.some.injEq] at h
      obtain ⟨_, rfl⟩ := h
      exact .leave phase (.inr rfl)
    · next phase =>
      simp only [Option.ite_none_right_eq_some, Option.some.injEq] at h
      obtain ⟨_, rfl⟩ := h
      exact .goto (by rw [phase]; rfl) rfl (by simp)
    · cases h
  | markNotReady =>
    simp only [State.supStep] at h
    split at h
    · next phase =>
      cases h
      exact .lost phase
    · cases h
  | schedule | retry =>
    simp only [State.supStep] at h
    split at h
    · next phase =>
      cases h
      refine .goto (by rw [phase]; rfl) ?_ ?_ <;> split <;> simp [Supervisor.plain]
    · cases h
  | tell | socketDied =>
    simp only [State.supStep] at h
    split at h
    · next phase =>
      cases h
      exact .goto (by rw [phase]; rfl) rfl (by simp)
    · cases h
  | dial dialed =>
    simp only [State.supStep] at h
    split at h
    · next phase =>
      split at h
      · cases h
        exact .dial phase
      · cases h
        exact .goto (by rw [phase]; rfl) rfl (by simp)
    · cases h
  | lock =>
    simp only [State.supStep] at h
    split at h
    · next phase =>
      simp only [Option.ite_none_right_eq_some, Option.some.injEq] at h
      obtain ⟨free, rfl⟩ := h
      exact .lock phase free
    · cases h
  | restore ok =>
    simp only [State.supStep] at h
    split at h
    · next phase =>
      split at h
      · cases h
        exact .failed phase
      · cases h
        exact .restore phase
    · cases h
  | unlock =>
    simp only [State.supStep] at h
    split at h
    · next phase =>
      cases h
      exact .unlock phase
    · cases h
  | checkContext =>
    simp only [State.supStep] at h
    split at h
    · next phase =>
      cases h
      split
      · exact .goto (by rw [phase]; rfl) rfl (by simp)
      · exact .checked phase
    · cases h
  | finish =>
    simp only [State.supStep] at h
    split at h
    · obtain ⟨first, rfl⟩ := finish_eq_some.mp h
      exact .finish first
    · cases h
  | giveUp =>
    simp only [State.supStep] at h
    split at h
    · next phase =>
      simp only [Option.ite_none_right_eq_some, Option.some.injEq] at h
      obtain ⟨over', rfl⟩ := h
      exact .goto (by rw [phase]; rfl) rfl (fun _ => over')
    · cases h

/-- The job has the restore lock. -/
def Job.active : Job → Bool
  | .locked | .looking | .restoring _ | .restored _ | .registered | .leaving => true
  | _ => false

/-- The connection the job works on or has restored its component on. -/
def Job.conn : Job → Option Nat
  | .restoring conn | .restored conn => some conn
  | _ => none

inductive JobStep (cfg : Setting) (s : State) (i : Nat) : State → Prop
  | lock : s.jobs i = .idle → s.restoreMu = none →
      JobStep cfg s i { s.setJob i .locked with restoreMu := some (.job i) }
  | move {p : Job} : (s.jobs i).active = true → p.active = true → p.conn = none →
      JobStep cfg s i (s.setJob i p)
  | release {p : Job} : (s.jobs i).active = true → p.active = false →
      JobStep cfg s i (s.unlock.setJob i p)
  | look : s.jobs i = .looking → s.current = true →
      JobStep cfg s i (s.setJob i (.restoring s.gen))
  | complete {conn : Nat} : s.jobs i = .restoring conn →
      JobStep cfg s i { s.setJob i (.restored conn) with
        last := Function.update s.last (cfg.component i) (some conn) }
  | repair {conn : Nat} : s.jobs i = .restoring conn →
      JobStep cfg s i { s.unlock.setJob i .ended with
        last := Function.update s.last (cfg.component i) (some conn) }
  | register {conn : Nat} : s.jobs i = .restored conn →
      JobStep cfg s i { s.setJob i .registered with comps := s.comps ++ [i] }
  | leave : s.jobs i = .leaving →
      JobStep cfg s i { s.unlock.setJob i .ended with comps := s.comps.filter (· ≠ i) }
  | unregister : JobStep cfg s i { s with comps := s.comps.filter (· ≠ i) }

theorem jobStep_of_step {i : Nat} {a : JobAction} (h : s.jobStep cfg i a = some t) :
    JobStep cfg s i t := by
  cases a with
  | lock =>
    simp only [State.jobStep] at h
    split at h
    · next pc =>
      simp only [Option.ite_none_right_eq_some, Option.some.injEq] at h
      obtain ⟨free, rfl⟩ := h
      exact .lock pc free
    · cases h
  | checkBus =>
    simp only [State.jobStep] at h
    split at h
    · next pc =>
      split at h
      · cases h
        exact .release (by rw [pc]; rfl) rfl
      · cases h
        exact .move (by rw [pc]; rfl) rfl rfl
    · cases h
  | look =>
    simp only [State.jobStep] at h
    split at h
    · next pc =>
      split at h
      · next ready =>
        cases h
        exact .look pc ready
      · cases h
        refine .release (by rw [pc]; rfl) ?_
        split <;> rfl
    · cases h
  | complete ok again =>
    simp only [State.jobStep] at h
    split at h
    · next pc =>
      split at h
      · cases h
        refine .release (by rw [pc]; rfl) ?_
        split <;> rfl
      · split at h
        · cases h
          exact .repair pc
        · cases h
          exact .complete pc
    · cases h
  | register =>
    simp only [State.jobStep] at h
    split at h
    · next pc =>
      cases h
      exact .register pc
    · cases h
  | settle =>
    simp only [State.jobStep] at h
    split at h
    · next pc =>
      split at h
      · cases h
        exact .move (by rw [pc]; rfl) rfl rfl
      · cases h
        exact .release (by rw [pc]; rfl) rfl
    · cases h
  | leave =>
    simp only [State.jobStep] at h
    split at h
    · next pc =>
      cases h
      exact .leave pc
    · cases h
  | unregister =>
    simp only [State.jobStep] at h
    split at h
    · cases h
      exact .unregister
    · cases h

/-! ## The components -/

/-- The connection of the attempt. -/
def Supervisor.conn : Supervisor → Option Nat
  | .installed _ conn | .restoring _ conn _ | .restored _ conn | .announcing _ conn => some conn
  | _ => none

/-- The restorers are through, and the connection is about to be announced. -/
def Supervisor.settled : Supervisor → Bool
  | .restored _ _ | .announcing _ _ => true
  | _ => false

def State.Settled (s : State) : Prop := s.isReady = true ∨ s.supervisor.settled = true

/-- The component of each registration was last restored on the current connection. -/
def State.AllRestored (cfg : Setting) (s : State) : Prop :=
  ∀ r ∈ s.comps, s.last (cfg.component r) = some s.gen

structure Restored (cfg : Setting) (s : State) : Prop where
  supLock : ∀ n conn left, s.supervisor = .restoring n conn left → s.restoreMu = some .supervisor
  jobLock : ∀ i, (s.jobs i).active = true → s.restoreMu = some (.job i)
  ready : s.isReady = true → s.supervisor = .watching ∨ s.supervisor = .losing ∨
    s.supervisor = .exited
  fresh : s.supervisor = .off ∨ s.supervisor = .connected →
    s.comps = [] ∧ ∀ i, (s.jobs i).conn = none
  conn : ∀ conn, s.supervisor.conn = some conn → conn = s.gen
  progress : ∀ n conn left, s.supervisor = .restoring n conn left →
    ∀ r ∈ s.comps, r ∈ left ∨ s.last (cfg.component r) = some s.gen
  settled : s.Settled → s.AllRestored cfg
  working : s.Settled → ∀ i conn, (s.jobs i).conn = some conn → conn = s.gen
  restored : ∀ i conn, s.jobs i = .restored conn → s.last (cfg.component i) = some conn

@[simp] theorem setJob_jobs (s : State) (i j : Nat) (p : Job) :
    (s.setJob i p).jobs j = if j = i then p else s.jobs j := Function.update_apply ..

theorem Job.active_of_conn {p : Job} {conn : Nat} (h : p.conn = some conn) : p.active = true := by
  cases p <;> simp [Job.conn, Job.active] at *

namespace Restored
variable (h : Restored cfg s)
include h

theorem not_ready (away : s.supervisor ≠ .watching ∧ s.supervisor ≠ .losing ∧
    s.supervisor ≠ .exited) : s.isReady = false := by
  by_contra ready
  rcases h.ready (by simpa using ready) with eq | eq | eq
  · exact away.1 eq
  · exact away.2.1 eq
  · exact away.2.2 eq

/-- While the supervisor has the lock, no job does anything to a component. -/
theorem no_job (held : s.restoreMu = some .supervisor ∨ s.restoreMu = none) (i : Nat) :
    (s.jobs i).active = false := by
  by_contra active
  have mine := h.jobLock i (by simpa using active)
  rcases held with held | held <;> simp [held] at mine

theorem no_conn (held : s.restoreMu = some .supervisor ∨ s.restoreMu = none) (i : Nat) :
    (s.jobs i).conn = none := by
  by_contra busy
  obtain ⟨conn, busy⟩ := Option.ne_none_iff_exists'.mp busy
  have := h.no_job held i
  rw [Job.active_of_conn busy] at this
  cases this

/-- The supervisor moves on, and perhaps sets the flag; the lock, the jobs and the components
are as they were. -/
theorem advance {t : State} (lock : t.restoreMu = s.restoreMu) (jobs : t.jobs = s.jobs)
    (comps : t.comps = s.comps) (gen : t.gen = s.gen) (last : t.last = s.last)
    (begun : t.supervisor ≠ .off ∧ t.supervisor ≠ .connected)
    (notRestoring : ∀ n conn left, t.supervisor ≠ .restoring n conn left)
    (ready : t.isReady = true →
      t.supervisor = .watching ∨ t.supervisor = .losing ∨ t.supervisor = .exited)
    (conn : ∀ conn, t.supervisor.conn = some conn → conn = s.gen)
    (settled : t.Settled →
      s.AllRestored cfg ∧ ∀ i conn, (s.jobs i).conn = some conn → conn = s.gen) :
    Restored cfg t := by
  refine ⟨?_, ?_, ready, ?_, ?_, ?_, ?_, ?_, ?_⟩
  · intro n conn left phase
    exact absurd phase (notRestoring n conn left)
  · rw [lock, jobs]
    exact h.jobLock
  · intro phase
    rcases phase with phase | phase
    · exact absurd phase begun.1
    · exact absurd phase begun.2
  · rw [gen]
    exact conn
  · intro n conn left phase
    exact absurd phase (notRestoring n conn left)
  · intro now
    rw [State.AllRestored, comps, gen, last]
    exact (settled now).1
  · intro now
    rw [jobs, gen]
    exact (settled now).2
  · rw [jobs, last]
    exact h.restored

/-- The supervisor moves on to a phase that promises nothing. -/
theorem goto {p : Supervisor} (off : s.isReady = true → p = .losing ∨ p = .exited)
    (plain : p.plain = true ∨ p = .losing) : Restored cfg { s with supervisor := p } := by
  have phase : p.conn = none ∧ p.settled = false ∧ p ≠ .off ∧ p ≠ .connected ∧
      ∀ n conn left, p ≠ .restoring n conn left := by
    rcases plain with plain | rfl
    · cases p <;> simp [Supervisor.plain, Supervisor.conn, Supervisor.settled] at *
    · simp [Supervisor.conn, Supervisor.settled]
  obtain ⟨noConn, unsettled, notOff, notConnected, notRestoring⟩ := phase
  refine h.advance rfl rfl rfl rfl rfl ⟨notOff, notConnected⟩ notRestoring
    (fun ready => .inr (off ready)) (by simp [noConn]) ?_
  intro now
  have before : s.Settled := by
    rcases now with ready | settled
    · exact .inl ready
    · exact absurd settled (by simp [unsettled])
  exact ⟨h.settled before, h.working before⟩

/-- The flag is cleared. -/
theorem unready (ready : Nat) : Restored cfg { s with isReady := false, ready } := by
  have before : State.Settled { s with isReady := false, ready } → s.Settled := by
    rintro (now | settled)
    · cases now
    · exact .inr settled
  exact { h with
    ready := by simp
    settled := fun now => h.settled (before now)
    working := fun now => h.working (before now) }

theorem announce (phase : s.supervisor = .connected ∨ ∃ n conn, s.supervisor = .announcing n conn) :
    Restored cfg { s.markReady with supervisor := .watching } := by
  have all : s.AllRestored cfg ∧ ∀ i conn, (s.jobs i).conn = some conn → conn = s.gen := by
    rcases phase with phase | ⟨n, conn, phase⟩
    · obtain ⟨none, idle⟩ := h.fresh (.inr phase)
      exact ⟨by simp [State.AllRestored, none], by simp [idle]⟩
    · have settled : s.Settled := .inr (by rw [phase]; rfl)
      exact ⟨h.settled settled, h.working settled⟩
  unfold State.markReady
  split
  · exact h.advance rfl rfl rfl rfl rfl (by simp) (by simp) (by simp) (by simp [Supervisor.conn])
      (fun _ => all)
  · exact h.advance rfl rfl rfl rfl rfl (by simp) (by simp) (by simp) (by simp [Supervisor.conn])
      (fun _ => all)

/-- A connection is installed while the session is not ready. -/
theorem install {p : Supervisor} (off : s.isReady = false) (unsettled : p.settled = false)
    (phase : p = .connected ∧ s.supervisor = .off ∨ ∃ n, p = .installed n (s.gen + 1)) :
    Restored cfg { s with gen := s.gen + 1, supervisor := p } := by
  have never : ¬ State.Settled { s with gen := s.gen + 1, supervisor := p } := by
    simp [State.Settled, off, unsettled]
  rcases phase with ⟨rfl, phase⟩ | ⟨n, rfl⟩
  · exact { h with
      supLock := by simp
      ready := by simp [off]
      fresh := fun _ => h.fresh (.inl phase)
      conn := by simp [Supervisor.conn]
      progress := by simp
      settled := fun now => absurd now never
      working := fun now => absurd now never }
  · exact { h with
      supLock := by simp
      ready := by simp [off]
      fresh := by simp
      conn := by simp [Supervisor.conn]
      progress := by simp
      settled := fun now => absurd now never
      working := fun now => absurd now never }

theorem lock {n conn : Nat} (phase : s.supervisor = .installed n conn) (free : s.restoreMu = none) :
    Restored cfg { s with
      restoreMu := some .supervisor
      supervisor := .restoring n conn s.comps } := by
  have off := h.not_ready (by simp [phase])
  have idle := h.no_job (.inr free)
  have never : ¬ State.Settled { s with
      restoreMu := some .supervisor
      supervisor := .restoring n conn s.comps } := by
    simp [State.Settled, off, Supervisor.settled]
  exact { h with
    supLock := fun _ _ _ _ => rfl
    jobLock := fun i active => absurd active (by simp [idle i])
    ready := by simp [off]
    fresh := by simp
    conn := fun c eq => h.conn c (by rw [phase]; exact eq)
    progress := fun _ _ left eq r mem => by
      cases eq
      exact .inl mem
    settled := fun now => absurd now never
    working := fun now => absurd now never }

theorem restore {n conn r : Nat} {left : List Nat}
    (phase : s.supervisor = .restoring n conn (r :: left)) :
    Restored cfg { s with
      last := Function.update s.last (cfg.component r) (some conn)
      supervisor := .restoring n conn left } := by
  have off := h.not_ready (by simp [phase])
  have mine := h.supLock n conn _ phase
  have same : conn = s.gen := h.conn conn (by rw [phase]; rfl)
  have never : ¬ State.Settled { s with
      last := Function.update s.last (cfg.component r) (some conn)
      supervisor := .restoring n conn left } := by
    simp [State.Settled, off, Supervisor.settled]
  refine { h with
    supLock := fun _ _ _ _ => mine
    ready := by simp [off]
    fresh := by simp
    conn := fun c eq => h.conn c (by rw [phase]; exact eq)
    progress := ?_
    settled := fun now => absurd now never
    working := fun now => absurd now never
    restored := ?_ }
  · intro _ _ left' eq q mem
    cases eq
    change q ∈ left ∨ Function.update s.last _ _ _ = _
    rw [Function.update_apply, same]
    split
    · exact .inr rfl
    · next other =>
      rcases h.progress n conn _ phase q mem with left' | done
      · rcases List.mem_cons.mp left' with rfl | left'
        · exact absurd rfl other
        · exact .inl left'
      · exact .inr done
  · intro i c restored
    have idle := h.no_job (.inl mine) i
    rw [restored] at idle
    cases idle

/-- The lock is given back, by restorers that failed or that are through. -/
theorem unlock {n conn : Nat} {left : List Nat} {p : Supervisor}
    (phase : s.supervisor = .restoring n conn left)
    (to' : p = .failed n ∨ left = [] ∧ p = .restored n conn) :
    Restored cfg { s with restoreMu := none, supervisor := p } := by
  have off := h.not_ready (by simp [phase])
  have mine := h.supLock n conn _ phase
  have idle := h.no_job (.inl mine)
  have noConn := h.no_conn (.inl mine)
  have same : conn = s.gen := h.conn conn (by rw [phase]; rfl)
  rcases to' with rfl | ⟨rfl, rfl⟩
  · exact { h with
      supLock := by simp
      jobLock := fun i active => absurd active (by simp [idle i])
      ready := by simp [off]
      fresh := by simp
      conn := by simp [Supervisor.conn]
      progress := by simp
      settled := fun now => absurd now (by simp [State.Settled, off, Supervisor.settled])
      working := fun now => absurd now (by simp [State.Settled, off, Supervisor.settled]) }
  · refine { h with
      supLock := by simp
      jobLock := fun i active => absurd active (by simp [idle i])
      ready := by simp [off]
      fresh := by simp
      conn := by simp [Supervisor.conn, same]
      progress := by simp
      settled := ?_
      working := by simp [noConn] }
    intro _ r mem
    rcases h.progress n conn _ phase r mem with none | done
    · cases none
    · exact done

theorem supStep (next : SupStep cfg s t) : Restored cfg t := by
  cases next with
  | connect phase =>
    have off := h.not_ready (by simp [phase])
    exact h.install off rfl (.inl ⟨rfl, phase⟩)
  | announce phase => exact h.announce phase
  | leave phase to' =>
    refine h.goto (fun _ => to') ?_
    rcases to' with rfl | rfl
    · exact .inr rfl
    · exact .inl rfl
  | lost phase =>
    unfold State.markNotReady
    split
    · exact (h.unready _).goto (by simp) (.inl rfl)
    · next off => exact h.goto (fun ready => absurd ready off) (.inl rfl)
  | goto away plain _ =>
    refine h.goto (fun ready => ?_) (.inl plain)
    rcases h.ready ready with eq | eq | eq <;> simp [eq, Supervisor.away] at away
  | dial phase =>
    have off := h.not_ready (by simp [phase])
    exact h.install off rfl (.inr ⟨_, rfl⟩)
  | lock phase free => exact h.lock phase free
  | restore phase => exact h.restore phase
  | failed phase => exact h.unlock phase (.inl rfl)
  | unlock phase => exact h.unlock phase (.inr ⟨rfl, rfl⟩)
  | @checked n conn phase =>
    have off := h.not_ready (by simp [phase])
    have settled : s.Settled := .inr (by rw [phase]; rfl)
    exact h.advance rfl rfl rfl rfl rfl (by simp) (by simp) (by simp [off])
      (fun c eq => h.conn c (by rw [phase]; exact eq))
      (fun _ => ⟨h.settled settled, h.working settled⟩)
  | finish _ => exact { h with }

theorem no_restorers {i : Nat} (active : (s.jobs i).active = true) (n conn : Nat)
    (left : List Nat) : s.supervisor ≠ .restoring n conn left := by
  intro phase
  have mine := h.jobLock i active
  rw [h.supLock n conn left phase] at mine
  cases mine

/-- One job moves on. -/
theorem setJob {i : Nat} {p : Job} (active : p.active = true → s.restoreMu = some (.job i))
    (conn : ∀ conn, p.conn = some conn →
      (s.Settled → conn = s.gen) ∧ s.supervisor ≠ .off ∧ s.supervisor ≠ .connected)
    (restored : ∀ conn, p = .restored conn → s.last (cfg.component i) = some conn) :
    Restored cfg (s.setJob i p) := by
  refine { h with jobLock := ?_, fresh := ?_, working := ?_, restored := ?_ }
  · intro j now
    rw [setJob_jobs] at now
    split at now
    · next eq =>
      subst eq
      exact active now
    · exact h.jobLock j now
  · intro phase
    refine ⟨(h.fresh phase).1, fun j => ?_⟩
    rw [setJob_jobs]
    split
    · by_contra busy
      obtain ⟨c, busy⟩ := Option.ne_none_iff_exists'.mp busy
      obtain ⟨-, notOff, notConnected⟩ := conn c busy
      rcases phase with phase | phase
      · exact notOff phase
      · exact notConnected phase
    · exact (h.fresh phase).2 j
  · intro settled j c now
    rw [setJob_jobs] at now
    split at now
    · exact (conn c now).1 settled
    · exact h.working settled j c now
  · intro j c now
    rw [setJob_jobs] at now
    split at now
    · next eq =>
      subst eq
      exact restored c now
    · exact h.restored j c now

/-- A job is over, and gives the lock back. -/
theorem release {i : Nat} {p : Job} (active : (s.jobs i).active = true) (idle : p.active = false) :
    Restored cfg (s.unlock.setJob i p) := by
  have noConn : p.conn = none := by
    by_contra busy
    obtain ⟨c, busy⟩ := Option.ne_none_iff_exists'.mp busy
    rw [Job.active_of_conn busy] at idle
    cases idle
  have moved : Restored cfg (s.setJob i p) := by
    refine h.setJob (by simp [idle]) (by simp [noConn]) ?_
    intro c eq
    rw [eq] at noConn
    cases noConn
  refine { moved with supLock := ?_, jobLock := ?_ }
  · intro n c left phase
    exact absurd phase (h.no_restorers active n c left)
  · intro j now
    have held := moved.jobLock j now
    change s.restoreMu = _ at held
    rw [h.jobLock i active] at held
    cases held
    change ((s.setJob i p).jobs i).active = true at now
    rw [setJob_jobs, if_pos rfl, idle] at now
    cases now

/-- A job has restored its component. -/
theorem complete {i conn : Nat} (pc : s.jobs i = .restoring conn) : Restored cfg { s with
    last := Function.update s.last (cfg.component i) (some conn) } := by
  have active : (s.jobs i).active = true := by rw [pc]; rfl
  refine { h with progress := ?_, settled := ?_, restored := ?_ }
  · intro n c left phase
    exact absurd phase (h.no_restorers active n c left)
  · intro settled r mem
    change Function.update s.last _ _ _ = _
    rw [Function.update_apply]
    split
    · rw [h.working settled i conn (by rw [pc]; rfl)]
    · exact h.settled settled r mem
  · intro j c restored
    have held := h.jobLock j (by rw [restored]; rfl)
    rw [h.jobLock i active] at held
    cases held
    cases pc.symm.trans restored

theorem register {i conn : Nat} (pc : s.jobs i = .restored conn) :
    Restored cfg { s with comps := s.comps ++ [i] } := by
  have active : (s.jobs i).active = true := by rw [pc]; rfl
  refine { h with fresh := ?_, progress := ?_, settled := ?_ }
  · intro phase
    have idle := (h.fresh phase).2 i
    rw [pc] at idle
    cases idle
  · intro n c left phase
    exact absurd phase (h.no_restorers active n c left)
  · intro settled r mem
    rcases List.mem_append.mp mem with old | new
    · exact h.settled settled r old
    · cases List.mem_singleton.mp new
      change s.last _ = some s.gen
      rw [h.restored i conn pc, h.working settled i conn (by rw [pc]; rfl)]

theorem fewer (keep : Nat → Bool) : Restored cfg { s with comps := s.comps.filter keep } := by
  refine { h with fresh := ?_, progress := ?_, settled := ?_ }
  · intro phase
    obtain ⟨none, idle⟩ := h.fresh phase
    exact ⟨by simp [none], idle⟩
  · intro n conn left phase r mem
    exact h.progress n conn left phase r (List.mem_filter.mp mem).1
  · intro settled r mem
    exact h.settled settled r (List.mem_filter.mp mem).1

theorem jobStep {i : Nat} (next : JobStep cfg s i t) : Restored cfg t := by
  cases next with
  | lock pc free =>
    have idle := h.no_job (.inr free)
    have taken : Restored cfg { s with restoreMu := some (.job i) } := by
      refine { h with supLock := ?_, jobLock := ?_ }
      · intro n conn left phase
        exact absurd (h.supLock n conn left phase) (by simp [free])
      · intro j active
        exact absurd active (by simp [idle j])
    exact taken.setJob (fun _ => rfl) (by simp [Job.conn]) (by simp)
  | move active _ noConn =>
    refine h.setJob (fun _ => h.jobLock i active) (by simp [noConn]) ?_
    intro c eq
    rw [eq] at noConn
    cases noConn
  | release active idle => exact h.release active idle
  | look pc current =>
    have ready : s.isReady = true := (Bool.and_eq_true_iff.mp current).1
    refine h.setJob (fun _ => h.jobLock i (by rw [pc]; rfl)) ?_ (by simp)
    intro c eq
    cases eq
    refine ⟨fun _ => rfl, ?_, ?_⟩ <;> intro phase <;> simpa [phase] using h.ready ready
  | complete pc =>
    have done := h.complete pc
    refine done.setJob (fun _ => h.jobLock i (by rw [pc]; rfl)) ?_ ?_
    · intro c eq
      cases eq
      refine ⟨fun settled => h.working settled i _ (by rw [pc]; rfl), ?_, ?_⟩
      · intro phase
        have idle := (h.fresh (.inl phase)).2 i
        rw [pc] at idle
        cases idle
      · intro phase
        have idle := (h.fresh (.inr phase)).2 i
        rw [pc] at idle
        cases idle
    · intro c eq
      cases eq
      exact Function.update_self ..
  | repair pc =>
    have active : (s.jobs i).active = true := by rw [pc]; rfl
    exact (h.complete pc).release active rfl
  | register pc =>
    exact (h.register pc).setJob (fun _ => h.jobLock i (by rw [pc]; rfl)) (by simp [Job.conn])
      (by simp)
  | leave pc => exact (h.fewer _).release (by change (s.jobs i).active = true; rw [pc]; rfl) rfl
  | unregister => exact h.fewer _

end Restored

end Protobus.Session
