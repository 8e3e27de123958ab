import Protobus.Dispatcher.Calls

/-!
# No call waits on a dead reply queue

A request names the reply queue that its caller was handed, and the caller registers later. If
the queue is retired in between, nothing fails the call any more: the table was cleared before
the call was in it. This can happen in two ways. A recovery clears the table, then the fields,
then closes the channels, and a call with the old pair can register and publish until the last
of these. And a reconnection that restores the dispatcher a second time, after another component
failed, installs a queue without clearing the table. In runs without these, every request that
was published names the installed queue.
-/
namespace Protobus.Dispatcher
open Library

variable {kind : Nat → Kind}

/-- Between the clearing of the table and that of the fields. -/
def Recovery.failing : Recovery → Bool
  | .failed _ => true
  | _ => false

/-- The table was cleared and so were the fields. -/
def Recovery.clearing : Recovery → Bool
  | .cleared _ | .retired => true
  | _ => false

/-- The two races do not happen: a call that could still send registers while its reply queue
is installed and no recovery is about to retire it, and a restore replaces no queue that a
request in the table names. -/
def orderly (kind : Nat → Kind) (s : State) : Action → Bool
  | .call (.register i) => match s.calls.pcs i with
    | .paired p q => kind i = .oneWay || !s.link.openPubs.contains p ||
        s.link.queue = some q && !s.link.recovery.failing
    | _ => true
  | .link .install => s.calls.pending.all fun e =>
      (s.calls.attempts[e.2]?).all fun t => s.link.queue ≠ some t.queue
  | _ => true

/-- The request was not sent and its channel cannot send it. -/
def Unsendable (s : State) (a : Nat) (t : Attempt) : Prop :=
  t.pub ∉ s.link.openPubs ∧ a ∉ s.calls.sent

/-- The request names the installed queue, which is not about to be retired. -/
def Answerable (l : Link) (t : Attempt) : Prop :=
  l.queue = some t.queue ∧ l.losing = false ∧ l.recovery.failing = false

/-! ## The steps of the link -/

inductive LinkStep (l : Link) : LinkAction → Link → Option Fault → Prop
  | connectionDies : LinkStep l .connectionDies { l with up := false, openPubs := [] } none
  | dial : l.losing = false → LinkStep l .dial { l with up := true } none
  | lostFail : l.up = false → LinkStep l .lostFail { l with losing := true } (some .disconnected)
  | lostClear : l.losing = true → LinkStep l .lostClear { l.clear with losing := false } none
  | closePub (p : Nat) : LinkStep l (.closePub p) (l.closePub (some p)) none
  | consumerDies : LinkStep l .consumerDies { l with consuming := false } none
  | install : l.up = true → l.closed = false → l.recovery = .idle →
      LinkStep l .install l.install none
  | repairPub : l.up = true → LinkStep l .repairPub { l.closePub l.pub with
      pub := some l.pubs
      pubs := l.pubs + 1
      openPubs := l.pubs :: (l.closePub l.pub).openPubs } none
  | recoverBegin : l.recovery = .idle → LinkStep l .recoverBegin
      { l with recovery := if l.queue.isSome then .begun l.pub else .retired } none
  | recoverFail {p : Option Nat} : l.recovery = .begun p →
      LinkStep l .recoverFail { l with recovery := .failed p } (some .disconnected)
  | recoverClear {p : Option Nat} : l.recovery = .failed p →
      LinkStep l .recoverClear { l.clear with recovery := .cleared p } none
  | recoverClose {p : Option Nat} : l.recovery = .cleared p →
      LinkStep l .recoverClose { l.closePub p with recovery := .retired } none
  | recoverInstall : l.recovery = .retired → l.up = true → l.closed = false →
      LinkStep l .recoverInstall { l.install with recovery := .idle } none
  | recoverEnd : l.recovery = .retired → LinkStep l .recoverEnd { l with recovery := .idle } none
  | close : LinkStep l .close { l.clear with closed := true, closing := true } none
  | closeFail : l.closing = true → LinkStep l .closeFail { l with closing := false } (some .closed)

theorem linkStep_of_step {l l' : Link} {a : LinkAction} {err : Option Fault}
    (h : l.step a = some (l', err)) : LinkStep l a l' err := by
  cases a with
  | connectionDies =>
    cases h
    exact .connectionDies
  | dial =>
    simp only [Link.step, Option.ite_none_right_eq_some, Bool.and_eq_true, Bool.not_eq_true',
      Option.some.injEq] at h
    obtain ⟨⟨_, losing⟩, h⟩ := h
    cases h
    exact .dial losing
  | lostFail =>
    simp only [Link.step, Option.ite_none_right_eq_some, Bool.and_eq_true, Bool.not_eq_true',
      Option.some.injEq] at h
    obtain ⟨⟨up, _⟩, h⟩ := h
    cases h
    exact .lostFail up
  | lostClear =>
    simp only [Link.step, Option.ite_none_right_eq_some, Option.some.injEq] at h
    obtain ⟨losing, h⟩ := h
    cases h
    exact .lostClear losing
  | closePub p =>
    cases h
    exact .closePub p
  | consumerDies =>
    cases h
    exact .consumerDies
  | install =>
    simp only [Link.step, Option.ite_none_right_eq_some, Bool.and_eq_true, Bool.not_eq_true',
      decide_eq_true_eq, Option.some.injEq] at h
    obtain ⟨⟨⟨up, open'⟩, idle⟩, h⟩ := h
    cases h
    exact .install up open' idle
  | repairPub =>
    simp only [Link.step, Option.ite_none_right_eq_some, Bool.and_eq_true, Option.some.injEq] at h
    obtain ⟨⟨⟨⟨up, _⟩, _⟩, _⟩, h⟩ := h
    cases h
    exact .repairPub up
  | recoverBegin =>
    simp only [Link.step, Option.ite_none_right_eq_some, Bool.and_eq_true, decide_eq_true_eq,
      Option.some.injEq] at h
    obtain ⟨⟨_, idle⟩, h⟩ := h
    cases h
    exact .recoverBegin idle
  | recoverFail =>
    simp only [Link.step] at h
    split at h
    · next phase =>
      cases h
      exact .recoverFail phase
    · cases h
  | recoverClear =>
    simp only [Link.step] at h
    split at h
    · next phase =>
      cases h
      exact .recoverClear phase
    · cases h
  | recoverClose =>
    simp only [Link.step] at h
    split at h
    · next phase =>
      cases h
      exact .recoverClose phase
    · cases h
  | recoverInstall =>
    simp only [Link.step] at h
    split at h
    · next phase =>
      simp only [Option.ite_none_right_eq_some, Bool.and_eq_true, Bool.not_eq_true',
        Option.some.injEq] at h
      obtain ⟨⟨up, open'⟩, h⟩ := h
      cases h
      exact .recoverInstall phase up open'
    · cases h
  | recoverEnd =>
    simp only [Link.step] at h
    split at h
    · next phase =>
      cases h
      exact .recoverEnd phase
    · cases h
  | close =>
    simp only [Link.step, Option.ite_none_right_eq_some, Option.some.injEq] at h
    obtain ⟨_, h⟩ := h
    cases h
    exact .close
  | closeFail =>
    simp only [Link.step, Option.ite_none_right_eq_some, Option.some.injEq] at h
    obtain ⟨closing, h⟩ := h
    cases h
    exact .closeFail closing

/-- What the link keeps to by itself. -/
structure LinkSound (l : Link) : Prop where
  down : l.up = false → l.openPubs = []
  losing : l.losing = true → l.up = false
  clearing : l.recovery.clearing = true → l.queue = none
  closing : l.closing = true → l.closed = true
  closed : l.closed = true → l.queue = none
  pub : ∀ p, l.pub = some p → p < l.pubs

theorem LinkSound.step {l l' : Link} {a : LinkAction} {err : Option Fault} (h : LinkSound l)
    (next : LinkStep l a l' err) : LinkSound l' := by
  have filtered : ∀ p, l.up = false → (l.closePub p).openPubs = [] := by
    intro p down
    simp [Link.closePub, h.down down]
  cases next with
  | connectionDies => exact { h with down := fun _ => rfl, losing := fun _ => rfl }
  | dial calm => exact { h with down := by simp, losing := by simp [calm] }
  | lostFail down => exact { h with losing := fun _ => down }
  | lostClear =>
    exact { h with
      losing := by simp
      clearing := fun _ => rfl
      closed := fun _ => rfl
      pub := by simp [Link.clear] }
  | closePub p => exact { h with down := filtered (some p) }
  | consumerDies => exact { h with }
  | install up live idle =>
    exact { h with
      down := by simp [Link.install, up]
      clearing := by simp [Link.install, idle, Recovery.clearing]
      closed := by simp [Link.install, live]
      pub := by simp [Link.install] }
  | repairPub up => exact { h with down := by simp [Link.closePub, up], pub := by simp }
  | recoverBegin idle =>
    refine { h with clearing := ?_ }
    cases l.queue <;> simp [Recovery.clearing]
  | recoverFail phase => exact { h with clearing := by simp [Recovery.clearing] }
  | recoverClear phase =>
    exact { h with
      clearing := fun _ => rfl
      closed := fun _ => rfl
      pub := by simp [Link.clear] }
  | recoverClose phase =>
    exact { h with
      down := filtered _
      clearing := fun _ => h.clearing (by rw [phase]; rfl) }
  | recoverInstall phase up live =>
    exact { h with
      down := by simp [Link.install, up]
      clearing := by simp [Recovery.clearing]
      closed := by simp [Link.install, live]
      pub := by simp [Link.install] }
  | recoverEnd phase => exact { h with clearing := by simp [Recovery.clearing] }
  | close =>
    exact { h with
      clearing := fun _ => rfl
      closing := fun _ => rfl
      closed := fun _ => rfl
      pub := by simp [Link.clear] }
  | closeFail => exact { h with closing := by simp }

/-! ## The table -/

/-- Every request in the table can be answered, or will not be sent, or `close` is about to
fail it. -/
structure Kept (s : State) : Prop where
  link : LinkSound s.link
  paired : ∀ i p q, s.calls.pcs i = .paired p q → p < s.link.pubs
  attempts : ∀ t ∈ s.calls.attempts, t.pub < s.link.pubs
  sent : ∀ a ∈ s.calls.sent, a < s.calls.attempts.length
  sending : ∀ i a, s.calls.pcs i = .sent a ∨ s.calls.pcs i = .waiting a → a ∈ s.calls.sent
  confirmed : ∀ a ∈ s.calls.confirmed, a ∈ s.calls.sent
  entries : ∀ e ∈ s.calls.pending, ∃ t, s.calls.attempts[e.2]? = some t ∧
    (Answerable s.link t ∨ Unsendable s e.2 t ∨ s.link.closing = true)

/-- A step of the link keeps the table, if it keeps what each entry rests on. -/
theorem Kept.of_link {s : State} {l : Link} (h : Kept s) (link : LinkSound l)
    (pubs : s.link.pubs ≤ l.pubs)
    (opened : ∀ p ∈ l.openPubs, p ∈ s.link.openPubs ∨ s.link.pubs ≤ p)
    (entries : ∀ e ∈ s.calls.pending, ∀ t, s.calls.attempts[e.2]? = some t →
      Answerable s.link t →
      Answerable l t ∨ Unsendable { s with link := l } e.2 t ∨ l.closing = true)
    (closing : s.link.closing = true → l.closing = true) : Kept { s with link := l } := by
  refine ⟨link, ?_, ?_, h.sent, h.sending, h.confirmed, ?_⟩
  · intro i p q pc
    exact Nat.lt_of_lt_of_le (h.paired i p q pc) pubs
  · intro t mem
    exact Nat.lt_of_lt_of_le (h.attempts t mem) pubs
  · intro e mem
    obtain ⟨t, found, status⟩ := h.entries e mem
    refine ⟨t, found, ?_⟩
    rcases status with answerable | ⟨shut, unsent⟩ | leaving
    · exact entries e mem t found answerable
    · right
      left
      refine ⟨?_, unsent⟩
      intro reopened
      rcases opened _ reopened with before | fresh
      · exact shut before
      · have := h.attempts t (List.mem_of_getElem? found)
        omega
    · exact .inr (.inr (closing leaving))

theorem Kept.failPending {s : State} {l : Link} (h : Kept s) (link : LinkSound l)
    (pubs : l.pubs = s.link.pubs) (err : Fault) : Kept ⟨s.calls.failPending err, l⟩ := by
  refine ⟨link, ?_, ?_, h.sent, h.sending, h.confirmed, by simp [Calls.failPending]⟩
  · intro i p q pc
    rw [pubs]
    exact h.paired i p q pc
  · intro t mem
    rw [pubs]
    exact h.attempts t mem

theorem Kept.linkStep {s : State} {a : LinkAction} {l : Link} {err : Option Fault}
    (h : Kept s) (next : LinkStep s.link a l err)
    (ok : orderly kind s (.link a) = true) : Kept ⟨err.elim s.calls s.calls.failPending, l⟩ := by
  have link := h.link.step next
  have fewer : ∀ p q, p ∈ (s.link.closePub q).openPubs → p ∈ s.link.openPubs := by
    intro p q mem
    exact (List.mem_filter.mp mem).1
  have opened : ∀ p ps, (∀ x ∈ ps, x ∈ s.link.openPubs) → p ∈ s.link.pubs :: ps →
      p ∈ s.link.openPubs ∨ s.link.pubs ≤ p := by
    intro p ps sub mem
    rcases List.mem_cons.mp mem with rfl | mem
    · exact .inr (Nat.le_refl _)
    · exact .inl (sub p mem)
  cases next with
  | connectionDies => exact h.of_link link (Nat.le_refl _) (by simp) (fun _ _ _ _ => .inl) id
  | dial => exact h.of_link link (Nat.le_refl _) (fun _ => .inl) (fun _ _ _ _ => .inl) id
  | lostFail => exact h.failPending link rfl _
  | lostClear losing =>
    refine h.of_link link (Nat.le_refl _) (fun _ => .inl) ?_ id
    intro e _ t _ answerable
    simp [Answerable, losing] at answerable
  | closePub p =>
    exact h.of_link link (Nat.le_refl _) (fun _ mem => .inl (fewer _ _ mem))
      (fun _ _ _ _ => .inl) id
  | consumerDies => exact h.of_link link (Nat.le_refl _) (fun _ => .inl) (fun _ _ _ _ => .inl) id
  | install up live idle =>
    refine h.of_link link (Nat.le_succ _) (fun p => opened p _ fun _ => id) ?_ id
    intro e mem t found answerable
    have free := List.all_eq_true.mp ok e mem
    rw [found] at free
    simp [answerable.1] at free
  | repairPub up =>
    exact h.of_link link (Nat.le_succ _) (fun p => opened p _ fun x => fewer x _)
      (fun _ _ _ _ => .inl) id
  | recoverBegin idle =>
    refine h.of_link link (Nat.le_refl _) (fun _ => .inl) ?_ id
    intro e _ t _ answerable
    refine .inl ⟨answerable.1, answerable.2.1, ?_⟩
    cases s.link.queue <;> rfl
  | recoverFail => exact h.failPending link rfl _
  | recoverClear phase =>
    refine h.of_link link (Nat.le_refl _) (fun _ => .inl) ?_ id
    intro e _ t _ answerable
    simp [Answerable, phase, Recovery.failing] at answerable
  | recoverClose phase =>
    refine h.of_link link (Nat.le_refl _) (fun _ mem => .inl (fewer _ _ mem)) ?_ id
    intro e _ t _ answerable
    exact .inl ⟨answerable.1, answerable.2.1, rfl⟩
  | recoverInstall phase up live =>
    refine h.of_link link (Nat.le_succ _) (fun p => opened p _ fun _ => id) ?_ id
    intro e _ t _ answerable
    have none := h.link.clearing (by rw [phase]; rfl)
    simp [Answerable, none] at answerable
  | recoverEnd =>
    refine h.of_link link (Nat.le_refl _) (fun _ => .inl) ?_ id
    intro e _ t _ answerable
    exact .inl ⟨answerable.1, answerable.2.1, rfl⟩
  | close =>
    refine h.of_link link (Nat.le_refl _) (fun _ => .inl) ?_ (fun _ => rfl)
    intro e _ t _ _
    exact .inr (.inr rfl)
  | closeFail => exact h.failPending link rfl _

/-- A step of the calls that registers, sends and confirms nothing. -/
theorem Kept.of_calls {s : State} {c : Calls} (h : Kept s)
    (attempts : c.attempts = s.calls.attempts) (sent : c.sent = s.calls.sent)
    (confirmed : c.confirmed = s.calls.confirmed)
    (pending : ∀ e ∈ c.pending, e ∈ s.calls.pending)
    (pcs : ∀ i, c.pcs i = s.calls.pcs i ∨ (c.pcs i).Plain s.link ∨
      ∃ a ∈ s.calls.sent, c.pcs i = .waiting a) :
    Kept { s with calls := c } := by
  refine ⟨h.link, ?_, ?_, ?_, ?_, ?_, ?_⟩
  · intro i p q pc
    rcases pcs i with same | plain | ⟨_, _, waiting⟩
    · exact h.paired i p q (same ▸ pc)
    · have handed := plain.handed p q pc
      unfold Link.pair at handed
      split at handed
      · next pub queue installed _ =>
        simp only [Option.ite_none_right_eq_some, Option.some.injEq, Prod.mk.injEq] at handed
        obtain ⟨-, rfl, rfl⟩ := handed
        exact h.link.pub _ installed
      · cases handed
    · cases waiting.symm.trans pc
  · rw [attempts]
    exact h.attempts
  · rw [attempts, sent]
    exact h.sent
  · intro i a pc
    rw [sent]
    rcases pcs i with same | plain | ⟨b, sent, waiting⟩
    · exact h.sending i a (same ▸ pc)
    · have unheld := plain.unheld
      rcases pc with pc | pc
      · cases (congrArg Pc.held pc).symm.trans unheld
      · cases (congrArg Pc.held pc).symm.trans unheld
    · rcases pc with pc | pc
      · cases waiting.symm.trans pc
      · cases waiting.symm.trans pc
        exact sent
  · rw [confirmed, sent]
    exact h.confirmed
  · intro e mem
    obtain ⟨t, found, status⟩ := h.entries e (pending e mem)
    refine ⟨t, by rw [attempts]; exact found, ?_⟩
    rw [Unsendable, sent]
    exact status

/-- What `orderly` asks of a registration is what the new entry needs. -/
theorem Kept.entry_of_register {s : State} {i p q : Nat} (h : Kept s)
    (pc : s.calls.pcs i = .paired p q) (expects : kind i ≠ .oneWay)
    (ok : orderly kind s (.call (.register i)) = true) :
    Answerable s.link ⟨i, p, q⟩ ∨
      Unsendable { s with calls := s.calls.register kind i p q } s.calls.attempts.length
        ⟨i, p, q⟩ := by
  by_cases live : p ∈ s.link.openPubs
  · -- An open channel means that the connection is up, so it is not being lost.
    have up : s.link.up = true := by
      by_contra down
      simp [h.link.down (by simpa using down)] at live
    have calm : s.link.losing = false := by
      by_contra losing
      simp [h.link.losing (by simpa using losing)] at up
    simp only [orderly, pc, expects, live, decide_false, Bool.false_or, List.contains_eq_mem,
      decide_true, Bool.not_true, Bool.and_eq_true, decide_eq_true_eq, Bool.not_eq_true'] at ok
    exact .inl ⟨ok.1, calm, ok.2⟩
  · refine .inr ⟨live, ?_⟩
    intro sent
    exact Nat.lt_irrefl _ (h.sent _ sent)

theorem Kept.register {s : State} {i p q : Nat} (h : Kept s) (pc : s.calls.pcs i = .paired p q)
    (ok : orderly kind s (.call (.register i)) = true) :
    Kept { s with calls := s.calls.register kind i p q } := by
  refine ⟨h.link, ?_, ?_, ?_, ?_, h.confirmed, ?_⟩
  · intro j p' q' pc'
    change (s.calls.setPc i _).pcs j = _ at pc'
    rw [Calls.setPc_pcs] at pc'
    split at pc'
    · cases pc'
    · exact h.paired j p' q' pc'
  · intro t mem
    rcases List.mem_append.mp mem with old | new
    · exact h.attempts t old
    · cases List.mem_singleton.mp new
      exact h.paired i p q pc
  · intro a sent
    change a < (s.calls.attempts ++ [_]).length
    rw [List.length_append]
    exact Nat.lt_add_right _ (h.sent a sent)
  · intro j a pc'
    change (s.calls.setPc i _).pcs j = _ ∨ (s.calls.setPc i _).pcs j = _ at pc'
    rw [Calls.setPc_pcs] at pc'
    split at pc'
    · simp at pc'
    · exact h.sending j a pc'
  · intro e mem
    change e ∈ (if kind i = .oneWay then _ else _) at mem
    have older : e ∈ s.calls.pending → ∃ t, (s.calls.attempts ++ [⟨i, p, q⟩])[e.2]? = some t ∧
        (Answerable s.link t ∨ Unsendable s e.2 t ∨ s.link.closing = true) := by
      intro old
      obtain ⟨t, found, status⟩ := h.entries e old
      refine ⟨t, ?_, status⟩
      rw [List.getElem?_append_left (List.getElem?_eq_some_iff.mp found).1]
      exact found
    split at mem
    · exact older mem
    · next expects =>
      rcases List.mem_cons.mp mem with rfl | old
      · refine ⟨⟨i, p, q⟩, List.getElem?_concat_length, ?_⟩
        rcases h.entry_of_register pc expects ok with answerable | unsendable
        · exact .inl answerable
        · exact .inr (.inl unsendable)
      · exact older (List.mem_filter.mp old).1

theorem Kept.send {s : State} {i a : Nat} {t : Attempt} (h : Kept s)
    (found : s.calls.attempts[a]? = some t) (live : t.pub ∈ s.link.openPubs) :
    Kept { s with calls := { s.calls.setPc i (.sent a) with sent := a :: s.calls.sent } } := by
  refine ⟨h.link, ?_, h.attempts, ?_, ?_, ?_, ?_⟩
  · intro j p q pc
    change (s.calls.setPc i _).pcs j = _ at pc
    rw [Calls.setPc_pcs] at pc
    split at pc
    · cases pc
    · exact h.paired j p q pc
  · intro b sent
    rcases List.mem_cons.mp sent with rfl | sent
    · exact (List.getElem?_eq_some_iff.mp found).1
    · exact h.sent b sent
  · intro j b pc
    change (s.calls.setPc i _).pcs j = _ ∨ (s.calls.setPc i _).pcs j = _ at pc
    rw [Calls.setPc_pcs] at pc
    split at pc
    · obtain rfl : a = b := by simpa using pc
      exact List.mem_cons_self
    · exact List.mem_cons_of_mem _ (h.sending j b pc)
  · intro b confirmed
    exact List.mem_cons_of_mem _ (h.confirmed b confirmed)
  · intro e mem
    obtain ⟨u, held, status⟩ := h.entries e mem
    refine ⟨u, held, ?_⟩
    rcases status with answerable | ⟨shut, unsent⟩ | leaving
    · exact .inl answerable
    · refine .inr (.inl ⟨shut, ?_⟩)
      intro sent
      rcases List.mem_cons.mp sent with same | sent
      · -- An entry that cannot be sent is not the one that was.
        have both := held.symm.trans (same ▸ found)
        cases both
        exact shut live
      · exact unsent sent
    · exact .inr (.inr leaving)

theorem Kept.callStep {s : State} {x : CallAction} {c : Calls} (h : Kept s)
    (next : CallStep kind s.link s.calls x c) (ok : orderly kind s (.call x) = true) :
    Kept { s with calls := c } := by
  have moved : ∀ i pc, pc.Plain s.link ∨ (∃ a ∈ s.calls.sent, pc = .waiting a) → ∀ j,
      (s.calls.setPc i pc).pcs j = s.calls.pcs j ∨ ((s.calls.setPc i pc).pcs j).Plain s.link ∨
        ∃ a ∈ s.calls.sent, (s.calls.setPc i pc).pcs j = .waiting a := by
    intro i pc next j
    rw [Calls.setPc_pcs]
    split
    · exact .inr next
    · exact .inl rfl
  cases next with
  | goto _ _ _ plain => exact h.of_calls rfl rfl rfl (fun _ => id) (moved _ _ (.inl plain))
  | register pc => exact h.register pc ok
  | send _ found live => exact h.send found live
  | @confirm i a pc =>
    have sent := h.sending i a (.inl pc)
    have base : Kept ⟨s.calls.setPc i
        (if kind i = .oneWay then .returned .published else .waiting a), s.link⟩ := by
      refine h.of_calls rfl rfl rfl (fun _ => id) (moved i _ ?_)
      split
      · exact .inl ⟨rfl, by simp⟩
      · exact .inr ⟨a, sent, rfl⟩
    refine { base with confirmed := ?_ }
    intro b confirmed
    rcases List.mem_cons.mp confirmed with rfl | confirmed
    · exact sent
    · exact h.confirmed b confirmed
  | @forget i a again pc =>
    have plain : (if again then Pc.channel else .returned .failed).Plain s.link := by
      split <;> exact ⟨rfl, by simp⟩
    exact h.of_calls rfl rfl rfl (fun _ mem => (List.mem_filter.mp mem).1)
      (moved i _ (.inl plain))
  | @receive i a o _ _ _ =>
    exact h.of_calls rfl rfl rfl (fun _ => id) (moved i _ (.inl ⟨rfl, by simp⟩))
  | @route n =>
    rcases s.calls.route_cases kind n with eq | ⟨a, -, eq⟩ <;> rw [eq]
    · exact h.of_calls rfl rfl rfl (fun _ => id) (fun _ => .inl rfl)
    · exact h.of_calls rfl rfl rfl (fun _ mem => (List.mem_filter.mp mem).1) (fun _ => .inl rfl)
  | resolve =>
    unfold Calls.fill
    split
    · exact h.of_calls rfl rfl rfl (fun _ => id) (fun _ => .inl rfl)
    · exact h.of_calls rfl rfl rfl (fun _ => id) (fun _ => .inl rfl)

theorem kept_of_reachable {s : State}
    (reach : ((system kind).restrict (orderly kind)).Reachable s) : Kept s := by
  refine reach.invariant Kept ?_ ?_
  · intro s start
    cases start
    refine ⟨⟨by simp, by simp, by simp, by simp, by simp, by simp⟩, by simp, by simp, by simp,
      by simp, by simp, by simp⟩
  · intro s a t _ h next
    obtain ⟨ok, next⟩ := System.restrict_step.mp next
    cases a with
    | call a =>
      obtain ⟨c, moved, rfl⟩ := Option.map_eq_some_iff.mp next
      exact h.callStep (callStep_of_step moved) ok
    | link a =>
      obtain ⟨⟨l, err⟩, moved, rfl⟩ := Option.map_eq_some_iff.mp next
      exact h.linkStep (linkStep_of_step moved) ok

/-! ## The callers -/

/-- A caller that did not give up is in the table, or was signalled. -/
def Tracked (kind : Nat → Kind) (c : Calls) : Prop :=
  ∀ i a, (c.pcs i).held = some a → kind i ≠ .oneWay →
    (i, a) ∈ c.pending ∨ ∃ o, (a, o) ∈ c.signalled

namespace Tracked
variable {c c' : Calls} {l : Link} (h : Tracked kind c)
include h

theorem failPending (err : Fault) : Tracked kind (c.failPending err) := by
  intro i a held expects
  right
  rcases h i a held expects with entry | ⟨o, signal⟩
  · exact ⟨_, List.mem_append_right _ (List.mem_map.mpr ⟨_, entry, rfl⟩)⟩
  · exact ⟨o, List.mem_append_left _ signal⟩

/-- One caller moves on, with the attempt it holds or with none. -/
theorem setPc {i : Nat} {pc : Pc} (held : pc.held = none ∨ pc.held = (c.pcs i).held) :
    Tracked kind (c.setPc i pc) := by
  intro j a now
  rw [Calls.setPc_pcs] at now
  split at now
  · next eq =>
    subst eq
    rcases held with none | same
    · simp [none] at now
    · exact h j a (same ▸ now)
  · exact h j a now

theorem register (i p q : Nat) : Tracked kind (c.register kind i p q) := by
  intro j a now expects
  change ((c.setPc i _).pcs j).held = some a at now
  change _ ∈ (if kind i = .oneWay then _ else _) ∨ _
  rw [Calls.setPc_pcs] at now
  split at now
  · next eq =>
    cases now
    subst eq
    rw [if_neg expects]
    exact .inl List.mem_cons_self
  · next ne =>
    rcases h j a now expects with entry | signal
    · left
      split
      · exact entry
      · exact List.mem_cons_of_mem _ (List.mem_filter.mpr ⟨entry, by simpa using ne⟩)
    · exact .inr signal

theorem forget {i a : Nat} {pc : Pc} (unheld : pc.held = none) :
    Tracked kind ((c.forget i a).setPc i pc) := by
  intro j b now expects
  rw [Calls.setPc_pcs] at now
  split at now
  · simp [unheld] at now
  · next ne =>
    rcases h j b now expects with entry | signal
    · left
      refine List.mem_filter.mpr ⟨entry, ?_⟩
      simp [ne]
    · exact .inr signal

/-- The entry that is taken out is the caller's: the table has one of each at most. -/
theorem route (matched : Matched kind c) (id : Nat) : Tracked kind (c.route kind id) := by
  rcases c.route_cases kind id with eq | ⟨b, taken, eq⟩ <;> rw [eq]
  · exact h
  · intro i a now expects
    rcases h i a now expects with entry | ⟨o, signal⟩
    · by_cases own : i = id
      · have other := matched.current id b taken
        rw [← own, matched.current i a entry] at other
        cases other
        exact .inr ⟨_, List.mem_append_right _ List.mem_cons_self⟩
      · exact .inl (List.mem_filter.mpr ⟨entry, by simpa using own⟩)
    · exact .inr ⟨o, List.mem_append_left _ signal⟩

theorem step {x : CallAction} (matched : Matched kind c) (next : CallStep kind l c x c') :
    Tracked kind c' := by
  cases next with
  | goto _ _ _ plain => exact h.setPc (.inl plain.unheld)
  | register => exact h.register _ _ _
  | send pc => exact h.setPc (.inr (by rw [pc]; rfl))
  | confirm pc =>
    refine h.setPc ?_
    split
    · exact .inl rfl
    · exact .inr (by rw [pc]; rfl)
  | @forget i a again => exact h.forget (by cases again <;> rfl)
  | receive => exact h.setPc (.inl rfl)
  | route => exact h.route matched _
  | resolve =>
    unfold Calls.fill
    split <;> exact h

end Tracked

theorem tracked_of_reachable {s : State} (reach : (system kind).Reachable s) :
    Tracked kind s.calls := by
  apply reach.invariant (fun s => Tracked kind s.calls)
  · rintro s rfl
    simp [Tracked, Pc.held]
  · intro s action t before h next
    rcases calls_of_step next with ⟨x, moved⟩ | same | ⟨err, cleared⟩
    · exact h.step (matched_of_reachable before) moved
    · rwa [same]
    · rw [cleared]
      exact h.failPending err

/-! ## What callers are told -/

theorem LinkStep.closed {l l' : Link} {a : LinkAction} {err : Option Fault}
    (next : LinkStep l a l' err) (closed : l.closed = true) : l'.closed = true := by
  cases next <;> first | exact closed | rfl

/-- Only `close` fails a call with the error of a closed dispatcher. -/
structure Told (s : State) : Prop where
  link : LinkSound s.link
  closed : ∀ a k, (a, Outcome.fault .closed k) ∈ s.calls.signalled → s.link.closed = true

theorem CallStep.told {l : Link} {c c' : Calls} {x : CallAction} (next : CallStep kind l c x c')
    {a k : Nat} {err : Fault} (told : (a, Outcome.fault err k) ∈ c'.signalled) :
    (a, Outcome.fault err k) ∈ c.signalled := by
  cases next with
  | goto | register | send | confirm | forget | receive => exact told
  | @route id =>
    rcases c.route_cases kind id with eq | ⟨b, -, eq⟩ <;> rw [eq] at told
    · exact told
    · simpa using told
  | resolve =>
    unfold Calls.fill at told
    split at told <;> exact told

theorem Told.linkStep {s : State} {x : LinkAction} {l : Link} {err : Option Fault} (h : Told s)
    (next : LinkStep s.link x l err) : Told ⟨err.elim s.calls s.calls.failPending, l⟩ := by
  refine ⟨h.link.step next, ?_⟩
  intro a k told
  cases err with
  | none => exact next.closed (h.closed a k told)
  | some err =>
    obtain before | now := List.mem_append.mp told
    · exact next.closed (h.closed a k before)
    · obtain ⟨e, -, eq⟩ := List.mem_map.mp now
      obtain ⟨-, rfl, -⟩ : e.2 = a ∧ err = .closed ∧ s.calls.rounds = k := by simpa using eq
      cases next with
      | closeFail closing => exact h.link.closing closing

theorem told_of_reachable {s : State} (reach : (system kind).Reachable s) : Told s := by
  refine reach.invariant Told ?_ ?_
  · rintro s rfl
    exact ⟨⟨by simp, by simp, by simp, by simp, by simp, by simp⟩, by simp⟩
  · intro s action t _ h next
    cases action with
    | call x =>
      obtain ⟨c, moved, rfl⟩ := Option.map_eq_some_iff.mp next
      exact ⟨h.link, fun a k told => h.closed a k ((callStep_of_step moved).told told)⟩
    | link x =>
      obtain ⟨⟨l, err⟩, moved, rfl⟩ := Option.map_eq_some_iff.mp next
      exact h.linkStep (linkStep_of_step moved)

theorem Told.cases {s : State} (h : Told s) {a : Nat} {o : Outcome}
    (told : (a, o) ∈ s.calls.signalled) :
    (∃ n, o = .reply n) ∨ (∃ k, o = .fault .disconnected k) ∨
      s.link.closed = true ∧ ∃ k, o = .fault .closed k := by
  cases o with
  | reply n => exact .inl ⟨n, rfl⟩
  | fault err k =>
    cases err with
    | disconnected => exact .inr (.inl ⟨k, rfl⟩)
    | closed => exact .inr (.inr ⟨h.closed a k told, k, rfl⟩)

/-! ## The reply queue of a request -/

/-- In every orderly run, a request that was published and is not resolved names the installed
reply queue. A caller whose queue is not the installed one was signalled: if not its reply, then
that the connection was lost or, once the dispatcher is closed, that it is. The exception is
`close`, which clears the fields before the table. -/
theorem unresolved_named (kind : Nat → Kind) {s : State}
    (reach : ((system kind).restrict (orderly kind)).Reachable s) :
    (∀ i a, (i, a) ∈ s.calls.pending → a ∈ s.calls.confirmed →
      ∃ t, s.calls.attempts[a]? = some t ∧
        (s.link.queue = some t.queue ∨ s.link.queue = none ∧ s.link.closing = true)) ∧
    (∀ i a, s.calls.pcs i = .waiting a → kind i ≠ .oneWay → s.link.closing = false →
      (∀ t, s.calls.attempts[a]? = some t → s.link.queue ≠ some t.queue) →
      ∃ o, (a, o) ∈ s.calls.signalled ∧
        ((∃ n, o = .reply n) ∨ (∃ k, o = .fault .disconnected k) ∨
          s.link.closed = true ∧ ∃ k, o = .fault .closed k)) := by
  have kept := kept_of_reachable reach
  have named : ∀ i a, (i, a) ∈ s.calls.pending → a ∈ s.calls.sent →
      ∃ t, s.calls.attempts[a]? = some t ∧
        (s.link.queue = some t.queue ∨ s.link.queue = none ∧ s.link.closing = true) := by
    intro i a entry sent
    obtain ⟨t, found, status⟩ := kept.entries (i, a) entry
    refine ⟨t, found, ?_⟩
    rcases status with answerable | ⟨_, unsent⟩ | closing
    · exact .inl answerable.1
    · exact absurd sent unsent
    · exact .inr ⟨kept.link.closed (kept.link.closing closing), closing⟩
  constructor
  · intro i a entry confirmed
    exact named i a entry (kept.confirmed a confirmed)
  · intro i a waiting expects live retired
    have tracked := tracked_of_reachable reach.of_restrict
    rcases tracked i a (by rw [waiting]; rfl) expects with entry | signal
    · obtain ⟨t, found, installed | ⟨_, closing⟩⟩ :=
        named i a entry (kept.sending i a (.inr waiting))
      · exact absurd installed (retired t found)
      · simp [live] at closing
    · obtain ⟨o, told⟩ := signal
      exact ⟨o, told, (told_of_reachable reach.of_restrict).cases told⟩

/-- A caller is on the installed queue; then the consumer dies, the recovery fails the caller
and installs another queue, and the caller's entry is gone. -/
theorem unresolved_named_recovered :
    ∃ s : State, ((system fun _ => .call).restrict (orderly fun _ => .call)).Reachable s ∧
      s.calls.pcs 0 = .waiting 0 ∧ s.link.queue = some 1 ∧ ∃ o, (0, o) ∈ s.calls.signalled ∧
        ((∃ n, o = .reply n) ∨ (∃ k, o = .fault .disconnected k) ∨
          s.link.closed = true ∧ ∃ k, o = .fault .closed k) := by
  have run : (((system fun _ => .call).restrict (orderly fun _ => .call)).run
      [.link .install, .call (.invoke 0), .call (.pair 0), .call (.register 0), .call (.send 0),
        .call (.confirm 0), .link .consumerDies, .link .recoverBegin, .link .recoverFail,
        .link .recoverClear, .link .recoverClose, .link .recoverInstall] {}).map
        (fun s => (s.calls.pcs 0, s.link.queue, s.link.closing, s.calls.attempts)) =
      some (.waiting 0, some 1, false, [⟨0, 0, 0⟩]) := by
    decide +kernel
  obtain ⟨s, run, eq⟩ := Option.map_eq_some_iff.mp run
  obtain ⟨waiting, eq⟩ := Prod.mk.inj eq
  obtain ⟨queue, eq⟩ := Prod.mk.inj eq
  obtain ⟨live, attempts⟩ := Prod.mk.inj eq
  have reach : ((system fun _ => .call).restrict (orderly fun _ => .call)).Reachable s :=
    System.Reachable.run (.init rfl) run
  refine ⟨s, reach, waiting, queue, (unresolved_named _ reach).2 0 0 waiting (by decide) live ?_⟩
  intro t found
  rw [attempts] at found
  cases found
  simp [queue]

/-- The caller registers after the recovery cleared the table and publishes before it closes
the channel. The recovery is over, and the caller waits on the old queue: nothing was signalled
to it. -/
theorem stranded_by_recovery :
    ∃ s : State, (system fun _ => .call).Reachable s ∧ s.link.recovery = .idle ∧
      s.link.losing = false ∧ s.link.closing = false ∧ (0, 0) ∈ s.calls.pending ∧
      0 ∈ s.calls.confirmed ∧ s.calls.pcs 0 = .waiting 0 ∧
      s.calls.attempts[0]? = some ⟨0, 0, 0⟩ ∧ s.link.queue = some 1 ∧ s.calls.signalled = [] := by
  have run : ((system fun _ => .call).run
      [.link .install, .call (.invoke 0), .call (.pair 0), .link .consumerDies,
        .link .recoverBegin, .link .recoverFail, .call (.register 0), .call (.send 0),
        .call (.confirm 0), .link .recoverClear, .link .recoverClose, .link .recoverInstall] {}).map
        (fun s => decide (s.link.recovery = .idle ∧ s.link.losing = false ∧
          s.link.closing = false ∧ (0, 0) ∈ s.calls.pending ∧ 0 ∈ s.calls.confirmed ∧
          s.calls.pcs 0 = .waiting 0 ∧ s.calls.attempts[0]? = some ⟨0, 0, 0⟩ ∧
          s.link.queue = some 1 ∧ s.calls.signalled = [])) = some true := by
    decide +kernel
  obtain ⟨s, run, eq⟩ := Option.map_eq_some_iff.mp run
  exact ⟨s, System.Reachable.run (.init rfl) run, of_decide_eq_true eq⟩

end Protobus.Dispatcher
