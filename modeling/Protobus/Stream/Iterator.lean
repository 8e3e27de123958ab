import Protobus.Stream.Client
import Protobus.Library.Transition

/-!
# The caller's range over a stream

`dispatcher.stream` statement by statement, while frames arrive, the stream may fail, the context
may end and the caller may break out of its range. Every way out of the loop decides whether the
stream counts as completed; if not, the deferred function tells the producer to stop. What had
arrived by then is kept beside the range, to compare with what was decided.
-/
namespace Protobus.Stream.Iterator
open Library Amqp Consumer

/-- What `failPending` fails a stream with. -/
inductive Lost
  | disconnected
  | closed
deriving DecidableEq

def Lost.text : Lost → Bytes
  | .disconnected => lit "protobus: connection lost during call"
  | .closed => lit "protobus: closed"

/-- The error is `ErrDisconnected` or `ErrClosed`. -/
def isLost : ClientErr → Bool
  | .failed err => err = Lost.text .disconnected || err = Lost.text .closed
  | _ => false

/-- The error that a range yields. -/
inductive RangeErr
  | context
  | publish (err : Bytes)
  | stream (err : ClientErr)
  | timeout
deriving DecidableEq

/-- A value given to the caller; with a chunk, whether the context had ended at the check before
it. -/
inductive Yield
  | chunk (body : Bytes) (ctxDone : Bool)
  | error (err : RangeErr)
deriving DecidableEq

/-- How a range whose request was published left its loop. `complete` is what `finished` said. -/
inductive Exit
  | done
  | failed (err : ClientErr)
  | context (complete : Bool)
  | idle
  | broke
deriving DecidableEq

inductive Pc
  | start
  | publishing
  /-- Before `next`. -/
  | loop
  | got (chunk : Bytes)
  | checked (chunk : Bytes) (ctxDone : Bool)
  /-- The caller's body has the chunk. -/
  | offered
  | selecting
  | refusing (err : RangeErr)
  /-- The caller's body has the error. -/
  | refused
  /-- The function returns: what it deferred is to run. -/
  | leaving
  | ended
deriving DecidableEq

/-- What had happened when the range ended: a final frame had arrived, or one that is not a service
error, or the stream had failed with `ErrDisconnected` or `ErrClosed`. -/
structure Ending where
  final : Bool
  plain : Bool
  lost : Bool
deriving DecidableEq

structure Range where
  pc : Pc := .start
  client : ClientStream := {}
  buffered : Int := 0
  notify : Bool := false
  ctxDone : Bool := false
  registered : Bool := false
  published : Bool := false
  completed : Bool := false
  exit : Option Exit := none
  yields : List Yield := []
  /-- How many values the caller had when it broke out. -/
  broke : Option Nat := none
  /-- Calls of `cancelStream`, and the notices that went out. -/
  attempts : Nat := 0
  notices : Nat := 0
  sent : Bool := false
  final : Bool := false
  plain : Bool := false
  ending : Option Ending := none

inductive Act
  | ctxEnds
  | frame (dl : Delivery)
  | fail (why : Lost)
  /-- Other streams of the process take or return bytes. -/
  | others (buffered : Int)
  | begin
  | publish (err : Option Bytes)
  | next
  | check
  | offer
  | resume (more : Bool)
  | wake
  | idle
  | ctxSeen
  | refuse
  | leave
  | finish (sent : Bool)

structure Setting where
  pw : Protowire
  wide : Int
  limits : Limits

namespace Range
variable (s : Range)

/-- `finished`. -/
def finished : Bool := s.client.ended && s.client.err.isNone

/-- The stream has failed with `ErrDisconnected` or `ErrClosed`. -/
def lost : Bool := s.client.err.any isLost

/-- Leave the loop with a last value. -/
def refuse (exit : Exit) (completed : Bool) (err : RangeErr) : Range := { s with
  pc := .refusing err
  exit := some exit
  completed := completed }

def leave : Range := { s with
  pc := .leaving
  ending := some ⟨s.final, s.plain, s.lost⟩ }

def setClient (c : ClientStream × Int) : Range := { s with
  client := c.1
  buffered := c.2 }

/-- What happens to the stream from outside. -/
def arrive (cfg : Setting) : Act → Option Range
  | .ctxEnds => some { s with ctxDone := true }
  | .frame dl =>
    let final := streamFinal cfg.wide dl.headers
    if s.registered then some { s.setClient (push cfg.wide cfg.limits s.client s.buffered dl) with
      notify := true
      final := s.final || final
      plain := s.plain || (final && !isResponseError cfg.pw dl.body) }
    else none
  | .fail why =>
    if s.registered then some { s.setClient (Stream.fail s.client s.buffered why.text) with
      notify := true }
    else none
  | .others buffered => some { s with buffered := buffered }
  | _ => none

/-- `next`, and the switch on what it returned. -/
def nextStep : Range :=
  let r := Stream.next s.client s.buffered
  let s := s.setClient r.1
  match r.2 with
  | .done (some err) => s.refuse (.failed err) (isLost err) (.stream err)
  | .chunk chunk => { s with pc := .got chunk }
  | .done none => { s with exit := some .done, completed := true }.leave
  | .wait => { s with pc := .selecting }

/-- The deferred functions: the cancel, if the stream does not count as completed, and the release.
Nothing is deferred before the request is published. -/
def deferred (sent : Bool) : Range := { s.setClient (release s.client s.buffered) with
  pc := .ended
  registered := false
  sent := sent
  attempts := if s.published && !s.completed then s.attempts + 1 else s.attempts
  notices := if (s.published && !s.completed) && sent then s.notices + 1 else s.notices }

/-- The statements of `dispatcher.stream`. -/
def act : Act → Option Range
  | .begin => match s.pc with
    | .start => some (if s.ctxDone then { s with pc := .refusing .context }
      else { s with pc := .publishing, registered := true })
    | _ => none
  | .publish err => match s.pc, err with
    | .publishing, none => some { s with pc := .loop, published := true }
    | .publishing, some err => some { s.setClient (release s.client s.buffered) with
        pc := .refusing (.publish err)
        registered := false }
    | _, _ => none
  | .next => match s.pc with
    | .loop => some s.nextStep
    | _ => none
  | .check => match s.pc with
    | .got chunk => some (if s.ctxDone then s.refuse (.context s.finished) s.finished .context
      else { s with pc := .checked chunk s.ctxDone })
    | _ => none
  | .offer => match s.pc with
    | .checked chunk ctxDone => some { s with
        pc := .offered
        yields := s.yields ++ [.chunk chunk ctxDone] }
    | _ => none
  | .resume more => match s.pc with
    | .offered => some (if more then { s with pc := .loop }
      else { s with broke := some s.yields.length, exit := some .broke }.leave)
    | _ => none
  | .wake => match s.pc with
    | .selecting => if s.notify then some { s with pc := .loop, notify := false } else none
    | _ => none
  | .idle => match s.pc with
    | .selecting => some (s.refuse .idle false .timeout)
    | _ => none
  | .ctxSeen => match s.pc with
    | .selecting =>
      if s.ctxDone then some (s.refuse (.context s.finished) s.finished .context) else none
    | _ => none
  | .refuse => match s.pc with
    | .refusing err => some { s with pc := .refused, yields := s.yields ++ [.error err] }
    | _ => none
  | .leave => match s.pc with
    | .refused => some s.leave
    | _ => none
  | .finish sent => match s.pc with
    | .leaving => some (s.deferred sent)
    | _ => none
  | _ => none

def step (cfg : Setting) (a : Act) : Option Range := (s.arrive cfg a).or (s.act a)

end Range

def ranges (cfg : Setting) : System Range Act where
  init s := s = {}
  step s a := s.step cfg a

section Client
variable {wide : Int} {limits : Limits} {c : ClientStream} {buffered : Int}

theorem push_of_ended (ended : c.ended = true) (dl : Delivery) :
    (push wide limits c buffered dl).1 = c := by
  simp [push, ended]

theorem fail_of_ended (ended : c.ended = true) (err : Bytes) :
    (Stream.fail c buffered err).1 = c := by
  simp [Stream.fail, ended]

theorem ended_fail (err : Bytes) : (Stream.fail c buffered err).1.ended = true := by
  cases ended : c.ended <;> simp [Stream.fail, ended, dropBuffer]

theorem err_fail (going : c.ended = false) (err : Bytes) :
    (Stream.fail c buffered err).1.err ≠ none := by
  simp [Stream.fail, going, dropBuffer]

theorem err_release : (release c buffered).1.err ≠ none := by
  cases err : c.err <;> simp [release, dropBuffer, err]

/-- A stream that has failed has ended. -/
theorem ended_of_push_err (sound : c.err ≠ none → c.ended = true) (dl : Delivery)
    (err : (push wide limits c buffered dl).1.err ≠ none) :
    (push wide limits c buffered dl).1.ended = true := by
  cases ended : c.ended with
  | true => rwa [push_of_ended ended]
  | false =>
    have pushed := push_cases wide limits ended buffered dl
    generalize (push wide limits c buffered dl).1 = c' at err pushed ⊢
    cases pushed with
    | old _ _ => exact absurd (sound err) (by simp [ended])
    | failed _ now => exact now
    | taken _ same _ _ => exact absurd (sound (same ▸ err)) (by simp [ended])

/-- A stream that ended well has seen a final frame. -/
theorem final_of_push (dl : Delivery) (going : c.ended = false)
    (ended : (push wide limits c buffered dl).1.ended = true)
    (noErr : (push wide limits c buffered dl).1.err = none) :
    streamFinal wide dl.headers = true := by
  have pushed := push_cases wide limits going buffered dl
  generalize (push wide limits c buffered dl).1 = c' at ended noErr pushed
  cases pushed with
  | old _ _ => exact ended
  | failed err _ => exact absurd noErr err
  | taken _ _ _ same => exact same ▸ ended

end Client

section Invariant

/-- A chunk whose check found the context going on. -/
def Yield.clean : Yield → Bool
  | .chunk _ ctxDone => !ctxDone
  | .error _ => false

/-- Chunks, and at most one error after them. -/
def Shaped (ys : List Yield) : Prop :=
  ∃ chunks last, ys = chunks ++ last ∧ (∀ y ∈ chunks, y.clean = true) ∧
    (last = [] ∨ ∃ err, last = [.error err])

/-- No error has been yielded, and the caller has not stopped. -/
def Pc.talking : Pc → Bool
  | .refused => false
  | .leaving => false
  | .ended => false
  | _ => true

/-- Inside the loop, or before it. -/
def Pc.inside : Pc → Bool
  | .refusing _ => false
  | .refused => false
  | .leaving => false
  | .ended => false
  | _ => true

/-- The request is not published. -/
def Pc.before : Pc → Bool
  | .start => true
  | .publishing => true
  | _ => false

/-- The way out says that the stream is complete. -/
def Exit.complete : Exit → Bool
  | .done => true
  | .failed err => isLost err
  | .context complete => complete
  | .idle => false
  | .broke => false

/-- The way out means that a final frame has arrived. -/
def Exit.sure : Exit → Bool
  | .done => true
  | .context complete => complete
  | _ => false

/-- The notices that the deferred function owes the producer. -/
def Range.owed (s : Range) : Nat :=
  if s.pc = .ended ∧ s.published = true ∧ s.completed = false then 1 else 0

structure Inv (s : Range) : Prop where
  err : s.client.err ≠ none → s.client.ended = true
  sound : s.client.ended = true → s.client.err = none → s.final = true
  plain : s.plain = true → s.final = true
  shaped : Shaped s.yields
  talking : s.pc.talking = true → (∀ y ∈ s.yields, y.clean = true) ∧ s.broke = none
  checked {chunk : Bytes} {ctxDone : Bool} : s.pc = .checked chunk ctxDone → ctxDone = false
  broke {n : Nat} : s.broke = some n → s.yields.length = n
  inside : s.pc.inside = true → s.exit = none ∧ s.completed = false ∧ s.ending = none
  outside : s.published = true → s.pc.inside = false → s.exit ≠ none
  before : s.pc.before = true → s.published = false
  exit {e : Exit} : s.exit = some e → s.completed = e.complete ∧ (e.sure = true → s.final = true)
  failed {err : ClientErr} : s.exit = some (.failed err) → s.pc ≠ .ended →
    s.client.err = some err
  ending {d : Ending} {e : Exit} : s.ending = some d → s.exit = some e →
    (∀ err, e = .failed err → d.lost = isLost err) ∧ (e.sure = true → d.final = true)
  left : s.pc = .leaving ∨ s.pc = .ended → s.ending ≠ none
  counts : s.attempts = s.owed ∧ s.notices = if s.sent then s.owed else 0

theorem talking_of_inside {pc : Pc} (h : pc.inside = true) : pc.talking = true := by
  cases pc <;> first | rfl | cases h

theorem inside_of_before {pc : Pc} (h : pc.before = true) : pc.inside = true := by
  cases pc <;> first | rfl | cases h

theorem ne_ended_of_inside {pc : Pc} (h : pc.inside = true) : pc ≠ .ended := by
  rintro rfl
  cases h

theorem Shaped.of_clean {ys : List Yield} (clean : ∀ y ∈ ys, y.clean = true) : Shaped ys :=
  ⟨ys, [], by simp, clean, .inl rfl⟩

namespace Inv
variable {cfg : Setting} {s t : Range} {a : Act}

theorem init : Inv {} where
  err h := absurd rfl h
  sound h := by cases h
  plain h := by cases h
  shaped := .of_clean (by simp)
  talking _ := ⟨by simp, rfl⟩
  checked h := by cases h
  broke h := by cases h
  inside _ := ⟨rfl, rfl, rfl⟩
  outside h := by cases h
  before _ := rfl
  exit h := by cases h
  failed h := by cases h
  ending h := by cases h
  left := by rintro (h | h) <;> cases h
  counts := ⟨rfl, rfl⟩

/-- Nothing that arrives changes a stream that has ended. -/
theorem received (inv : Inv s) {c : ClientStream} {buffered : Int} {final plain : Bool}
    (err : c.err ≠ none → c.ended = true) (same : s.client.ended = true → c = s.client)
    (sound : s.client.ended = false → c.ended = true → c.err = none → final = true)
    (more : s.final = true → final = true) (isFinal : plain = true → final = true) :
    Inv { s with
      client := c
      buffered := buffered
      notify := true
      final := final
      plain := plain } where
  __ := inv
  err := err
  sound ended noErr := by
    cases before : s.client.ended with
    | true =>
      obtain rfl := same before
      exact more (inv.sound before noErr)
    | false => exact sound before ended noErr
  plain := isFinal
  exit h := ⟨(inv.exit h).1, fun sure => more ((inv.exit h).2 sure)⟩
  failed h here := by
    have before := inv.failed h here
    obtain rfl := same (inv.err (by simp [before]))
    exact before

theorem arrive (inv : Inv s) (h : s.arrive cfg a = some t) : Inv t := by
  cases a <;> simp only [Range.arrive, Option.ite_none_right_eq_some, reduceCtorEq] at h
  case ctxEnds =>
    cases h
    exact { inv with }
  case frame dl =>
    cases h.2
    refine inv.received (ended_of_push_err inv.err dl) (push_of_ended · dl) ?_ ?_ ?_
    · intro going ended noErr
      simp [final_of_push dl going ended noErr]
    · intro before
      simp [before]
    · intro plain
      obtain before | now := Bool.or_eq_true_iff.mp plain
      · simp [inv.plain before]
      · simp [(Bool.and_eq_true_iff.mp now).1]
  case fail why =>
    cases h.2
    exact inv.received (fun _ => ended_fail why.text) (fail_of_ended · why.text)
      (fun going _ noErr => absurd noErr (err_fail going why.text)) id inv.plain
  case others buffered =>
    cases h
    exact { inv with }

theorem owed_of_ne (going : s.pc ≠ .ended) : s.owed = 0 :=
  if_neg fun h => going h.1

/-- Before the range has ended nothing was sent. -/
theorem counts_going (inv : Inv s) (going : s.pc ≠ .ended) (still : t.pc ≠ .ended)
    (attempts : t.attempts = s.attempts) (notices : t.notices = s.notices) :
    t.attempts = t.owed ∧ t.notices = if t.sent then t.owed else 0 := by
  rw [attempts, notices, inv.counts.1, inv.counts.2, owed_of_ne going, owed_of_ne still]
  simp

/-- A step inside the loop. -/
theorem goes (inv : Inv s) (here : s.pc.inside = true) {pc : Pc} (there : pc.inside = true)
    (checked : ∀ {chunk ctxDone}, pc = .checked chunk ctxDone → ctxDone = false)
    {registered published notify : Bool} (before : pc.before = true → published = false) :
    Inv { s with
      pc := pc
      registered := registered
      published := published
      notify := notify } where
  __ := inv
  talking _ := inv.talking (talking_of_inside here)
  checked := checked
  inside _ := inv.inside here
  outside _ out := absurd (out.symm.trans there) Bool.false_ne_true
  before := before
  failed h := by cases (inv.inside here).1.symm.trans h
  left := by
    rintro (rfl | rfl) <;> cases there
  counts := inv.counts_going (ne_ended_of_inside here) (ne_ended_of_inside there) rfl rfl

theorem refuse (inv : Inv s) (here : s.pc.inside = true) {e : Exit} {completed : Bool}
    (complete : completed = e.complete) (sure : e.sure = true → s.final = true)
    (failed : ∀ err, e = .failed err → s.client.err = some err) (err : RangeErr) :
    Inv (s.refuse e completed err) where
  __ := inv
  talking _ := inv.talking (talking_of_inside here)
  checked h := by cases h
  inside h := by cases h
  outside _ _ h := by cases h
  before h := by cases h
  exit h := by
    cases h
    exact ⟨complete, sure⟩
  failed h _ := failed _ (Option.some.inj h)
  ending h := by cases (inv.inside here).2.2.symm.trans h
  left := by rintro (h | h) <;> cases h
  counts := inv.counts_going (ne_ended_of_inside here) (by simp [Range.refuse]) rfl rfl

/-- The range gives up before its request is published. -/
theorem gives (inv : Inv s) (before : s.pc.before = true) {c : ClientStream} {buffered : Int}
    {registered : Bool} (isErr : c.err ≠ none → c.ended = true)
    (sound : c.ended = true → c.err = none → s.final = true) (err : RangeErr) : Inv { s with
      pc := .refusing err
      client := c
      buffered := buffered
      registered := registered } := by
  have here : s.pc.inside = true := inside_of_before before
  exact { inv with
    err := isErr
    sound := sound
    talking := fun _ => inv.talking (talking_of_inside here)
    checked := fun h => by cases h
    inside := fun h => by cases h
    outside := fun pub _ => by cases (inv.before before).symm.trans pub
    before := fun h => by cases h
    failed := fun h => by cases (inv.inside here).1.symm.trans h
    left := by rintro (h | h) <;> cases h
    counts := inv.counts_going (ne_ended_of_inside here) (by simp) rfl rfl }

theorem offer (inv : Inv s) {chunk : Bytes} {ctxDone : Bool}
    (checked : s.pc = .checked chunk ctxDone) : Inv { s with
      pc := .offered
      yields := s.yields ++ [.chunk chunk ctxDone] } := by
  have here : s.pc.inside = true := by rw [checked]; rfl
  obtain ⟨clean, going⟩ := inv.talking (talking_of_inside here)
  obtain rfl := inv.checked checked
  have clean : ∀ y ∈ s.yields ++ [.chunk chunk false], y.clean = true := by
    intro y mem
    obtain mem | new := List.mem_append.mp mem
    · exact clean y mem
    · cases List.mem_singleton.mp new
      rfl
  have kept : Inv { s with pc := .offered } :=
    inv.goes here rfl (fun h => by cases h) fun h => by cases h
  exact { kept with
    shaped := .of_clean clean
    talking := fun _ => ⟨clean, going⟩
    broke := fun h => by cases going.symm.trans h }

theorem refused (inv : Inv s) {err : RangeErr} (refusing : s.pc = .refusing err) : Inv { s with
      pc := .refused
      yields := s.yields ++ [.error err] } := by
  obtain ⟨clean, going⟩ := inv.talking (by rw [refusing]; rfl)
  exact { inv with
    shaped := ⟨s.yields, [.error err], rfl, clean, .inr ⟨err, rfl⟩⟩
    talking := fun h => by cases h
    checked := fun h => by cases h
    broke := fun h => by cases going.symm.trans h
    inside := fun h => by cases h
    outside := fun pub _ => inv.outside pub (by rw [refusing]; rfl)
    before := fun h => by cases h
    failed := fun h _ => inv.failed h (by simp [refusing])
    left := by rintro (h | h) <;> cases h
    counts := inv.counts_going (by simp [refusing]) (by simp) rfl rfl }

/-- The range returns, by whichever way out. -/
theorem leaves (inv : Inv s) (here : s.pc ≠ .ended) {exit : Option Exit} {completed : Bool}
    {broke : Option Nat} (outside : s.published = true → exit ≠ none)
    (isExit : ∀ e, exit = some e → completed = e.complete ∧ (e.sure = true → s.final = true) ∧
      ∀ err, e = .failed err → s.client.err = some err)
    (isBroke : ∀ {n}, broke = some n → s.yields.length = n) :
    Inv { s with exit := exit, completed := completed, broke := broke }.leave where
  __ := inv
  talking h := by cases h
  checked h := by cases h
  broke := isBroke
  inside h := by cases h
  outside pub _ := outside pub
  before h := by cases h
  exit h := ⟨(isExit _ h).1, (isExit _ h).2.1⟩
  failed h _ := (isExit _ h).2.2 _ rfl
  ending {d e} is_d h := by
    cases is_d
    obtain ⟨-, sure, failed⟩ := isExit _ h
    refine ⟨fun err is_failed => ?_, sure⟩
    simp [Range.lost, failed err is_failed]
  left _ h := by cases h
  counts := inv.counts_going here (by simp [Range.leave]) rfl rfl

theorem deferred (inv : Inv s) (leaving : s.pc = .leaving) (sent : Bool) :
    Inv (s.deferred sent) := by
  have going : s.pc ≠ .ended := by simp [leaving]
  have attempts : s.attempts = 0 := inv.counts.1.trans (owed_of_ne going)
  have notices : s.notices = 0 := by rw [inv.counts.2, owed_of_ne going, ite_self]
  exact { inv with
    err := fun _ => rfl
    sound := fun _ noErr => absurd noErr (@err_release s.client s.buffered)
    talking := fun h => by cases h
    checked := fun h => by cases h
    inside := fun h => by cases h
    outside := fun pub _ => inv.outside pub (by rw [leaving]; rfl)
    before := fun h => by cases h
    failed := fun _ h => absurd rfl h
    left := fun _ => inv.left (.inl leaving)
    counts := by
      cases pub : s.published <;> cases done : s.completed <;> cases sent <;>
        simp [Range.deferred, Range.owed, Range.setClient, attempts, notices, pub, done] }

/-- The ways that `next` leads. -/
inductive Nexts (s : Range) : Range → Prop
  | failed {err : ClientErr} (isErr : s.client.err = some err) :
      Nexts s (s.refuse (.failed err) (isLost err) (.stream err))
  | chunk {c : ClientStream} (chunk : Bytes) (buffered : Int) (err : c.err = s.client.err)
      (ended : c.ended = s.client.ended) :
      Nexts s { s with pc := .got chunk, client := c, buffered := buffered }
  | done (noErr : s.client.err = none) (ended : s.client.ended = true) :
      Nexts s { s with exit := some .done, completed := true }.leave
  | wait : Nexts s { s with pc := .selecting }

theorem nexts (s : Range) : Nexts s s.nextStep := by
  cases err : s.client.err with
  | some e => simpa [Range.nextStep, next, err, Range.setClient] using Nexts.failed err
  | none =>
    cases chunks : s.client.chunks with
    | cons chunk rest =>
      simpa [Range.nextStep, next, err, chunks, Range.setClient] using
        @Nexts.chunk s { s.client with
          chunks := rest
          bytes := int64 (s.client.bytes - chunk.length) } chunk
          (int64 (s.buffered - chunk.length)) rfl rfl
    | nil =>
      cases ended : s.client.ended with
      | true =>
        simpa [Range.nextStep, next, err, chunks, ended, Range.setClient] using
          Nexts.done err ended
      | false =>
        simpa [Range.nextStep, next, err, chunks, ended, Range.setClient] using @Nexts.wait s

theorem nextStep (inv : Inv s) (at_loop : s.pc = .loop) : Inv s.nextStep := by
  have here : s.pc.inside = true := by rw [at_loop]; rfl
  have moves := nexts s
  generalize s.nextStep = t at moves
  cases moves with
  | failed isErr =>
    refine inv.refuse here rfl (fun h => by cases h) ?_ _
    intro err same
    cases same
    exact isErr
  | chunk chunk buffered err ended =>
    have kept : Inv { s with pc := .got chunk } :=
      inv.goes here rfl (fun h => by cases h) fun h => by cases h
    exact { kept with
      err := fun h => ended ▸ kept.err (err ▸ h)
      sound := fun h noErr => kept.sound (ended ▸ h) (err ▸ noErr)
      failed := fun h going => err ▸ kept.failed h going }
  | done noErr ended =>
    refine inv.leaves (ne_ended_of_inside here) (fun _ h => by cases h) ?_ inv.broke
    rintro e ⟨⟩
    exact ⟨rfl, fun _ => inv.sound ended noErr, fun err h => by cases h⟩
  | wait => exact inv.goes here rfl (fun h => by cases h) fun h => by cases h

/-- A range that leaves with the context's error asks whether the stream is complete. -/
theorem refuseContext (inv : Inv s) (here : s.pc.inside = true) :
    Inv (s.refuse (.context s.finished) s.finished .context) := by
  refine inv.refuse here rfl ?_ (fun err h => by cases h) _
  intro complete
  obtain ⟨ended, noErr⟩ := Bool.and_eq_true_iff.mp complete
  exact inv.sound ended (Option.isNone_iff_eq_none.mp noErr)

theorem act (inv : Inv s) (h : s.act a = some t) : Inv t := by
  cases a <;> simp only [Range.act, reduceCtorEq] at h
  case begin =>
    split at h
    · next at_start =>
      have here : s.pc.inside = true := by rw [at_start]; rfl
      cases h
      split
      · exact inv.gives (by rw [at_start]; rfl) inv.err inv.sound .context
      · exact inv.goes here rfl (fun h => by cases h) fun _ => inv.before (by rw [at_start]; rfl)
    · cases h
  case publish err =>
    split at h <;> cases h
    · next publishing =>
      exact inv.goes (by rw [publishing]; rfl) rfl (fun h => by cases h) fun h => by cases h
    · next err publishing =>
      exact inv.gives (by rw [publishing]; rfl) (fun _ => rfl)
        (fun _ noErr => absurd noErr (@err_release s.client s.buffered)) (.publish err)
  case next =>
    split at h <;> cases h
    exact inv.nextStep ‹_›
  case check =>
    split at h <;> cases h
    next chunk got =>
    have here : s.pc.inside = true := by rw [got]; rfl
    split
    · exact inv.refuseContext here
    · next going =>
      refine inv.goes here rfl ?_ fun h => by cases h
      intro _ _ h
      cases h
      exact Bool.eq_false_iff.mpr going
  case offer =>
    split at h <;> cases h
    exact inv.offer ‹_›
  case resume more =>
    split at h <;> cases h
    next offered =>
    have here : s.pc.inside = true := by rw [offered]; rfl
    split
    · exact inv.goes here rfl (fun h => by cases h) fun h => by cases h
    · refine inv.leaves (ne_ended_of_inside here) (fun _ h => by cases h) ?_ ?_
      · rintro e ⟨⟩
        exact ⟨(inv.inside here).2.1, (fun h => by cases h), fun err h => by cases h⟩
      · intro n h
        exact Option.some.inj h
  case wake =>
    split at h
    · next selecting =>
      split at h <;> cases h
      exact inv.goes (by rw [selecting]; rfl) rfl (fun h => by cases h) fun h => by cases h
    · cases h
  case idle =>
    split at h <;> cases h
    next selecting =>
    exact inv.refuse (by rw [selecting]; rfl) rfl (fun h => by cases h) (fun err h => by cases h) _
  case ctxSeen =>
    split at h
    · next selecting =>
      split at h <;> cases h
      exact inv.refuseContext (by rw [selecting]; rfl)
    · cases h
  case refuse =>
    split at h <;> cases h
    exact inv.refused ‹_›
  case leave =>
    split at h <;> cases h
    next refused =>
    refine inv.leaves (by simp [refused]) (fun pub => inv.outside pub (by rw [refused]; rfl)) ?_
      inv.broke
    intro e h
    exact ⟨(inv.exit h).1, (inv.exit h).2, fun err same =>
      inv.failed (same ▸ h) (by simp [refused])⟩
  case finish sent =>
    split at h <;> cases h
    exact inv.deferred ‹_› sent

theorem step (inv : Inv s) (h : s.step cfg a = some t) : Inv t := by
  obtain h | ⟨-, h⟩ := Option.or_eq_some_iff.mp h
  · exact inv.arrive h
  · exact inv.act h

end Inv
end Invariant

/-- When a notice, if one goes out, is right, by the way out of the loop: with an error of the
stream, if that is `ErrDisconnected` or `ErrClosed` or no final frame but a service error has
arrived; by the context's end, if the stream was complete at the check, or else, as by the idle
timeout and the caller's break, if no such frame has arrived and the stream has not failed with
those. -/
def Exit.Quiet (d : Ending) : Exit → Prop
  | .done => True
  | .failed err => isLost err = true ∨ d.plain = false
  | .context complete => complete = true ∨ (d.plain = false ∧ d.lost = false)
  | .idle => d.plain = false ∧ d.lost = false
  | .broke => d.plain = false ∧ d.lost = false

section Ended
variable {s : Range} {d : Ending} {e : Exit}

theorem owed_ended (ended : s.pc = .ended) (published : s.published = true) :
    s.owed = if s.completed then 0 else 1 := by
  cases done : s.completed <;> simp [Range.owed, ended, published, done]

/-- A way out that counts as complete means that a final frame has arrived or the stream has failed
with `ErrDisconnected` or `ErrClosed`. -/
theorem not_complete (lost : ∀ err, e = .failed err → d.lost = isLost err)
    (sure : e.sure = true → d.final = true) (notFinal : d.final = false)
    (notLost : d.lost = false) : e.complete = false := by
  cases e with
  | done => cases notFinal.symm.trans (sure rfl)
  | failed err => exact (lost err rfl).symm.trans notLost
  | context complete =>
    cases complete with
    | false => rfl
    | true => cases notFinal.symm.trans (sure rfl)
  | idle => rfl
  | broke => rfl

theorem quiet_iff (lost : ∀ err, e = .failed err → d.lost = isLost err) :
    (d.lost = true → e.complete = true) ∧ (d.plain = true → e.complete = true) ↔ e.Quiet d := by
  cases e with
  | done => simp [Exit.complete, Exit.Quiet]
  | failed err =>
    have same := lost err rfl
    cases isErr : isLost err <;> simp [Exit.complete, Exit.Quiet, same, isErr]
  | context complete => cases complete <;> simp [Exit.complete, Exit.Quiet, and_comm]
  | idle => simp [Exit.complete, Exit.Quiet, and_comm]
  | broke => simp [Exit.complete, Exit.Quiet, and_comm]

end Ended

/-- **The range over a stream.** However frames, failures, idle timeouts, the context's end and the
caller's break interleave: the values yielded are chunks, each checked against the context before,
and then at most one error; nothing is yielded after the caller stopped; `cancelStream` is called at
most once and never before the request is published. Once a range whose request was published has
ended, it was called if no final frame had arrived and the stream had not failed with
`ErrDisconnected` or `ErrClosed`, and the two clauses that forbid a notice hold exactly if the way
out was quiet or none went out. -/
theorem range_well_behaved (cfg : Setting) {s : Range} (h : (ranges cfg).Reachable s) :
    Shaped s.yields ∧ (∀ n, s.broke = some n → s.yields.length = n) ∧ s.attempts ≤ 1 ∧
    s.notices ≤ s.attempts ∧ (s.published = false → s.attempts = 0) ∧
    (s.pc = .ended → s.published = true → ∃ e d, s.exit = some e ∧ s.ending = some d ∧
      (d.final = false → d.lost = false → s.attempts = 1) ∧
      ((d.lost = true → s.notices = 0) ∧ (d.plain = true → s.notices = 0) ↔
        e.Quiet d ∨ s.sent = false)) := by
  have inv : Inv s := h.invariant _ (fun _ start => start ▸ Inv.init) fun _ _ _ _ inv => inv.step
  have owed : s.owed ≤ 1 := by
    unfold Range.owed
    split <;> omega
  obtain ⟨attempts, notices⟩ := inv.counts
  refine ⟨inv.shaped, fun _ => inv.broke, attempts ▸ owed, ?_, ?_, ?_⟩
  · rw [attempts, notices]
    split <;> omega
  · intro unpublished
    rw [attempts, Range.owed, if_neg]
    simp [unpublished]
  · intro ended published
    obtain ⟨e, exit⟩ := Option.ne_none_iff_exists'.mp
      (inv.outside published (by rw [ended]; rfl))
    obtain ⟨d, ending⟩ := Option.ne_none_iff_exists'.mp (inv.left (.inr ended))
    obtain ⟨lost, sure⟩ := inv.ending ending exit
    have completed := (inv.exit exit).1
    rw [owed_ended ended published, completed] at attempts notices
    refine ⟨e, d, exit, ending, ?_, ?_⟩
    · intro notFinal notLost
      simp [attempts, not_complete lost sure notFinal notLost]
    · cases sent : s.sent with
      | false => simp [notices, sent]
      | true =>
        have silent : s.notices = 0 ↔ e.complete = true := by
          cases done : e.complete <;> simp [notices, sent, done]
        simpa [silent] using quiet_iff lost

def smallSetting : Setting := ⟨.reference, 0, ⟨256, 1024, 4096⟩⟩

/-- A frame of a stream that sends one message and ends with it. -/
def lastFrame : Delivery :=
  (frame { replyTo := lit "caller" } (resultBody .reference (lit "Log.tail") (lit "a")) true
    0).deliver (lit "caller")

/-- The context ends when the only frame of the stream is in hand: the caller gets the context's
error, and the producer, which is done, gets nothing. -/
theorem range_well_behaved_context : ∃ s, (ranges smallSetting).Reachable s ∧ s.pc = .ended ∧
    s.published = true ∧ s.exit = some (.context true) ∧ s.ending = some ⟨true, true, false⟩ ∧
      s.yields = [.error .context] ∧ Shaped s.yields ∧ s.attempts ≤ 1 ∧ s.notices = 0 := by
  have run : ((ranges smallSetting).run [.begin, .publish none, .frame lastFrame, .next, .ctxEnds,
      .check, .refuse, .leave, .finish true] {}).map (fun s => decide (s.pc = .ended ∧
        s.published = true ∧ s.exit = some (.context true) ∧
          s.ending = some ⟨true, true, false⟩ ∧ s.yields = [.error .context])) = some true := by
    decide +kernel
  obtain ⟨s, run, holds⟩ := Option.map_eq_some_iff.mp run
  obtain ⟨ended, published, exit, ending, yields⟩ := of_decide_eq_true holds
  have reach := System.Reachable.run (.init rfl) run
  obtain ⟨shaped, -, once, -, -, last⟩ := range_well_behaved smallSetting reach
  obtain ⟨e, d, isExit, isEnding, -, right⟩ := last ended published
  cases isExit.symm.trans exit
  cases isEnding.symm.trans ending
  exact ⟨s, reach, ended, published, exit, ending, yields, shaped, once,
    (right.mpr (.inl (.inl rfl))).2 rfl⟩

/-- The caller breaks out after the only chunk, whose frame is the final one; or the stream fails
with `ErrDisconnected` while the caller has a chunk, and the caller breaks out. Both times the
producer is told to stop. -/
theorem break_cancels : (∃ s, (ranges smallSetting).Reachable s ∧ s.pc = .ended ∧
    s.ending = some ⟨true, true, false⟩ ∧ s.notices = 1) ∧
    ∃ s, (ranges smallSetting).Reachable s ∧ s.pc = .ended ∧
      s.ending = some ⟨false, false, true⟩ ∧ s.notices = 1 := by
  constructor
  · have run : ((ranges smallSetting).run [.begin, .publish none, .frame lastFrame, .next, .check,
        .offer, .resume false, .finish true] {}).map (fun s => decide (s.pc = .ended ∧
          s.ending = some ⟨true, true, false⟩ ∧ s.notices = 1)) = some true := by
      decide +kernel
    obtain ⟨s, run, holds⟩ := Option.map_eq_some_iff.mp run
    exact ⟨s, System.Reachable.run (.init rfl) run, of_decide_eq_true holds⟩
  · have run : ((ranges smallSetting).run [.begin, .publish none, .frame { body := lit "a" }, .next,
        .check, .offer, .fail .disconnected, .resume false, .finish true] {}).map (fun s =>
          decide (s.pc = .ended ∧ s.ending = some ⟨false, false, true⟩ ∧ s.notices = 1)) =
        some true := by
      decide +kernel
    obtain ⟨s, run, holds⟩ := Option.map_eq_some_iff.mp run
    exact ⟨s, System.Reachable.run (.init rfl) run, of_decide_eq_true holds⟩

end Protobus.Stream.Iterator
