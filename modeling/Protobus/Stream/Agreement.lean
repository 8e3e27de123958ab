import Protobus.Stream.Call
import Protobus.Library.ProtowireReference

/-!
# Streams whose runs agree

When every run of the handler sends the same messages and ends the same way, a frame is known
by its number. What the caller has been handed and what is buffered for them are then the
bodies of the frames up to the last number seen.
-/
namespace Protobus.Stream
open Library Amqp Consumer

/-! ## The frames of a complete run -/

section
variable {pw : Protowire} {method : Bytes} (h : pw.Lawful)
include h

theorem resultBody_ne_nil (data : Bytes) : resultBody pw method data ≠ [] := by
  have tag := Protowire.tag_ne_nil h 1 bytesType (by decide) (by decide) (by decide)
  simp [resultBody, Wire.appendResponse_result, tag]

theorem serviceErrorBody_ne_nil (e : HandlerError) : serviceErrorBody pw method e ≠ [] := by
  have tag := Protowire.tag_ne_nil h 2 bytesType (by decide) (by decide) (by decide)
  simp [serviceErrorBody, Wire.appendResponse_error, tag]

/-- An empty body is the end marker of an empty stream, and its only frame. -/
theorem bodies_cases (method : Bytes) (sc : Script) :
    (∀ body ∈ sc.bodies pw method, body ≠ []) ∨ sc.bodies pw method = [[]] := by
  unfold Script.bodies
  cases sc.ending with
  | some e =>
    left
    intro body mem
    rcases List.mem_append.mp mem with result | error
    · obtain ⟨data, -, rfl⟩ := List.mem_map.mp result
      exact resultBody_ne_nil h data
    · rw [List.mem_singleton.mp error]
      exact serviceErrorBody_ne_nil h e
  | none =>
    by_cases empty : sc.messages = []
    · exact .inr (if_pos empty)
    · left
      simp only [if_neg empty]
      intro body mem
      obtain ⟨data, -, rfl⟩ := List.mem_map.mp mem
      exact resultBody_ne_nil h data

end

section
variable {pw : Protowire} {d : Delivery} {method : Bytes} {sc : Script}

theorem bodies_pos : 0 < (sc.bodies pw method).length := by
  rw [length_bodies]
  split <;> omega

/-- The numbers of a complete run are numbers of an `int64`. -/
theorem number_lt {i : Nat} (lt : i < (sc.bodies pw method).length) : (i : Int) < 2 ^ 63 := by
  have := sc.countable
  rw [length_bodies] at lt
  split at lt <;> omega

/-- The number that `push` expects after the frames up to `p`. -/
theorem expected_eq {p : Nat} {lastSeq : Int} (last : lastSeq = (p : Int) - 1)
    (more : p < (sc.bodies pw method).length) : int64 (lastSeq + 1) = p := by
  have := number_lt more
  rw [last, int64_eq] <;> omega

@[simp] theorem body_frame (i : Nat) (key : Bytes) :
    ((sc.frame pw d method i).deliver key).body = (sc.bodies pw method).getD i [] := rfl

@[simp] theorem streamFinal_frame (wide : Int) (i : Nat) (key : Bytes) :
    streamFinal wide ((sc.frame pw d method i).deliver key).headers =
      decide (i + 1 = (sc.bodies pw method).length) := by
  have other : headerFinal ≠ headerSeq := by decide
  simp [Script.frame, frame, Publishing.deliver, streamFinal, other]

theorem streamSeq_frame (wide : Int) {i : Nat} (lt : i < (sc.bodies pw method).length)
    (key : Bytes) : streamSeq wide ((sc.frame pw d method i).deliver key).headers = some i := by
  apply streamSeq_of_get wide (by omega) (number_lt lt)
  simp [Script.frame, frame, Publishing.deliver]

end

/-! ## The caller's stream -/

/-- The chunks of the first `p` frames. -/
def chunksUpTo (bodies : List Bytes) (p : Nat) : List Bytes := (bodies.take p).filter (· ≠ [])

theorem chunksUpTo_succ {bodies : List Bytes} {p : Nat} (lt : p < bodies.length) :
    chunksUpTo bodies (p + 1) = chunksUpTo bodies p ++ [bodies.getD p []].filter (· ≠ []) := by
  rw [chunksUpTo, List.take_add_one, List.filter_append, List.getD_eq_getElem?_getD,
    List.getElem?_eq_getElem lt]
  rfl

theorem chunksUpTo_length (bodies : List Bytes) :
    chunksUpTo bodies bodies.length = bodies.filter (· ≠ []) := by
  simp [chunksUpTo]

theorem chunksUpTo_initial (bodies : List Bytes) (p : Nat) :
    chunksUpTo bodies p <+: bodies.filter (· ≠ []) :=
  (List.take_prefix p bodies).filter _

/-- The caller's side of a call whose runs agree. As long as the stream has not failed, it has
seen the frames up to some number; it ends with the last. -/
structure Agreed (cfg : Setting) (sc : Script) (s : State) : Prop where
  handed : s.handed <+: (sc.bodies cfg.pw cfg.method).filter (· ≠ [])
  seen : s.client.err = none → ∃ p ≤ (sc.bodies cfg.pw cfg.method).length,
    s.client.lastSeq = (p : Int) - 1 ∧
    s.handed ++ s.client.chunks = chunksUpTo (sc.bodies cfg.pw cfg.method) p ∧
    (s.client.ended = false → p < (sc.bodies cfg.pw cfg.method).length) ∧
    (s.client.ended = true → p = (sc.bodies cfg.pw cfg.method).length ∧
      s.endedBy = some ((sc.frame cfg.pw cfg.d cfg.method (p - 1)).deliver cfg.d.replyTo))

namespace Agreed
variable {cfg : Setting} {sc : Script}

theorem start : Agreed cfg sc .start where
  handed := List.nil_prefix
  seen _ := ⟨0, Nat.zero_le _, rfl, rfl, fun _ => bodies_pos, nofun⟩

variable {s : State} (inv : Agreed cfg sc s)
include inv

/-- A step that fails the stream. -/
theorem failed {c : ClientStream} (buffered : Int) (err : c.err ≠ none) :
    Agreed cfg sc { s with client := c, buffered } where
  handed := inv.handed
  seen none := absurd none err

theorem deliver {i : Nat} {c : ClientStream} (buffered : Int) (going : s.client.ended = false)
    (lt : i < (sc.bodies cfg.pw cfg.method).length)
    (pushed : Pushed cfg.wide s.client
      ((sc.frame cfg.pw cfg.d cfg.method i).deliver cfg.d.replyTo) c) :
    Agreed cfg sc { s with
      client := c
      buffered
      endedBy := if c.ended then some ((sc.frame cfg.pw cfg.d cfg.method i).deliver cfg.d.replyTo)
        else s.endedBy } := by
  refine ⟨inv.handed, ?_⟩
  intro noErr
  have number := streamSeq_frame (d := cfg.d) cfg.wide lt cfg.d.replyTo
  cases pushed with
  | old isNumber older =>
    obtain ⟨p, le, last, all, more, -⟩ := inv.seen noErr
    obtain rfl := Option.some.inj (number.symm.trans isNumber)
    have before : i < p := by
      have := expected_eq last (more going)
      omega
    have notLast : ¬i + 1 = (sc.bodies cfg.pw cfg.method).length := by
      have := more going
      omega
    simp only [streamFinal_frame, notLast, decide_false]
    exact ⟨p, le, last, all, fun _ => more going, nofun⟩
  | failed err => exact absurd noErr err
  | taken isDue err chunks ended =>
    obtain ⟨p, le, last, all, more, -⟩ := inv.seen (err.symm.trans noErr)
    obtain ⟨next, lastSeq⟩ := isDue i number
    rw [streamFinal_frame] at ended
    obtain rfl : i = p := by
      have := expected_eq last (more going)
      omega
    refine ⟨i + 1, lt, ?_, ?_, ?_, ?_⟩
    · rw [lastSeq]
      omega
    · rw [chunks, ← List.append_assoc, all, chunksUpTo_succ lt, body_frame]
    · intro notEnded
      have notLast := of_decide_eq_false (ended.symm.trans notEnded)
      omega
    · intro isEnded
      exact ⟨of_decide_eq_true (ended.symm.trans isEnded), if_pos isEnded⟩

theorem next {t : State} (answer : Nexts s t) : Agreed cfg sc t := by
  cases answer with
  | failed err _ => exact ⟨inv.handed, inv.seen⟩
  | done | wait => exact ⟨inv.handed, inv.seen⟩
  | @chunk chunk rest _ _ noErr chunks =>
    obtain ⟨p, le, last, all, going, ended⟩ := inv.seen noErr
    have moved : (s.handed ++ [chunk]) ++ rest = chunksUpTo (sc.bodies cfg.pw cfg.method) p := by
      rw [← all, chunks]
      simp
    have handed : s.handed ++ [chunk] <+: chunksUpTo (sc.bodies cfg.pw cfg.method) p :=
      ⟨rest, moved⟩
    exact ⟨handed.trans (chunksUpTo_initial _ p), fun _ => ⟨p, le, last, moved, going, ended⟩⟩

/-- An ended stream that has not failed and has nothing left to hand out. -/
theorem complete (noErr : s.client.err = none) (ended : s.client.ended = true)
    (drained : s.client.chunks = []) :
    s.handed = (sc.bodies cfg.pw cfg.method).filter (· ≠ []) ∧
      s.client.lastSeq = ((sc.bodies cfg.pw cfg.method).length : Int) - 1 ∧
      s.endedBy = some ((sc.frame cfg.pw cfg.d cfg.method
        ((sc.bodies cfg.pw cfg.method).length - 1)).deliver cfg.d.replyTo) := by
  obtain ⟨p, -, last, all, -, isLast⟩ := inv.seen noErr
  obtain ⟨rfl, by_⟩ := isLast ended
  rw [drained, List.append_nil, chunksUpTo_length] at all
  exact ⟨all, last, by_⟩

end Agreed

theorem agreed_reachable {cfg : Setting} {sc : Script} (agree : ∀ r, cfg.script r = sc)
    {s : State} (reach : (system cfg).Reachable s) : Agreed cfg sc s := by
  apply reach.invariant (Agreed cfg sc)
  · rintro s rfl
    exact .start
  · intro s a t before inv hstep
    cases steps_of_step hstep with
    | @pushed r _ f c buffered stored going pushed =>
      obtain ⟨i, lt, rfl⟩ := (runOf_reachable before r).stored f (List.mem_of_getElem? stored)
      rw [agree r] at lt pushed ⊢
      exact inv.deliver buffered going lt pushed
    | next answer => exact inv.next answer
    | fail err buffered _ failed _ => exact inv.failed buffered failed
    | release buffered failed _ => exact inv.failed buffered failed
    | run | ignored | tooLate | others => exact ⟨inv.handed, inv.seen⟩

/-- However the frames of runs that agree reach the caller, they are handed the bodies of a
complete run in order, and the end without an error comes after the last of them and after the
final frame. -/
theorem stream_whole {cfg : Setting} {sc : Script} (lawful : cfg.pw.Lawful)
    (agree : ∀ r, cfg.script r = sc) {s : State} (reach : (system cfg).Reachable s) :
    s.handed <+: sc.bodies cfg.pw cfg.method ∧
      ((next s.client s.buffered).2 = .done none →
        (s.handed = sc.bodies cfg.pw cfg.method ∨
          sc.bodies cfg.pw cfg.method = [[]] ∧ s.handed = []) ∧
        s.client.lastSeq = ((sc.bodies cfg.pw cfg.method).length : Int) - 1 ∧
        s.endedBy = some ((sc.frame cfg.pw cfg.d cfg.method
          ((sc.bodies cfg.pw cfg.method).length - 1)).deliver cfg.d.replyTo)) := by
  have inv := agreed_reachable agree reach
  have handed := inv.handed
  rcases bodies_cases lawful cfg.method sc with chunks | marker
  · -- every body is a chunk
    have all : (sc.bodies cfg.pw cfg.method).filter (· ≠ []) = sc.bodies cfg.pw cfg.method :=
      List.filter_eq_self.mpr fun body mem => decide_eq_true (chunks body mem)
    rw [all] at handed
    refine ⟨handed, fun done => ?_⟩
    obtain ⟨noErr, drained, ended⟩ := next_done done
    obtain ⟨eq, last, by_⟩ := inv.complete noErr ended drained
    exact ⟨.inl (eq.trans all), last, by_⟩
  · have none : (sc.bodies cfg.pw cfg.method).filter (· ≠ []) = [] := by simp [marker]
    have empty : s.handed = [] := List.prefix_nil.mp (none ▸ handed)
    refine ⟨empty ▸ List.nil_prefix, fun done => ?_⟩
    obtain ⟨noErr, drained, ended⟩ := next_done done
    obtain ⟨-, last, by_⟩ := inv.complete noErr ended drained
    exact ⟨.inr ⟨marker, empty⟩, last, by_⟩

/-- The first run is cut off at its second frame, which is lost; a second run sends both, and
the caller sees the first frame twice. -/
theorem stream_whole_rerun :
    let sc : Script := ⟨[lit "a", lit "b"], none, by decide⟩
    let cfg : Setting := ⟨.reference, 0, ⟨256, 1024, 4096⟩, { replyTo := lit "caller" },
      lit "Log.tail", fun _ => sc⟩
    ∃ s, (system cfg).Reachable s ∧ s.handed.length = 2 ∧
      (next s.client s.buffered).2 = .done none ∧ s.handed <+: sc.bodies cfg.pw cfg.method ∧
      s.client.lastSeq = ((sc.bodies cfg.pw cfg.method).length : Int) - 1 := by
  intro sc cfg
  let ok : Moment := ⟨false, .ok⟩
  let lost : Moment := ⟨false, .failed (lit "closed") false⟩
  let steps : List Action := [.send 0 none none ok, .send 0 none none ok, .finish 0 false lost ok,
    .send 1 none none ok, .send 1 none none ok, .finish 1 false ok ok,
    .deliver 0 0, .deliver 1 0, .next, .deliver 1 1, .next]
  have ran : ((system cfg).run steps State.start).map
      (fun s => (s.handed.length, (next s.client s.buffered).2)) = some (2, .done none) := by
    decide +kernel
  obtain ⟨s, run, result⟩ := Option.map_eq_some_iff.mp ran
  obtain ⟨two, done⟩ := Prod.mk.inj result
  have reach : (system cfg).Reachable s := .run (.init rfl) run
  have whole := @stream_whole cfg sc Protowire.reference_lawful (fun _ => rfl) s reach
  exact ⟨s, reach, two, done, whole.1, (whole.2 done).2.1⟩

end Protobus.Stream
