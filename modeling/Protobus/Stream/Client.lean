import Protobus.Stream.Server

/-!
# The receiving side of a stream

`clientStream` buffers the frames of one reply for the caller's iterator. `push` takes the
frames as the broker delivers them: it drops what it has seen, fails on a gap, and counts the
final flag of a dropped frame.
-/
namespace Protobus.Stream
open Library Amqp Consumer

inductive ClientErr
  | sequence (got expected : Int)
  | backpressure (chunks bytes total : Int)
  | failed (err : Bytes)
  | released
deriving DecidableEq

structure Limits where
  chunks : Int
  bytes : Int
  total : Int

structure ClientStream where
  chunks : List Bytes := []
  bytes : Int := 0
  lastSeq : Int := -1
  ended : Bool := false
  err : Option ClientErr := none

/-- What `next` returns. -/
inductive Next
  | chunk (body : Bytes)
  | done (err : Option ClientErr)
  | wait
deriving DecidableEq

section
variable (wide : Int) (limits : Limits)

-- the second component is the allowance `bufferedBytes` that all streams of the process share

def dropBuffer (s : ClientStream) (buffered : Int) : ClientStream × Int :=
  ({ s with bytes := 0, chunks := [] }, int64 (buffered - s.bytes))

/-- The part of `push` for a frame that is neither old nor early. -/
def takeFrame (s : ClientStream) (buffered : Int) (body : Bytes) (final : Bool) :
    ClientStream × Int :=
  let n : Int := body.length
  if 0 < n then
    let total := int64 (buffered + n)
    if s.chunks.length + 1 > limits.chunks || int64 (s.bytes + n) > limits.bytes ||
        total > limits.total then
      dropBuffer { s with
        err := some (.backpressure (s.chunks.length + 1) (int64 (s.bytes + n)) total)
        ended := true } (int64 (total - n))
    else ({ s with
      chunks := s.chunks ++ [body]
      bytes := int64 (s.bytes + n)
      ended := s.ended || final }, total)
  else ({ s with ended := s.ended || final }, buffered)

def push (s : ClientStream) (buffered : Int) (dl : Delivery) : ClientStream × Int :=
  let final := streamFinal wide dl.headers
  if s.ended then (s, buffered)
  else match streamSeq wide dl.headers with
    | some seq =>
      let expected := int64 (s.lastSeq + 1)
      if seq < expected then ({ s with ended := s.ended || final }, buffered)
      else if seq > expected then
        dropBuffer { s with err := some (.sequence seq expected), ended := true } buffered
      else takeFrame limits { s with lastSeq := seq } buffered dl.body final
    | none => takeFrame limits s buffered dl.body final

/-- A stream that has ended well is not failed any more: the caller may drain it. -/
def fail (s : ClientStream) (buffered : Int) (err : Bytes) : ClientStream × Int :=
  if s.ended then (s, buffered)
  else dropBuffer { s with err := some (.failed err), ended := true } buffered

def next (s : ClientStream) (buffered : Int) : (ClientStream × Int) × Next :=
  match s.err, s.chunks with
  | some err, _ => ((s, buffered), .done (some err))
  | none, chunk :: rest =>
    (({ s with chunks := rest, bytes := int64 (s.bytes - chunk.length) },
      int64 (buffered - chunk.length)), .chunk chunk)
  | none, [] => ((s, buffered), if s.ended then .done none else .wait)

def release (s : ClientStream) (buffered : Int) : ClientStream × Int :=
  dropBuffer { s with ended := true, err := s.err <|> some .released } buffered

/-- `next` reports an end without an error. -/
theorem next_done {s : ClientStream} {buffered : Int} (done : (next s buffered).2 = .done none) :
    s.err = none ∧ s.chunks = [] ∧ s.ended = true := by
  unfold next at done
  split at done
  · cases done
  · cases done
  · next noErr drained =>
    cases ended : s.ended with
    | true => exact ⟨noErr, drained, rfl⟩
    | false => simp [ended] at done

/-- What `push` makes of a frame while the stream goes on. -/
inductive Pushed (s : ClientStream) (dl : Delivery) : ClientStream → Prop
  | old {seq : Int} : streamSeq wide dl.headers = some seq → seq < int64 (s.lastSeq + 1) →
      Pushed s dl { s with ended := streamFinal wide dl.headers }
  | failed {c : ClientStream} : c.err ≠ none → c.ended = true → Pushed s dl c
  | taken {c : ClientStream} :
      (∀ seq, streamSeq wide dl.headers = some seq →
        seq = int64 (s.lastSeq + 1) ∧ c.lastSeq = seq) →
      c.err = s.err → c.chunks = s.chunks ++ [dl.body].filter (· ≠ []) →
      c.ended = streamFinal wide dl.headers → Pushed s dl c

/-- `takeFrame` refuses the frame for good or appends it, unless it is an end marker. -/
theorem takeFrame_cases {s : ClientStream} (going : s.ended = false) (buffered : Int)
    (body : Bytes) (final : Bool) :
    let c := (takeFrame limits s buffered body final).1
    (c.err ≠ none ∧ c.ended = true) ∨
      (c.lastSeq = s.lastSeq ∧ c.err = s.err ∧ c.chunks = s.chunks ++ [body].filter (· ≠ []) ∧
        c.ended = final) := by
  unfold takeFrame
  cases body with
  | nil => simp [going]
  | cons b body =>
    simp only [List.length_cons]
    rw [if_pos (by omega)]
    split
    · simp [dropBuffer]
    · simp [going]

theorem push_cases {s : ClientStream} (going : s.ended = false) (buffered : Int) (dl : Delivery) :
    Pushed wide s dl (push wide limits s buffered dl).1 := by
  unfold push
  simp only [going, Bool.false_eq_true, if_false]
  cases seq : streamSeq wide dl.headers with
  | none =>
    rcases takeFrame_cases limits going buffered dl.body _ with
      ⟨err, ended⟩ | ⟨_, err, chunks, ended⟩
    · exact .failed err ended
    · exact .taken (by simp [seq]) err chunks ended
  | some n =>
    simp only
    split
    · next lt => exact .old seq lt
    · next notOld =>
      split
      · exact .failed (by simp [dropBuffer]) (by simp [dropBuffer])
      · next notEarly =>
        have due : n = int64 (s.lastSeq + 1) := by omega
        rcases takeFrame_cases limits (s := { s with lastSeq := n, ended := false }) rfl buffered
          dl.body _ with ⟨err, ended⟩ | ⟨last, err, chunks, ended⟩
        · exact .failed err ended
        · refine .taken ?_ err chunks ended
          intro m eq
          obtain rfl : n = m := Option.some.inj (seq.symm.trans eq)
          exact ⟨due, last⟩

end

/-! ## The caller's range -/

inductive ReplyErr
  | invalid (err : Option Wire.WireError)
  | remote (e : Wire.Error)
  | otherMethod (got : Bytes)
  | payload

section
variable (pw : Protowire) (method : Bytes)
-- whether `unmarshal` can read the data of a result
variable (unmarshal : Bytes → Bool)

def decodeReply (reply : Bytes) : Option ReplyErr :=
  match Wire.decodeResponse pw reply with
  | (_, some err) => some (.invalid (some err))
  | (resp, none) => match resp.error, resp.result with
    | some e, _ => some (.remote e)
    | none, some res =>
      if res.method ≠ method then some (.otherMethod res.method)
      else if unmarshal res.data then none
      else some .payload
    | none, none => some (.invalid none)

inductive RangeEnd
  | running
  | finished
  | failed
deriving DecidableEq

/-- Where the range of `StreamWith` has got to, after the chunks that `next` has handed out and
the end it has reported: it stops at the first chunk that does not decode. -/
def rangeEnd : List Bytes → Option (Option ClientErr) → RangeEnd
  | chunk :: rest, report => match decodeReply pw method unmarshal chunk with
    | some _ => .failed
    | none => rangeEnd rest report
  | [], none => .running
  | [], some none => .finished
  | [], some (some _) => .failed

/-- The body is a `ResponseError`. -/
def isResponseError (body : Bytes) : Bool :=
  match Wire.decodeResponse pw body with
  | (resp, none) => resp.error.isSome
  | (_, some _) => false

variable {pw method unmarshal}

/-- A range that finished has decoded every chunk. -/
theorem decodes_of_finished {handed : List Bytes} {report : Option (Option ClientErr)}
    (h : rangeEnd pw method unmarshal handed report = .finished) :
    report = some none ∧ ∀ chunk ∈ handed, isResponseError pw chunk = false := by
  induction handed with
  | nil =>
    cases report with
    | none => cases h
    | some report => cases report <;> simp_all [rangeEnd]
  | cons chunk rest ih =>
    simp only [rangeEnd] at h
    split at h
    · cases h
    · next decoded =>
      obtain ⟨eq, all⟩ := ih h
      refine ⟨eq, fun c mem => ?_⟩
      rcases List.mem_cons.mp mem with rfl | mem
      · unfold decodeReply at decoded
        unfold isResponseError
        grind
      · exact all c mem

end
end Protobus.Stream
