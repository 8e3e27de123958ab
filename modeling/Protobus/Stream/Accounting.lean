import Protobus.Library.Ledger
import Protobus.Library.Transition
import Protobus.Stream.Client

/-!
# The allowance that all streams share

Every stream of a dispatcher counts what it buffers, in its own field and in one counter of the
process. An operation holds the lock of its stream, so what it does to the stream is seen at
once, when it changes the counter. A push that is refused changes the counter three times: it
adds the frame, takes it off again and returns what the stream had. Other streams may run
between these.
-/
namespace Protobus.Stream
open Library Amqp Consumer

/-- The limits that `Config.Validate` accepts. The last one is an `int64`. -/
structure Quota extends Limits where
  chunks_pos : 0 < chunks
  bytes_pos : 0 < bytes
  total_pos : 0 < total
  total_lt : total < 2 ^ 63

/-- Where a refused push is, with the stream it is going to leave: its frame is still counted,
or it is not any more. -/
inductive Refusal
  | counted (n : Int) (after : ClientStream)
  | undone (after : ClientStream)

/-- A stream, and whether its caller has released it. -/
structure Account where
  stream : ClientStream := {}
  refusal : Option Refusal := none
  released : Bool := false

def chunkBytes (chunks : List Bytes) : Int := (chunks.map fun c => (c.length : Int)).sum

namespace Account

def bytes (x : Account) : Int := x.stream.bytes

/-- The frame of a refused push, while the counter has it. -/
def reserved (x : Account) : Int :=
  match x.refusal with
  | some (.counted n _) => n
  | _ => 0

/-- The frames that are in memory for the stream. -/
def memory (x : Account) : Int := chunkBytes x.stream.chunks + x.reserved

end Account

structure Accounts where
  streams : List Account := []
  buffered : Int := 0

inductive Op
  | newStream
  | push (i : Nat) (dl : Delivery)
  | undo (i : Nat)
  | drop (i : Nat)
  | next (i : Nat)
  | fail (i : Nat) (err : Bytes)
  | release (i : Nat)

section
variable (wide : Int) (limits : Limits)

/-- The frame is neither late nor old nor early, so it needs room. -/
def due (s : ClientStream) (dl : Delivery) : Bool :=
  !s.ended && (streamSeq wide dl.headers).all (· = int64 (s.lastSeq + 1))

/-- There is no room for a frame of `n` bytes. -/
def refuses (s : ClientStream) (buffered n : Int) : Bool :=
  0 < n && (s.chunks.length + 1 > limits.chunks || int64 (s.bytes + n) > limits.bytes ||
    int64 (buffered + n) > limits.total)

namespace Accounts
variable (s : Accounts)

/-- The stream, if no push is in the middle of it. -/
def unlocked (i : Nat) : Option Account := s.streams[i]?.filter (·.refusal.isNone)

def put (i : Nat) (x : Account) (buffered : Int) : Accounts := ⟨s.streams.set i x, buffered⟩

def pushStep (i : Nat) (x : Account) (dl : Delivery) : Accounts :=
  let n : Int := dl.body.length
  let (c, buffered) := push wide limits x.stream s.buffered dl
  if due wide x.stream dl && refuses limits x.stream s.buffered n then
    s.put i { x with refusal := some (.counted n c) } (int64 (s.buffered + n))
  else s.put i { x with stream := c } buffered

/-- The frames that are in memory at the same time fit into the address space. -/
def step : Op → Option Accounts
  | .newStream => some { s with streams := s.streams ++ [{}] }
  | .push i dl =>
    if Ledger.total Account.memory s.streams + dl.body.length < 2 ^ 63 then
      (s.unlocked i).map fun x => s.pushStep wide limits i x dl
    else none
  | .undo i => s.streams[i]?.bind fun x => match x.refusal with
    | some (.counted n c) => some (s.put i { x with refusal := some (.undone c) }
        (int64 (s.buffered - n)))
    | _ => none
  | .drop i => s.streams[i]?.bind fun x => match x.refusal with
    | some (.undone c) => some (s.put i { x with stream := c, refusal := none }
        (int64 (s.buffered - x.stream.bytes)))
    | _ => none
  | .next i => (s.unlocked i).map fun x =>
      let (c, buffered) := (Stream.next x.stream s.buffered).1
      s.put i { x with stream := c } buffered
  | .fail i err => (s.unlocked i).map fun x =>
      let (c, buffered) := Stream.fail x.stream s.buffered err
      s.put i { x with stream := c } buffered
  | .release i => (s.unlocked i).map fun x =>
      let (c, buffered) := Stream.release x.stream s.buffered
      s.put i { x with stream := c, released := true } buffered

end Accounts

def accounts (quota : Quota) : System Accounts Op where
  init s := s = {}
  step s op := s.step wide quota.toLimits op

end

/-! ## A refused push -/

section
variable {wide : Int} {limits : Limits} {s : ClientStream} {buffered : Int} {dl : Delivery}

/-- A push that needs room is `takeFrame`. -/
theorem push_due (h : due wide s dl = true) : ∃ seq, push wide limits s buffered dl =
    takeFrame limits { s with lastSeq := seq } buffered dl.body (streamFinal wide dl.headers) := by
  simp only [due, Bool.and_eq_true, Bool.not_eq_true'] at h
  obtain ⟨going, expected⟩ := h
  unfold push
  rw [if_neg (by simp [going])]
  cases seq : streamSeq wide dl.headers with
  | none => exact ⟨s.lastSeq, rfl⟩
  | some n =>
    rw [seq] at expected
    obtain rfl : n = int64 (s.lastSeq + 1) := by simpa using expected
    exact ⟨int64 (s.lastSeq + 1), by simp⟩

theorem takeFrame_refused {body : Bytes} {final : Bool}
    (h : refuses limits s buffered body.length = true) :
    takeFrame limits s buffered body final = dropBuffer { s with
      err := some (.backpressure (s.chunks.length + 1) (int64 (s.bytes + body.length))
        (int64 (buffered + body.length)))
      ended := true } (int64 (int64 (buffered + body.length) - body.length)) := by
  simp only [refuses, Bool.and_eq_true, decide_eq_true_eq] at h
  unfold takeFrame
  rw [if_pos h.1, if_pos h.2]

end

/-! ## One operation -/

@[simp] theorem chunkBytes_nil : chunkBytes [] = 0 := rfl

@[simp] theorem chunkBytes_cons (c : Bytes) (cs : List Bytes) :
    chunkBytes (c :: cs) = c.length + chunkBytes cs := by
  simp [chunkBytes]

@[simp] theorem chunkBytes_concat (c : Bytes) (cs : List Bytes) :
    chunkBytes (cs ++ [c]) = chunkBytes cs + c.length := by
  simp [chunkBytes]

theorem chunkBytes_nonneg (chunks : List Bytes) : 0 ≤ chunkBytes chunks := by
  induction chunks with
  | nil => simp
  | cons c cs ih =>
    rw [chunkBytes_cons]
    omega

/-- What a stream keeps to. -/
structure Sound (limits : Limits) (s : ClientStream) : Prop where
  bytes : s.bytes = chunkBytes s.chunks
  count : s.chunks.length ≤ limits.chunks
  size : s.bytes ≤ limits.bytes
  empty : s.err ≠ none → s.chunks = [] ∧ s.ended = true

/-- What an operation does to a stream and the counter: the counter follows the stream, and it
grows within the limit only. -/
structure Moves (limits : Limits) (s : ClientStream) (b : Int) (r : ClientStream × Int) :
    Prop where
  sound : Sound limits r.1
  balance : r.2 = b + (r.1.bytes - s.bytes)
  within : r.1.bytes ≤ s.bytes ∨ r.2 ≤ limits.total
  final : s.err ≠ none → r.1.err ≠ none

section
variable {wide : Int} {quota : Quota} {s c : ClientStream} {b : Int}

theorem Sound.bytes_nonneg {limits : Limits} (h : Sound limits s) : 0 ≤ s.bytes :=
  h.bytes ▸ chunkBytes_nonneg s.chunks

/-- A stream with an error and no chunks. -/
theorem Sound.failed (chunks : c.chunks = []) (bytes : c.bytes = 0) (ended : c.ended = true) :
    Sound quota.toLimits c where
  bytes := by simp [chunks, bytes]
  count := by simpa [chunks] using Int.le_of_lt quota.chunks_pos
  size := by simpa [bytes] using Int.le_of_lt quota.bytes_pos
  empty _ := ⟨chunks, ended⟩

variable (h : Sound quota.toLimits s)
include h

/-- The buffer stays. -/
theorem Moves.same (chunks : c.chunks = s.chunks) (bytes : c.bytes = s.bytes) (err : c.err = s.err)
    (ended : s.ended = true → c.ended = true) : Moves quota.toLimits s b (c, b) where
  sound := {
    bytes := by rw [bytes, chunks, h.bytes]
    count := by rw [chunks]; exact h.count
    size := by rw [bytes]; exact h.size
    empty := by
      rw [err, chunks]
      intro failed
      exact ⟨(h.empty failed).1, ended (h.empty failed).2⟩ }
  balance := by
    rw [bytes]
    omega
  within := .inl (Int.le_of_eq bytes)
  final := by
    rw [err]
    exact id

theorem moves_dropBuffer (lo : s.bytes ≤ b) (hi : b < 2 ^ 63) (bytes : c.bytes = s.bytes)
    (err : c.err ≠ none) (ended : c.ended = true) :
    Moves quota.toLimits s b (dropBuffer c b) where
  sound := .failed rfl rfl ended
  balance := by
    have := h.bytes_nonneg
    change int64 (b - c.bytes) = b + (0 - s.bytes)
    rw [bytes, int64_eq (by omega) (by omega)]
    omega
  within := .inl h.bytes_nonneg
  final _ := err

theorem moves_fail (lo : s.bytes ≤ b) (hi : b < 2 ^ 63) (err : Bytes) :
    Moves quota.toLimits s b (fail s b err) := by
  unfold fail
  split
  · exact .same h rfl rfl rfl id
  · exact moves_dropBuffer h lo hi rfl (by simp) rfl

theorem moves_release (lo : s.bytes ≤ b) (hi : b < 2 ^ 63) :
    Moves quota.toLimits s b (release s b) := by
  refine @moves_dropBuffer quota s _ b h lo hi rfl ?_ rfl
  cases s.err <;> simp

theorem moves_next (lo : s.bytes ≤ b) (hi : b < 2 ^ 63) :
    Moves quota.toLimits s b (next s b).1 := by
  unfold next
  split
  · exact .same h rfl rfl rfl id
  · next chunk rest noErr chunks =>
    have rest_nonneg := chunkBytes_nonneg rest
    have held : s.bytes = chunk.length + chunkBytes rest := by rw [h.bytes, chunks, chunkBytes_cons]
    have left' : int64 (s.bytes - chunk.length) = chunkBytes rest := by
      rw [int64_eq] <;> omega
    have count := h.count
    rw [chunks, List.length_cons] at count
    have size := h.size
    constructor
    · refine ⟨left', ?_, ?_, ?_⟩
      · change (rest.length : Int) ≤ _
        omega
      · change int64 _ ≤ _
        omega
      · intro failed
        exact absurd noErr failed
    · change int64 (b - _) = b + (int64 _ - _)
      rw [left', int64_eq] <;> omega
    · left
      change int64 _ ≤ _
      omega
    · intro failed
      exact absurd noErr failed
  · exact .same h rfl rfl rfl id

/-- A frame for which there is room, or an end marker. -/
theorem moves_takeFrame {body : Bytes} {final : Bool} (going : s.err = none) (lo : s.bytes ≤ b)
    (hi : b + body.length < 2 ^ 63)
    (room : refuses quota.toLimits s b body.length = false) :
    Moves quota.toLimits s b (takeFrame quota.toLimits s b body final) := by
  have nonneg := h.bytes_nonneg
  unfold takeFrame
  simp only
  split
  · next pos =>
    simp only [refuses, pos, decide_true, Bool.true_and] at room
    rw [if_neg (Bool.eq_false_iff.mp room)]
    simp only [Bool.or_eq_false_iff, decide_eq_false_iff_not, gt_iff_lt, Int.not_lt] at room
    obtain ⟨⟨count, size⟩, total⟩ := room
    rw [int64_eq (by omega) (by omega)] at size total
    rw [int64_eq (by omega) (by omega), int64_eq (by omega) (by omega)]
    refine ⟨⟨?_, ?_, size, ?_⟩, ?_, .inr total, ?_⟩
    · change s.bytes + _ = chunkBytes (s.chunks ++ [body])
      rw [chunkBytes_concat, h.bytes]
    · change ((s.chunks ++ [body]).length : Int) ≤ _
      rw [List.length_append]
      exact count
    · intro failed
      exact absurd going failed
    · change b + _ = b + (s.bytes + _ - s.bytes)
      omega
    · intro failed
      exact absurd going failed
  · exact .same h rfl rfl rfl (by intro ended; simp [ended])

/-- Every push but one that is refused. -/
theorem moves_push {dl : Delivery} (lo : s.bytes ≤ b) (hi : b + dl.body.length < 2 ^ 63)
    (room : (due wide s dl && refuses quota.toLimits s b dl.body.length) = false) :
    Moves quota.toLimits s b (push wide quota.toLimits s b dl) := by
  by_cases needs : due wide s dl = true
  · have going : s.err = none := by
      by_contra failed
      simp [due, (h.empty failed).2] at needs
    rw [needs, Bool.true_and] at room
    obtain ⟨seq, eq⟩ := push_due needs
    have moved := @moves_takeFrame quota { s with lastSeq := seq } b
      ⟨h.bytes, h.count, h.size, h.empty⟩ dl.body (streamFinal wide dl.headers) going lo hi room
    rw [eq]
    exact ⟨moved.sound, moved.balance, moved.within, moved.final⟩
  · unfold push
    simp only
    split
    · exact .same h rfl rfl rfl id
    · next going =>
      split
      · next seq found =>
        split
        · exact .same h rfl rfl rfl (by intro ended; simp [ended])
        · next notOld =>
          split
          · exact moves_dropBuffer h lo (by omega) rfl (by simp) rfl
          · next notEarly =>
            have expected : seq = int64 (s.lastSeq + 1) := by omega
            exact absurd (by simp [due, going, found, expected]) needs
      · next none => exact absurd (by simp [due, going, none]) needs

end

/-! ## All streams -/

/-- What a refused push is going to leave is empty. -/
structure Refused (c : ClientStream) : Prop where
  chunks : c.chunks = []
  bytes : c.bytes = 0
  ended : c.ended = true
  err : c.err ≠ none

/-- What holds of a stream, also in the middle of a refused push. -/
structure Account.Kept (limits : Limits) (x : Account) : Prop where
  sound : Sound limits x.stream
  counted : ∀ n c, x.refusal = some (.counted n c) → 0 ≤ n ∧ Refused c
  undone : ∀ c, x.refusal = some (.undone c) → Refused c
  released : x.released = true → x.stream.err ≠ none

structure Exact (limits : Limits) (s : Accounts) : Prop where
  streams : ∀ x ∈ s.streams, x.Kept limits
  balance : s.buffered = Ledger.total Account.memory s.streams
  fits : s.buffered < 2 ^ 63
  bound : Ledger.total Account.bytes s.streams ≤ limits.total

theorem Account.Kept.memory_eq {limits : Limits} {x : Account} (h : x.Kept limits) :
    x.memory = x.bytes + x.reserved := by
  rw [Account.memory, Account.bytes, h.sound.bytes]

theorem Account.Kept.reserved_nonneg {limits : Limits} {x : Account} (h : x.Kept limits) :
    0 ≤ x.reserved := by
  unfold Account.reserved
  split
  · next n c refusal => exact (h.counted n c refusal).1
  · exact Int.le_refl 0

section
variable {wide : Int} {quota : Quota} {s : Accounts} {i : Nat} {x y : Account} {b : Int}

theorem Exact.memory_nonneg {limits : Limits} (h : Exact limits s) :
    ∀ x ∈ s.streams, 0 ≤ x.memory := by
  intro x mem
  have kept := h.streams x mem
  have := kept.sound.bytes_nonneg
  have := kept.reserved_nonneg
  rw [kept.memory_eq, Account.bytes]
  omega

/-- The counter covers what each stream holds. -/
theorem Exact.memory_le {limits : Limits} (h : Exact limits s) (mem : x ∈ s.streams) :
    x.bytes + x.reserved ≤ s.buffered := by
  rw [h.balance, ← (h.streams x mem).memory_eq]
  exact Ledger.le_total h.memory_nonneg mem

/-- What a stream holds can be taken off the counter. -/
theorem Exact.int64_sub {limits : Limits} (h : Exact limits s) {n : Int} (nonneg : 0 ≤ n)
    (le : n ≤ s.buffered) : int64 (s.buffered - n) = s.buffered - n := by
  have fits := h.fits
  exact int64_eq (by omega) (by omega)

/-- One stream is changed, and the counter follows it. -/
theorem Exact.put (h : Exact quota.toLimits s) (found : s.streams[i]? = some x)
    (kept : y.Kept quota.toLimits)
    (balance : b = s.buffered + (y.bytes + y.reserved - (x.bytes + x.reserved)))
    (fits : b < 2 ^ 63) (within : y.bytes ≤ x.bytes ∨ b ≤ quota.total) :
    Exact quota.toLimits (s.put i y b) := by
  have old := h.streams x (List.mem_of_getElem? found)
  have streams : ∀ z ∈ s.streams.set i y, z.Kept quota.toLimits :=
    Ledger.forall_mem_set h.streams kept
  have total : b = Ledger.total Account.memory (s.streams.set i y) := by
    rw [Ledger.total_set found, ← h.balance, kept.memory_eq, old.memory_eq]
    omega
  refine ⟨streams, total, fits, ?_⟩
  change Ledger.total Account.bytes (s.streams.set i y) ≤ _
  rcases within with smaller | within
  · rw [Ledger.total_set found]
    have := h.bound
    omega
  · refine le_trans ?_ within
    rw [total]
    apply Ledger.total_le_total
    intro z mem
    have := (streams z mem).reserved_nonneg
    rw [(streams z mem).memory_eq]
    omega

theorem unlocked_eq_some : s.unlocked i = some x ↔ s.streams[i]? = some x ∧ x.refusal = none := by
  simp [Accounts.unlocked, Option.filter_eq_some_iff]

/-- An operation that changes the counter once. -/
theorem Exact.operation (h : Exact quota.toLimits s) (free : s.unlocked i = some x)
    {r : ClientStream × Int} {released : Bool} (moves : Moves quota.toLimits x.stream s.buffered r)
    (failed : released = true → r.1.err ≠ none) :
    Exact quota.toLimits (s.put i ⟨r.1, x.refusal, released⟩ r.2) := by
  obtain ⟨found, open'⟩ := unlocked_eq_some.mp free
  refine h.put found ⟨moves.sound, by simp [open'], by simp [open'], failed⟩ ?_ ?_ moves.within
  · have balance := moves.balance
    simp only [Account.bytes, Account.reserved, open']
    omega
  · have balance := moves.balance
    have := h.fits
    have := quota.total_lt
    rcases moves.within with smaller | within
    · omega
    · omega

/-- The stream is covered by the counter, so an operation does not overflow. -/
theorem Exact.covers (h : Exact quota.toLimits s) (free : s.unlocked i = some x) :
    x.Kept quota.toLimits ∧ x.stream.bytes ≤ s.buffered := by
  have mem := List.mem_of_getElem? (unlocked_eq_some.mp free).1
  have kept := h.streams x mem
  have := h.memory_le mem
  have := kept.reserved_nonneg
  refine ⟨kept, ?_⟩
  simp only [Account.bytes] at *
  omega

theorem Exact.push (h : Exact quota.toLimits s) (free : s.unlocked i = some x) {dl : Delivery}
    (memory : Ledger.total Account.memory s.streams + dl.body.length < 2 ^ 63) :
    Exact quota.toLimits (s.pushStep wide quota.toLimits i x dl) := by
  obtain ⟨kept, lo⟩ := h.covers free
  obtain ⟨found, open'⟩ := unlocked_eq_some.mp free
  rw [← h.balance] at memory
  unfold Accounts.pushStep
  simp only
  split
  · next full =>
    -- The counter has the frame, and the stream is still what it was.
    obtain ⟨needs, full⟩ := Bool.and_eq_true_iff.mp full
    have nonneg := kept.sound.bytes_nonneg
    have refused : Refused (Stream.push wide quota.toLimits x.stream s.buffered dl).1 := by
      obtain ⟨seq, eq⟩ := @push_due wide quota.toLimits x.stream s.buffered dl needs
      rw [eq, @takeFrame_refused _ { x.stream with lastSeq := seq } _ _ _ full]
      exact ⟨rfl, rfl, rfl, by simp [dropBuffer]⟩
    refine h.put found ⟨kept.sound, ?_, by simp, kept.released⟩ ?_ ?_ (.inl (Int.le_refl _))
    · intro n c eq
      cases eq
      exact ⟨Int.natCast_nonneg _, refused⟩
    · rw [int64_eq (by omega) memory]
      simp only [Account.bytes, Account.reserved, open']
      omega
    · rw [int64_eq (by omega) memory]
      exact memory
  · next room =>
    have moves := moves_push kept.sound lo memory (Bool.eq_false_of_not_eq_true room)
    exact h.operation free moves fun released => moves.final (kept.released released)

theorem Exact.undo (h : Exact quota.toLimits s) (found : s.streams[i]? = some x) {n : Int}
    {c : ClientStream} (refusal : x.refusal = some (.counted n c)) :
    Exact quota.toLimits
      (s.put i { x with refusal := some (.undone c) } (int64 (s.buffered - n))) := by
  have mem := List.mem_of_getElem? found
  have kept := h.streams x mem
  obtain ⟨nonneg, refused⟩ := kept.counted n c refusal
  have bytes_nonneg := kept.sound.bytes_nonneg
  have covered := h.memory_le mem
  have fits := h.fits
  have reserved : x.reserved = n := by simp [Account.reserved, refusal]
  have exact' : int64 (s.buffered - n) = s.buffered - n := by
    simp only [Account.bytes] at covered
    exact h.int64_sub nonneg (by omega)
  refine h.put found ⟨kept.sound, by simp, ?_, kept.released⟩ ?_ ?_ (.inl (Int.le_refl _))
  · intro c' eq
    cases eq
    exact refused
  · rw [exact', reserved]
    simp only [Account.bytes, Account.reserved]
    omega
  · omega

theorem Exact.drop (h : Exact quota.toLimits s) (found : s.streams[i]? = some x)
    {c : ClientStream} (refusal : x.refusal = some (.undone c)) :
    Exact quota.toLimits (s.put i { x with stream := c, refusal := none }
      (int64 (s.buffered - x.stream.bytes))) := by
  have mem := List.mem_of_getElem? found
  have kept := h.streams x mem
  have refused := kept.undone c refusal
  have nonneg := kept.sound.bytes_nonneg
  have covered := h.memory_le mem
  have fits := h.fits
  have reserved : x.reserved = 0 := by simp [Account.reserved, refusal]
  have exact' : int64 (s.buffered - x.stream.bytes) = s.buffered - x.stream.bytes := by
    simp only [Account.bytes] at covered
    exact h.int64_sub nonneg (by omega)
  refine h.put found ⟨.failed refused.chunks refused.bytes refused.ended, by simp, by simp,
    fun _ => refused.err⟩ ?_ ?_ (.inl ?_)
  · rw [exact', reserved]
    simp only [Account.bytes, Account.reserved, refused.bytes]
    omega
  · omega
  · simp only [Account.bytes, refused.bytes]
    exact nonneg

theorem Exact.newStream (h : Exact quota.toLimits s) :
    Exact quota.toLimits { s with streams := s.streams ++ [{}] } := by
  have empty : Account.Kept quota.toLimits {} := {
    sound := ⟨rfl, Int.le_of_lt quota.chunks_pos, Int.le_of_lt quota.bytes_pos, by simp⟩
    counted := by simp
    undone := by simp
    released := by simp }
  refine ⟨?_, ?_, h.fits, ?_⟩
  · intro x mem
    rcases List.mem_append.mp mem with old | new
    · exact h.streams x old
    · cases List.mem_singleton.mp new
      exact empty
  · rw [Ledger.total_concat, ← h.balance]
    simp [Account.memory, Account.reserved]
  · rw [Ledger.total_concat]
    simpa [Account.bytes] using h.bound

theorem exact_of_step {t : Accounts} {op : Op} (h : Exact quota.toLimits s)
    (next : s.step wide quota.toLimits op = some t) : Exact quota.toLimits t := by
  cases op with
  | newStream =>
    cases next
    exact h.newStream
  | push i dl =>
    simp only [Accounts.step, Option.ite_none_right_eq_some] at next
    obtain ⟨memory, next⟩ := next
    obtain ⟨x, free, rfl⟩ := Option.map_eq_some_iff.mp next
    exact h.push free memory
  | undo i =>
    obtain ⟨x, found, next⟩ := Option.bind_eq_some_iff.mp next
    split at next
    · next n c refusal =>
      cases next
      exact h.undo found refusal
    · cases next
  | drop i =>
    obtain ⟨x, found, next⟩ := Option.bind_eq_some_iff.mp next
    split at next
    · next c refusal =>
      cases next
      exact h.drop found refusal
    · cases next
  | next i =>
    obtain ⟨x, free, rfl⟩ := Option.map_eq_some_iff.mp next
    obtain ⟨kept, lo⟩ := h.covers free
    have moves := moves_next kept.sound lo h.fits
    exact h.operation free moves fun released => moves.final (kept.released released)
  | fail i err =>
    obtain ⟨x, free, rfl⟩ := Option.map_eq_some_iff.mp next
    obtain ⟨kept, lo⟩ := h.covers free
    have moves := moves_fail kept.sound lo h.fits err
    exact h.operation free moves fun released => moves.final (kept.released released)
  | release i =>
    obtain ⟨x, free, rfl⟩ := Option.map_eq_some_iff.mp next
    obtain ⟨kept, lo⟩ := h.covers free
    refine h.operation free (moves_release kept.sound lo h.fits) fun _ => ?_
    simp only [release, dropBuffer]
    cases x.stream.err <;> simp

theorem exact_of_reachable (reach : (accounts wide quota).Reachable s) :
    Exact quota.toLimits s := by
  apply reach.invariant (Exact quota.toLimits)
  · rintro s rfl
    exact ⟨by simp, rfl, by simp, Int.le_of_lt quota.total_pos⟩
  · intro s op t _ h next
    exact exact_of_step h next

/-! ## A stream that holds nothing -/

/-- The stream failed or was released. -/
structure Account.Gone (x : Account) : Prop where
  free : x.refusal = none
  err : x.stream.err ≠ none
  ended : x.stream.ended = true
  chunks : x.stream.chunks = []
  bytes : x.stream.bytes = 0

theorem Exact.gone {limits : Limits} (h : Exact limits s) (mem : x ∈ s.streams)
    (free : x.refusal = none) (err : x.stream.err ≠ none) : x.Gone := by
  have sound := (h.streams x mem).sound
  obtain ⟨chunks, ended⟩ := sound.empty err
  exact ⟨free, err, ended, chunks, by rw [sound.bytes, chunks, chunkBytes_nil]⟩

/-- Another stream is changed, or this one to one that holds nothing. -/
theorem gone_of_put {j : Nat} (found : s.streams[i]? = some x) (gone : x.Gone)
    (same : j = i → y.Gone) : ∃ z, (s.put j y b).streams[i]? = some z ∧ z.Gone := by
  have lt := (List.getElem?_eq_some_iff.mp found).1
  change ∃ z, (s.streams.set j y)[i]? = some z ∧ z.Gone
  by_cases eq : j = i
  · subst eq
    exact ⟨y, by simp [lt], same rfl⟩
  · exact ⟨x, by rw [List.getElem?_set_ne eq]; exact found, gone⟩

theorem gone_of_step {t : Accounts} {op : Op}
    (gone : ∃ x, s.streams[i]? = some x ∧ x.Gone)
    (next : s.step wide quota.toLimits op = some t) : ∃ x, t.streams[i]? = some x ∧ x.Gone := by
  obtain ⟨x, found, gone⟩ := gone
  have own : ∀ {j y}, s.unlocked j = some y → j = i → y = x := by
    rintro j y free rfl
    exact Option.some.inj ((unlocked_eq_some.mp free).1.symm.trans found)
  have calm : ∀ {j y r}, s.streams[j]? = some y → y.refusal = some r → j ≠ i := by
    rintro j y r at' refusal rfl
    cases at'.symm.trans found
    simp [gone.free] at refusal
  cases op with
  | newStream =>
    cases next
    refine ⟨x, ?_, gone⟩
    rw [List.getElem?_append_left (List.getElem?_eq_some_iff.mp found).1]
    exact found
  | push j dl =>
    simp only [Accounts.step, Option.ite_none_right_eq_some] at next
    obtain ⟨_, y, free, rfl⟩ := And.imp_right Option.map_eq_some_iff.mp next
    unfold Accounts.pushStep
    simp only
    split
    · next full =>
      refine gone_of_put found gone fun eq => ?_
      cases own free eq
      simp [due, gone.ended] at full
    · refine gone_of_put found gone fun eq => ?_
      cases own free eq
      simp only [push, gone.ended, if_true]
      exact gone
  | undo j =>
    obtain ⟨y, at', next⟩ := Option.bind_eq_some_iff.mp next
    split at next
    · next refusal =>
      cases next
      exact gone_of_put found gone fun eq => absurd eq (calm at' refusal)
    · cases next
  | drop j =>
    obtain ⟨y, at', next⟩ := Option.bind_eq_some_iff.mp next
    split at next
    · next refusal =>
      cases next
      exact gone_of_put found gone fun eq => absurd eq (calm at' refusal)
    · cases next
  | next j =>
    obtain ⟨y, free, rfl⟩ := Option.map_eq_some_iff.mp next
    refine gone_of_put found gone fun eq => ?_
    cases own free eq
    obtain ⟨err, failed⟩ := Option.ne_none_iff_exists'.mp gone.err
    simp only [Stream.next, failed]
    exact gone
  | fail j err =>
    obtain ⟨y, free, rfl⟩ := Option.map_eq_some_iff.mp next
    refine gone_of_put found gone fun eq => ?_
    cases own free eq
    have late : fail x.stream s.buffered err = (x.stream, s.buffered) := if_pos gone.ended
    change Account.Gone ⟨(fail x.stream s.buffered err).1, x.refusal, x.released⟩
    rw [late]
    exact gone
  | release j =>
    obtain ⟨y, free, rfl⟩ := Option.map_eq_some_iff.mp next
    refine gone_of_put found gone fun eq => ?_
    cases own free eq
    refine ⟨gone.free, ?_, rfl, rfl, rfl⟩
    change (x.stream.err <|> some .released) ≠ none
    cases x.stream.err <;> simp

/-- A refused push that is not interrupted is `push`. -/
theorem push_uninterrupted {dl : Delivery} (free : s.unlocked i = some x)
    (memory : Ledger.total Account.memory s.streams + dl.body.length < 2 ^ 63)
    (full : (due wide x.stream dl &&
      refuses quota.toLimits x.stream s.buffered dl.body.length) = true) :
    (accounts wide quota).run [.push i dl, .undo i, .drop i] s =
      some (s.put i { x with stream := (push wide quota.toLimits x.stream s.buffered dl).1 }
        (push wide quota.toLimits x.stream s.buffered dl).2) := by
  obtain ⟨found, open'⟩ := unlocked_eq_some.mp free
  have lt := (List.getElem?_eq_some_iff.mp found).1
  obtain ⟨needs, full'⟩ := Bool.and_eq_true_iff.mp full
  obtain ⟨seq, eq⟩ := @push_due wide quota.toLimits x.stream s.buffered dl needs
  have answer : (push wide quota.toLimits x.stream s.buffered dl).2 =
      int64 (int64 (int64 (s.buffered + dl.body.length) - dl.body.length) - x.stream.bytes) := by
    rw [eq, @takeFrame_refused _ { x.stream with lastSeq := seq } _ _ _ full']
    rfl
  have first : s.step wide quota.toLimits (.push i dl) = some (s.put i
      { x with refusal := some (.counted dl.body.length
        (push wide quota.toLimits x.stream s.buffered dl).1) }
      (int64 (s.buffered + dl.body.length))) := by
    simp only [Accounts.step, Accounts.pushStep, if_pos memory, free, Option.map_some, if_pos full]
  rw [answer]
  simp only [System.run, accounts, first]
  simp [Accounts.step, Accounts.put, lt, open']

/-! ## Runs -/

/-- No operation is in the middle. -/
def Accounts.Quiet (s : Accounts) : Prop := ∀ x ∈ s.streams, x.refusal = none

theorem Exact.quiet {limits : Limits} (h : Exact limits s) (quiet : s.Quiet) :
    s.buffered = Ledger.total Account.bytes s.streams := by
  rw [h.balance]
  apply Ledger.total_congr
  intro x mem
  rw [(h.streams x mem).memory_eq, Account.reserved, quiet x mem]
  exact Int.add_zero _

end

/-- In every run of any number of streams, each field and the counter are exact and within
their limits. What failed or was released holds nothing from then on, whatever is pushed. -/
theorem buffers_exact (wide : Int) (quota : Quota) {s : Accounts}
    (reach : (accounts wide quota).Reachable s) :
    (∀ x ∈ s.streams, x.stream.bytes = chunkBytes x.stream.chunks ∧
      x.stream.chunks.length ≤ quota.chunks ∧ x.stream.bytes ≤ quota.bytes) ∧
    Ledger.total Account.bytes s.streams ≤ quota.total ∧
    (s.Quiet → s.buffered = Ledger.total Account.bytes s.streams) ∧
    (∀ x ∈ s.streams, x.released = true → x.stream.err ≠ none) ∧
    (∀ (i : Nat) (x : Account), s.streams[i]? = some x → x.refusal = none → x.stream.err ≠ none →
      ∀ ops t, (accounts wide quota).run ops s = some t → ∃ y : Account, t.streams[i]? = some y ∧
        y.stream.err ≠ none ∧ y.stream.chunks = [] ∧ y.stream.bytes = 0) ∧
    (s.Quiet → (∀ x ∈ s.streams, x.released = true) → s.buffered = 0) := by
  have h := exact_of_reachable reach
  refine ⟨?_, h.bound, h.quiet, fun x mem => (h.streams x mem).released, ?_, ?_⟩
  · intro x mem
    have sound := (h.streams x mem).sound
    exact ⟨sound.bytes, sound.count, sound.size⟩
  · intro i x found free err ops t run
    have gone := h.gone (List.mem_of_getElem? found) free err
    obtain ⟨y, found, gone⟩ := System.run_keeps
      (P := fun s : Accounts => ∃ x, s.streams[i]? = some x ∧ x.Gone)
      (fun _ _ _ gone next => gone_of_step gone next) ⟨x, found, gone⟩ run
    exact ⟨y, found, gone.err, gone.chunks, gone.bytes⟩
  · intro quiet released
    rw [h.quiet quiet]
    apply Ledger.total_eq_zero
    intro x mem
    exact (h.gone mem (quiet x mem) ((h.streams x mem).released (released x mem))).bytes

/-- The second stream is refused while the first is drained and released. -/
theorem buffers_exact_refused :
    let quota : Quota := ⟨⟨4, 64, 4⟩, by decide, by decide, by decide, by decide⟩
    ∃ s : Accounts, (accounts 0 quota).Reachable s ∧ s.streams.length = 2 ∧ s.buffered = 0 := by
  intro quota
  have ran : ((accounts 0 quota).run
      [.newStream, .newStream, .push 0 { body := lit "ab" }, .push 1 { body := lit "abc" },
        .next 0, .undo 1, .release 0, .drop 1, .release 1] {}).map
        (fun s => s.streams.map fun x => (x.refusal.isNone, x.released)) =
      some [(true, true), (true, true)] := by
    decide +kernel
  obtain ⟨s, run, eq⟩ := Option.map_eq_some_iff.mp ran
  have reach : (accounts 0 quota).Reachable s := System.Reachable.run (.init rfl) run
  have both : ∀ x ∈ s.streams, x.refusal.isNone = true ∧ x.released = true := by
    intro x mem
    have := List.mem_map_of_mem (f := fun x : Account => (x.refusal.isNone, x.released)) mem
    rw [eq] at this
    simpa using this
  refine ⟨s, reach, by simpa using congrArg List.length eq, ?_⟩
  refine (buffers_exact 0 quota reach).2.2.2.2.2 ?_ fun x mem => (both x mem).2
  intro x mem
  exact Option.isNone_iff_eq_none.mp (both x mem).1

end Protobus.Stream
