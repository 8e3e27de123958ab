import Protobus.Library.Protowire
import Mathlib.Algebra.Order.Ring.Int
import Mathlib.Tactic.Ring

/-!
# A reference wire format

The protobuf encoding written out: base-128 varints of at most ten bytes, tags, length
prefixes, and the skipping of a field value of any wire type, nested groups included. It is
an instance of `Protowire`, and `reference_lawful` shows that the laws can be met.
-/
namespace Protobus.Library.Protowire
namespace Reference

/-- What can be wrong with a buffer. -/
inductive Code
  | truncated | fieldNumber | overflow | reserved | endGroup | recursionDepth

def Code.value : Code → Int
  | truncated => -1
  | fieldNumber => -2
  | overflow => -3
  | reserved => -4
  | endGroup => -5
  | recursionDepth => -6

theorem Code.value_neg (c : Code) : c.value < 0 := by cases c <;> decide

def varintLoop : Nat → Nat → Bytes
  | 0, _ => []
  | k + 1, n =>
    if n < 128 then [UInt8.ofNat n] else UInt8.ofNat (n % 128 + 128) :: varintLoop k (n / 128)

def varint (n : Nat) : Bytes := varintLoop 10 n

/-- The value and the length of a varint of at most `k` bytes. Ten bytes carry 70 bits, so
the tenth may hold only the last bit of a 64-bit integer. -/
def readVarint : Nat → Bytes → Except Code (Nat × Nat)
  | 0, _ => .error .overflow
  | _ + 1, [] => .error .truncated
  | k + 1, b :: rest =>
    if k = 0 then if b.toNat < 2 then .ok (b.toNat, 1) else .error .overflow
    else if b.toNat < 128 then .ok (b.toNat, 1)
    else match readVarint k rest with
      | .error e => .error e
      | .ok (v, n) => .ok (b.toNat - 128 + 128 * v, n + 1)

def tag (num typ : Nat) : Bytes := varint ((num * 8 + typ % 8) % 2 ^ 64)

def readTag (b : Bytes) : Except Code (Nat × Nat × Nat) :=
  match readVarint 10 b with
  | .error e => .error e
  | .ok (x, n) =>
    if x / 8 < 1 ∨ 2 ^ 31 ≤ x / 8 then .error .fieldNumber else .ok (x / 8, x % 8, n)

def bytes (v : Bytes) : Bytes := varint (v.length % 2 ^ 64) ++ v

def readBytes (b : Bytes) : Except Code (Bytes × Nat) :=
  match readVarint 10 b with
  | .error e => .error e
  | .ok (m, n) =>
    if (b.drop n).length < m then .error .truncated else .ok ((b.drop n).take m, n + m)

mutual
/-- The length of a field value. `fuel` bounds the recursion and `depth` the nesting of
groups. -/
def skipValue : Nat → Nat → Nat → Nat → Bytes → Except Code Nat
  | 0, _, _, _, _ => .error .truncated
  | fuel + 1, depth, num, typ, b =>
    match typ with
    | 0 => (readVarint 10 b).map Prod.snd
    | 1 => if b.length < 8 then .error .truncated else .ok 8
    | 2 => (readBytes b).map Prod.snd
    | 3 => if depth = 0 then .error .recursionDepth else skipGroup fuel (depth - 1) num b
    | 4 => .error .endGroup
    | 5 => if b.length < 4 then .error .truncated else .ok 4
    | _ => .error .reserved
termination_by structural fuel => fuel

/-- The length of a group's content up to and including its end tag. -/
def skipGroup : Nat → Nat → Nat → Bytes → Except Code Nat
  | 0, _, _, _ => .error .truncated
  | fuel + 1, depth, num, b =>
    match readTag b with
    | .error e => .error e
    | .ok (num', typ, n) =>
      if typ = 4 then if num' = num then .ok n else .error .endGroup
      else match skipValue fuel depth num' typ (b.drop n) with
        | .error e => .error e
        | .ok m => match skipGroup fuel depth num ((b.drop n).drop m) with
          | .error e => .error e
          | .ok k => .ok (n + m + k)
termination_by structural fuel => fuel
end

/-! ## Varints -/

theorem readVarint_varintLoop (k n : Nat) (rest : Bytes) (hn : n < 2 * 128 ^ k) :
    readVarint (k + 1) (varintLoop (k + 1) n ++ rest) =
      .ok (n, (varintLoop (k + 1) n).length) := by
  induction k generalizing n with
  | zero =>
    have hn : n < 2 := by simpa using hn
    have small : n < 128 := by omega
    have value : (UInt8.ofNat n).toNat = n := by simp; omega
    simp [varintLoop, readVarint, small, value, hn]
  | succ k ih =>
    rw [varintLoop]
    by_cases small : n < 128
    · have value : (UInt8.ofNat n).toNat = n := by simp; omega
      simp [small, readVarint, value]
    · have value : (UInt8.ofNat (n % 128 + 128)).toNat = n % 128 + 128 := by simp; omega
      have higher := ih (n / 128) (by rw [pow_succ] at hn; omega)
      have sum : n % 128 + 128 * (n / 128) = n := Nat.mod_add_div n 128
      have more : ¬n % 128 + 128 < 128 := by omega
      simp only [small, ↓reduceIte, List.cons_append, readVarint, value, more, higher,
        Nat.add_sub_cancel, sum, List.length_cons, Nat.add_eq_zero_iff, one_ne_zero, and_false]

theorem readVarint_varint (n : Nat) (rest : Bytes) (hn : n < 2 ^ 64) :
    readVarint 10 (varint n ++ rest) = .ok (n, (varint n).length) :=
  readVarint_varintLoop 9 n rest (by norm_num; omega)

theorem readVarint_local (k : Nat) (b : Bytes) (v n : Nat) (ok : readVarint k b = .ok (v, n)) :
    0 < n ∧ n ≤ b.length ∧ ∀ rest, readVarint k (b.take n ++ rest) = .ok (v, n) := by
  induction k generalizing b v n with
  | zero => simp [readVarint] at ok
  | succ k ih =>
    cases b with
    | nil => simp [readVarint] at ok
    | cons x b =>
      rw [readVarint] at ok
      split_ifs at ok with hk h2 h128
      · obtain ⟨rfl, rfl⟩ : x.toNat = v ∧ 1 = n := by simpa using ok
        simp [readVarint, hk, h2]
      · obtain ⟨rfl, rfl⟩ : x.toNat = v ∧ 1 = n := by simpa using ok
        simp [readVarint, hk, h128]
      · cases hr : readVarint k b with
        | error e => simp [hr] at ok
        | ok p =>
          obtain ⟨v', n'⟩ := p
          obtain ⟨rfl, rfl⟩ : x.toNat - 128 + 128 * v' = v ∧ n' + 1 = n := by simpa [hr] using ok
          obtain ⟨-, le, stays⟩ := ih b v' n' hr
          refine ⟨by omega, by simpa using le, fun rest => ?_⟩
          simp [readVarint, hk, h128, stays]

/-! ## Tags and byte strings -/

theorem readTag_local (b : Bytes) (num typ n : Nat) (ok : readTag b = .ok (num, typ, n)) :
    0 < n ∧ n ≤ b.length ∧ 1 ≤ num ∧ ∀ rest, readTag (b.take n ++ rest) = .ok (num, typ, n) := by
  unfold readTag at ok
  cases hr : readVarint 10 b with
  | error e => simp [hr] at ok
  | ok p =>
    obtain ⟨x, m⟩ := p
    simp only [hr] at ok
    split_ifs at ok with bad
    obtain ⟨rfl, rfl, rfl⟩ : x / 8 = num ∧ x % 8 = typ ∧ m = n := by simpa using ok
    obtain ⟨pos, le, stays⟩ := readVarint_local 10 b x m hr
    refine ⟨pos, le, by omega, fun rest => ?_⟩
    simp only [readTag, stays rest, bad, ↓reduceIte]

theorem readTag_tag (num typ : Nat) (rest : Bytes) (low : 1 ≤ num) (high : num ≤ maxValidNumber)
    (ht : typ < 8) : readTag (tag num typ ++ rest) = .ok (num, typ, (tag num typ).length) := by
  unfold maxValidNumber at high
  have value : (num * 8 + typ % 8) % 2 ^ 64 = num * 8 + typ := by omega
  have read := readVarint_varint (num * 8 + typ) rest (by omega)
  have number : (num * 8 + typ) / 8 = num := by omega
  have wire : (num * 8 + typ) % 8 = typ := by omega
  have good : ¬(num < 1 ∨ 2 ^ 31 ≤ num) := by omega
  simp only [readTag, tag, value, read, number, wire, good, ↓reduceIte]

theorem readBytes_local (b v : Bytes) (n : Nat) (ok : readBytes b = .ok (v, n)) :
    n ≤ b.length ∧ ∀ rest, readBytes (b.take n ++ rest) = .ok (v, n) := by
  unfold readBytes at ok
  cases hr : readVarint 10 b with
  | error e => simp [hr] at ok
  | ok p =>
    obtain ⟨m, j⟩ := p
    simp only [hr] at ok
    split_ifs at ok with short
    obtain ⟨rfl, rfl⟩ : (b.drop j).take m = v ∧ j + m = n := by simpa using ok
    obtain ⟨-, le, stays⟩ := readVarint_local 10 b m j hr
    have long : m ≤ (b.drop j).length := not_lt.mp short
    refine ⟨by simp only [List.length_drop] at long; omega, fun rest => ?_⟩
    have read := stays ((b.drop j).take m ++ rest)
    have split : b.take (j + m) ++ rest = b.take j ++ ((b.drop j).take m ++ rest) := by
      rw [List.take_add, List.append_assoc]
    have behind : (b.take j ++ ((b.drop j).take m ++ rest)).drop j = (b.drop j).take m ++ rest :=
      List.drop_left' (by simp only [List.length_take]; omega)
    have enough : ¬((b.drop j).take m ++ rest).length < m := by
      simp only [List.length_append, List.length_take]
      omega
    have front : ((b.drop j).take m ++ rest).take m = (b.drop j).take m :=
      List.take_left' (by simp only [List.length_take]; omega)
    simp only [readBytes, split, read, behind, enough, ↓reduceIte, front]

theorem readBytes_bytes (v rest : Bytes) (hv : v.length < 2 ^ 64) :
    readBytes (bytes v ++ rest) = .ok (v, (bytes v).length) := by
  have len : v.length % 2 ^ 64 = v.length := Nat.mod_eq_of_lt hv
  have read := readVarint_varint v.length (v ++ rest) hv
  have enough : ¬(v ++ rest).length < v.length := by simp
  simp only [readBytes, bytes, len, List.append_assoc, read, List.drop_left, enough, ↓reduceIte,
    List.take_left]
  rw [List.length_append]

/-! ## Skipping a value -/

theorem take_add_append (b rest : Bytes) (i j : Nat) :
    b.take (i + j) ++ rest = b.take i ++ ((b.drop i).take j ++ rest) := by
  rw [List.take_add, List.append_assoc]

theorem skipValue_local_of_read {α : Type} {f : Bytes → Except Code (α × Nat)} {b : Bytes} {n : Nat}
    (stay : ∀ v m, f b = .ok (v, m) →
      m ≤ b.length ∧ ∀ rest, f (b.take m ++ rest) = .ok (v, m))
    (ok : (f b).map Prod.snd = .ok n) :
    n ≤ b.length ∧ ∀ rest, (f (b.take n ++ rest)).map Prod.snd = .ok n := by
  cases hf : f b with
  | error e => simp [hf, Except.map] at ok
  | ok p =>
    obtain ⟨v, m⟩ := p
    obtain rfl : m = n := by simpa [hf, Except.map] using ok
    obtain ⟨le, stays⟩ := stay v m hf
    exact ⟨le, fun rest => by rw [stays rest]; rfl⟩

theorem fixed_local {b : Bytes} {k n : Nat}
    (ok : (if b.length < k then Except.error Code.truncated else .ok k) = .ok n) :
    n ≤ b.length ∧ ∀ rest : Bytes,
      (if (b.take n ++ rest).length < k then Except.error Code.truncated else .ok k) = .ok n := by
  split_ifs at ok with short
  obtain rfl : k = n := by simpa using ok
  have long := not_lt.mp short
  refine ⟨long, fun rest => ?_⟩
  have still : ¬(b.take k ++ rest).length < k := by
    simp only [List.length_append, List.length_take]
    omega
  simp only [still, ↓reduceIte]

/-- Skipping looks only at the bytes it takes, and twice as much fuel as bytes is enough.
The induction is on the fuel of the first run; each two levels of recursion take a tag. -/
theorem skip_local (fuel : Nat) :
    (∀ depth num typ b n, skipValue fuel depth num typ b = .ok n → n ≤ b.length ∧
      ∀ more rest, 2 * n < more → skipValue more depth num typ (b.take n ++ rest) = .ok n) ∧
    (∀ depth num b n, skipGroup fuel depth num b = .ok n → 0 < n ∧ n ≤ b.length ∧
      ∀ more rest, 2 * n ≤ more → skipGroup more depth num (b.take n ++ rest) = .ok n) := by
  induction fuel with
  | zero => simp [skipValue, skipGroup]
  | succ fuel ih =>
    obtain ⟨ihValue, ihGroup⟩ := ih
    constructor
    · intro depth num typ b n ok
      have lift (le : n ≤ b.length) (stays : ∀ more rest, 2 * n ≤ more →
          skipValue (more + 1) depth num typ (b.take n ++ rest) = .ok n) :
          n ≤ b.length ∧ ∀ more rest, 2 * n < more →
            skipValue more depth num typ (b.take n ++ rest) = .ok n := by
        refine ⟨le, fun more rest hm => ?_⟩
        obtain ⟨more, rfl⟩ : ∃ j, more = j + 1 := ⟨more - 1, by omega⟩
        exact stays more rest (by omega)
      match typ with
      | 0 =>
        obtain ⟨le, stays⟩ := skipValue_local_of_read
          (fun v m hv => (readVarint_local 10 b v m hv).2) (by simpa only [skipValue] using ok)
        exact lift le fun _ rest _ => by simpa only [skipValue] using stays rest
      | 1 =>
        obtain ⟨le, stays⟩ := fixed_local (by simpa only [skipValue] using ok)
        exact lift le fun _ rest _ => by simpa only [skipValue] using stays rest
      | 2 =>
        obtain ⟨le, stays⟩ := skipValue_local_of_read (readBytes_local b)
          (by simpa only [skipValue] using ok)
        exact lift le fun _ rest _ => by simpa only [skipValue] using stays rest
      | 3 =>
        simp only [skipValue] at ok
        split_ifs at ok with hd
        obtain ⟨-, le, stays⟩ := ihGroup (depth - 1) num b n ok
        exact lift le fun more rest hm => by
          simp only [skipValue, hd, ↓reduceIte]
          exact stays more rest hm
      | 4 => simp [skipValue] at ok
      | 5 =>
        obtain ⟨le, stays⟩ := fixed_local (by simpa only [skipValue] using ok)
        exact lift le fun _ rest _ => by simpa only [skipValue] using stays rest
      | _ + 6 => simp [skipValue] at ok
    · intro depth num b n ok
      rw [skipGroup] at ok
      cases ht : readTag b with
      | error e => simp [ht] at ok
      | ok p =>
        obtain ⟨num', typ, t⟩ := p
        obtain ⟨pos, le, -, stays⟩ := readTag_local b num' typ t ht
        simp only [ht] at ok
        split_ifs at ok with hend hnum
        · obtain rfl : t = n := by simpa using ok
          refine ⟨pos, le, fun more rest hm => ?_⟩
          obtain ⟨more, rfl⟩ : ∃ j, more = j + 1 := ⟨more - 1, by omega⟩
          simp only [skipGroup, stays rest, hend, hnum, ↓reduceIte]
        · cases hv : skipValue fuel depth num' typ (b.drop t) with
          | error e => simp [hv] at ok
          | ok m =>
            obtain ⟨leV, staysV⟩ := ihValue depth num' typ (b.drop t) m hv
            simp only [hv] at ok
            cases hg : skipGroup fuel depth num ((b.drop t).drop m) with
            | error e => simp only [hg] at ok; cases ok
            | ok k =>
              obtain ⟨posG, leG, staysG⟩ := ihGroup depth num ((b.drop t).drop m) k hg
              obtain rfl : t + m + k = n := by simp only [hg] at ok; simpa using ok
              simp only [List.length_drop] at leV leG
              refine ⟨by omega, by omega, fun more rest hm => ?_⟩
              obtain ⟨more, rfl⟩ : ∃ j, more = j + 1 := ⟨more - 1, by omega⟩
              have tagged := stays ((b.drop t).take (m + k) ++ rest)
              have valued := staysV more (((b.drop t).drop m).take k ++ rest) (by omega)
              have closed := staysG more rest (by omega)
              rw [Nat.add_assoc, take_add_append, skipGroup]
              simp only [tagged, hend, ↓reduceIte]
              rw [List.drop_left' (by simp only [List.length_take]; omega), take_add_append]
              simp only [valued]
              rw [List.drop_left' (by simp only [List.length_take, List.length_drop]; omega)]
              simp only [closed, Nat.add_assoc]

/-! ## The instance -/

def parseError (code : Int) : Bytes :=
  if code = Code.truncated.value then lit "unexpected EOF"
  else if code = Code.fieldNumber.value then lit "proto: invalid field number"
  else if code = Code.overflow.value then lit "proto: variable length integer overflow"
  else if code = Code.reserved.value then lit "proto: cannot parse reserved wire type"
  else if code = Code.endGroup.value then lit "proto: mismatching end group marker"
  else lit "proto: parse error"

def consumeTag (b : Bytes) : Nat × Nat × Int :=
  match readTag b with
  | .error e => (0, 0, e.value)
  | .ok (num, typ, n) => (num, typ, (n : Int))

def consumeBytes (b : Bytes) : Bytes × Int :=
  match readBytes b with
  | .error e => ([], e.value)
  | .ok (v, n) => (v, (n : Int))

def consumeFieldValue (num typ : Nat) (b : Bytes) : Int :=
  match skipValue (2 * b.length + 1) 10001 num typ b with
  | .error e => e.value
  | .ok n => (n : Int)

theorem consumeTag_ok (b : Bytes) (num typ n : Nat) :
    consumeTag b = (num, typ, (n : Int)) ↔ readTag b = .ok (num, typ, n) := by
  unfold consumeTag
  cases readTag b with
  | error e =>
    have := e.value_neg
    simp only [Prod.mk.injEq, reduceCtorEq, iff_false]
    omega
  | ok p => simp [Prod.ext_iff]

theorem consumeBytes_ok (b v : Bytes) (n : Nat) :
    consumeBytes b = (v, (n : Int)) ↔ readBytes b = .ok (v, n) := by
  unfold consumeBytes
  cases readBytes b with
  | error e =>
    have := e.value_neg
    simp only [Prod.mk.injEq, reduceCtorEq, iff_false]
    omega
  | ok p => simp [Prod.ext_iff]

theorem consumeFieldValue_ok (num typ : Nat) (b : Bytes) (n : Nat) :
    consumeFieldValue num typ b = (n : Int) ↔
      skipValue (2 * b.length + 1) 10001 num typ b = .ok n := by
  unfold consumeFieldValue
  cases skipValue (2 * b.length + 1) 10001 num typ b with
  | error e =>
    have := e.value_neg
    simp only [reduceCtorEq, iff_false]
    omega
  | ok p => simp

/-- The three low bits of a tag never change its length. -/
theorem length_varintLoop_congr (k n m : Nat) (same : n / 8 = m / 8) :
    (varintLoop k n).length = (varintLoop k m).length := by
  cases k with
  | zero => rfl
  | succ k =>
    have high : n / 128 = m / 128 := by omega
    have small : n < 128 ↔ m < 128 := by omega
    rw [varintLoop, varintLoop, high]
    split_ifs <;> simp_all

end Reference

def reference : Protowire where
  varint := Reference.varint
  tag := Reference.tag
  bytes := Reference.bytes
  sizeTag num := (Reference.tag num 0).length
  sizeBytes n := (Reference.varint (n % 2 ^ 64)).length + n
  consumeTag := Reference.consumeTag
  consumeBytes := Reference.consumeBytes
  consumeFieldValue := Reference.consumeFieldValue
  parseError := Reference.parseError

open Reference in
theorem reference_lawful : reference.Lawful where
  bytes_eq _ := rfl
  sizeBytes_eq _ := (List.length_append).symm
  sizeTag_eq num typ low high ht := by
    unfold maxValidNumber at high
    exact length_varintLoop_congr _ _ _ (by omega)
  consumeTag_tag num typ rest low high ht :=
    (consumeTag_ok _ _ _ _).2 (readTag_tag num typ rest low high ht)
  consumeBytes_bytes v rest hv := (consumeBytes_ok _ _ _).2 (readBytes_bytes v rest hv)
  consumeTag_local b num typ n ok := by
    obtain ⟨pos, le, low, stays⟩ := readTag_local b num typ n ((consumeTag_ok _ _ _ _).1 ok)
    exact ⟨pos, le, low, fun rest => (consumeTag_ok _ _ _ _).2 (stays rest)⟩
  consumeBytes_local b v n ok := by
    obtain ⟨le, stays⟩ := readBytes_local b v n ((consumeBytes_ok _ _ _).1 ok)
    exact ⟨le, fun rest => (consumeBytes_ok _ _ _).2 (stays rest)⟩
  consumeFieldValue_local num typ b n ok := by
    obtain ⟨le, stays⟩ := (skip_local _).1 _ _ _ _ _ ((consumeFieldValue_ok _ _ _ _).1 ok)
    refine ⟨le, fun rest => (consumeFieldValue_ok _ _ _ _).2 (stays _ rest ?_)⟩
    simp only [List.length_append, List.length_take]
    omega
  consumeFieldValue_bytes num b := by
    change Reference.consumeFieldValue num 2 b = (Reference.consumeBytes b).2
    simp only [Reference.consumeFieldValue, skipValue, Reference.consumeBytes]
    cases readBytes b <;> rfl

end Protobus.Library.Protowire
