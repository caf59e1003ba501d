/-
# `Muduo.Buffer.Ints` — AppendIntN, PeekIntN, ReadIntN, PrependIntN

Integers of one, two, four and eight bytes go into a buffer in network order.
The conversion is that of Boost.Endian, and how an integer lies in memory is up
to the host; both are a parameter (`Endian`), of which is assumed that an
integer converted to big endian lies in memory with its most significant byte
first, and that the conversion back undoes it (`Endian.Lawful`).

What is written by type is read by type: appended integers in the order they
went in, prepended ones in the opposite order (`typed_reads_undo_writes`).
-/
import Muduo.Buffer.Refine
import Muduo.Lib.BigEndian

namespace Muduo

open Runs Region

/-! ## Integers in memory -/

/-- How integers of `n` bytes lie in memory on a host, and `boost::endian` there. -/
structure Endian where
  /-- The bytes of the object. -/
  bytes (n : ℕ) (x : BitVec (8 * n)) : List Byte
  /-- `memcpy` to an object. -/
  ofBytes (n : ℕ) (bs : List Byte) : BitVec (8 * n)
  nativeToBig (n : ℕ) (x : BitVec (8 * n)) : BitVec (8 * n)
  bigToNative (n : ℕ) (x : BitVec (8 * n)) : BitVec (8 * n)

/-- What is documented of the two conversions. -/
structure Endian.Lawful (e : Endian) : Prop where
  ofBytes_bytes : ∀ n (x : BitVec (8 * n)), e.ofBytes n (e.bytes n x) = x
  bytes_nativeToBig : ∀ n (x : BitVec (8 * n)),
    e.bytes n (e.nativeToBig n x) = BigEndian.ofInt n x.toInt
  bigToNative_nativeToBig : ∀ n (x : BitVec (8 * n)), e.bigToNative n (e.nativeToBig n x) = x

/-- The hosts that have the least significant byte first, or last: the conversions turn the
bytes round, or do nothing. -/
def Endian.host (little : Bool) : Endian :=
  let turn (bs : List Byte) : List Byte := if little then bs.reverse else bs
  let bytes (n : ℕ) (x : BitVec (8 * n)) := turn (BigEndian.bytes n x.toNat)
  let ofBytes (n : ℕ) (bs : List Byte) := BitVec.ofNat (8 * n) (BigEndian.value (turn bs))
  let swap (n : ℕ) (x : BitVec (8 * n)) := BitVec.ofNat (8 * n) (BigEndian.value (bytes n x))
  { bytes, ofBytes, nativeToBig := swap, bigToNative := swap }

theorem Endian.host_lawful (little : Bool) : (host little).Lawful := by
  let turn (bs : List Byte) : List Byte := if little then bs.reverse else bs
  have hturn : ∀ bs, turn (turn bs) = bs := by
    intro bs
    cases little
    · rfl
    · exact List.reverse_reverse bs
  have hlen : ∀ bs, (turn bs).length = bs.length := by
    intro bs
    cases little
    · rfl
    · exact List.length_reverse
  have hread : ∀ n (x : BitVec (8 * n)),
      BitVec.ofNat (8 * n) (BigEndian.value (BigEndian.bytes n x.toNat)) = x := by
    intro n x
    rw [BigEndian.value_bytes_of_lt (BigEndian.toNat_lt x), BitVec.ofNat_toNat, BitVec.setWidth_eq]
  -- the bytes of a number that was read from bytes
  have hback : ∀ n (x : BitVec (8 * n)), BigEndian.bytes n
      (BitVec.ofNat (8 * n) (BigEndian.value (turn (BigEndian.bytes n x.toNat)))).toNat =
        turn (BigEndian.bytes n x.toNat) := by
    intro n x
    have hn : (turn (BigEndian.bytes n x.toNat)).length = n := by
      rw [hlen, BigEndian.length_bytes]
    have hlt := BigEndian.value_lt (turn (BigEndian.bytes n x.toNat))
    have hval := BigEndian.bytes_value (turn (BigEndian.bytes n x.toNat))
    rw [hn] at hlt hval
    rw [BitVec.toNat_ofNat, Nat.pow_mul, Nat.mod_eq_of_lt hlt, hval]
  refine ⟨fun n x => ?_, fun n x => ?_, fun n x => ?_⟩
  · show BitVec.ofNat (8 * n) (BigEndian.value (turn (turn (BigEndian.bytes n x.toNat)))) = x
    rw [hturn, hread]
  · show turn (BigEndian.bytes n (BitVec.ofNat (8 * n)
      (BigEndian.value (turn (BigEndian.bytes n x.toNat)))).toNat) = _
    rw [hback, hturn, BigEndian.ofInt_toInt]
  · show BitVec.ofNat (8 * n) (BigEndian.value (turn (BigEndian.bytes n (BitVec.ofNat (8 * n)
      (BigEndian.value (turn (BigEndian.bytes n x.toNat)))).toNat))) = x
    rw [hback, hturn, hread]

/-! ## The functions -/

namespace Buffer

/-- `AppendInt16`, `AppendInt32`, `AppendInt64`, by their size. -/
def appendInt (e : Endian) (n : ℕ) (b : Buffer) (x : BitVec (8 * n)) : Option Buffer :=
  let be := e.nativeToBig n x
  b.append (e.bytes n be)

def appendInt64 (e : Endian) (b : Buffer) (x : BitVec 64) : Option Buffer := appendInt e 8 b x
def appendInt32 (e : Endian) (b : Buffer) (x : BitVec 32) : Option Buffer := appendInt e 4 b x
def appendInt16 (e : Endian) (b : Buffer) (x : BitVec 16) : Option Buffer := appendInt e 2 b x

/-- `AppendInt8`: nothing is converted. -/
def appendInt8 (b : Buffer) (x : BitVec 8) : Option Buffer := b.append [x]

def peekInt (e : Endian) (n : ℕ) (b : Buffer) : Option (BitVec (8 * n)) := do
  assert (b.readableBytes ≥ n)
  let be ← b.bytesAt b.readerIndex n
  return e.bigToNative n (e.ofBytes n be)

def peekInt64 (e : Endian) (b : Buffer) : Option (BitVec 64) := peekInt e 8 b
def peekInt32 (e : Endian) (b : Buffer) : Option (BitVec 32) := peekInt e 4 b
def peekInt16 (e : Endian) (b : Buffer) : Option (BitVec 16) := peekInt e 2 b

/-- `PeekInt8`: the byte at `Peek()`. -/
def peekInt8 (b : Buffer) : Option (BitVec 8) := do
  assert (b.readableBytes ≥ 1)
  b.buffer[b.readerIndex]?

/-- The functions `ReadIntN`: `PeekIntN`, then `RetrieveIntN`. -/
def readInt {n : ℕ} (b : Buffer) (peek : Option (BitVec (8 * n))) :
    Option (Buffer × BitVec (8 * n)) := do
  let result ← peek
  let b ← b.retrieve n
  return (b, result)

def readInt64 (e : Endian) (b : Buffer) : Option (Buffer × BitVec 64) :=
  readInt (n := 8) b (b.peekInt64 e)
def readInt32 (e : Endian) (b : Buffer) : Option (Buffer × BitVec 32) :=
  readInt (n := 4) b (b.peekInt32 e)
def readInt16 (e : Endian) (b : Buffer) : Option (Buffer × BitVec 16) :=
  readInt (n := 2) b (b.peekInt16 e)
def readInt8 (b : Buffer) : Option (Buffer × BitVec 8) := readInt (n := 1) b b.peekInt8

/-- `PrependInt16`, `PrependInt32`, `PrependInt64`, by their size. -/
def prependInt (e : Endian) (n : ℕ) (b : Buffer) (x : BitVec (8 * n)) : Option Buffer :=
  let be := e.nativeToBig n x
  b.prepend (e.bytes n be)

def prependInt64 (e : Endian) (b : Buffer) (x : BitVec 64) : Option Buffer := prependInt e 8 b x
def prependInt32 (e : Endian) (b : Buffer) (x : BitVec 32) : Option Buffer := prependInt e 4 b x
def prependInt16 (e : Endian) (b : Buffer) (x : BitVec 16) : Option Buffer := prependInt e 2 b x

def prependIntInt8 (b : Buffer) (x : BitVec 8) : Option Buffer := b.prepend [x]

end Buffer

/-! ## Values with their types -/

/-- The types that can be written. -/
inductive IntType
  | int8 | int16 | int32 | int64
deriving DecidableEq, Repr

/-- `sizeof`. -/
def IntType.size : IntType → ℕ
  | .int8 => 1
  | .int16 => 2
  | .int32 => 4
  | .int64 => 8

/-- A value of one of the types. -/
inductive TypedInt
  | int8 (x : BitVec 8) | int16 (x : BitVec 16) | int32 (x : BitVec 32) | int64 (x : BitVec 64)
deriving DecidableEq, Repr

namespace TypedInt

def type : TypedInt → IntType
  | .int8 _ => .int8
  | .int16 _ => .int16
  | .int32 _ => .int32
  | .int64 _ => .int64

/-- The signed integer. -/
def toInt : TypedInt → ℤ
  | .int8 x | .int16 x | .int32 x | .int64 x => x.toInt

/-- The bytes in network order of the two's complement. -/
def bytes (x : TypedInt) : List Byte := BigEndian.ofInt x.type.size x.toInt

@[simp] theorem length_bytes (x : TypedInt) : x.bytes.length = x.type.size :=
  BigEndian.length_ofInt _ _

theorem bytes_int8 (x : BitVec 8) : (int8 x).bytes = [x] := by
  have h : BigEndian.ofInt 1 x.toInt = BigEndian.bytes 1 x.toNat := BigEndian.ofInt_toInt (n := 1) x
  rw [bytes, type, toInt, IntType.size, h, BigEndian.bytes, BigEndian.bytes, BitVec.ofNat_toNat,
    BitVec.setWidth_eq, List.nil_append]

end TypedInt

namespace Buffer

/-- `AppendIntN` by the type of the value. -/
def appendTyped (e : Endian) (b : Buffer) : TypedInt → Option Buffer
  | .int8 x => b.appendInt8 x
  | .int16 x => b.appendInt16 e x
  | .int32 x => b.appendInt32 e x
  | .int64 x => b.appendInt64 e x

/-- `PeekIntN`. -/
def peekTyped (e : Endian) (b : Buffer) : IntType → Option TypedInt
  | .int8 => b.peekInt8.map .int8
  | .int16 => (b.peekInt16 e).map .int16
  | .int32 => (b.peekInt32 e).map .int32
  | .int64 => (b.peekInt64 e).map .int64

/-- `ReadIntN`. -/
def readTyped (e : Endian) (b : Buffer) : IntType → Option (Buffer × TypedInt)
  | .int8 => b.readInt8.map fun r => (r.1, .int8 r.2)
  | .int16 => (b.readInt16 e).map fun r => (r.1, .int16 r.2)
  | .int32 => (b.readInt32 e).map fun r => (r.1, .int32 r.2)
  | .int64 => (b.readInt64 e).map fun r => (r.1, .int64 r.2)

/-- `PrependIntN`, and `PrependIntInt8`. -/
def prependTyped (e : Endian) (b : Buffer) : TypedInt → Option Buffer
  | .int8 x => b.prependIntInt8 x
  | .int16 x => b.prependInt16 e x
  | .int32 x => b.prependInt32 e x
  | .int64 x => b.prependInt64 e x

def appendAll (e : Endian) (b : Buffer) : List TypedInt → Option Buffer
  | [] => some b
  | x :: xs => do
      let b ← b.appendTyped e x
      b.appendAll e xs

def prependAll (e : Endian) (b : Buffer) : List TypedInt → Option Buffer
  | [] => some b
  | x :: xs => do
      let b ← b.prependTyped e x
      b.prependAll e xs

def readAll (e : Endian) (b : Buffer) : List IntType → Option (Buffer × List TypedInt)
  | [] => some (b, [])
  | t :: ts => do
      let (b, x) ← b.readTyped e t
      let (b, xs) ← b.readAll e ts
      return (b, x :: xs)

variable {e : Endian} {b b' : Buffer} {q : List Byte} {n : ℕ}

/-! ## One value -/

theorem appendTyped_eq (he : e.Lawful) (b : Buffer) (x : TypedInt) :
    b.appendTyped e x = b.append x.bytes := by
  cases x with
  | int8 x => rw [appendTyped, appendInt8, TypedInt.bytes_int8]
  | int16 x => exact congrArg b.append (he.bytes_nativeToBig 2 x)
  | int32 x => exact congrArg b.append (he.bytes_nativeToBig 4 x)
  | int64 x => exact congrArg b.append (he.bytes_nativeToBig 8 x)

theorem prependTyped_eq (he : e.Lawful) (b : Buffer) (x : TypedInt) :
    b.prependTyped e x = b.prepend x.bytes := by
  cases x with
  | int8 x => rw [prependTyped, prependIntInt8, TypedInt.bytes_int8]
  | int16 x => exact congrArg b.prepend (he.bytes_nativeToBig 2 x)
  | int32 x => exact congrArg b.prepend (he.bytes_nativeToBig 4 x)
  | int64 x => exact congrArg b.prepend (he.bytes_nativeToBig 8 x)

theorem peekInt_spec (he : e.Lawful) {x : BitVec (8 * n)}
    (h : Holds b (BigEndian.ofInt n x.toInt ++ q)) : b.peekInt e n = some x := by
  have hlen : n ≤ (BigEndian.ofInt n x.toInt ++ q).length := by
    rw [List.length_append, BigEndian.length_ofInt]
    exact Nat.le_add_right _ _
  have htake : (BigEndian.ofInt n x.toInt ++ q).take n = e.bytes n (e.nativeToBig n x) := by
    rw [List.take_left' (BigEndian.length_ofInt n _), he.bytes_nativeToBig]
  have hread : b.readableBytes ≥ n := hlen.trans_eq h.length
  simp only [peekInt, assert_of hread, bytesAt_spec h hlen, htake, he.ofBytes_bytes,
    he.bigToNative_nativeToBig, Option.bind_eq_bind, Option.bind_some]
  rfl

theorem peekInt8_spec {x : BitVec 8} (h : Holds b (x :: q)) : b.peekInt8 = some x := by
  have hlen : 1 ≤ (x :: q).length := Nat.le_add_left _ _
  have hread : b.readableBytes ≥ 1 := hlen.trans_eq h.length
  have hbyte : b.buffer[b.readerIndex]? = some x := by
    have hfirst : b.content[0]? = some x := by
      rw [h.content_eq]
      rfl
    have hlt : b.readerIndex < b.writerIndex := by
      unfold readableBytes at hread
      omega
    rw [content, getElem?_slice] at hfirst
    simpa [hlt] using hfirst
  rw [peekInt8, assert_of hread]
  exact hbyte

theorem peekTyped_spec (he : e.Lawful) {x : TypedInt} (h : Holds b (x.bytes ++ q)) :
    b.peekTyped e x.type = some x := by
  cases x with
  | int8 x =>
      rw [TypedInt.bytes_int8] at h
      exact congrArg (Option.map _) (peekInt8_spec h)
  | int16 x => exact congrArg (Option.map _) (peekInt_spec (n := 2) (x := x) he h)
  | int32 x => exact congrArg (Option.map _) (peekInt_spec (n := 4) (x := x) he h)
  | int64 x => exact congrArg (Option.map _) (peekInt_spec (n := 8) (x := x) he h)

theorem readInt_map (peek : Option (BitVec (8 * n))) (f : BitVec (8 * n) → TypedInt) :
    (b.readInt peek).map (fun r => (r.1, f r.2)) =
      (peek.map f).bind fun x => (b.retrieve n).map fun b' => (b', x) := by
  cases peek with
  | none => rfl
  | some x =>
      unfold readInt
      cases b.retrieve n <;> rfl

/-- `ReadIntN` is `PeekIntN` and then `Retrieve`. -/
theorem readTyped_eq (e : Endian) (b : Buffer) (t : IntType) :
    b.readTyped e t =
      (b.peekTyped e t).bind fun x => (b.retrieve t.size).map fun b' => (b', x) := by
  cases t with
  | int8 => exact readInt_map (n := 1) _ _
  | int16 => exact readInt_map (n := 2) _ _
  | int32 => exact readInt_map (n := 4) _ _
  | int64 => exact readInt_map (n := 8) _ _

theorem readTyped_spec (he : e.Lawful) {x : TypedInt} (h : Holds b (x.bytes ++ q)) :
    ∃ b', b.readTyped e x.type = some (b', x) ∧ Holds b' q := by
  have hlen : x.type.size ≤ (x.bytes ++ q).length := by
    rw [List.length_append, x.length_bytes]
    exact Nat.le_add_right _ _
  obtain ⟨b', e', h'⟩ := retrieve_spec h hlen
  rw [List.drop_left' x.length_bytes] at h'
  refine ⟨b', ?_, h'⟩
  rw [readTyped_eq, peekTyped_spec he h, Option.bind_some, e', Option.map_some]

/-- `PeekIntN` asserts that there are as many bytes. -/
theorem readable_of_peekTyped {t : IntType} {x : TypedInt} (h : b.peekTyped e t = some x) :
    t.size ≤ b.readableBytes := by
  have hn : ∀ {n : ℕ} {x : BitVec (8 * n)}, b.peekInt e n = some x → n ≤ b.readableBytes := by
    intro n x hx
    obtain ⟨_, hread, -⟩ := Option.bind_eq_some_iff.mp hx
    exact assert_eq_some_iff.mp hread
  cases t with
  | int8 =>
      obtain ⟨y, hy, -⟩ := Option.map_eq_some_iff.mp h
      obtain ⟨_, hread, -⟩ := Option.bind_eq_some_iff.mp hy
      exact assert_eq_some_iff.mp hread
  | int16 | int32 | int64 =>
      obtain ⟨y, hy, -⟩ := Option.map_eq_some_iff.mp h
      exact hn hy

/-- With as many bytes there is a value. -/
theorem peekTyped_isSome (h : Holds b q) {t : IntType} (hread : t.size ≤ b.readableBytes) :
    ∃ x, b.peekTyped e t = some x := by
  have hn : ∀ {n : ℕ}, n ≤ b.readableBytes → ∃ x, b.peekInt e n = some x := by
    intro n hn
    refine ⟨e.bigToNative n (e.ofBytes n (q.take n)), ?_⟩
    simp only [peekInt, assert_of (p := b.readableBytes ≥ n) hn,
      bytesAt_spec h (hn.trans_eq h.length.symm), Option.bind_eq_bind, Option.bind_some]
    rfl
  cases t with
  | int8 =>
      have hlt : b.readerIndex < b.buffer.length := by
        have hw := h.writer_le
        unfold readableBytes at hread
        simp only [IntType.size] at hread
        omega
      have hx : b.peekInt8 = some b.buffer[b.readerIndex] := by
        rw [peekInt8, assert_of (p := b.readableBytes ≥ 1) hread]
        exact List.getElem?_eq_getElem hlt
      exact ⟨_, congrArg (Option.map TypedInt.int8) hx⟩
  | int16 | int32 | int64 =>
      obtain ⟨x, hx⟩ := hn hread
      exact ⟨_, congrArg (Option.map _) hx⟩

theorem retrieve_isSome (h : n ≤ b.readableBytes) : ∃ b', b.retrieve n = some b' := by
  unfold retrieve
  rw [assert_of h]
  by_cases hlt : n < b.readableBytes
  · exact ⟨_, if_pos hlt⟩
  · exact ⟨_, if_neg hlt⟩

/-- `PeekIntN` returns what `ReadIntN` would. -/
theorem peekTyped_eq (e : Endian) (b : Buffer) (t : IntType) :
    b.peekTyped e t = (b.readTyped e t).map Prod.snd := by
  rw [readTyped_eq]
  cases h : b.peekTyped e t with
  | none => rfl
  | some x =>
      obtain ⟨b', e'⟩ := retrieve_isSome (readable_of_peekTyped h)
      rw [Option.bind_some, e', Option.map_some, Option.map_some]

theorem prependableBytes_prepend {data : List Byte} (h : b.prepend data = some b') :
    b'.prependableBytes = b.prependableBytes - data.length := by
  obtain ⟨_, -, h⟩ := Option.bind_eq_some_iff.mp h
  unfold copyTo at h
  dsimp only at h
  split at h
  · obtain rfl := Option.some.inj h
    rfl
  · cases h

/-! ## Lists of values -/

variable {xs : List TypedInt}

theorem appendAll_spec (he : e.Lawful) (h : Holds b q) (xs : List TypedInt) :
    ∃ b', b.appendAll e xs = some b' ∧ Holds b' (q ++ xs.flatMap TypedInt.bytes) := by
  induction xs generalizing b q with
  | nil =>
      refine ⟨b, rfl, ?_⟩
      rwa [List.flatMap_nil, List.append_nil]
  | cons x xs ih =>
      obtain ⟨b₁, e₁, h₁⟩ := append_spec h x.bytes
      obtain ⟨b', e', h'⟩ := ih h₁
      refine ⟨b', ?_, ?_⟩
      · rw [appendAll, appendTyped_eq he, e₁]
        exact e'
      · rwa [List.append_assoc, ← List.flatMap_cons] at h'

theorem prependAll_spec (he : e.Lawful) (h : Holds b q)
    (hfit : (xs.map fun x => x.type.size).sum ≤ b.prependableBytes) :
    ∃ b', b.prependAll e xs = some b' ∧ Holds b' (xs.reverse.flatMap TypedInt.bytes ++ q) := by
  induction xs generalizing b q with
  | nil => exact ⟨b, rfl, h⟩
  | cons x xs ih =>
      rw [List.map_cons, List.sum_cons] at hfit
      have hx : x.bytes.length ≤ b.prependableBytes := by
        rw [x.length_bytes]
        omega
      obtain ⟨b₁, e₁, h₁⟩ := prepend_spec h hx
      have hroom := prependableBytes_prepend e₁
      rw [x.length_bytes] at hroom
      obtain ⟨b', e', h'⟩ := ih h₁ (by omega)
      refine ⟨b', ?_, ?_⟩
      · rw [prependAll, prependTyped_eq he, e₁]
        exact e'
      · rw [List.reverse_cons, List.flatMap_append, List.flatMap_singleton, List.append_assoc]
        exact h'

theorem readAll_spec (he : e.Lawful) (h : Holds b (xs.flatMap TypedInt.bytes ++ q)) :
    ∃ b', b.readAll e (xs.map TypedInt.type) = some (b', xs) ∧ Holds b' q := by
  induction xs generalizing b with
  | nil => exact ⟨b, rfl, h⟩
  | cons x xs ih =>
      rw [List.flatMap_cons, List.append_assoc] at h
      obtain ⟨b₁, e₁, h₁⟩ := readTyped_spec he h
      obtain ⟨b', e', h'⟩ := ih h₁
      refine ⟨b', ?_, h'⟩
      rw [List.map_cons, readAll, e₁]
      show ((b₁.readAll e (xs.map TypedInt.type)).bind fun r => some (r.1, x :: r.2)) = _
      rw [e', Option.bind_some]

/-! ## In every state of a buffer -/

theorem holds_of_run {initialSize : ℕ} {b₀ : Buffer} {tr : List (Buffer × (BufferOp × BufferOut))}
    (h₀ : new initialSize = some b₀) (hr : Run (stepOut Buffer.exec) b₀ tr b)
    (hv : ∀ p ∈ tr, Valid p.1 p.2.1) : Holds b b.content := by
  obtain ⟨b₁, e₁, h₁⟩ := new_spec initialSize
  obtain rfl := Option.some.inj (h₀.symm.trans e₁)
  refine hr.invariant_of (I := fun b => Holds b b.content) (G := fun b a => Valid b a.1) hv ?_ ?_
  · rw [h₁.content_eq]
    exact h₁
  · intro t a u h hv hst
    obtain ⟨u', e', h'⟩ := h.exec hv
    obtain ⟨rfl, -⟩ := Prod.mk.inj (Option.some.inj (e'.symm.trans hst))
    rw [h'.content_eq]
    exact h'

/-- In every state that a buffer can be in: values that are appended put their bytes in
network order behind the readable ones, and are read back by their types once those are
gone, which leaves the buffer empty; values that are prepended, as far as there is room
for them, are read back in the opposite order, which leaves what was there; and `PeekIntN`
returns what `ReadIntN` would. -/
theorem typed_reads_undo_writes (he : e.Lawful) {initialSize : ℕ} {b₀ : Buffer}
    {tr : List (Buffer × (BufferOp × BufferOut))} (h₀ : new initialSize = some b₀)
    (hr : Run (stepOut Buffer.exec) b₀ tr b) (hv : ∀ p ∈ tr, Valid p.1 p.2.1)
    (xs : List TypedInt) :
    (∃ b₁ b₂ b₃, b.appendAll e xs = some b₁ ∧
      b₁.content = b.content ++ xs.flatMap TypedInt.bytes ∧
      b₁.retrieve b.readableBytes = some b₂ ∧
      b₂.readAll e (xs.map TypedInt.type) = some (b₃, xs) ∧ b₃.readableBytes = 0) ∧
    ((xs.map fun x => x.type.size).sum ≤ b.prependableBytes →
      ∃ b₁ b₂, b.prependAll e xs = some b₁ ∧
        b₁.readAll e (xs.reverse.map TypedInt.type) = some (b₂, xs.reverse) ∧
        b₂.content = b.content) ∧
    ∀ t, b.peekTyped e t = (b.readTyped e t).map Prod.snd ∧
      (t.size ≤ b.readableBytes → ∃ x, b.peekTyped e t = some x) := by
  have h := holds_of_run h₀ hr hv
  refine ⟨?_, fun hfit => ?_, fun t => ⟨peekTyped_eq e b t, fun hread => ?_⟩⟩
  · obtain ⟨b₁, e₁, h₁⟩ := appendAll_spec he h xs
    have hlen : b.readableBytes ≤ (b.content ++ xs.flatMap TypedInt.bytes).length := by
      rw [List.length_append, h.length]
      exact Nat.le_add_right _ _
    obtain ⟨b₂, e₂, h₂⟩ := retrieve_spec h₁ hlen
    rw [List.drop_left' h.length, ← List.append_nil (xs.flatMap _)] at h₂
    obtain ⟨b₃, e₃, h₃⟩ := readAll_spec he h₂
    exact ⟨b₁, b₂, b₃, e₁, h₁.content_eq, e₂, e₃, h₃.length.symm⟩
  · obtain ⟨b₁, e₁, h₁⟩ := prependAll_spec he h hfit
    obtain ⟨b₂, e₂, h₂⟩ := readAll_spec he h₁
    exact ⟨b₁, b₂, e₁, e₂, h₂.content_eq⟩
  · exact peekTyped_isSome h hread

/-- The extremes of the four types, on a host with the least significant byte first. -/
def extremes : List TypedInt :=
  [.int8 (-128), .int16 32767, .int32 (-2147483648), .int64 (-1), .int8 127]

/-- They are appended to two bytes, which makes the buffer grow; the first three fit into
the room before those. -/
theorem extremes_read_back : ∃ b₀ tr b, new 4 = some b₀ ∧
    runOut Buffer.exec b₀ mixedOps = some (tr, b) ∧
    (extremes.map TypedInt.toInt = [-128, 32767, -2147483648, -1, 127]) ∧
    (∃ b₁ b₂ b₃, b.appendAll (Endian.host true) extremes = some b₁ ∧
      b₁.content = [11, 12] ++ [0x80, 0x7f, 0xff, 0x80, 0, 0, 0,
        0xff, 0xff, 0xff, 0xff, 0xff, 0xff, 0xff, 0xff, 0x7f] ∧
      b₁.retrieve 2 = some b₂ ∧
      b₂.readAll (Endian.host true) (extremes.map TypedInt.type) = some (b₃, extremes) ∧
      b₃.readableBytes = 0) ∧
    ∃ b₁ b₂, b.prependAll (Endian.host true) (extremes.take 3) = some b₁ ∧
      b₁.readAll (Endian.host true) [.int32, .int16, .int8] =
        some (b₂, [.int32 (-2147483648), .int16 32767, .int8 (-128)]) ∧
      b₂.content = [11, 12] := by
  have h₀ : new 4 = some ⟨List.replicate 12 0, 8, 8⟩ := by decide
  obtain ⟨tr, b, hrun, hv, hc, hread, hroom⟩ : ∃ tr b,
      runOut Buffer.exec ⟨List.replicate 12 0, 8, 8⟩ mixedOps = some (tr, b) ∧
        (∀ p ∈ tr, Valid p.1 p.2.1) ∧ b.content = [11, 12] ∧ b.readableBytes = 2 ∧
          7 ≤ b.prependableBytes :=
    exists_computed (by decide)
  obtain ⟨happ, -⟩ :=
    typed_reads_undo_writes (Endian.host_lawful true) h₀ (run_of_runOut hrun) hv extremes
  obtain ⟨-, hpre, -⟩ := typed_reads_undo_writes (Endian.host_lawful true) h₀ (run_of_runOut hrun)
    hv (extremes.take 3)
  refine ⟨_, tr, b, h₀, hrun, by decide, ?_, ?_⟩
  · rw [hread, hc] at happ
    exact happ
  · rw [hc] at hpre
    exact hpre hroom

end Buffer

end Muduo
