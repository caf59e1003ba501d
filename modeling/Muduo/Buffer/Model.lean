/-
# `Muduo.Buffer.Model` — Buffer.h, Buffer.cpp

    +-------------------+------------------+------------------+
    | prependable bytes |  readable bytes  |  writable bytes  |
    +-------------------+------------------+------------------+
    0      <=      readerIndex   <=   writerIndex    <=     size

The capacity of the vector is left out: only `InternalCapacity` reads it.
-/
import Muduo.Basic
import Muduo.Lib.Region

namespace Muduo

open Region

/-- A `char`. -/
abbrev Byte := BitVec 8

/-- `kCheapPrepend`. -/
def kCheapPrepend : ℕ := 8

/-- `kInitialSize`. -/
def kInitialSize : ℕ := 1024

/-- `class Buffer`. -/
structure Buffer where
  buffer : List Byte
  readerIndex : ℕ
  writerIndex : ℕ
deriving DecidableEq, Repr

/-- What `readv(2)` comes back with: an `errno`, or the bytes it delivered to
the stretches it was given. -/
inductive ReadvResult
  | failed (errno : ℤ)
  | delivered (data : List Byte)
deriving DecidableEq

namespace Buffer

def readableBytes (b : Buffer) : ℕ := b.writerIndex - b.readerIndex

def writeableBytes (b : Buffer) : ℕ := b.buffer.length - b.writerIndex

def prependableBytes (b : Buffer) : ℕ := b.readerIndex

/-- `Buffer(initialSize)`. -/
def new (initialSize : ℕ) : Option Buffer := do
  let b : Buffer := ⟨List.replicate (kCheapPrepend + initialSize) 0, kCheapPrepend, kCheapPrepend⟩
  assert (b.readableBytes = 0)
  assert (b.writeableBytes = initialSize)
  assert (b.prependableBytes = kCheapPrepend)
  return b

/-- The `len` bytes from position `i` on, which must lie in the vector. -/
def bytesAt (b : Buffer) (i len : ℕ) : Option (List Byte) :=
  if i + len ≤ b.buffer.length then some (slice b.buffer i (i + len)) else none

/-- `std::copy` of `data` to position `i`; it must fit in the vector. -/
def copyTo (b : Buffer) (i : ℕ) (data : List Byte) : Option Buffer :=
  if i + data.length ≤ b.buffer.length then some { b with buffer := write b.buffer i data }
  else none

def retrieveAll (b : Buffer) : Buffer :=
  { b with readerIndex := kCheapPrepend, writerIndex := kCheapPrepend }

def retrieve (b : Buffer) (len : ℕ) : Option Buffer := do
  assert (len ≤ b.readableBytes)
  if len < b.readableBytes then
    some { b with readerIndex := b.readerIndex + len }
  else
    some b.retrieveAll

def retrieveAsString (b : Buffer) (len : ℕ) : Option (Buffer × List Byte) := do
  assert (len ≤ b.readableBytes)
  let result ← b.bytesAt b.readerIndex len
  let b ← b.retrieve len
  return (b, result)

def retrieveAllAsString (b : Buffer) : Option (Buffer × List Byte) :=
  b.retrieveAsString b.readableBytes

def hasWritten (b : Buffer) (len : ℕ) : Option Buffer := do
  assert (len ≤ b.writeableBytes)
  return { b with writerIndex := b.writerIndex + len }

/-- `BroadenSpace`.  The readable bytes are copied to a place that starts
before them, so that the forward copy reads every byte before it is written over. -/
def broadenSpace (b : Buffer) (len : ℕ) : Option Buffer :=
  if b.writeableBytes + b.prependableBytes < len + kCheapPrepend then
    some { b with buffer := resize 0 b.buffer (b.writerIndex + len) }
  else do
    assert (kCheapPrepend < b.readerIndex)
    let readable := b.readableBytes
    let content ← b.bytesAt b.readerIndex readable
    let b ← b.copyTo kCheapPrepend content
    let b : Buffer :=
      { b with readerIndex := kCheapPrepend, writerIndex := kCheapPrepend + readable }
    assert (readable = b.readableBytes)
    return b

def ensureWriteableBytes (b : Buffer) (len : ℕ) : Option Buffer := do
  let b ← if b.writeableBytes < len then b.broadenSpace len else some b
  assert (len ≤ b.writeableBytes)
  return b

def append (b : Buffer) (data : List Byte) : Option Buffer := do
  let b ← b.ensureWriteableBytes data.length
  let b ← b.copyTo b.writerIndex data
  b.hasWritten data.length

def prepend (b : Buffer) (data : List Byte) : Option Buffer := do
  assert (data.length ≤ b.prependableBytes)
  let b : Buffer := { b with readerIndex := b.readerIndex - data.length }
  b.copyTo b.readerIndex data

/-- `Shrink`: `shrink_to_fit` changes the capacity only. -/
def shrink (b : Buffer) : Buffer := b

/-! ## ReadFd -/

/-- `sizeof extrabuf`. -/
def extrabufSize : ℕ := 65536

/-- The stretches `ReadFd` passes to `readv`, given what happens to be in the
array `extrabuf` on the stack. -/
def iovecs (b : Buffer) (extrabuf : Vector Byte extrabufSize) : List (Iovec Byte) :=
  let writable := b.writeableBytes
  let vec₀ : Iovec Byte := ⟨slice b.buffer b.writerIndex (b.writerIndex + writable), writable⟩
  let vec₁ : Iovec Byte := ⟨extrabuf.toList, extrabufSize⟩
  if writable < extrabufSize then [vec₀, vec₁] else [vec₀]

/-- `ReadFd`: the result is that of `readv`, or the `errno` that is saved. -/
def readFd (b : Buffer) (extrabuf : Vector Byte extrabufSize) :
    ReadvResult → Option (Buffer × Except ℤ ℕ)
  | .failed errno => some (b, .error errno)
  | .delivered data => do
      let writable := b.writeableBytes
      let vec := scatter (b.iovecs extrabuf) data
      let n := data.length
      -- the kernel has filled the writable bytes, whatever happens to the indices next
      let b ← b.copyTo b.writerIndex (vec.getD 0 [])
      if n ≤ writable then
        some ({ b with writerIndex := b.writerIndex + n }, .ok n)
      else
        let b : Buffer := { b with writerIndex := b.buffer.length }
        let b ← b.append ((vec.getD 1 extrabuf.toList).take (n - writable))
        some (b, .ok n)

end Buffer

end Muduo
