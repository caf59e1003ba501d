/-
# `Muduo.Buffer.Refine` — every run of a Buffer is a run of a queue of bytes

The queue is what a buffer is for: bytes are put in at the back, or at the front,
and taken out at the front.  Both machines have the same actions, an operation
together with what it returns, so that a run of the one can be compared with a
run of the other.
-/
import Muduo.Buffer.Queue

namespace Muduo

open Runs Region

/-- The operations on a buffer. -/
inductive BufferOp
  | append (data : List Byte)
  | prepend (data : List Byte)
  | retrieve (len : ℕ)
  | retrieveAsString (len : ℕ)
  | retrieveAll
  | shrink
  | readFd (extrabuf : Vector Byte Buffer.extrabufSize) (result : ReadvResult)

/-- What an operation returns. -/
inductive BufferOut
  | none
  | string (s : List Byte)
  | count (n : Except ℤ ℕ)

/-- One operation on a queue of bytes, the front first. -/
def ByteQueue.exec (q : List Byte) : BufferOp → List Byte × BufferOut
  | .append data => (q ++ data, .none)
  | .prepend data => (data ++ q, .none)
  | .retrieve len => (q.drop len, .none)
  | .retrieveAsString len => (q.drop len, .string (q.take len))
  | .retrieveAll => ([], .none)
  | .shrink => (q, .none)
  | .readFd _ (.failed errno) => (q, .count (.error errno))
  | .readFd _ (.delivered data) => (q ++ data, .count (.ok data.length))

/-- A step of the queue. -/
def ByteQueue.step (q : List Byte) (a : BufferOp × BufferOut) (q' : List Byte) : Prop :=
  ByteQueue.exec q a.1 = (q', a.2)

namespace Buffer

/-- One operation on a buffer. -/
def exec (b : Buffer) : BufferOp → Option (Buffer × BufferOut)
  | .append data => (b.append data).map (·, .none)
  | .prepend data => (b.prepend data).map (·, .none)
  | .retrieve len => (b.retrieve len).map (·, .none)
  | .retrieveAsString len => (b.retrieveAsString len).map fun r => (r.1, .string r.2)
  | .retrieveAll => some (b.retrieveAll, .none)
  | .shrink => some (b.shrink, .none)
  | .readFd extrabuf result => (b.readFd extrabuf result).map fun r => (r.1, .count r.2)

/-- What a caller owes, and what `readv` does: it delivers no more than it was
given space for. -/
def Valid (b : Buffer) : BufferOp → Prop
  | .prepend data => data.length ≤ b.prependableBytes
  | .retrieve len => len ≤ b.readableBytes
  | .retrieveAsString len => len ≤ b.readableBytes
  | .readFd extrabuf (.delivered data) => data.length ≤ total (b.iovecs extrabuf)
  | _ => True

instance (b : Buffer) : (op : BufferOp) → Decidable (b.Valid op)
  | .prepend _ | .retrieve _ | .retrieveAsString _ | .readFd _ (.delivered _) =>
      inferInstanceAs (Decidable (_ ≤ _))
  | .append _ | .retrieveAll | .shrink | .readFd _ (.failed _) => inferInstanceAs (Decidable True)

variable {b : Buffer} {q : List Byte} {op : BufferOp}

/-- An operation on a buffer that holds `q` is the operation on `q`. -/
theorem Holds.exec (h : Holds b q) (hv : b.Valid op) :
    ∃ b', b.exec op = some (b', (ByteQueue.exec q op).2) ∧ Holds b' (ByteQueue.exec q op).1 := by
  cases op with
  | append data =>
      obtain ⟨b', e', h'⟩ := append_spec h data
      exact ⟨b', by simp [Buffer.exec, e', ByteQueue.exec], h'⟩
  | prepend data =>
      obtain ⟨b', e', h'⟩ := prepend_spec h hv
      exact ⟨b', by simp [Buffer.exec, e', ByteQueue.exec], h'⟩
  | retrieve len =>
      obtain ⟨b', e', h'⟩ := retrieve_spec h (hv.trans_eq h.length.symm)
      exact ⟨b', by simp [Buffer.exec, e', ByteQueue.exec], h'⟩
  | retrieveAsString len =>
      obtain ⟨b', e', h'⟩ := retrieveAsString_spec h (hv.trans_eq h.length.symm)
      exact ⟨b', by simp [Buffer.exec, e', ByteQueue.exec], h'⟩
  | retrieveAll => exact ⟨b.retrieveAll, rfl, retrieveAll_spec h⟩
  | shrink => exact ⟨b, rfl, h⟩
  | readFd extrabuf result =>
      cases result with
      | failed errno => exact ⟨b, rfl, h⟩
      | delivered data =>
          obtain ⟨b', e', h'⟩ := readFd_spec h hv
          exact ⟨b', by simp [Buffer.exec, e', ByteQueue.exec], h'⟩

/-- A buffer of any initial size can be made, and whatever is done to it within
the preconditions, it is laid out as in the picture, the operations and their
results are those of a queue that was empty at first and that now holds the
readable bytes, and the next operation runs to its end too. -/
theorem run_refines_byteQueue (initialSize : ℕ) :
    ∃ b₀, new initialSize = some b₀ ∧
      ∀ {tr : List (Buffer × (BufferOp × BufferOut))} {b : Buffer},
        Run (stepOut exec) b₀ tr b → (∀ p ∈ tr, Valid p.1 p.2.1) →
          (b.readerIndex ≤ b.writerIndex ∧ b.writerIndex ≤ b.buffer.length ∧
            kCheapPrepend ≤ b.buffer.length) ∧
          (∃ tr', Run ByteQueue.step [] tr' b.content ∧ tr'.map Prod.snd = tr.map Prod.snd) ∧
          ∀ op, Valid b op → ∃ b' out, b.exec op = some (b', out) := by
  obtain ⟨b₀, e₀, h₀⟩ := new_spec initialSize
  refine ⟨b₀, e₀, ?_⟩
  intro tr b hr hv
  obtain ⟨tr', q, hr', h, hlab⟩ := hr.simulates (T := ByteQueue.step)
    (G := fun b a => Valid b a.1) hv h₀ (by
      rintro t q ⟨op, out⟩ u h hv hst
      obtain ⟨u', e', h'⟩ := h.exec hv
      obtain ⟨rfl, hout⟩ := Prod.mk.inj (Option.some.inj (e'.symm.trans hst))
      exact ⟨_, Prod.ext rfl hout, h'⟩)
  refine ⟨⟨h.reader_le, h.writer_le, h.cheap_le⟩, ⟨tr', h.content_eq ▸ hr', hlab⟩, ?_⟩
  intro op hv
  obtain ⟨b', e', -⟩ := h.exec hv
  exact ⟨b', _, e'⟩

/-- Two bytes go into the reserve, the third append has to move the readable
bytes back behind it, and the input spills into the array on the stack. -/
def mixedOps : List BufferOp :=
  [.append [1, 2, 3], .prepend [8, 9], .retrieve 4, .append [4, 5, 6],
    .readFd (Vector.replicate _ 0) (.delivered [10, 11, 12]), .retrieveAsString 5]

theorem mixedOps_refines : ∃ b₀ tr b, new 4 = some b₀ ∧ runOut exec b₀ mixedOps = some (tr, b) ∧
    b.content = [11, 12] ∧
    ∃ tr', Run ByteQueue.step [] tr' b.content ∧ tr'.map Prod.snd = tr.map Prod.snd := by
  obtain ⟨b₀, e₀, h⟩ := run_refines_byteQueue 4
  have hb₀ : b₀ = ⟨List.replicate 12 0, 8, 8⟩ := Option.some.inj (e₀.symm.trans (by decide))
  subst hb₀
  obtain ⟨tr, b, hrun, hv, hb⟩ : ∃ tr b,
      runOut exec ⟨List.replicate 12 0, 8, 8⟩ mixedOps = some (tr, b) ∧
        (∀ p ∈ tr, Valid p.1 p.2.1) ∧ b.content = [11, 12] :=
    exists_computed (by decide)
  exact ⟨_, tr, b, e₀, hrun, hb, (h (run_of_runOut hrun) hv).2.1⟩

end Buffer

end Muduo
