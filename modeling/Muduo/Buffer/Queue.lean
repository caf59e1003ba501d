/-
# `Muduo.Buffer.Queue` — a Buffer is a double-ended queue of bytes

`Holds b q`: the indices of `b` are in order, the reserve for prepending is in
the vector, and the readable bytes are `q`.  Every operation that is called
within its precondition runs to its end (no assertion fails, nothing outside the
vector is touched) and does to `q` what the queue operation does.
-/
import Mathlib.Order.Nat
import Mathlib.Tactic.Set
import Muduo.Lib.Runs
import Muduo.Buffer.Model

namespace Muduo.Buffer

open Region Runs

/-- The bytes in `[readerIndex, writerIndex)`. -/
def content (b : Buffer) : List Byte := slice b.buffer b.readerIndex b.writerIndex

/-- The buffer is laid out as in the picture, and its readable bytes are `q`. -/
structure Holds (b : Buffer) (q : List Byte) : Prop where
  reader_le : b.readerIndex ≤ b.writerIndex
  writer_le : b.writerIndex ≤ b.buffer.length
  cheap_le : kCheapPrepend ≤ b.buffer.length
  content_eq : b.content = q

variable {b : Buffer} {q data : List Byte} {len : ℕ}

theorem Holds.length (h : Holds b q) : q.length = b.readableBytes := by
  rw [← h.content_eq, content, length_slice h.writer_le, readableBytes]

theorem copyTo_eq {i : ℕ} (h : i + data.length ≤ b.buffer.length) :
    b.copyTo i data = some { b with buffer := write b.buffer i data } :=
  if_pos h

/-- A write that leaves the readable bytes alone. -/
theorem Holds.write (h : Holds b q) {i : ℕ} (hi : i + data.length ≤ b.buffer.length)
    (hd : b.writerIndex ≤ i ∨ i + data.length ≤ b.readerIndex) :
    Holds { b with buffer := Region.write b.buffer i data } q := by
  refine ⟨h.reader_le, ?_, ?_, ?_⟩
  · simpa only [length_write hi] using h.writer_le
  · simpa only [length_write hi] using h.cheap_le
  · rw [← h.content_eq]
    exact slice_write_of_disjoint hi hd

theorem new_eq (n : ℕ) :
    new n = some ⟨List.replicate (kCheapPrepend + n) 0, kCheapPrepend, kCheapPrepend⟩ := by
  simp [new, readableBytes, writeableBytes, prependableBytes]

theorem new_spec (n : ℕ) : ∃ b, new n = some b ∧ Holds b [] :=
  ⟨_, new_eq n, le_refl _, by simp, by simp, slice_eq_nil (le_refl _)⟩

/-! ## Taking bytes out -/

theorem retrieveAll_spec (h : Holds b q) : Holds b.retrieveAll [] :=
  ⟨le_refl _, h.cheap_le, h.cheap_le, slice_eq_nil (le_refl _)⟩

theorem retrieve_spec (h : Holds b q) (hl : len ≤ q.length) :
    ∃ b', b.retrieve len = some b' ∧ Holds b' (q.drop len) := by
  rw [h.length] at hl
  unfold retrieve
  rw [assert_of hl]
  by_cases hlt : len < b.readableBytes
  · refine ⟨{ b with readerIndex := b.readerIndex + len }, by simp [hlt],
      ⟨?_, h.writer_le, h.cheap_le, ?_⟩⟩
    · unfold readableBytes at hl
      have := h.reader_le
      show b.readerIndex + len ≤ b.writerIndex
      omega
    · rw [← h.content_eq, content, content, drop_slice]
  · refine ⟨b.retrieveAll, by simp [hlt], ?_⟩
    rw [List.drop_eq_nil_of_le (by rw [h.length]; exact not_lt.mp hlt)]
    exact retrieveAll_spec h

/-- The first readable bytes, as they are read at `Peek()`. -/
theorem bytesAt_spec (h : Holds b q) (hl : len ≤ q.length) :
    b.bytesAt b.readerIndex len = some (q.take len) := by
  rw [h.length] at hl
  have hend : b.readerIndex + len ≤ b.writerIndex := by
    unfold readableBytes at hl
    have := h.reader_le
    omega
  rw [bytesAt, if_pos (hend.trans h.writer_le), ← h.content_eq, content, take_slice,
    Nat.min_eq_left hend]

theorem retrieveAsString_spec (h : Holds b q) (hl : len ≤ q.length) :
    ∃ b', b.retrieveAsString len = some (b', q.take len) ∧ Holds b' (q.drop len) := by
  obtain ⟨b', e', h'⟩ := retrieve_spec h hl
  have hread : len ≤ b.readableBytes := hl.trans_eq h.length
  exact ⟨b', by simp [retrieveAsString, hread, bytesAt_spec h hl, e'], h'⟩

/-! ## Making room -/

/-- The vector grows at its end, or the readable bytes move to the front; in both
cases there is room for `len` bytes behind them. -/
theorem broadenSpace_spec (h : Holds b q) (hl : b.writeableBytes < len) :
    ∃ b', b.broadenSpace len = some b' ∧ Holds b' q ∧ len ≤ b'.writeableBytes := by
  have hr := h.reader_le
  have hw := h.writer_le
  unfold writeableBytes at hl
  unfold broadenSpace
  by_cases hgrow : b.writeableBytes + b.prependableBytes < len + kCheapPrepend
  · have hlen : b.buffer.length ≤ b.writerIndex + len := by omega
    rw [if_pos hgrow]
    refine ⟨_, rfl, ⟨hr, ?_, ?_, ?_⟩, ?_⟩
    · simp [length_resize]
    · simpa [length_resize] using h.cheap_le.trans hlen
    · rw [← h.content_eq]
      exact slice_resize hw (Nat.le_add_right _ _)
    · simp [writeableBytes, length_resize]
  · -- a prepend into the reserve has made the head shorter, not longer
    have hcheap : kCheapPrepend < b.readerIndex := by
      unfold writeableBytes prependableBytes at hgrow
      omega
    have hread : b.readerIndex + b.readableBytes = b.writerIndex := by
      unfold readableBytes
      omega
    have hbytes : b.bytesAt b.readerIndex q.length = some q := by
      rw [bytesAt, h.length, hread, if_pos hw, ← h.content_eq, content]
    have hfit : kCheapPrepend + q.length ≤ b.buffer.length := by
      rw [h.length]
      omega
    rw [if_neg hgrow]
    simp only [assert_of hcheap, hbytes, copyTo_eq hfit, ← h.length, Option.bind_eq_bind,
      Option.bind_some]
    rw [assert_of (by simp [readableBytes])]
    refine ⟨_, rfl, ⟨Nat.le_add_right _ _, ?_, ?_, ?_⟩, ?_⟩
    · simpa only [length_write hfit] using hfit
    · simpa only [length_write hfit] using h.cheap_le
    · exact slice_write_self hfit
    · rw [writeableBytes, length_write hfit, h.length]
      unfold writeableBytes prependableBytes at hgrow
      show len ≤ b.buffer.length - (kCheapPrepend + b.readableBytes)
      omega

theorem ensureWriteableBytes_spec (h : Holds b q) (len : ℕ) :
    ∃ b', b.ensureWriteableBytes len = some b' ∧ Holds b' q ∧ len ≤ b'.writeableBytes := by
  unfold ensureWriteableBytes
  by_cases hl : b.writeableBytes < len
  · obtain ⟨b', e', h', hl'⟩ := broadenSpace_spec h hl
    exact ⟨b', by simp [hl, e', hl'], h', hl'⟩
  · exact ⟨b, by simp [hl, not_lt.mp hl], h, not_lt.mp hl⟩

/-! ## Putting bytes in -/

/-- Bytes that stand behind the readable ones become readable. -/
theorem Holds.written (h : Holds b q) (len : ℕ) (hl : b.writerIndex + len ≤ b.buffer.length) :
    Holds { b with writerIndex := b.writerIndex + len }
      (q ++ slice b.buffer b.writerIndex (b.writerIndex + len)) := by
  refine ⟨h.reader_le.trans (Nat.le_add_right _ _), hl, h.cheap_le, ?_⟩
  rw [← h.content_eq]
  exact (slice_append h.reader_le (Nat.le_add_right _ _) hl).symm

theorem append_spec (h : Holds b q) (data : List Byte) :
    ∃ b', b.append data = some b' ∧ Holds b' (q ++ data) := by
  obtain ⟨b₁, e₁, h₁, hl⟩ := ensureWriteableBytes_spec h data.length
  have hfit : b₁.writerIndex + data.length ≤ b₁.buffer.length := by
    have := h₁.writer_le
    unfold writeableBytes at hl
    omega
  have hw := h₁.write hfit (.inl (le_refl _))
  have hroom : data.length ≤
      writeableBytes { b₁ with buffer := Region.write b₁.buffer b₁.writerIndex data } := by
    simpa only [writeableBytes, length_write hfit] using hl
  have hdone := hw.written data.length (by simpa only [length_write hfit] using hfit)
  rw [slice_write_self hfit] at hdone
  exact ⟨_, by simp [append, e₁, copyTo_eq hfit, hasWritten, hroom], hdone⟩

theorem prepend_spec (h : Holds b q) (hl : data.length ≤ b.prependableBytes) :
    ∃ b', b.prepend data = some b' ∧ Holds b' (data ++ q) := by
  have hr := h.reader_le
  have hw := h.writer_le
  have hback : b.readerIndex - data.length + data.length = b.readerIndex := Nat.sub_add_cancel hl
  have hfit : b.readerIndex - data.length + data.length ≤ b.buffer.length := by omega
  refine ⟨{ b with
      readerIndex := b.readerIndex - data.length
      buffer := Region.write b.buffer (b.readerIndex - data.length) data }, ?_, ?_, ?_, ?_, ?_⟩
  · simp only [prepend, assert_of hl, Option.bind_eq_bind, Option.bind_some]
    exact copyTo_eq hfit
  · exact (Nat.sub_le _ _).trans hr
  · simpa only [length_write hfit] using hw
  · simpa only [length_write hfit] using h.cheap_le
  · -- the new bytes end where the old ones start
    show slice (Region.write b.buffer (b.readerIndex - data.length) data)
      (b.readerIndex - data.length) b.writerIndex = data ++ q
    have hself := slice_write_self hfit
    have hrest := slice_write_of_disjoint (j := b.readerIndex) (k := b.writerIndex) hfit
      (.inr hback.le)
    rw [hback] at hself
    rw [← slice_append (Nat.sub_le b.readerIndex data.length) hr (by rwa [length_write hfit]),
      hself, hrest]
    exact congrArg _ h.content_eq

/-! ## ReadFd -/

/-- What `readv` leaves in the two stretches. -/
theorem scatter_iovecs (h : b.writerIndex ≤ b.buffer.length)
    {extrabuf : Vector Byte extrabufSize} (hd : data.length ≤ total (b.iovecs extrabuf)) :
    ∃ rest, (scatter (b.iovecs extrabuf) data).getD 0 [] =
        Region.write (slice b.buffer b.writerIndex b.buffer.length) 0
          (data.take b.writeableBytes) ∧
      (b.writeableBytes < data.length →
        (scatter (b.iovecs extrabuf) data).getD 1 extrabuf.toList =
          data.drop b.writeableBytes ++ rest) := by
  have hend : b.writerIndex + b.writeableBytes = b.buffer.length := by
    unfold writeableBytes
    omega
  unfold iovecs at *
  by_cases hw : b.writeableBytes < extrabufSize
  · simp only [if_pos hw, hend] at hd ⊢
    refine ⟨extrabuf.toList.drop (data.drop b.writeableBytes).length, rfl, fun _ => ?_⟩
    have htake : (data.drop b.writeableBytes).take extrabufSize = data.drop b.writeableBytes := by
      refine List.take_of_length_le ?_
      simp only [total, List.map_cons, List.map_nil, List.sum_cons, List.sum_nil] at hd
      rw [List.length_drop]
      omega
    show Region.write extrabuf.toList 0 ((data.drop b.writeableBytes).take extrabufSize) = _
    rw [htake, Region.write, List.take_zero, List.nil_append, Nat.zero_add]
  · simp only [if_neg hw, hend] at hd ⊢
    refine ⟨[], rfl, fun hlt => ?_⟩
    simp only [total, List.map_cons, List.map_nil, List.sum_cons, List.sum_nil] at hd
    omega

/-- The bytes delivered are appended, whether they fit behind the readable ones
or spill into the array on the stack. -/
theorem readFd_spec (h : Holds b q) {extrabuf : Vector Byte extrabufSize}
    (hd : data.length ≤ total (b.iovecs extrabuf)) :
    ∃ b', b.readFd extrabuf (.delivered data) = some (b', .ok data.length) ∧
      Holds b' (q ++ data) := by
  have hw := h.writer_le
  have hend : b.writerIndex + b.writeableBytes = b.buffer.length := by
    unfold writeableBytes
    omega
  obtain ⟨rest, hfirst, hsecond⟩ := scatter_iovecs hw hd
  -- the writable bytes after the delivery
  set seg := Region.write (slice b.buffer b.writerIndex b.buffer.length) 0
    (data.take b.writeableBytes) with hseg
  have hsegfit : 0 + (data.take b.writeableBytes).length ≤
      (slice b.buffer b.writerIndex b.buffer.length).length := by
    rw [length_slice (le_refl _), List.length_take]
    omega
  have hseglen : seg.length = b.writeableBytes := by
    rw [hseg, length_write hsegfit, length_slice (le_refl _)]
    omega
  have hfit : b.writerIndex + seg.length ≤ b.buffer.length := by omega
  have hcopy := h.write hfit (.inl (le_refl _))
  have hsame : (Region.write b.buffer b.writerIndex seg).length = b.buffer.length :=
    length_write hfit
  have hslice : ∀ n ≤ b.writeableBytes, slice (Region.write b.buffer b.writerIndex seg)
      b.writerIndex (b.writerIndex + n) = seg.take n := by
    intro n hn
    have hall := slice_write_self hfit
    rw [hseglen] at hall
    calc slice (Region.write b.buffer b.writerIndex seg) b.writerIndex (b.writerIndex + n)
        = (slice (Region.write b.buffer b.writerIndex seg) b.writerIndex
            (b.writerIndex + b.writeableBytes)).take n := by
          rw [take_slice, Nat.min_eq_left (by omega)]
      _ = seg.take n := by rw [hall]
  simp only [readFd, hfirst, copyTo_eq hfit, Option.bind_eq_bind, Option.bind_some]
  by_cases hn : data.length ≤ b.writeableBytes
  · have hdone := hcopy.written data.length (by simp only [hsame]; omega)
    have hseg' : seg.take data.length = data := by
      rw [hseg, Region.write, List.take_of_length_le hn, List.take_zero, List.nil_append,
        List.take_left']
      rfl
    rw [hslice _ hn, hseg'] at hdone
    rw [if_pos hn]
    exact ⟨_, rfl, hdone⟩
  · have hfull := hcopy.written b.writeableBytes (by simp only [hsame]; omega)
    have hseg' : seg = data.take b.writeableBytes := by
      have hl : (data.take b.writeableBytes).length = b.writeableBytes := by
        rw [List.length_take]
        omega
      rw [hseg, Region.write, hl, List.take_zero, List.nil_append, List.drop_eq_nil_of_le,
        List.append_nil]
      rw [length_slice (le_refl _)]
      omega
    rw [hslice _ (le_refl _), List.take_of_length_le hseglen.le, hseg'] at hfull
    rw [if_neg hn, hsecond (not_le.mp hn)]
    have hspill : (data.drop b.writeableBytes ++ rest).take (data.length - b.writeableBytes) =
        data.drop b.writeableBytes := by
      rw [List.take_left']
      rw [List.length_drop]
    rw [hspill, hsame]
    rw [hend, ← hseg'] at hfull
    obtain ⟨b', e', h'⟩ := append_spec hfull (data.drop b.writeableBytes)
    refine ⟨b', ?_, ?_⟩
    · simp only [e', Option.bind_some]
    · rwa [hseg', List.append_assoc, List.take_append_drop] at h'

end Muduo.Buffer
