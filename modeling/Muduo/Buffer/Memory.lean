/-
# `Muduo.Buffer.Memory` — how large a buffer gets

`BroadenSpace` moves the readable bytes to the front where that makes room, and
lets the vector grow only when it does not: with `r` readable bytes after an
`Append` that has let it grow, it has less than `2 r + 8` bytes.  The vector never
gets shorter, so in a run its size is bounded by the most that was ever readable.

    8 + initialSize  ≤  buffer_.size()  ≤  max (8 + initialSize) (2 peak + 7)
-/
import Muduo.Buffer.Refine

namespace Muduo

open Runs Region

namespace Buffer

variable {b b' b₀ : Buffer} {q data : List Byte} {op : BufferOp} {out : BufferOut}

/-- The vector has kept its size, or it has grown and the readable bytes are about half of it. -/
def Grows (b b' : Buffer) : Prop :=
  b'.buffer.length = b.buffer.length ∨
    (b.buffer.length ≤ b'.buffer.length ∧ b'.buffer.length < 2 * b'.readableBytes + kCheapPrepend)

theorem Grows.le (h : Grows b b') : b.buffer.length ≤ b'.buffer.length :=
  h.elim (fun he => Nat.le_of_eq he.symm) fun hand => hand.1

theorem length_copyTo {i : ℕ} : b.copyTo i data = some b' → b'.buffer.length = b.buffer.length ∧
    b'.readerIndex = b.readerIndex ∧ b'.writerIndex = b.writerIndex := by
  intro h
  rw [copyTo, Option.ite_none_right_eq_some] at h
  obtain ⟨hfit, h⟩ := h
  obtain rfl := Option.some.inj h
  exact ⟨length_write hfit, rfl, rfl⟩

theorem length_broadenSpace {len : ℕ} :
    b.broadenSpace len = some b' → b'.buffer.length = b.buffer.length ∨
      (b.readerIndex + b.writeableBytes < len + kCheapPrepend ∧
        b' = { b with buffer := resize 0 b.buffer (b.writerIndex + len) }) := by
  intro h
  rw [broadenSpace] at h
  split at h
  · next hgrow =>
      refine .inr ⟨?_, (Option.some.inj h).symm⟩
      rw [Nat.add_comm]
      exact hgrow
  · simp only [Option.bind_eq_bind, Option.bind_eq_some_iff] at h
    obtain ⟨-, -, content, -, b₁, hcopy, -, -, h⟩ := h
    obtain rfl := Option.some.inj h
    exact .inl (length_copyTo hcopy).1

/-- `Append` lets the vector grow only as far as it has to. -/
theorem grows_append (hb : b.readerIndex ≤ b.writerIndex) (hw : b.writerIndex ≤ b.buffer.length) :
    b.append data = some b' → Grows b b' := by
  intro h
  simp only [append, Option.bind_eq_bind, Option.bind_eq_some_iff] at h
  obtain ⟨b₁, hens, b₂, hcopy, h⟩ := h
  simp only [hasWritten, Option.bind_eq_bind, Option.bind_eq_some_iff] at h
  obtain ⟨-, -, h⟩ := h
  obtain rfl := Option.some.inj h
  obtain ⟨hlen, hreader, hwriter⟩ := length_copyTo hcopy
  rw [ensureWriteableBytes] at hens
  by_cases hl : b.writeableBytes < data.length
  · rw [if_pos hl] at hens
    obtain ⟨b₃, hbroad, hens⟩ := Option.bind_eq_some_iff.mp hens
    obtain ⟨-, -, hens⟩ := Option.bind_eq_some_iff.mp hens
    obtain rfl := Option.some.inj hens
    rcases length_broadenSpace hbroad with hsame | ⟨hgrow, rfl⟩
    · exact .inl (hlen.trans hsame)
    · right
      rw [writeableBytes] at hl hgrow
      simp only [length_resize] at hlen
      simp only [readableBytes, hlen, hreader, hwriter]
      omega
  · rw [if_neg hl] at hens
    obtain ⟨b₃, hbroad, hens⟩ := Option.bind_eq_some_iff.mp hens
    obtain ⟨-, -, hens⟩ := Option.bind_eq_some_iff.mp hens
    obtain rfl := Option.some.inj hens
    obtain rfl := Option.some.inj hbroad
    exact .inl hlen

theorem length_retrieve {len : ℕ} :
    b.retrieve len = some b' → b'.buffer.length = b.buffer.length := by
  intro h
  simp only [retrieve, Option.bind_eq_bind, Option.bind_eq_some_iff] at h
  obtain ⟨-, -, h⟩ := h
  split at h
  · obtain rfl := Option.some.inj h
    rfl
  · obtain rfl := Option.some.inj h
    rfl

/-- Bytes that spill into the array on the stack are appended to a buffer that is full. -/
theorem grows_readFd {extrabuf : Vector Byte extrabufSize} {n : Except ℤ ℕ}
    (hb : b.readerIndex ≤ b.writerIndex) (hw : b.writerIndex ≤ b.buffer.length) :
    b.readFd extrabuf (.delivered data) = some (b', n) → Grows b b' := by
  intro h
  rw [readFd] at h
  obtain ⟨b₁, hcopy, h⟩ := Option.bind_eq_some_iff.mp h
  obtain ⟨hlen, hreader, hwriter⟩ := length_copyTo hcopy
  split at h
  · obtain ⟨rfl, -⟩ := Prod.mk.inj (Option.some.inj h)
    exact .inl hlen
  · obtain ⟨b₂, happ, h⟩ := Option.bind_eq_some_iff.mp h
    obtain ⟨rfl, -⟩ := Prod.mk.inj (Option.some.inj h)
    have hle : b₁.readerIndex ≤ b₁.buffer.length := by omega
    have hgrows := grows_append (b := { b₁ with writerIndex := b₁.buffer.length }) hle
      (Nat.le_refl _) happ
    rw [Grows, ← hlen]
    exact hgrows

theorem grows_exec (hb : b.readerIndex ≤ b.writerIndex) (hw : b.writerIndex ≤ b.buffer.length) :
    b.exec op = some (b', out) → Grows b b' := by
  intro h
  cases op with
  | append data =>
      obtain ⟨b₁, happ, he⟩ := Option.map_eq_some_iff.mp h
      obtain ⟨rfl, -⟩ := Prod.mk.inj he
      exact grows_append hb hw happ
  | prepend data =>
      obtain ⟨b₁, hpre, he⟩ := Option.map_eq_some_iff.mp h
      obtain ⟨rfl, -⟩ := Prod.mk.inj he
      obtain ⟨-, -, hpre⟩ := Option.bind_eq_some_iff.mp hpre
      exact .inl (length_copyTo hpre).1
  | retrieve len =>
      obtain ⟨b₁, hret, he⟩ := Option.map_eq_some_iff.mp h
      obtain ⟨rfl, -⟩ := Prod.mk.inj he
      exact .inl (length_retrieve hret)
  | retrieveAsString len =>
      obtain ⟨⟨b₁, s⟩, hret, he⟩ := Option.map_eq_some_iff.mp h
      obtain ⟨rfl, -⟩ := Prod.mk.inj he
      simp only [retrieveAsString, Option.bind_eq_bind, Option.bind_eq_some_iff] at hret
      obtain ⟨-, -, result, -, b₂, hret, he⟩ := hret
      obtain ⟨rfl, -⟩ := Prod.mk.inj (Option.some.inj he)
      exact .inl (length_retrieve hret)
  | retrieveAll | shrink =>
      obtain ⟨rfl, -⟩ := Prod.mk.inj (Option.some.inj h)
      exact .inl rfl
  | readFd extrabuf result =>
      obtain ⟨⟨b₁, n⟩, hread, he⟩ := Option.map_eq_some_iff.mp h
      obtain ⟨rfl, -⟩ := Prod.mk.inj he
      cases result with
      | failed errno =>
          obtain ⟨rfl, -⟩ := Prod.mk.inj (Option.some.inj hread)
          exact .inl rfl
      | delivered data => exact grows_readFd hb hw hread

/-- In every run the vector is at least as long as at first, and it is longer only when it had to
be: at most twice the most that was ever readable and seven bytes more. -/
theorem memory_bounded {initialSize peak : ℕ} (h₀ : new initialSize = some b₀)
    {tr : List (Buffer × (BufferOp × BufferOut))} (hr : Run (stepOut exec) b₀ tr b)
    (hv : ∀ p ∈ tr, Valid p.1 p.2.1) (hpeak : ∀ p ∈ tr, p.1.readableBytes ≤ peak)
    (hlast : b.readableBytes ≤ peak) :
    8 + initialSize ≤ b.buffer.length ∧
      b.buffer.length ≤ max (8 + initialSize) (2 * peak + 7) := by
  obtain ⟨b₁, e₁, hnew⟩ := new_spec initialSize
  obtain rfl := Option.some.inj (e₁.symm.trans h₀)
  have hlen : b₁.buffer.length = 8 + initialSize := by
    have he := (new_eq initialSize).symm.trans e₁
    obtain rfl := Option.some.inj he
    exact List.length_replicate
  have h : (∃ q, Holds b q) ∧ 8 + initialSize ≤ b.buffer.length ∧
      (b.readableBytes ≤ peak → b.buffer.length ≤ max (8 + initialSize) (2 * peak + 7)) := by
    refine hr.invariant_of (I := fun b => (∃ q, Holds b q) ∧ 8 + initialSize ≤ b.buffer.length ∧
      (b.readableBytes ≤ peak → b.buffer.length ≤ max (8 + initialSize) (2 * peak + 7)))
      (G := fun b a => Valid b a.1 ∧ b.readableBytes ≤ peak) ?_ ?_ ?_
    · exact fun p hp => ⟨hv p hp, hpeak p hp⟩
    · exact ⟨⟨[], hnew⟩, Nat.le_of_eq hlen.symm, fun _ => hlen ▸ Nat.le_max_left _ _⟩
    · rintro t ⟨op, out⟩ u ⟨⟨q, hq⟩, hge, hle⟩ ⟨hvalid, hread⟩ hst
      obtain ⟨u', e', hu⟩ := hq.exec hvalid
      obtain ⟨rfl, -⟩ := Prod.mk.inj (Option.some.inj (e'.symm.trans hst))
      have hgrows := grows_exec hq.reader_le hq.writer_le hst
      refine ⟨⟨_, hu⟩, hge.trans hgrows.le, fun hnow => ?_⟩
      rcases hgrows with hsame | ⟨-, hlt⟩
      · exact hsame ▸ hle hread
      · rw [kCheapPrepend] at hlt
        omega
  exact ⟨h.2.1, h.2.2 hlast⟩

/-- The vector grows although eleven bytes in front of the readable one are free. -/
def grownOps : List BufferOp := [.append [1, 2, 3, 4], .retrieve 3, .append [5, 6, 7, 8]]

theorem grownOps_bounded : ∃ b₀ tr b, new 4 = some b₀ ∧ runOut exec b₀ grownOps = some (tr, b) ∧
    b.buffer.length = 16 ∧ b.buffer.length ≤ max (8 + 4) (2 * 5 + 7) := by
  obtain ⟨b₀, e₀⟩ : ∃ b₀, new 4 = some b₀ := ⟨_, new_eq 4⟩
  have hb₀ : b₀ = ⟨List.replicate 12 0, 8, 8⟩ := Option.some.inj (e₀.symm.trans (new_eq 4))
  subst hb₀
  obtain ⟨tr, b, hrun, hv, hpeak, hlast, hlen⟩ : ∃ tr b,
      runOut exec ⟨List.replicate 12 0, 8, 8⟩ grownOps = some (tr, b) ∧
        (∀ p ∈ tr, Valid p.1 p.2.1) ∧ (∀ p ∈ tr, p.1.readableBytes ≤ 5) ∧ b.readableBytes ≤ 5 ∧
          b.buffer.length = 16 :=
    exists_computed (by decide)
  exact ⟨_, tr, b, e₀, hrun, hlen, (memory_bounded e₀ (run_of_runOut hrun) hv hpeak hlast).2⟩

end Buffer

end Muduo
