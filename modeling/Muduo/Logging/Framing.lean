/-
# `Muduo.Logging.Framing` — does every record end with its line terminator?

What does not fit into the buffer is dropped, each item by itself, and the line
terminator is an item like any other.  One byte of the buffer is never used, so
the record is shorter than the buffer; but when the items before the terminator
leave exactly one byte, there is no terminator.  Whether they do depends on what
is left behind the file name: one or two bytes, or two more than the line number
has digits (`framed_iff`).
-/
import Muduo.Logging.Model

namespace Muduo

/-- What is left of `a` bytes when `n` are appended, or dropped. -/
def room (a n : ℕ) : ℕ := if n < a then a - n else a

theorem room_pos {a : ℕ} (h : 0 < a) (n : ℕ) : 0 < room a n := by
  unfold room
  split
  · omega
  · exact h

/-- A colon and a number of `d` digits leave a single byte in these three cases. -/
theorem room_eq_one_iff {a d : ℕ} (ha : 0 < a) (hd : 0 < d) :
    room (room a 1) d = 1 ↔ a = 1 ∨ a = 2 ∨ a = d + 2 := by
  unfold room
  split
  · split
    · omega
    · omega
  · split
    · omega
    · omega

namespace FixedBuffer

variable {SIZE : ℕ}

theorem append_avail (b : FixedBuffer SIZE) (line : List Byte) :
    (b.append line).avail = room b.avail line.length := by
  unfold room
  by_cases h : line.length < b.avail
  · rw [if_pos h, avail, append_data h, List.length_append, avail]
    omega
  · rw [if_neg h, append, dif_neg h]

theorem append_eq_self {b : FixedBuffer SIZE} {line : List Byte} (h : ¬ line.length < b.avail) :
    b.append line = b := dif_neg h

/-- A single byte is appended unless it is the last one that is free. -/
theorem append_byte_iff {b : FixedBuffer SIZE} (h : 0 < b.avail) (c : Byte) :
    (b.append [c]).data = b.data ++ [c] ↔ b.avail ≠ 1 := by
  by_cases hfit : [c].length < b.avail
  · rw [List.length_singleton] at hfit
    exact iff_of_true (append_data hfit) (by omega)
  · refine iff_of_false (fun he => ?_) ?_
    · rw [append_eq_self hfit] at he
      have hlen := congrArg List.length he
      rw [List.length_append, List.length_singleton] at hlen
      omega
    · rw [List.length_singleton] at hfit
      omega

theorem length_lt_of_avail {b : FixedBuffer SIZE} (h : 0 < b.avail) : b.data.length < SIZE := by
  unfold avail at h
  omega

end FixedBuffer

namespace LoggerImpl

variable {SIZE : ℕ} {l : LoggerImpl SIZE}

/-- A byte of the buffer is free. -/
def Free (s : LogStream SIZE) : Prop := 0 < s.buf.avail

theorem free_append {s : LogStream SIZE} (h : Free s) (data : List Byte) :
    Free (s.append data) := by
  unfold Free LogStream.append
  rw [FixedBuffer.append_avail]
  exact room_pos h _

theorem free_put {s : LogStream SIZE} (h : Free s) (i : LogItem) : Free (s.put i) :=
  free_append h i.bytes

theorem free_new (hsize : 0 < SIZE) : Free (LogStream.new : LogStream SIZE) := by
  unfold Free LogStream.new
  rw [FixedBuffer.avail_of_empty FixedBuffer.new_data]
  exact hsize

theorem free_formatted (hsize : 0 < SIZE) (ctx : LogContext) (level : LogLevel) (line : ℤ)
    (file : SourceFile) (errorNum : ℤ) :
    Free (new ctx level line file errorNum : LoggerImpl SIZE).stream := by
  have hlevel : Free (formatLevel ctx level (LogStream.new : LogStream SIZE)) := by
    unfold formatLevel
    split
    · exact free_put (free_new hsize) _
    · exact free_put (free_new hsize) _
  have htid := free_put (free_put (free_put (free_put hlevel (.string ctx.time))
    (.cstr (some (text "Tid=")))) (.int ctx.tid)) (.char (BitVec.ofNat 8 ' '.toNat))
  unfold new
  by_cases he : errorNum ≠ 0
  · simp only [if_pos he]
    exact free_put (free_put (free_put (free_put htid _) _) _) _
  · simp only [if_neg he]
    exact htid

theorem free_ofArgs (hsize : 0 < SIZE) (ctx : LogContext) (args : LoggerArgs) :
    Free (ofArgs ctx args : LoggerImpl SIZE).stream := by
  cases args with
  | info file line => exact free_formatted hsize ctx _ line file 0
  | level level file line => exact free_formatted hsize ctx level line file 0
  | func level file line func =>
      exact free_put (free_put (free_put (free_formatted hsize ctx level line file 0) _) _) _
  | sys file line fatal => exact free_formatted hsize ctx _ line file ctx.errno

theorem free_streamed (h : Free l.stream) (items : List LogItem) :
    Free (l.streamed items).stream := by
  unfold streamed
  induction items generalizing l with
  | nil => exact h
  | cons i items ih => exact ih (l := { l with stream := l.stream.put i }) (free_put h i)

/-! ## The trailer -/

/-- The digits of the line number. -/
def lineDigits (l : LoggerImpl SIZE) : ℕ := (stdToString l.line).length

/-- The bytes that are left behind the file name. -/
def left (l : LoggerImpl SIZE) : ℕ := room (room l.stream.buf.avail 3) l.file.data.length

theorem lineDigits_pos (l : LoggerImpl SIZE) : 0 < l.lineDigits := by
  have hpos : 0 < (ofChars (Nat.toDigits 10 l.line.natAbs)).length := by
    rw [ofChars, List.length_map]
    exact Nat.length_toDigits_pos
  unfold lineDigits stdToString
  split
  · exact Nat.succ_pos _
  · exact hpos

theorem trailed_avail (l : LoggerImpl SIZE) :
    l.trailed.buf.avail = room (room l.left 1) l.lineDigits := by
  unfold trailed left LogStream.puts LogStream.put LogStream.append
  simp only [FixedBuffer.append_avail]
  rfl

/-- The record is shorter than the buffer, and is what was written up to the line terminator,
and the line terminator. -/
def Framed (l : LoggerImpl SIZE) : Prop :=
  l.destruct.1.length < SIZE ∧ l.destruct.1 = l.trailed.buf.data ++ [newline]

instance (l : LoggerImpl SIZE) : Decidable l.Framed := inferInstanceAs (Decidable (_ ∧ _))

theorem destruct_record (l : LoggerImpl SIZE) :
    l.destruct.1 = (l.trailed.buf.append [newline]).data := by
  unfold destruct finish LogStream.put LogStream.append LogItem.bytes
  dsimp only

theorem framed_of_free_iff (h : Free l.stream) :
    l.Framed ↔ l.left ≠ 1 ∧ l.left ≠ 2 ∧ l.left ≠ l.lineDigits + 2 := by
  have hleft : 0 < l.left := room_pos (room_pos h 3) _
  have hone := room_eq_one_iff hleft l.lineDigits_pos
  rw [← l.trailed_avail] at hone
  have htrailed : Free l.trailed := by
    unfold Free
    rw [l.trailed_avail]
    exact room_pos (room_pos hleft 1) _
  have hshort : (l.trailed.buf.append [newline]).data.length < SIZE := by
    refine FixedBuffer.length_lt_of_avail ?_
    rw [FixedBuffer.append_avail]
    exact room_pos htrailed _
  rw [Framed, destruct_record, and_iff_right hshort, FixedBuffer.append_byte_iff htrailed, ne_eq,
    hone, not_or, not_or]

/-- A logger that is made by any constructor, and into which anything is streamed, hands over
a framed record exactly when something else than one or two bytes, or two more than the line
number has digits, is left behind the file name. -/
theorem framed_iff (hsize : 0 < SIZE) (ctx : LogContext) (args : LoggerArgs)
    (items : List LogItem) (h : (ofArgs ctx args : LoggerImpl SIZE).streamed items = l) :
    l.Framed ↔ l.left ≠ 1 ∧ l.left ≠ 2 ∧ l.left ≠ l.lineDigits + 2 := by
  subst h
  exact framed_of_free_iff (free_streamed (free_ofArgs hsize ctx args) items)

/-- A file logger at noon. -/
def atNoon : LogContext where
  toConsole := false
  time := text "2024-01-01 12:00:00.000 "
  tid := 140000000000000
  errno := 2
  strerror _ := some (text "No such file or directory")

/-- Line 27 of a source file. -/
def line27 : SourceFile := .ofArray (text "src/base/Thread.cc")

theorem openFailed_framed : ∃ l : LoggerImpl kSmallBuffer,
    (ofArgs atNoon (.sys line27 27 false)).streamed
      [.cstr (some (text "open ")), .int (-1)] = l ∧ l.Framed ∧
    l.destruct = (text ("[ERROR] 2024-01-01 12:00:00.000 Tid=140000000000000 " ++
      "No such file or directory (errno=2) - open -1 - Thread.cc:27\n"), false) :=
  ⟨_, rfl, (framed_iff (by decide) atNoon (.sys line27 27 false) _ rfl).mpr (by decide),
    by decide⟩

/-- A string that leaves 16 bytes: the trailer takes 15 of them without the terminator, and
the last one is not used. -/
def longItem : LogItem := .string (List.replicate 3932 (BitVec.ofNat 8 'x'.toNat))

theorem longItem_not_framed : ∃ l : LoggerImpl kSmallBuffer,
    (ofArgs atNoon (.info line27 27)).streamed [longItem] = l ∧
      l.destruct.1.length = 3999 ∧ newline ∉ l.destruct.1 ∧ ¬ l.Framed := by
  obtain ⟨l, hl, hlength, hline⟩ : ∃ l : LoggerImpl kSmallBuffer,
      (ofArgs atNoon (.info line27 27)).streamed [longItem] = l ∧
        l.destruct.1.length = 3999 ∧ newline ∉ l.destruct.1 :=
    ⟨_, rfl, by decide +kernel⟩
  refine ⟨l, hl, hlength, hline, fun h => hline ?_⟩
  rw [h.2]
  exact List.mem_append_right _ List.mem_cons_self

end LoggerImpl

end Muduo
