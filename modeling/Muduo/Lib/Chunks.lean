/-
# `Muduo.Lib.Chunks` — lines in buffers

A writer puts each line behind the last one in a chunk, or begins a new chunk
with it.  Chunks are whole when nobody has cut them elsewhere than between two
lines: `Cuts chunks lines`.
-/
import Mathlib.Data.List.Basic
import Mathlib.Data.List.Flatten

namespace Chunks

variable {β : Type*} {chunks lines : List (List β)}

/-- Each chunk is a group of consecutive lines, and the groups are the lines in
their order. -/
def Cuts (chunks lines : List (List β)) : Prop :=
  ∃ groups : List (List (List β)), chunks = groups.map List.flatten ∧ groups.flatten = lines

theorem Cuts.flatten (h : Cuts chunks lines) : chunks.flatten = lines.flatten := by
  obtain ⟨groups, rfl, rfl⟩ := h
  exact List.flatten_flatten.symm

/-- The first chunk, and no line yet. -/
theorem cuts_empty : Cuts [([] : List β)] [] := ⟨[[]], rfl, rfl⟩

/-- A chunk without lines. -/
theorem Cuts.snoc_nil (h : Cuts chunks lines) : Cuts (chunks ++ [[]]) lines := by
  obtain ⟨groups, rfl, rfl⟩ := h
  exact ⟨groups ++ [[]], by simp, by simp⟩

/-- A new chunk with a line. -/
theorem Cuts.snoc (h : Cuts chunks lines) (line : List β) :
    Cuts (chunks ++ [line]) (lines ++ [line]) := by
  obtain ⟨groups, rfl, rfl⟩ := h
  exact ⟨groups ++ [[line]], by simp, by simp⟩

/-- A line behind those of the last chunk. -/
theorem Cuts.extend {c : List β} (h : Cuts (chunks ++ [c]) lines) (line : List β) :
    Cuts (chunks ++ [c ++ line]) (lines ++ [line]) := by
  obtain ⟨groups, hg, rfl⟩ := h
  obtain ⟨gs, g, rfl, rfl, hlast⟩ := List.map_eq_append_iff.mp hg.symm
  obtain ⟨last, rfl, rfl⟩ := List.map_eq_singleton_iff.mp hlast
  exact ⟨gs ++ [last ++ [line]], by simp, by simp⟩

/-- Some of the chunks are, in their order, some of the lines. -/
theorem Cuts.sublist {some : List (List β)} (h : Cuts chunks lines) (hs : some.Sublist chunks) :
    ∃ kept, kept.Sublist lines ∧ Cuts some kept := by
  obtain ⟨groups, rfl, rfl⟩ := h
  obtain ⟨gs, hgs, rfl⟩ := List.sublist_map_iff.mp hs
  exact ⟨gs.flatten, hgs.flatten, gs, rfl, rfl⟩

end Chunks
