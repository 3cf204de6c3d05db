import Mathlib.Tactic

/-!
# Files with an offset

A file open for writing: its content and the offset of the next write. Seeking moves the
offset and never changes the content; a write beyond the end fills the gap with zeros. A file
holds a sequence of items if they are read from its start to its offset, where items skipped
at the end count as zeros.
-/

namespace StyLinux.Lib

structure File (α : Type*) where
  content : List α
  offset : ℕ

namespace File

variable {α : Type*}

def empty : File α := ⟨[], 0⟩

/-- `lseek` relative to the current position. -/
def seek (n : ℕ) (f : File α) : File α := { f with offset := f.offset + n }

variable [Zero α]

/-- A write that stores all of `data`; writing nothing changes nothing. -/
def write (data : List α) (f : File α) : File α :=
  if data = [] then f
  else
    { content := f.content.take f.offset ++ List.replicate (f.offset - f.content.length) 0 ++
        data ++ f.content.drop (f.offset + data.length)
      offset := f.offset + data.length }

/-- What is read up to the offset, with a hole at the end read as zeros, is `data`. -/
structure Holds (f : File α) (data : List α) : Prop where
  offset_eq : f.offset = data.length
  read : f.content ++ List.replicate (f.offset - f.content.length) 0 = data

variable {f : File α} {data block : List α}

lemma holds_empty : (empty : File α).Holds [] := ⟨rfl, rfl⟩

lemma Holds.length_le (h : f.Holds data) : f.content.length ≤ f.offset := by
  have hlen := congrArg List.length h.read
  rw [List.length_append, List.length_replicate, ← h.offset_eq] at hlen
  omega

lemma Holds.content_isPrefix (h : f.Holds data) : f.content <+: data := ⟨_, h.read⟩

/-- What is not zero is in the content itself. -/
lemma Holds.getElem?_content (h : f.Holds data) {i : ℕ} {x : α} (hx : x ≠ 0) :
    f.content[i]? = some x ↔ data[i]? = some x := by
  rw [← h.read]
  by_cases hi : i < f.content.length
  · rw [List.getElem?_append_left hi]
  · rw [List.getElem?_append_right (not_lt.mp hi), List.getElem?_eq_none (not_lt.mp hi)]
    refine iff_of_false (by simp) ?_
    intro hgap
    exact hx (List.eq_of_mem_replicate (List.mem_of_getElem? hgap))

lemma Holds.seek (h : f.Holds data) (hzero : ∀ x ∈ block, x = 0) :
    (f.seek block.length).Holds (data ++ block) := by
  have hblock : block = List.replicate block.length 0 := List.eq_replicate_of_mem hzero
  have hle := h.length_le
  constructor
  · rw [List.length_append, ← h.offset_eq]
    rfl
  · have hgap : f.offset + block.length - f.content.length =
        (f.offset - f.content.length) + block.length := by omega
    change f.content ++ List.replicate (f.offset + block.length - f.content.length) 0 = _
    rw [hgap, List.replicate_add, ← List.append_assoc, h.read, ← hblock]

lemma Holds.content_write (h : f.Holds data) (hne : block ≠ []) :
    (f.write block).content = data ++ block := by
  have hle := h.length_le
  unfold File.write
  rw [if_neg hne]
  change f.content.take f.offset ++ _ ++ block ++ f.content.drop (f.offset + block.length) = _
  rw [List.take_of_length_le hle, h.read, List.drop_eq_nil_of_le (by omega), List.append_nil]

lemma offset_write : (f.write block).offset = f.offset + block.length := by
  unfold write
  by_cases hne : block = []
  · simp [hne]
  · rw [if_neg hne]

lemma Holds.write (h : f.Holds data) (hne : block ≠ []) :
    (f.write block).Holds (data ++ block) := by
  have hoffset : (f.write block).offset = (data ++ block).length := by
    rw [offset_write, List.length_append, h.offset_eq]
  constructor
  · exact hoffset
  · rw [h.content_write hne, hoffset, Nat.sub_self, List.replicate_zero, List.append_nil]

end File

end StyLinux.Lib
