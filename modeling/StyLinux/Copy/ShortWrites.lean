import Mathlib.Tactic
import StyLinux.Copy.Contents

/-!
# Short writes

`copy.c` calls `write` once for a block and does not look at how much of it was stored, so a short
write loses the rest of the block and moves everything after it towards the start. The bytes that
are not zero stay at their places exactly if nothing but zeros is lost or moved. `sol.c` writes the
rest of the block.
-/

namespace StyLinux.Copy

open Lib

variable {kernel : Kernel} {data src dst source : List UInt8} {s s' : State} {blocksize : ℕ}

/-! ### Bytes at their places -/

/-- Every byte of `src` that is not zero is in `dst` at the same offset. -/
def Keeps (src dst : List UInt8) : Prop :=
  ∀ (i : ℕ) (byte : UInt8), src[i]? = some byte → byte ≠ 0 → dst[i]? = some byte

lemma keeps_append_left (pre : List UInt8) : Keeps (pre ++ src) (pre ++ dst) ↔ Keeps src dst := by
  have hshift : ∀ (l : List UInt8) (i : ℕ), (pre ++ l)[pre.length + i]? = l[i]? := by
    intro l i
    rw [List.getElem?_append_right (by omega), Nat.add_sub_cancel_left]
  constructor
  · intro h i byte hi hne
    rw [← hshift] at hi ⊢
    exact h _ byte hi hne
  · intro h i byte hi hne
    by_cases hlt : i < pre.length
    · rwa [List.getElem?_append_left hlt] at hi ⊢
    · rw [List.getElem?_append_right (not_lt.mp hlt)] at hi ⊢
      exact h _ byte hi hne

lemma keeps_of_zero (hzero : allZeroBytes src) : Keeps src dst := by
  intro i byte hi hne
  exact absurd (allZeroBytes_iff.mp hzero byte (List.mem_of_getElem? hi)) hne

lemma keeps_content_iff {f : File UInt8} (h : f.Holds data) :
    Keeps src f.content ↔ Keeps src data := by
  constructor
  · intro hkeeps i byte hi hne
    exact (h.getElem?_content hne).mp (hkeeps i byte hi hne)
  · intro hkeeps i byte hi hne
    exact (h.getElem?_content hne).mpr (hkeeps i byte hi hne)

/-- There is a last byte that is not zero. -/
lemma exists_last_nonzero (hne : ¬allZeroBytes src) :
    ∃ (i : ℕ) (byte : UInt8), src[i]? = some byte ∧ byte ≠ 0 ∧
      ∀ (j : ℕ) (byte' : UInt8), i < j → src[j]? = some byte' → byte' = 0 := by
  induction src using List.reverseRecOn with
  | nil => exact absurd rfl hne
  | append_singleton src b ih =>
    by_cases hb : b = 0
    · subst hb
      have hrest : ¬allZeroBytes src := by simpa [allZeroBytes] using hne
      obtain ⟨i, byte, hi, hbyte, hlast⟩ := ih hrest
      have hlt : i < src.length := (List.getElem?_eq_some_iff.mp hi).1
      refine ⟨i, byte, by rwa [List.getElem?_append_left hlt], hbyte, ?_⟩
      intro j byte' hj hjb
      by_cases hjlt : j < src.length
      · rw [List.getElem?_append_left hjlt] at hjb
        exact hlast j byte' hj hjb
      · rw [List.getElem?_append_right (not_lt.mp hjlt)] at hjb
        exact List.mem_singleton.mp (List.mem_of_getElem? hjb)
    · refine ⟨src.length, b, by simp, hb, ?_⟩
      intro j byte' hj hjb
      rw [List.getElem?_append_right hj.le] at hjb
      have hlt := (List.getElem?_eq_some_iff.mp hjb).1
      rw [List.length_singleton] at hlt
      omega

/-- Bytes that have moved towards the start are not at their places. -/
lemma not_keeps_of_sublist {lost rest : List UInt8} (hsub : dst.Sublist rest) (hlost : lost ≠ [])
    (hne : ¬allZeroBytes (lost ++ rest)) : ¬Keeps (lost ++ rest) dst := by
  intro hkeeps
  obtain ⟨i, byte, hi, hbyte, hlast⟩ := exists_last_nonzero hne
  obtain ⟨f, hf⟩ := List.sublist_iff_exists_orderEmbedding_getElem?_eq.mp hsub
  have hmoved : (lost ++ rest)[lost.length + f i]? = some byte := by
    rw [List.getElem?_append_right (by omega), Nat.add_sub_cancel_left, ← hf]
    exact hkeeps i byte hi hbyte
  have hle : i ≤ f i := f.strictMono.le_apply
  have hpos := List.length_pos_iff.mpr hlost
  exact hbyte (hlast _ byte (by omega) hmoved)

/-! ### What is stored of the blocks -/

/-- What is stored of a block by the write that comes after `w` others. -/
def Kernel.stored (kernel : Kernel) (w : ℕ) (block : List UInt8) : List UInt8 :=
  block.take ((kernel.write w block.length).getD 0)

/-- What is lost of a block by that write. -/
def Kernel.lost (kernel : Kernel) (w : ℕ) (block : List UInt8) : List UInt8 :=
  block.drop ((kernel.write w block.length).getD 0)

/-- What `copy.c` brings to the destination of the blocks, after `w` writes. -/
def Kernel.brought (kernel : Kernel) : ℕ → List (List UInt8) → List UInt8
  | _, [] => []
  | w, block :: blocks =>
    if allZeroBytes block then block ++ kernel.brought w blocks
    else kernel.stored w block ++ kernel.brought (w + 1) blocks

/-- No write is short before the last byte that is not zero: if one loses bytes of its block, then
these and all bytes after them are zeros. -/
def Kernel.LosesZeros (kernel : Kernel) : ℕ → List (List UInt8) → Prop
  | _, [] => True
  | w, block :: blocks =>
    if allZeroBytes block then kernel.LosesZeros w blocks
    else (kernel.lost w block = [] ∨ allZeroBytes (kernel.lost w block ++ blocks.flatten)) ∧
      kernel.LosesZeros (w + 1) blocks

section Blocks

variable {block : List UInt8} {blocks : List (List UInt8)} {w : ℕ}

lemma stored_append_lost (kernel : Kernel) (w : ℕ) (block : List UInt8) :
    kernel.stored w block ++ kernel.lost w block = block := List.take_append_drop _ _

lemma brought_sublist : (kernel.brought w blocks).Sublist blocks.flatten := by
  induction blocks generalizing w with
  | nil => exact List.Sublist.refl _
  | cons block blocks ih =>
    rw [Kernel.brought, List.flatten_cons]
    split
    · exact List.Sublist.append (List.Sublist.refl _) ih
    · exact List.Sublist.append (List.take_sublist _ _) ih

lemma losesZeros_of_zero (hzero : allZeroBytes blocks.flatten) : kernel.LosesZeros w blocks := by
  induction blocks generalizing w with
  | nil => trivial
  | cons block blocks ih =>
    rw [allZeroBytes_iff, List.flatten_cons, List.forall_mem_append] at hzero
    rw [Kernel.LosesZeros, if_pos (allZeroBytes_iff.mpr hzero.1)]
    exact ih (allZeroBytes_iff.mpr hzero.2)

/-- The bytes are at their places exactly if only zeros are lost or moved. -/
lemma keeps_brought_iff :
    Keeps blocks.flatten (kernel.brought w blocks) ↔ kernel.LosesZeros w blocks := by
  induction blocks generalizing w with
  | nil => exact iff_of_true (keeps_of_zero rfl) trivial
  | cons block blocks ih =>
    rw [Kernel.brought, Kernel.LosesZeros, List.flatten_cons]
    by_cases hblock : allZeroBytes block
    · rw [if_pos hblock, if_pos hblock, keeps_append_left, ih]
    · rw [if_neg hblock, if_neg hblock]
      nth_rewrite 1 [← stored_append_lost kernel w block]
      rw [List.append_assoc, keeps_append_left]
      by_cases hlost : kernel.lost w block = []
      · simp [hlost, ih]
      · by_cases hzero : allZeroBytes (kernel.lost w block ++ blocks.flatten)
        · have hrest : allZeroBytes blocks.flatten := by
            rw [allZeroBytes_iff, List.forall_mem_append] at hzero
            exact allZeroBytes_iff.mpr hzero.2
          exact iff_of_true (keeps_of_zero hzero) ⟨.inr hzero, losesZeros_of_zero hrest⟩
        · refine iff_of_false (not_keeps_of_sublist brought_sublist hlost hzero) ?_
          rintro ⟨hor, -⟩
          exact hor.elim hlost hzero

/-- What a block adds to the destination of `copy.c`. -/
lemma block_brought (hne : block ≠ []) (hs : s.file.Holds data)
    (h : (if allZeroBytes block then skipBlock kernel block.length s
      else writeOnce kernel block s) = (true, s')) :
    s'.file.Holds (data ++ if allZeroBytes block then block else kernel.stored s.writes block) ∧
      s'.reads = s.reads ∧
      s'.writes = if allZeroBytes block then s.writes else s.writes + 1 := by
  by_cases hzero : allZeroBytes block
  · rw [if_pos hzero] at h ⊢
    have hs' := skipBlock_eq h
    obtain ⟨hholds, -, hreads⟩ := skipBlock_holds hne hzero hs h
    refine ⟨hholds, hreads, ?_⟩
    rw [if_pos hzero, hs']
    rfl
  · rw [if_neg hzero] at h ⊢
    unfold writeOnce at h
    split at h
    · simp at h
    · rename_i n hn
      obtain ⟨hle, hpos⟩ := kernel.write_spec hn
      obtain rfl : s.write (block.take n) = s' := (Prod.ext_iff.mp h).2
      have hstored : kernel.stored s.writes block = block.take n := by
        unfold Kernel.stored
        rw [hn, Option.getD_some]
      have hpart : block.take n ≠ [] := by
        intro he
        have hlen := congrArg List.length he
        rw [List.length_take_of_le hle, List.length_nil] at hlen
        have hlt := hpos (List.length_pos_iff.mpr hne)
        omega
      rw [hstored, if_neg hzero]
      exact ⟨hs.write hpart, rfl, rfl⟩

end Blocks

/-! ### The copy -/

/-- What the loop of `copy.c` leaves behind when it ends without error. -/
lemma copyLoop_brought {left : List UInt8} (hpos : 0 < blocksize) (hs : s.file.Holds data)
    (h : copyLoop writeOnce kernel blocksize left s = (0, s')) :
    s'.file.Holds (data ++ kernel.brought s.writes (kernel.blocks blocksize s.reads left)) ∧
      (kernel.blocks blocksize s.reads left).flatten = left := by
  induction hlen : left.length using Nat.strong_induction_on generalizing left s data with
  | _ l ih =>
    rcases copyLoop_cases hpos h with
      ⟨rfl, hblocks, rfl⟩ | ⟨block, rest, s₁, rfl, hne, hblocks, hblock, hloop⟩
    · rw [hblocks, Kernel.brought, List.append_nil]
      exact ⟨hs, rfl⟩
    · obtain ⟨hholds, hreads, hwrites⟩ :=
        block_brought hne (show s.afterRead.file.Holds data from hs) hblock
      have hshorter : rest.length < l := by
        have hpos := List.length_pos_iff.mpr hne
        rw [List.length_append] at hlen
        omega
      obtain ⟨hholds', hflatten⟩ := ih _ hshorter hholds hloop rfl
      have hreads' : s₁.reads = s.reads + 1 := hreads
      have hafter : s.afterRead.writes = s.writes := rfl
      rw [hreads', hwrites, hafter, List.append_assoc] at hholds'
      rw [hreads'] at hflatten
      rw [hblocks, List.flatten_cons, hflatten, Kernel.brought]
      refine ⟨?_, rfl⟩
      by_cases hzero : allZeroBytes block
      · simpa [hzero] using hholds'
      · simpa [hzero] using hholds'

/-- The destination was created and has the bytes of the source that are not zero, at the same
offsets. -/
def NonzeroCopied (source : List UInt8) (r : ℤ × Option Destination) : Prop :=
  ∃ dest, r.2 = some dest ∧ Keeps source dest.content

/-- A copy that returns 0 has every byte of the source that is not zero at its place exactly if no
write was short before the last such byte. -/
theorem nonzeroCopied_iff_losesZeros (args : CopyArgs) (kernel : Kernel) (source : List UInt8)
    (hzero : (doCopy (some args) kernel source).1 = 0) :
    NonzeroCopied source (doCopy (some args) kernel source) ↔
      kernel.LosesZeros 0 (kernel.blocks args.blocksize 0 source) := by
  obtain ⟨s, m, hloop, heq⟩ := doCopyWith_eq_zero hzero
  obtain ⟨hholds, hflatten⟩ := copyLoop_brought args.blocksize_pos File.holds_empty hloop
  rw [List.nil_append] at hholds
  have hcopied : NonzeroCopied source (doCopy (some args) kernel source) ↔
      Keeps source s.file.content := by
    unfold doCopy
    rw [heq]
    simp [NonzeroCopied]
  rw [hcopied, ← keeps_brought_iff, keeps_content_iff hholds]
  have hsource : (kernel.blocks args.blocksize 0 source).flatten = source := hflatten
  rw [hsource]
  rfl

/-- `sol.c` keeps every such byte at its place, however the writes are split. -/
theorem Sol.nonzeroCopied (args : CopyArgs) (kernel : Kernel) (source : List UInt8)
    (hzero : (Sol.doCopy (some args) kernel source).1 = 0) :
    NonzeroCopied source (Sol.doCopy (some args) kernel source) := by
  obtain ⟨s, m, hloop, heq⟩ := doCopyWith_eq_zero hzero
  obtain ⟨hholds, -⟩ :=
    copyLoop_holds writesBlock_writeAll args.blocksize_pos File.holds_empty hloop
  rw [List.nil_append] at hholds
  unfold Sol.doCopy
  rw [heq]
  exact ⟨_, rfl, (keeps_content_iff hholds).mpr fun _ _ hi _ => hi⟩

/-- A kernel on which a write stores one byte. -/
def byteKernel : Kernel :=
  { plainKernel with
    write := fun _ count => some (min count 1)
    write_spec := by
      intro i count n h
      cases h
      omega }

def twoByteBlocks : CopyArgs := ⟨2, Nat.two_pos⟩

lemma blocks_twoByteBlocks (a b : UInt8) :
    byteKernel.blocks twoByteBlocks.blocksize 0 [a, b] = [[a, b]] := by
  simp [Kernel.blocks, byteKernel, plainKernel, twoByteBlocks]

lemma doCopy_twoByteBlocks (a b : UInt8) (ha : a ≠ 0) :
    doCopy (some twoByteBlocks) byteKernel [a, b] = (0, some ⟨[a], 0o600#12⟩) := by
  simp [doCopy, doCopyWith, copyLoop, byteKernel, plainKernel, twoByteBlocks, allZeroBytes,
    writeOnce, State.created, State.afterRead, State.write, File.write, File.empty, ha]

/-- The second byte of the block is lost. -/
theorem not_nonzeroCopied_shortWrite :
    (doCopy (some twoByteBlocks) byteKernel [1, 2]).1 = 0 ∧
      ¬NonzeroCopied [1, 2] (doCopy (some twoByteBlocks) byteKernel [1, 2]) := by
  rw [doCopy_twoByteBlocks 1 2 (by decide)]
  refine ⟨rfl, ?_⟩
  rintro ⟨dest, hdest, hkeeps⟩
  cases hdest
  have hsecond := hkeeps 1 2 rfl (by decide)
  simp at hsecond

/-- A zero is lost, which the destination may do without. -/
theorem nonzeroCopied_shortWrite :
    NonzeroCopied [1, 0] (doCopy (some twoByteBlocks) byteKernel [1, 0]) := by
  have hzero : (doCopy (some twoByteBlocks) byteKernel [1, 0]).1 = 0 := by
    rw [doCopy_twoByteBlocks 1 0 (by decide)]
  refine (nonzeroCopied_iff_losesZeros twoByteBlocks byteKernel [1, 0] hzero).mpr ?_
  rw [blocks_twoByteBlocks]
  simp [Kernel.LosesZeros, Kernel.lost, byteKernel, allZeroBytes]

end StyLinux.Copy
