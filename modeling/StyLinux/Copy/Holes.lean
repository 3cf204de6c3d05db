import Mathlib.Data.List.DropRight
import Mathlib.Tactic
import StyLinux.Copy.ShortWrites

/-!
# What is in the destination

Whatever fails, `sol.c` leaves a destination with the first bytes of the source. When it returns 0,
nothing is missing but the blocks of zeros at the end.
-/

namespace StyLinux.Copy

open Lib

variable {kernel : Kernel} {writeBlock : Kernel → List UInt8 → State → Bool × State}
  {data buffer left source : List UInt8} {s s' : State} {blocksize : ℕ}

/-! ### Any outcome -/

lemma writeLoop_isPrefix {total_written : ℕ}
    (hs : s.file.Holds (data ++ buffer.take total_written)) :
    (Sol.writeLoop kernel buffer total_written s).2.file.content <+: data ++ buffer := by
  have hpart : ∀ k, data ++ buffer.take k <+: data ++ buffer := fun k =>
    (List.prefix_append_right_inj data).mpr (List.take_prefix k buffer)
  fun_induction Sol.writeLoop kernel buffer total_written s with
  | case1 total_written s hlt hwrite => exact hs.content_isPrefix.trans (hpart _)
  | case2 total_written s hlt n hwrite ih =>
    apply ih
    obtain ⟨-, hprogress⟩ := kernel.write_spec hwrite
    have hpos : 0 < n := hprogress (by omega)
    have hne : (buffer.drop total_written).take n ≠ [] := by
      intro he
      have hlen := congrArg List.length he
      rw [List.length_take, List.length_drop, List.length_nil] at hlen
      omega
    have hwritten := hs.write hne
    rwa [List.append_assoc, ← List.take_add] at hwritten
  | case3 total_written s hlt => exact hs.content_isPrefix.trans (hpart _)

/-- A block is skipped or written, and also when that fails the destination has no other bytes. -/
lemma block_isPrefix (hs : s.file.Holds data) :
    (if allZeroBytes buffer then skipBlock kernel buffer.length s
      else Sol.writeAll kernel buffer s).2.file.content <+: data ++ buffer := by
  by_cases hzero : allZeroBytes buffer
  · rw [if_pos hzero]
    have hcontent : (skipBlock kernel buffer.length s).2.file.content = s.file.content := by
      unfold skipBlock
      split
      · rfl
      · split <;> rfl
    rw [hcontent]
    exact hs.content_isPrefix.trans (List.prefix_append _ _)
  · rw [if_neg hzero]
    exact writeLoop_isPrefix (by simpa using hs)

lemma copyLoop_isPrefix (hs : s.file.Holds data) :
    (copyLoop Sol.writeAll kernel blocksize left s).2.file.content <+: data ++ left := by
  induction hlen : left.length using Nat.strong_induction_on generalizing left s data with
  | _ l ih =>
    have hpart : s.file.content <+: data ++ left :=
      hs.content_isPrefix.trans (List.prefix_append _ _)
    cases hread : kernel.read s.reads blocksize left.length with
    | none =>
      rw [copyLoop_of_error hread]
      exact hpart
    | some n =>
      obtain ⟨-, hle, -⟩ := kernel.read_spec hread
      by_cases hn : n = 0
      · subst hn
        rw [copyLoop_of_eof hread]
        exact hpart
      have htake : (left.take n).length = n := List.length_take_of_le hle
      have hblock : (if allZeroBytes (left.take n) then
            skipBlock kernel (left.take n).length s.afterRead
          else Sol.writeAll kernel (left.take n) s.afterRead).2.file.content <+:
            data ++ left.take n :=
        block_isPrefix (show s.afterRead.file.Holds data from hs)
      obtain ⟨⟨ok, s₁⟩, hr⟩ : ∃ r, (if allZeroBytes (left.take n) then
          skipBlock kernel n s.afterRead
        else Sol.writeAll kernel (left.take n) s.afterRead) = r := ⟨_, rfl⟩
      rw [htake, hr] at hblock
      rw [copyLoop_of_block hread hn hr]
      cases ok with
      | false =>
        exact hblock.trans ((List.prefix_append_right_inj data).mpr (List.take_prefix n left))
      | true =>
        have hne : left.take n ≠ [] := by
          intro he
          rw [he] at htake
          exact hn htake.symm
        have hr' : (if allZeroBytes (left.take n) then
            skipBlock kernel (left.take n).length s.afterRead
          else Sol.writeAll kernel (left.take n) s.afterRead) = (true, s₁) := by rwa [htake]
        obtain ⟨hholds, -, -⟩ := block_holds writesBlock_writeAll hne
          (show s.afterRead.file.Holds data from hs) hr'
        have hshorter : (left.drop n).length < l := by
          rw [List.length_drop]
          omega
        have hrest := ih _ hshorter hholds rfl
        rwa [List.append_assoc, List.take_append_drop] at hrest

/-- The destination is empty or is what the loop has left. -/
lemma content_doCopyWith {mode : BitVec 12} {args : CopyArgs} {dest : Destination}
    (hdest : (doCopyWith writeBlock mode (some args) kernel source).2 = some dest) :
    dest.content = [] ∨ dest.content =
      (copyLoop writeBlock kernel args.blocksize source .created).2.file.content := by
  unfold doCopyWith at hdest
  cases hsource : kernel.openSource with
  | false => simp [hsource] at hdest
  | true =>
    cases hstat : kernel.fstat with
    | none => simp [hsource, hstat] at hdest
    | some st_mode =>
      cases hopen : kernel.openDest with
      | false => simp [hsource, hstat, hopen] at hdest
      | true =>
        cases hmalloc : kernel.malloc with
        | false =>
          simp only [hsource, hstat, hopen, hmalloc, Bool.not_true, Bool.not_false,
            Bool.false_eq_true, if_false, if_true, Option.some.injEq] at hdest
          exact .inl (congrArg Destination.content hdest.symm)
        | true =>
          simp only [hsource, hstat, hopen, hmalloc, Bool.not_true, Bool.false_eq_true,
            if_false] at hdest
          refine .inr ?_
          split at hdest
          · exact congrArg Destination.content (Option.some.inj hdest).symm
          · exact congrArg Destination.content (Option.some.inj hdest).symm

/-- Also a copy that fails half-way leaves nothing but the first bytes of the source. -/
theorem Sol.doCopy_isPrefix (args : CopyArgs) (kernel : Kernel) (source : List UInt8)
    {dest : Destination} (hdest : (Sol.doCopy (some args) kernel source).2 = some dest) :
    dest.content <+: source := by
  have hholds : State.created.file.Holds [] := File.holds_empty
  rcases content_doCopyWith hdest with hempty | hcontent
  · rw [hempty]
    exact List.nil_prefix
  · rw [hcontent]
    exact copyLoop_isPrefix hholds

/-- A kernel on which a write stores one byte, and the third one fails. -/
def fullKernel : Kernel :=
  { plainKernel with
    write := fun i count => if i < 2 then some (min count 1) else none
    write_spec := by
      intro i count n h
      split_ifs at h
      cases h
      omega }

/-- The first block is stored byte by byte, and of the second one nothing is. -/
theorem Sol.doCopy_isPrefix_fullKernel :
    (Sol.doCopy (some twoByteBlocks) fullKernel [1, 2, 3]).1 = -1 ∧
      ∀ dest, (Sol.doCopy (some twoByteBlocks) fullKernel [1, 2, 3]).2 = some dest →
        dest.content <+: [1, 2, 3] := by
  refine ⟨?_, fun dest => Sol.doCopy_isPrefix twoByteBlocks fullKernel [1, 2, 3]⟩
  simp [Sol.doCopy, doCopyWith, copyLoop, fullKernel, plainKernel, twoByteBlocks, allZeroBytes,
    Sol.writeAll, Sol.writeLoop, State.created, State.afterRead, State.write]

/-! ### A copy that returns 0 -/

/-- The blocks copied so far, where the blocks of zeros at the end are a hole. -/
structure Blocks (blocks : List (List UInt8)) (f : File UInt8) : Prop where
  holds : f.Holds blocks.flatten
  content : f.content = (blocks.rdropWhile allZeroBytes).flatten

lemma blocks_empty : Blocks [] File.empty := ⟨File.holds_empty, rfl⟩

lemma Blocks.append {blocks : List (List UInt8)} (hwrite : WritesBlock kernel writeBlock)
    (hne : buffer ≠ []) (hs : Blocks blocks s.file)
    (h : (if allZeroBytes buffer then skipBlock kernel buffer.length s
      else writeBlock kernel buffer s) = (true, s')) :
    Blocks (blocks ++ [buffer]) s'.file ∧ s'.reads = s.reads := by
  obtain ⟨hholds, hcontent, hreads⟩ := block_holds hwrite hne hs.holds h
  have hflatten : (blocks ++ [buffer]).flatten = blocks.flatten ++ buffer := by simp
  refine ⟨⟨hflatten ▸ hholds, ?_⟩, hreads⟩
  by_cases hzero : allZeroBytes buffer
  · rw [if_pos hzero] at h
    rw [List.rdropWhile_concat_pos _ _ _ hzero, ← hs.content, skipBlock_eq h]
    rfl
  · rw [List.rdropWhile_concat_neg _ _ _ hzero, hflatten]
    exact hcontent.mpr hzero

lemma copyLoop_blocks {blocks : List (List UInt8)} (hwrite : WritesBlock kernel writeBlock)
    (hpos : 0 < blocksize) (hs : Blocks blocks s.file)
    (h : copyLoop writeBlock kernel blocksize left s = (0, s')) :
    Blocks (blocks ++ kernel.blocks blocksize s.reads left) s'.file ∧
      (kernel.blocks blocksize s.reads left).flatten = left := by
  induction hlen : left.length using Nat.strong_induction_on generalizing left s blocks with
  | _ l ih =>
    rcases copyLoop_cases hpos h with
      ⟨rfl, hblocks, rfl⟩ | ⟨block, rest, s₁, rfl, hne, hblocks, hblock, hloop⟩
    · rw [hblocks, List.append_nil]
      exact ⟨hs, rfl⟩
    · obtain ⟨hs₁, hreads⟩ := Blocks.append hwrite hne
        (show Blocks blocks s.afterRead.file from hs) hblock
      have hshorter : rest.length < l := by
        have hpos := List.length_pos_iff.mpr hne
        rw [List.length_append] at hlen
        omega
      obtain ⟨hrest, hflatten⟩ := ih _ hshorter hs₁ hloop rfl
      have hreads' : s₁.reads = s.reads + 1 := hreads
      rw [hreads'] at hrest hflatten
      rw [hblocks, List.flatten_cons, hflatten]
      exact ⟨by simpa using hrest, rfl⟩

/-- The destination has the blocks of the source, less those of zeros at its end. -/
structure CopiedToHole (blocks : List (List UInt8)) (source : List UInt8) (dest : Destination) :
    Prop where
  whole : blocks.flatten = source
  content : dest.content = (blocks.rdropWhile allZeroBytes).flatten
  hole : ∃ n, source = dest.content ++ List.replicate n 0

/-- However the reads and writes are split, a copy that returns 0 lacks the blocks of zeros at the
end of the source, and nothing else. -/
theorem Sol.copiedToHole (args : CopyArgs) (kernel : Kernel) (source : List UInt8)
    (hzero : (Sol.doCopy (some args) kernel source).1 = 0) :
    ∃ dest, (Sol.doCopy (some args) kernel source).2 = some dest ∧
      CopiedToHole (kernel.blocks args.blocksize 0 source) source dest := by
  obtain ⟨s, m, hloop, heq⟩ := doCopyWith_eq_zero hzero
  obtain ⟨hblocks, hflatten⟩ :=
    copyLoop_blocks writesBlock_writeAll args.blocksize_pos blocks_empty hloop
  rw [List.nil_append] at hblocks
  have hread := hblocks.holds.read
  refine ⟨⟨s.file.content, m⟩, by rw [Sol.doCopy, heq], hflatten, hblocks.content, ?_⟩
  exact ⟨_, (hread.trans hflatten).symm⟩

/-- The zeros between the data are copied, and those in the last block are not. -/
theorem Sol.copiedToHole_zeroLast : ∃ dest : Destination,
    (Sol.doCopy (some twoByteBlocks) byteKernel [1, 0, 0, 0, 0, 2, 0, 0]).2 = some dest ∧
      CopiedToHole (byteKernel.blocks twoByteBlocks.blocksize 0 [1, 0, 0, 0, 0, 2, 0, 0])
        [1, 0, 0, 0, 0, 2, 0, 0] dest := by
  refine Sol.copiedToHole twoByteBlocks byteKernel [1, 0, 0, 0, 0, 2, 0, 0] ?_
  simp [Sol.doCopy, doCopyWith, copyLoop, byteKernel, plainKernel, twoByteBlocks, allZeroBytes,
    skipBlock, Sol.writeAll, Sol.writeLoop, State.created, State.afterRead, State.seek, State.write]

end StyLinux.Copy
