import Mathlib.Tactic
import StyLinux.Copy.Model

/-!
# The copied bytes

After every block the destination holds the bytes read so far, where a hole at its end reads as
zeros. A block that is written closes the hole and a block that is skipped opens one, and nothing
closes it after the last block: the copy is complete exactly when the last block was written.
-/

namespace StyLinux.Copy

open Lib

variable {kernel : Kernel} {writeBlock : Kernel → List UInt8 → State → Bool × State}
  {data buffer left source : List UInt8} {s s' : State} {blocksize : ℕ}

/-- The blocks into which the kernel splits the bytes left, from the `i`-th read on. -/
def Kernel.blocks (kernel : Kernel) (blocksize i : ℕ) (left : List UInt8) : List (List UInt8) :=
  match hread : kernel.read i blocksize left.length with
  | none => []
  | some bytes_read =>
    if bytes_read = 0 then []
    else left.take bytes_read :: kernel.blocks blocksize (i + 1) (left.drop bytes_read)
termination_by left.length
decreasing_by
  have hle := (kernel.read_spec hread).2.1
  rw [List.length_drop]
  omega

/-- The last block has a byte that is not zero, or there is no block. -/
def EndsInData (blocks : List (List UInt8)) : Prop :=
  ∀ block ∈ blocks.getLast?, ¬allZeroBytes block

/-- Every write stores all it is given. -/
def Kernel.WritesAll (kernel : Kernel) : Prop :=
  ∀ i count n, kernel.write i count = some n → n = count

/-- Writing a block that succeeds adds the block to what the destination holds. -/
def WritesBlock (kernel : Kernel) (writeBlock : Kernel → List UInt8 → State → Bool × State) :
    Prop :=
  ∀ buffer s s' data, buffer ≠ [] → s.file.Holds data →
    writeBlock kernel buffer s = (true, s') →
    s'.file.Holds (data ++ buffer) ∧ s'.file.content = data ++ buffer ∧ s'.reads = s.reads

/-! ### One block -/

lemma allZeroBytes_iff : allZeroBytes buffer ↔ ∀ byte ∈ buffer, byte = 0 := by
  simp [allZeroBytes]

lemma skipBlock_eq {n : ℕ} (h : skipBlock kernel n s = (true, s')) :
    s' = (s.seek 0).seek n := by
  unfold skipBlock at h
  split at h
  · simp at h
  · split at h
    · simp at h
    · exact (Prod.ext_iff.mp h).2.symm

lemma skipBlock_holds (hne : buffer ≠ []) (hzero : allZeroBytes buffer)
    (hs : s.file.Holds data) (h : skipBlock kernel buffer.length s = (true, s')) :
    s'.file.Holds (data ++ buffer) ∧ s'.file.content ≠ data ++ buffer ∧ s'.reads = s.reads := by
  have hs' := skipBlock_eq h
  subst hs'
  have hseek : ((s.seek 0).seek buffer.length).file = s.file.seek buffer.length := rfl
  rw [hseek]
  refine ⟨hs.seek (allZeroBytes_iff.mp hzero), ?_, rfl⟩
  intro he
  have hcontent : (s.file.seek buffer.length).content = s.file.content := rfl
  have hlen := congrArg List.length (hcontent ▸ he)
  have hle := hs.length_le
  have hpos := List.length_pos_iff.mpr hne
  rw [List.length_append, ← hs.offset_eq] at hlen
  omega

/-- After a block the destination is complete exactly when the block was not skipped. -/
lemma block_holds (hwrite : WritesBlock kernel writeBlock) (hne : buffer ≠ [])
    (hs : s.file.Holds data)
    (h : (if allZeroBytes buffer then skipBlock kernel buffer.length s
      else writeBlock kernel buffer s) = (true, s')) :
    s'.file.Holds (data ++ buffer) ∧ (s'.file.content = data ++ buffer ↔ ¬allZeroBytes buffer) ∧
      s'.reads = s.reads := by
  by_cases hzero : allZeroBytes buffer
  · rw [if_pos hzero] at h
    obtain ⟨hholds, hcontent, hreads⟩ := skipBlock_holds hne hzero hs h
    exact ⟨hholds, by simp [hcontent, hzero], hreads⟩
  · rw [if_neg hzero] at h
    obtain ⟨hholds, hcontent, hreads⟩ := hwrite _ _ _ _ hne hs h
    exact ⟨hholds, by simp [hcontent, hzero], hreads⟩

/-! ### The loop -/

section Unfolding

variable {n i : ℕ}

lemma copyLoop_of_error (hread : kernel.read s.reads blocksize left.length = none) :
    copyLoop writeBlock kernel blocksize left s = (-1, s.afterRead) := by
  unfold copyLoop
  split
  · rfl
  · simp_all

lemma copyLoop_of_eof (hread : kernel.read s.reads blocksize left.length = some 0) :
    copyLoop writeBlock kernel blocksize left s = (0, s.afterRead) := by
  unfold copyLoop
  split
  · simp_all
  · simp_all

lemma copyLoop_of_block (hread : kernel.read s.reads blocksize left.length = some n)
    (hn : n ≠ 0) {r : Bool × State}
    (hr : (if allZeroBytes (left.take n) then skipBlock kernel n s.afterRead
      else writeBlock kernel (left.take n) s.afterRead) = r) :
    copyLoop writeBlock kernel blocksize left s =
      if r.1 then copyLoop writeBlock kernel blocksize (left.drop n) r.2 else (-1, r.2) := by
  conv_lhs => unfold copyLoop
  split
  · simp_all
  · rename_i m hm
    obtain rfl : m = n := Option.some.inj (hm.symm.trans hread)
    rw [if_neg hn]
    simp only [hr]

lemma blocks_of_eof (hread : kernel.read i blocksize left.length = some 0) :
    kernel.blocks blocksize i left = [] := by
  unfold Kernel.blocks
  split
  · rfl
  · simp_all

lemma blocks_of_block (hread : kernel.read i blocksize left.length = some n) (hn : n ≠ 0) :
    kernel.blocks blocksize i left =
      left.take n :: kernel.blocks blocksize (i + 1) (left.drop n) := by
  conv_lhs => unfold Kernel.blocks
  split
  · simp_all
  · rename_i m hm
    obtain rfl : m = n := Option.some.inj (hm.symm.trans hread)
    rw [if_neg hn]

end Unfolding

lemma endsInData_nil : EndsInData [] := by simp [EndsInData]

lemma endsInData_cons {block : List UInt8} {blocks : List (List UInt8)} :
    EndsInData (block :: blocks) ↔
      EndsInData blocks ∧ (blocks = [] → ¬allZeroBytes block) := by
  cases blocks with
  | nil => simp [EndsInData]
  | cons b bs => simp [EndsInData, List.getLast?_cons_cons]

/-- A loop that ends without error is at the end of the source, or it goes on behind a block. -/
lemma copyLoop_cases (hpos : 0 < blocksize)
    (h : copyLoop writeBlock kernel blocksize left s = (0, s')) :
    (left = [] ∧ kernel.blocks blocksize s.reads left = [] ∧ s' = s.afterRead) ∨
      ∃ block rest s₁, left = block ++ rest ∧ block ≠ [] ∧
        kernel.blocks blocksize s.reads left =
          block :: kernel.blocks blocksize (s.reads + 1) rest ∧
        (if allZeroBytes block then skipBlock kernel block.length s.afterRead
          else writeBlock kernel block s.afterRead) = (true, s₁) ∧
        copyLoop writeBlock kernel blocksize rest s₁ = (0, s') := by
  cases hread : kernel.read s.reads blocksize left.length with
  | none =>
    rw [copyLoop_of_error hread] at h
    simp at h
  | some n =>
    obtain ⟨-, hle, hprogress⟩ := kernel.read_spec hread
    by_cases hn : n = 0
    · subst hn
      -- the end of the source
      have hleft : left = [] := by
        by_contra hne
        exact absurd (hprogress hpos (List.length_pos_iff.mpr hne)) (lt_irrefl 0)
      rw [copyLoop_of_eof hread] at h
      exact .inl ⟨hleft, blocks_of_eof hread, (Prod.ext_iff.mp h).2.symm⟩
    · have htake : (left.take n).length = n := List.length_take_of_le hle
      have hne : left.take n ≠ [] := by
        intro he
        rw [he] at htake
        exact hn htake.symm
      obtain ⟨⟨ok, s₁⟩, hr⟩ : ∃ r, (if allZeroBytes (left.take n) then
          skipBlock kernel n s.afterRead
        else writeBlock kernel (left.take n) s.afterRead) = r := ⟨_, rfl⟩
      rw [copyLoop_of_block hread hn hr] at h
      cases ok with
      | false => simp at h
      | true =>
        refine .inr ⟨left.take n, left.drop n, s₁, (List.take_append_drop n left).symm, hne,
          blocks_of_block hread hn, ?_, h⟩
        rw [htake, hr]

/-- What the loop leaves behind when it ends without error. -/
lemma copyLoop_holds (hwrite : WritesBlock kernel writeBlock) (hpos : 0 < blocksize)
    (hs : s.file.Holds data) (h : copyLoop writeBlock kernel blocksize left s = (0, s')) :
    s'.file.Holds (data ++ left) ∧ (s'.file.content = data ++ left ↔
      EndsInData (kernel.blocks blocksize s.reads left) ∧
        (kernel.blocks blocksize s.reads left = [] → s.file.content = data)) := by
  induction hlen : left.length using Nat.strong_induction_on generalizing left s data with
  | _ l ih =>
    rcases copyLoop_cases hpos h with
      ⟨rfl, hblocks, rfl⟩ | ⟨block, rest, s₁, rfl, hne, hblocks, hblock, hloop⟩
    · rw [hblocks, List.append_nil]
      exact ⟨hs, by simp [endsInData_nil, State.afterRead]⟩
    · obtain ⟨hholds, hcontent, hreads⟩ :=
        block_holds hwrite hne (show s.afterRead.file.Holds data from hs) hblock
      have hshorter : rest.length < l := by
        have hpos := List.length_pos_iff.mpr hne
        rw [List.length_append] at hlen
        omega
      obtain ⟨hholds', hcontent'⟩ := ih _ hshorter hholds hloop rfl
      have hreads' : s₁.reads = s.reads + 1 := hreads
      rw [List.append_assoc] at hholds' hcontent'
      rw [hreads', hcontent] at hcontent'
      refine ⟨hholds', ?_⟩
      rw [hcontent', hblocks, endsInData_cons]
      simp

/-! ### Writing a block -/

lemma writesBlock_writeOnce (hall : kernel.WritesAll) : WritesBlock kernel writeOnce := by
  intro buffer s s' data hne hs h
  unfold writeOnce at h
  split at h
  · simp at h
  · rename_i n hn
    have hcount := hall _ _ _ hn
    obtain rfl : s.write (buffer.take n) = s' := (Prod.ext_iff.mp h).2
    rw [hcount, List.take_length]
    exact ⟨hs.write hne, hs.content_write hne, rfl⟩

lemma writeLoop_holds {total_written : ℕ}
    (hs : s.file.Holds (data ++ buffer.take total_written))
    (hcontent : 0 < total_written → s.file.content = data ++ buffer.take total_written)
    (h : Sol.writeLoop kernel buffer total_written s = (true, s')) :
    s'.file.Holds (data ++ buffer) ∧ (buffer ≠ [] → s'.file.content = data ++ buffer) ∧
      s'.reads = s.reads := by
  fun_induction Sol.writeLoop kernel buffer total_written s with
  | case1 total_written s hlt hwrite => simp at h
  | case2 total_written s hlt n hwrite ih =>
    obtain ⟨hle, hprogress⟩ := kernel.write_spec hwrite
    have hpos : 0 < n := hprogress (by omega)
    have hpart : (buffer.drop total_written).take n ≠ [] := by
      intro he
      have hlen := congrArg List.length he
      rw [List.length_take, List.length_drop, List.length_nil] at hlen
      omega
    have happend : data ++ buffer.take total_written ++ (buffer.drop total_written).take n =
        data ++ buffer.take (total_written + n) := by
      rw [List.append_assoc, List.take_add]
    have hwritten := hs.write hpart
    have hcontent' := hs.content_write hpart
    rw [happend] at hwritten hcontent'
    exact ih hwritten (fun _ => hcontent') h
  | case3 total_written s hlt =>
    obtain rfl : s = s' := (Prod.ext_iff.mp h).2
    rw [List.take_of_length_le (by omega)] at hs hcontent
    refine ⟨hs, ?_, rfl⟩
    intro hne
    have hpos := List.length_pos_iff.mpr hne
    exact hcontent (by omega)

/-- `sol.c` writes the whole block however the kernel splits the writes. -/
lemma writesBlock_writeAll : WritesBlock kernel Sol.writeAll := by
  intro buffer s s' data hne hs h
  have hs' : s.file.Holds (data ++ buffer.take 0) := by simpa using hs
  obtain ⟨hholds, hcontent, hreads⟩ := writeLoop_holds hs' (fun h0 => absurd h0 (lt_irrefl 0)) h
  exact ⟨hholds, hcontent hne, hreads⟩

/-! ### The copy -/

/-- The destination was created and has exactly the bytes of the source. -/
def Copied (source : List UInt8) (r : ℤ × Option Destination) : Prop :=
  ∃ dest, r.2 = some dest ∧ dest.content = source

/-- A copy that returns 0 went through the loop without error. -/
lemma doCopyWith_eq_zero {mode : BitVec 12} {args : CopyArgs}
    (h : (doCopyWith writeBlock mode (some args) kernel source).1 = 0) :
    ∃ s m, copyLoop writeBlock kernel args.blocksize source .created = (0, s) ∧
      doCopyWith writeBlock mode (some args) kernel source = (0, some ⟨s.file.content, m⟩) := by
  obtain ⟨⟨code, s⟩, hloop⟩ :
      ∃ r, copyLoop writeBlock kernel args.blocksize source .created = r := ⟨_, rfl⟩
  unfold doCopyWith at h ⊢
  cases hsource : kernel.openSource with
  | false => simp [hsource] at h
  | true =>
    cases hstat : kernel.fstat with
    | none => simp [hsource, hstat] at h
    | some st_mode =>
      cases hdest : kernel.openDest with
      | false => simp [hsource, hstat, hdest] at h
      | true =>
        cases hmalloc : kernel.malloc with
        | false => simp [hsource, hstat, hdest, hmalloc] at h
        | true =>
          simp only [hsource, hstat, hdest, hmalloc, hloop, Bool.not_true, Bool.false_eq_true,
            if_false] at h ⊢
          by_cases hcode : code = 0 ∧ kernel.fchmod = true
          · rw [if_pos hcode]
            exact ⟨s, st_mode, by rw [hcode.1], by rw [hcode.1]⟩
          · rw [if_neg hcode] at h ⊢
            obtain rfl : code = 0 := h
            exact ⟨s, _, rfl, rfl⟩

lemma doCopyWith_copied_iff {mode : BitVec 12} {args : CopyArgs}
    (hwrite : WritesBlock kernel writeBlock)
    (h : (doCopyWith writeBlock mode (some args) kernel source).1 = 0) :
    Copied source (doCopyWith writeBlock mode (some args) kernel source) ↔
      EndsInData (kernel.blocks args.blocksize 0 source) := by
  obtain ⟨s, m, hloop, heq⟩ := doCopyWith_eq_zero h
  obtain ⟨-, hcontent⟩ := copyLoop_holds hwrite args.blocksize_pos File.holds_empty hloop
  have hcopied : Copied source (doCopyWith writeBlock mode (some args) kernel source) ↔
      s.file.content = source := by
    rw [heq]
    simp [Copied]
  rw [hcopied]
  simpa [State.created, File.empty] using hcontent

/-- A copy that returns 0, in either version, has the bytes of the source exactly if the last
block that was read has a byte that is not zero. -/
theorem copied_iff_endsInData (args : CopyArgs) (kernel : Kernel) (source : List UInt8)
    (hall : kernel.WritesAll) :
    ((doCopy (some args) kernel source).1 = 0 →
      (Copied source (doCopy (some args) kernel source) ↔
        EndsInData (kernel.blocks args.blocksize 0 source))) ∧
    ((Sol.doCopy (some args) kernel source).1 = 0 →
      (Copied source (Sol.doCopy (some args) kernel source) ↔
        EndsInData (kernel.blocks args.blocksize 0 source))) :=
  ⟨doCopyWith_copied_iff (writesBlock_writeOnce hall), doCopyWith_copied_iff writesBlock_writeAll⟩

/-! ### Zeros before and after the data -/

/-- A kernel on which every call succeeds and transfers all it can. -/
def plainKernel : Kernel where
  openSource := true
  fstat := some 0o600#12
  openDest := true
  umask := 0o022#12
  malloc := true
  read _ count left := some (min count left)
  read_spec h := by
    cases h
    omega
  lseek _ := true
  write _ count := some count
  write_spec h := by
    cases h
    omega
  fchmod := true

lemma writesAll_plainKernel : plainKernel.WritesAll := by
  intro i count n h
  exact (Option.some.inj h).symm

def byteBlocks : CopyArgs := ⟨1, Nat.one_pos⟩

section ByteBlocks

lemma blocks_byteBlocks (a b : UInt8) :
    plainKernel.blocks byteBlocks.blocksize 0 [a, b] = [[a], [b]] := by
  simp [Kernel.blocks, plainKernel, byteBlocks]

lemma doCopy_byteBlocks (a b : UInt8) (hab : a = 0 ∧ b ≠ 0 ∨ a ≠ 0 ∧ b = 0) :
    (doCopy (some byteBlocks) plainKernel [a, b]).1 = 0 := by
  rcases hab with ⟨ha, hb⟩ | ⟨ha, hb⟩
  all_goals
    simp [doCopy, doCopyWith, copyLoop, plainKernel, byteBlocks, allZeroBytes, skipBlock,
      writeOnce, State.created, State.afterRead, State.seek, State.write, ha, hb]

lemma sol_doCopy_byteBlocks (a b : UInt8) (hab : a = 0 ∧ b ≠ 0 ∨ a ≠ 0 ∧ b = 0) :
    (Sol.doCopy (some byteBlocks) plainKernel [a, b]).1 = 0 := by
  rcases hab with ⟨ha, hb⟩ | ⟨ha, hb⟩
  all_goals
    simp [Sol.doCopy, doCopyWith, copyLoop, plainKernel, byteBlocks, allZeroBytes, skipBlock,
      Sol.writeAll, Sol.writeLoop, State.created, State.afterRead, State.seek, State.write, ha, hb]

end ByteBlocks

theorem copied_zeroFirst :
    Copied [0, 1] (doCopy (some byteBlocks) plainKernel [0, 1]) ∧
      Copied [0, 1] (Sol.doCopy (some byteBlocks) plainKernel [0, 1]) := by
  have hends : EndsInData (plainKernel.blocks byteBlocks.blocksize 0 [0, 1]) := by
    rw [blocks_byteBlocks]
    simp [EndsInData, allZeroBytes]
  have hiff := copied_iff_endsInData byteBlocks plainKernel [0, 1] writesAll_plainKernel
  constructor
  · exact (hiff.1 (doCopy_byteBlocks 0 1 (by decide))).mpr hends
  · exact (hiff.2 (sol_doCopy_byteBlocks 0 1 (by decide))).mpr hends

/-- The zero byte at the end is skipped and the destination ends before it. -/
theorem not_copied_zeroLast :
    plainKernel.WritesAll ∧
    ((doCopy (some byteBlocks) plainKernel [1, 0]).1 = 0 ∧
      ¬Copied [1, 0] (doCopy (some byteBlocks) plainKernel [1, 0])) ∧
    (Sol.doCopy (some byteBlocks) plainKernel [1, 0]).1 = 0 ∧
      ¬Copied [1, 0] (Sol.doCopy (some byteBlocks) plainKernel [1, 0]) := by
  have hends : ¬EndsInData (plainKernel.blocks byteBlocks.blocksize 0 [1, 0]) := by
    rw [blocks_byteBlocks]
    simp [EndsInData, allZeroBytes]
  have hcopy := doCopy_byteBlocks 1 0 (by decide)
  have hsol := sol_doCopy_byteBlocks 1 0 (by decide)
  have honce := writesBlock_writeOnce writesAll_plainKernel
  refine ⟨writesAll_plainKernel, ⟨hcopy, ?_⟩, hsol, ?_⟩
  · intro h
    exact hends ((doCopyWith_copied_iff honce hcopy).mp h)
  · intro h
    exact hends ((doCopyWith_copied_iff writesBlock_writeAll hsol).mp h)

end StyLinux.Copy
