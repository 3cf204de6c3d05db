import Mathlib.Data.List.GetD
import StyLinux.Dump.Model
import StyLinux.Lib.Fuel
import StyLinux.Lib.MaximalRuns

/-!
# What is printed for a range of the dump

The first scan of an iteration finds the end of a string and the second one the start of the next,
so the strings are the maximal runs of the range in which no byte is zero.
-/

namespace StyLinux.Dump

open Lib

/-- The bytes of `[a, b)`. -/
def DumpFile.slice (dump : DumpFile) (a b : ℕ) : List CChar := (dump.bytes.drop a).take (b - a)

/-- The byte at `i` belongs to a string. -/
def DumpFile.NonZero (dump : DumpFile) (i : ℕ) : Prop := dump.bytes.getD i 0#8 ≠ 0#8

/-- What is read from the dump, in order. -/
def reads (events : List Event) : List (BitVec 64) :=
  events.filterMap fun
    | .read phys => some phys
    | _ => none

/-- The strings that are printed, in order. -/
def printed (events : List Event) : List (List CChar) :=
  events.filterMap fun
    | .printf string => some string
    | _ => none

@[simp] lemma reads_append (events events' : List Event) :
    reads (events ++ events') = reads events ++ reads events' := List.filterMap_append

@[simp] lemma printed_append (events events' : List Event) :
    printed (events ++ events') = printed events ++ printed events' := List.filterMap_append

@[simp] lemma reads_cons_read (phys : BitVec 64) (events : List Event) :
    reads (.read phys :: events) = phys :: reads events := rfl

variable {dump : DumpFile} {start_phys end_phys pos cur : BitVec 64} {malloc : BitVec 64 → Bool}

lemma DumpFile.toNat_dump_size (dump : DumpFile) : dump.dump_size.toNat = dump.bytes.length := by
  have hlength := dump.length_lt
  rw [DumpFile.dump_size, BitVec.toNat_ofNat, Nat.mod_eq_of_lt (by omega)]

lemma DumpFile.lt_length (hend : end_phys ≤ dump.dump_size) (hlt : pos < end_phys) :
    pos.toNat < dump.bytes.length := by
  have hsize := dump.toNat_dump_size
  bv_omega

lemma DumpFile.load_eq (h : pos.toNat < dump.bytes.length) :
    dump.load pos = .ok (dump.bytes.getD pos.toNat 0#8) := by
  rw [DumpFile.load, List.getElem?_eq_getElem h, List.getD_eq_getElem _ _ h]

lemma DumpFile.nonZero_iff (dump : DumpFile) (i : ℕ) :
    dump.NonZero i ↔ decide (dump.bytes.getD i 0#8 ≠ 0#8) := by
  rw [decide_eq_true_iff, DumpFile.NonZero]

lemma DumpFile.not_nonZero_iff (dump : DumpFile) (i : ℕ) :
    ¬dump.NonZero i ↔ decide (dump.bytes.getD i 0#8 = 0#8) := by
  rw [decide_eq_true_iff, DumpFile.NonZero, not_not]

lemma toNat_succ (h : pos < end_phys) : (pos + 1#64).toNat = pos.toNat + 1 := by
  bv_omega

/-- What is read is in the range. -/
def ReadsFrom (start_phys end_phys : BitVec 64) (events : List Event) : Prop :=
  ∀ phys ∈ reads events, start_phys ≤ phys ∧ phys < end_phys

namespace ReadsFrom

variable {events events' : List Event}

lemma of_reads_nil (h : reads events = []) : ReadsFrom start_phys end_phys events := by
  intro phys hphys
  rw [h] at hphys
  exact absurd hphys (by simp)

lemma cons (hpos : pos < end_phys) (h : ReadsFrom (pos + 1#64) end_phys events) :
    ReadsFrom pos end_phys (.read pos :: events) := by
  intro phys hphys
  rw [reads_cons_read, List.mem_cons] at hphys
  rcases hphys with rfl | hphys
  · exact ⟨BitVec.le_refl _, hpos⟩
  · obtain ⟨hle, hlt⟩ := h phys hphys
    have hsucc := toNat_succ hpos
    exact ⟨by bv_omega, hlt⟩

lemma append (h : ReadsFrom start_phys end_phys events)
    (h' : ReadsFrom start_phys end_phys events') :
    ReadsFrom start_phys end_phys (events ++ events') := by
  intro phys hphys
  rw [reads_append, List.mem_append] at hphys
  rcases hphys with hphys | hphys
  · exact h phys hphys
  · exact h' phys hphys

lemma mono (h : ReadsFrom pos end_phys events) (hle : start_phys ≤ pos) :
    ReadsFrom start_phys end_phys events :=
  fun phys hphys => ⟨BitVec.le_trans hle (h phys hphys).1, (h phys hphys).2⟩

end ReadsFrom

/-! ### The scans -/

/-- A scan ends at the end of the range, or earlier at the first byte it does not go on at. -/
lemma exists_scanLoop (goesOn : CChar → Bool) {p : ℕ → Prop}
    (hp : ∀ i, p i ↔ goesOn (dump.bytes.getD i 0#8)) (hend : end_phys ≤ dump.dump_size)
    (hpos : pos ≤ end_phys) :
    ∃ stop events, (∀ fuel, end_phys.toNat - pos.toNat < fuel →
        scanLoop dump end_phys goesOn fuel pos = .ok (stop, events)) ∧
      Scanned p pos.toNat end_phys.toNat stop.toNat ∧
      ReadsFrom pos end_phys events ∧ printed events = [] := by
  induction hlength : end_phys.toNat - pos.toNat generalizing pos with
  | zero =>
    have heq : pos.toNat = end_phys.toNat := by bv_omega
    refine ⟨pos, [], fun fuel hfuel => ?_, .refl (by omega) (by omega), .of_reads_nil rfl, rfl⟩
    obtain ⟨fuel, rfl⟩ := Nat.exists_eq_add_one_of_ne_zero (by omega : fuel ≠ 0)
    rw [scanLoop, if_neg (by bv_omega)]
  | succ length ih =>
    have hlt : pos < end_phys := by bv_omega
    have hsucc := toNat_succ hlt
    have hload := DumpFile.load_eq (DumpFile.lt_length hend hlt)
    by_cases hgoesOn : goesOn (dump.bytes.getD pos.toNat 0#8)
    · obtain ⟨stop, events, hloop, hscanned, hreads, hprinted⟩ :=
        ih (by bv_omega : pos + 1#64 ≤ end_phys) (by omega)
      rw [hsucc] at hscanned
      refine ⟨stop, .read pos :: events, fun fuel hfuel => ?_,
        hscanned.cons ((hp _).mpr hgoesOn), hreads.cons hlt, hprinted⟩
      obtain ⟨fuel, rfl⟩ := Nat.exists_eq_add_one_of_ne_zero (by omega : fuel ≠ 0)
      rw [scanLoop, if_pos hlt, hload, ok_bind, if_pos hgoesOn, hloop fuel (by omega), ok_bind]
    · refine ⟨pos, [.read pos], fun fuel hfuel => ?_,
        .refl (by bv_omega) fun _ h => hgoesOn ((hp _).mp h), .cons hlt (.of_reads_nil rfl), rfl⟩
      obtain ⟨fuel, rfl⟩ := Nat.exists_eq_add_one_of_ne_zero (by omega : fuel ≠ 0)
      rw [scanLoop, if_pos hlt, hload, ok_bind, if_neg hgoesOn]

/-! ### A string -/

lemma exists_memcpy {len : ℕ} (hlen : cur.toNat + len ≤ end_phys.toNat)
    (hend : end_phys ≤ dump.dump_size) :
    ∃ events, dump.memcpy len cur = .ok (dump.slice cur.toNat (cur.toNat + len), events) ∧
      ReadsFrom cur end_phys events ∧ printed events = [] := by
  induction len generalizing cur with
  | zero => exact ⟨[], by simp [DumpFile.memcpy, DumpFile.slice], .of_reads_nil rfl, rfl⟩
  | succ len ih =>
    have hlt : cur < end_phys := by bv_omega
    have hsucc := toNat_succ hlt
    have hlength := DumpFile.lt_length hend hlt
    obtain ⟨events, hcopy, hreads, hprinted⟩ :=
      ih (by omega : (cur + 1#64).toNat + len ≤ end_phys.toNat)
    refine ⟨.read cur :: events, ?_, hreads.cons hlt, hprinted⟩
    have hslice : dump.slice cur.toNat (cur.toNat + (len + 1)) =
        dump.bytes.getD cur.toNat 0#8 :: dump.slice (cur.toNat + 1) (cur.toNat + 1 + len) := by
      rw [DumpFile.slice, DumpFile.slice, List.drop_eq_getElem_cons hlength,
        List.getD_eq_getElem _ _ hlength, Nat.add_sub_cancel_left, Nat.add_sub_cancel_left,
        List.take_succ_cons]
    rw [DumpFile.memcpy, DumpFile.load_eq hlength, ok_bind, hcopy, ok_bind, hslice, hsucc]

/-- A string without zero bytes is printed as a whole. -/
lemma takeWhile_slice {a b : ℕ} (hb : b ≤ dump.bytes.length)
    (h : ∀ i, a ≤ i → i < b → dump.NonZero i) :
    (dump.slice a b ++ [0#8]).takeWhile (· ≠ 0#8) = dump.slice a b := by
  have hslice : ∀ c ∈ dump.slice a b, decide (c ≠ 0#8) = true := by
    intro c hc
    obtain ⟨i, hi, rfl⟩ := List.mem_iff_getElem.mp hc
    have hlength : i < b - a := by
      rw [DumpFile.slice, List.length_take] at hi
      omega
    have hnonzero := h (a + i) (by omega) (by omega)
    rw [DumpFile.NonZero, List.getD_eq_getElem _ _ (by omega)] at hnonzero
    simpa [DumpFile.slice] using hnonzero
  rw [List.takeWhile_append_of_pos hslice]
  simp

lemma exists_printString (hmalloc : ∀ size, malloc size) (hend : end_phys ≤ dump.dump_size)
    (hscan : Scanned dump.NonZero cur.toNat end_phys.toNat pos.toNat) :
    ∃ events, printString malloc dump cur pos = .ok (true, events) ∧
      ReadsFrom cur end_phys events ∧
      printed events = if cur < pos then [dump.slice cur.toNat pos.toNat] else [] := by
  by_cases hlt : cur < pos
  · have hle' := hscan.le_stop
    have hsize := dump.toNat_dump_size
    have hlen : cur.toNat + (pos - cur).toNat = pos.toNat := by bv_omega
    obtain ⟨events, hcopy, hreads, hprinted⟩ :=
      exists_memcpy (by omega : cur.toNat + (pos - cur).toNat ≤ end_phys.toNat) hend
    rw [hlen] at hcopy
    refine ⟨events ++ [.printf (dump.slice cur.toNat pos.toNat)], ?_,
      hreads.append (.of_reads_nil rfl), ?_⟩
    · rw [printString, if_pos hlt]
      dsimp only
      rw [if_neg (by simpa using hmalloc _), hcopy, ok_bind]
      dsimp only
      rw [takeWhile_slice (by bv_omega) hscan.holds]
    · rw [printed_append, hprinted, if_pos hlt]
      rfl
  · refine ⟨[], ?_, .of_reads_nil rfl, ?_⟩
    · rw [printString, if_neg hlt]
    · rw [if_neg hlt]
      rfl

/-! ### The loop over the strings -/

lemma exists_stringsLoop (hmalloc : ∀ size, malloc size) (hend : end_phys ≤ dump.dump_size)
    (hcur : cur ≤ end_phys) :
    ∃ events runs, (∀ fuel, end_phys.toNat - cur.toNat < fuel →
        stringsLoop malloc dump end_phys fuel cur = .ok events) ∧
      ReadsFrom cur end_phys events ∧
      MaximalRuns dump.NonZero cur.toNat end_phys.toNat runs ∧
      printed events = runs.map fun r => dump.slice r.1 r.2 := by
  induction hlength : end_phys.toNat - cur.toNat using Nat.strong_induction_on
    generalizing cur with
  | _ length ih =>
    by_cases hlt : cur < end_phys
    · obtain ⟨pos, scanned, hscanLoop, hscan, hscanned, hscanned'⟩ :=
        exists_scanLoop (· ≠ 0#8) dump.nonZero_iff hend hcur
      obtain ⟨next, skipped, hskipLoop, hskip, hskipped, hskipped'⟩ :=
        exists_scanLoop (· = 0#8) dump.not_nonZero_iff hend hscan.le_stop
      have hpos : cur ≤ pos := hscan.le
      have hnext : cur.toNat < next.toNat := hscan.lt_next hskip hlt
      have hnext' : next ≤ end_phys := hskip.le_stop
      obtain ⟨rest, runs, hrest, hreads, hruns, hprinted⟩ :=
        ih (end_phys.toNat - next.toNat) (by bv_omega) hnext' rfl
      obtain ⟨string, hstring, hreads', hprinted'⟩ :=
        exists_printString hmalloc hend hscan
      have hruns' : ∃ runs', MaximalRuns dump.NonZero cur.toNat end_phys.toNat runs' ∧
          printed string ++ printed rest = runs'.map fun r => dump.slice r.1 r.2 := by
        rw [hprinted, hprinted']
        by_cases hempty : cur < pos
        · refine ⟨(cur.toNat, pos.toNat) :: runs, hruns.cons hscan hskip hempty, ?_⟩
          rw [if_pos hempty]
          rfl
        · refine ⟨runs, hruns.skip hscan hskip (by bv_omega), ?_⟩
          rw [if_neg hempty, List.nil_append]
      obtain ⟨runs', hruns', hprinted'⟩ := hruns'
      refine ⟨scanned ++ string ++ skipped ++ rest, runs', fun fuel hfuel => ?_,
        ((hscanned.append hreads').append (hskipped.mono hpos)).append
          (hreads.mono (BitVec.le_of_lt hnext)), hruns', ?_⟩
      · obtain ⟨fuel, rfl⟩ := Nat.exists_eq_add_one_of_ne_zero (by omega : fuel ≠ 0)
        have hskipFuel : end_phys.toNat - pos.toNat < fuel + 1 := by bv_omega
        have hrestFuel : end_phys.toNat - next.toNat < fuel := by bv_omega
        rw [stringsLoop, if_pos hlt, hscanLoop (fuel + 1) (by omega), ok_bind]
        dsimp only
        rw [hstring, ok_bind]
        dsimp only
        rw [if_pos rfl, hskipLoop (fuel + 1) hskipFuel, ok_bind]
        dsimp only
        rw [hrest fuel hrestFuel, ok_bind]
      · simp only [printed_append, hscanned', hskipped', List.nil_append, List.append_nil]
        exact hprinted'
    · refine ⟨[], [], fun fuel hfuel => ?_, .of_reads_nil rfl, .nil (by bv_omega), rfl⟩
      obtain ⟨fuel, rfl⟩ := Nat.exists_eq_add_one_of_ne_zero (by omega : fuel ≠ 0)
      rw [stringsLoop, if_neg hlt]

/-- For a valid range the loops end, read only from the range and print its maximal runs of bytes
that are not zero, each once and in the order of the addresses. For another range nothing is read
and no string is printed. -/
theorem printNullTerminatedStringsInRange_prints (hmalloc : ∀ size, malloc size) (dump : DumpFile)
    (start_phys end_phys : BitVec 64) :
    ∃ events, (∀ fuel, end_phys.toNat - start_phys.toNat < fuel →
        printNullTerminatedStringsInRange malloc dump start_phys end_phys fuel = .ok events) ∧
      if start_phys < end_phys ∧ end_phys ≤ dump.dump_size then
        (∀ phys ∈ reads events, start_phys ≤ phys ∧ phys < end_phys) ∧
          ∃ runs, MaximalRuns dump.NonZero start_phys.toNat end_phys.toNat runs ∧
            printed events = runs.map fun r => dump.slice r.1 r.2
      else reads events = [] ∧ printed events = [] := by
  unfold printNullTerminatedStringsInRange
  split_ifs with hinvalid hvalid hvalid
  · bv_omega
  · exact ⟨_, fun fuel _ => rfl, rfl, rfl⟩
  · obtain ⟨events, runs, hloop, hreads, hruns, hprinted⟩ :=
      exists_stringsLoop hmalloc hvalid.2 (BitVec.le_of_lt hvalid.1)
    exact ⟨events, hloop, hreads, runs, hruns, hprinted⟩
  · bv_omega

def sampleDump : DumpFile := ⟨[0#8, 72#8, 105#8, 0#8, 0#8, 33#8, 63#8, 0#8], by decide⟩

/-- The range starts inside of one string and ends inside of another one. -/
theorem printNullTerminatedStringsInRange_prints_sampleDump :
    ∃ events, (∀ fuel, (6#64).toNat - (2#64).toNat < fuel →
        printNullTerminatedStringsInRange (fun _ => true) sampleDump 2#64 6#64 fuel = .ok events) ∧
      (∀ phys ∈ reads events, 2#64 ≤ phys ∧ phys < 6#64) ∧
      ∃ runs, MaximalRuns sampleDump.NonZero (2#64).toNat (6#64).toNat runs ∧
        printed events = runs.map fun r => sampleDump.slice r.1 r.2 := by
  have hmalloc : ∀ size, (fun _ => true : BitVec 64 → Bool) size = true := fun _ => rfl
  obtain ⟨events, hrun, hprints⟩ :=
    printNullTerminatedStringsInRange_prints hmalloc sampleDump 2#64 6#64
  rw [if_pos (by decide)] at hprints
  exact ⟨events, hrun, hprints⟩

example : (printNullTerminatedStringsInRange (fun _ => true) sampleDump 2#64 6#64 5).map printed =
    .ok [[105#8], [33#8]] := by decide

end StyLinux.Dump
