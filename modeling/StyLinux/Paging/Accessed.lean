import Mathlib.Tactic
import StyLinux.Paging.Lifecycle

/-!
# The accessed bit

The accessed bit of a mapped page says whether an access to the page has been let through since
the page was last mapped. Unmapping a page, giving back its table and taking another table bring
no old bit back.
-/

namespace StyLinux.Paging

open Lib

variable {s s' : State} {n : PageNumber} {x : Event}

def State.Mapped (s : State) (n : PageNumber) : Prop := ∃ e, s.entry (positionOf n) = some e

/-- The page is mapped and the accessed bit of its entry is set. -/
def State.Accessed (s : State) (n : PageNumber) : Prop :=
  ∃ e, s.entry (positionOf n) = some e ∧ e &&& PAGE_ACCESSED_MASK ≠ 0#32

/-- The call translates an address of page `n` and all checks pass. -/
def Translates (n : PageNumber) (s : State) : Event → Prop
  | (.translatePageTable virtualAddress accessMode privileges, _) =>
    pageOf virtualAddress = n ∧ Passes s virtualAddress accessMode privileges
  | _ => False

/-- The call has mapped page `n`. -/
def Maps (n : PageNumber) : Event → Prop
  | (.mapPage _ virtualBase _ _ _, result) => result = .status 0 ∧ pageOf virtualBase = n
  | _ => False

/-- What a step has to do with the accessed bit of page `n`. -/
def Tracks (n : PageNumber) (s : State) (x : Event) (s' : State) : Prop :=
  s'.Mapped n → (s'.Accessed n ↔ Translates n s x ∨ ¬Maps n x ∧ s.Accessed n) ∧
    (¬Maps n x → s.Mapped n)

lemma tracks_of_entry_eq (h : s'.entry (positionOf n) = s.entry (positionOf n))
    (ht : ¬Translates n s x) (hm : ¬Maps n x) : Tracks n s x s' := by
  unfold Tracks State.Mapped State.Accessed
  rw [h]
  simp [ht, hm]

lemma tracks_of_unmapped (h : s'.entry (positionOf n) = none) : Tracks n s x s' := by
  rintro ⟨e, he⟩
  rw [h] at he
  cases he

namespace Edited

variable {address : BitVec 32} {e : Option (BitVec 32)}

lemma entry_page (h : Edited s s' (position address) e) (hn : pageOf address = n) :
    s'.entry (positionOf n) = e := by
  rw [h.entry, position_eq, hn, Function.update_self]

lemma entry_other (h : Edited s s' (position address) e) (hn : pageOf address ≠ n) :
    s'.entry (positionOf n) = s.entry (positionOf n) := by
  rw [h.entry, position_eq, Function.update_of_ne (positionOf_injective.ne hn.symm)]

end Edited

lemma newEntry_not_accessed {physicalBase : BitVec 32} (accessMode : ReadWrite)
    (privileges : PrivilegeLevel) (hb : getOffset physicalBase = 0#32) :
    newEntry physicalBase accessMode privileges &&& PAGE_ACCESSED_MASK = 0#32 := by
  rw [newEntry_and_flag accessMode privileges (by rw [← getOffset_eq_and, hb]) (by decide)]
  cases accessMode <;> cases privileges <;> decide

lemma or_accessed (e : BitVec 32) : (e ||| PAGE_ACCESSED_MASK) &&& PAGE_ACCESSED_MASK ≠ 0#32 := by
  rw [or_and_self]
  decide

section Steps

variable {memory : Option (BitVec 64)} {virtualBase physicalBase virtualAddress : BitVec 32}
  {accessMode : ReadWrite} {privileges : PrivilegeLevel}

lemma mapPage_tracks (h : TablesOk s)
    (hfresh : MemoryFresh s (.mapPage memory virtualBase physicalBase accessMode privileges)) :
    ∃ r s', call s (.mapPage memory virtualBase physicalBase accessMode privileges) =
        .ok (r, s') ∧
      Tracks n s (.mapPage memory virtualBase physicalBase accessMode privileges, r) s' := by
  obtain ⟨code, s', hs', ⟨rfl, rfl⟩ | ⟨rfl, hb, hedit⟩⟩ := mapPage_result h hfresh
  · refine ⟨_, _, call_mapPage hs', tracks_of_entry_eq rfl not_false ?_⟩
    simp [Maps]
  · refine ⟨_, _, call_mapPage hs', ?_⟩
    by_cases hn : pageOf virtualBase = n
    · have hclear := newEntry_not_accessed accessMode privileges hb
      have hmaps : Maps n (.mapPage memory virtualBase physicalBase accessMode privileges,
          .status 0) := ⟨rfl, hn⟩
      intro _
      simp [State.Accessed, hedit.entry_page hn, hclear, hmaps, Translates]
    · exact tracks_of_entry_eq (hedit.entry_other hn) not_false (fun hm => hn hm.2)

lemma translatePageTable_tracks (h : TablesOk s) :
    ∃ r s', call s (.translatePageTable virtualAddress accessMode privileges) = .ok (r, s') ∧
      Tracks n s (.translatePageTable virtualAddress accessMode privileges, r) s' := by
  by_cases hp : Passes s virtualAddress accessMode privileges
  · obtain ⟨e, he, hpermit⟩ := hp
    obtain ⟨s', hs', hedit⟩ := translatePageTable_edits h he hpermit
    refine ⟨_, _, call_translatePageTable hs', ?_⟩
    by_cases hn : pageOf virtualAddress = n
    · have hold : s.entry (positionOf n) = some e := by rw [← hn, ← position_eq, he]
      intro _
      refine ⟨iff_of_true ⟨_, hedit.entry_page hn, or_accessed e⟩ (.inl ⟨hn, e, he, hpermit⟩), ?_⟩
      exact fun _ => ⟨e, hold⟩
    · exact tracks_of_entry_eq (hedit.entry_other hn) (fun ht => hn ht.1) not_false
  · refine ⟨_, _, call_translatePageTable (translatePageTable_of_not_passes h hp), ?_⟩
    exact tracks_of_entry_eq rfl (fun ht => hp ht.2) not_false

lemma unmapPage_tracks (h : TablesOk s) :
    ∃ r s', call s (.unmapPage virtualBase) = .ok (r, s') ∧
      Tracks n s (.unmapPage virtualBase, r) s' := by
  obtain ⟨code, s', hs', ⟨rfl, rfl⟩ | ⟨rfl, hedit⟩⟩ := unmapPage_result h virtualBase
  · exact ⟨_, _, call_unmapPage hs', tracks_of_entry_eq rfl not_false not_false⟩
  · refine ⟨_, _, call_unmapPage hs', ?_⟩
    by_cases hn : pageOf virtualBase = n
    · exact tracks_of_unmapped (hedit.entry_page hn)
    · exact tracks_of_entry_eq (hedit.entry_other hn) not_false not_false

end Steps

lemma step_tracks (h : TablesOk s) (hfresh : Fresh s x) (hstep : Step s x s') :
    Tracks n s x s' := by
  obtain ⟨c, r⟩ := x
  apply hstep.of_call (P := fun r s' => Tracks n s (c, r) s')
  cases c with
  | mapPage memory virtualBase physicalBase accessMode privileges => exact mapPage_tracks h hfresh
  | translatePageTable virtualAddress accessMode privileges => exact translatePageTable_tracks h
  | unmapPage virtualBase => exact unmapPage_tracks h

/-- The accessed bit of a page that is mapped says whether an access to it has been let through
since it was mapped; and an access that is not let through changes nothing. -/
theorem accessed_iff_since {run : List (Event × State)} (hrun : IsRun Step initial run)
    (hfresh : StepsMeet Fresh initial run) :
    (∀ n, (lastState initial run).Mapped n →
      ((lastState initial run).Accessed n ↔ Since (Translates n) (Maps n) initial run)) ∧
    ∀ virtualAddress accessMode privileges,
      ¬Passes (lastState initial run) virtualAddress accessMode privileges →
      call (lastState initial run) (.translatePageTable virtualAddress accessMode privileges) =
        .ok (.address INVALID_ADDRESS, lastState initial run) := by
  constructor
  · intro n hn
    refine IsRun.iff_since (C := Fresh) (I := TablesOk) (R := fun s => s.Mapped n)
      (A := fun s => s.Accessed n) ?_ tablesOk_initial ?_ hrun hfresh hn
    · intro s x s' h hc hstep
      exact ⟨h.step hc hstep, step_tracks h hc hstep⟩
    · rintro ⟨e, he⟩
      rw [entry_initial] at he
      cases he
  · intro virtualAddress accessMode privileges hp
    have hok := (tablesOk_stored_of_run hrun hfresh).1
    exact call_translatePageTable (translatePageTable_of_not_passes hok hp)

/-- Accesses to two pages are let through and one is refused, and the first page is mapped again. -/
def accessRun : List (Event × State) :=
  let p := 0x10000#64
  let PTE := newEntry 0x1000#32 .ACCESS_READ .USER_MODE
  let PTE' := newEntry 0x2000#32 .ACCESS_READ .USER_MODE
  let first := PageTable.zero.setEntry 0 PTE
  let accessed := first.setEntry 0 (PTE ||| PAGE_ACCESSED_MASK)
  let second := accessed.setEntry 1 PTE'
  let both := second.setEntry 1 (PTE' ||| PAGE_ACCESSED_MASK)
  let mapped := (initial.addTable 0 p).setTable p (some first)
  let read := mapped.setTable p (some accessed)
  let mappedBoth := read.setTable p (some second)
  let written := mappedBoth.setTable p (some both)
  [((.mapPage (some p) 0x0#32 0x1000#32 .ACCESS_READ .USER_MODE, .status 0), mapped),
    ((.translatePageTable 0x4#32 .ACCESS_READ .USER_MODE, .address 0x1004#32), read),
    ((.mapPage none 0x1000#32 0x2000#32 .ACCESS_READ .USER_MODE, .status 0), mappedBoth),
    ((.translatePageTable 0x1008#32 .ACCESS_WRITE .KERNEL_MODE, .address 0x2008#32), written),
    ((.translatePageTable 0x4#32 .ACCESS_WRITE .USER_MODE, .address INVALID_ADDRESS), written),
    ((.mapPage none 0x0#32 0x2000#32 .ACCESS_READ .USER_MODE, .status 0),
      written.setTable p (some (both.setEntry 0 PTE')))]

lemma isRun_accessRun : IsRun Step initial accessRun := by
  have hv : getOffset 0x0#32 = 0#32 := by decide
  have hb : getOffset 0x1000#32 = 0#32 := by decide
  exact ⟨call_mapPage (mapPage_of_fresh hv hb (by decide)), rfl, rfl, rfl, rfl, rfl, trivial⟩

lemma stepsMeet_fresh_accessRun : StepsMeet Fresh initial accessRun :=
  ⟨⟨by decide, rfl⟩, trivial, trivial, trivial, trivial, trivial, trivial⟩

theorem accessed_accessRun :
    (∀ n, (lastState initial accessRun).Mapped n →
      ((lastState initial accessRun).Accessed n ↔
        Since (Translates n) (Maps n) initial accessRun)) ∧
    ∀ virtualAddress accessMode privileges,
      ¬Passes (lastState initial accessRun) virtualAddress accessMode privileges →
      call (lastState initial accessRun)
          (.translatePageTable virtualAddress accessMode privileges) =
        .ok (.address INVALID_ADDRESS, lastState initial accessRun) :=
  accessed_iff_since isRun_accessRun stepsMeet_fresh_accessRun

end StyLinux.Paging
