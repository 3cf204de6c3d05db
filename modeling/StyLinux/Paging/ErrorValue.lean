import Mathlib.Tactic
import StyLinux.Paging.Lifecycle

/-!
# The error value of a translation

`translatePageTable` reports an error as `INVALID_ADDRESS`, which is also the address of the last
byte of the last frame. `mapPage` accepts that frame, and then a permitted access to its last byte
cannot be told from an error.
-/

namespace StyLinux.Paging

open Lib

variable {s : State} {virtualAddress : BitVec 32} {accessMode : ReadWrite}
  {privileges : PrivilegeLevel}

/-- The page is mapped by `x` and the access is permitted. -/
def PermittedBy (s : State) (virtualAddress : BitVec 32) (accessMode : ReadWrite)
    (privileges : PrivilegeLevel) (x : Mapping) : Prop :=
  s.addressSpace (pageOf virtualAddress) = some x ∧ x.allows accessMode privileges

def Permitted (s : State) (virtualAddress : BitVec 32) (accessMode : ReadWrite)
    (privileges : PrivilegeLevel) : Prop :=
  ∃ x, PermittedBy s virtualAddress accessMode privileges x

/-- The last frame that a page can be mapped to. -/
def LAST_FRAME : BitVec 32 := 0xFFFFF000#32

/-- A permitted access to the last byte of the last frame. -/
def LastByte (s : State) (virtualAddress : BitVec 32) (accessMode : ReadWrite)
    (privileges : PrivilegeLevel) : Prop :=
  ∃ x, PermittedBy s virtualAddress accessMode privileges x ∧ x.frame = LAST_FRAME ∧
    offsetOf virtualAddress = 0xFFF#12

/-! ### Addresses in a frame -/

lemma frame_mod {frame : BitVec 32} (hf : frame &&& 0xfff#32 = 0#32) : frame.toNat % 4096 = 0 := by
  have hnat := congrArg BitVec.toNat hf
  rw [BitVec.toNat_and, show (0xfff#32).toNat = 2 ^ 12 - 1 by decide,
    Nat.and_two_pow_sub_one_eq_mod] at hnat
  exact hnat

/-- The address of a byte in an aligned frame is the error value only at the very top. -/
lemma frame_add_offset_eq_invalid {frame : BitVec 32} {offset : BitVec 12}
    (hf : frame &&& 0xfff#32 = 0#32) :
    frame + offset.setWidth 32 = INVALID_ADDRESS ↔ frame = LAST_FRAME ∧ offset = 0xFFF#12 := by
  have hmod := frame_mod hf
  have hframe := frame.isLt
  have hoffset := offset.isLt
  have hwidth : (offset.setWidth 32).toNat = offset.toNat := by
    rw [BitVec.toNat_setWidth]
    exact Nat.mod_eq_of_lt (by omega)
  constructor
  · intro h
    have hnat := congrArg BitVec.toNat h
    rw [BitVec.toNat_add, hwidth, show INVALID_ADDRESS.toNat = 4294967295 by decide] at hnat
    constructor
    · apply BitVec.eq_of_toNat_eq
      rw [show LAST_FRAME.toNat = 4294963200 by decide]
      omega
    · apply BitVec.eq_of_toNat_eq
      rw [show (0xFFF#12).toNat = 4095 by decide]
      omega
  · rintro ⟨rfl, rfl⟩
    decide

lemma frame_aligned {n : PageNumber} {x : Mapping} (h : s.addressSpace n = some x) :
    x.frame &&& 0xfff#32 = 0#32 := by
  obtain ⟨e, -, rfl⟩ := Option.map_eq_some_iff.mp h
  exact and_not_and_self

/-! ### Translations -/

/-- What a translation gives in a state whose tables are in order. -/
lemma translatePageTable_result (hs : TablesOk s) (virtualAddress : BitVec 32)
    (accessMode : ReadWrite) (privileges : PrivilegeLevel) :
    (∃ x s', PermittedBy s virtualAddress accessMode privileges x ∧
      translatePageTable virtualAddress accessMode privileges s =
        .ok (x.frame + (offsetOf virtualAddress).setWidth 32, s')) ∨
    ¬Permitted s virtualAddress accessMode privileges ∧
      translatePageTable virtualAddress accessMode privileges s = .ok (INVALID_ADDRESS, s) := by
  by_cases hpasses : Passes s virtualAddress accessMode privileges
  · obtain ⟨e, he, hpermits⟩ := hpasses
    obtain ⟨s', hs', -⟩ := translatePageTable_edits hs he hpermits
    refine .inl ⟨mappingOf e, s', ⟨?_, ?_⟩, ?_⟩
    · rw [addressSpace_pageOf, he, Option.map_some]
    · rw [← permits_eq_allows, hpermits]
    · rw [hs', getOffset_eq]
      rfl
  · refine .inr ⟨?_, translatePageTable_of_not_passes hs hpasses⟩
    rintro ⟨x, hx, hallows⟩
    rw [addressSpace_pageOf] at hx
    obtain ⟨e, he, rfl⟩ := Option.map_eq_some_iff.mp hx
    rw [← permits_eq_allows] at hallows
    exact hpasses ⟨e, he, hallows⟩

/-- In every reachable state a translation returns, and the error value says that the access is
not permitted or the page not mapped unless the access is to the last byte of the last frame. -/
theorem invalid_iff_not_lastByte {run : List (Event × State)} (hrun : IsRun Step initial run)
    (hfresh : StepsMeet Fresh initial run) (virtualAddress : BitVec 32) (accessMode : ReadWrite)
    (privileges : PrivilegeLevel) :
    ∃ physicalAddress s', translatePageTable virtualAddress accessMode privileges
        (lastState initial run) = .ok (physicalAddress, s') ∧
      ((physicalAddress = INVALID_ADDRESS ↔
          ¬Permitted (lastState initial run) virtualAddress accessMode privileges) ↔
        ¬LastByte (lastState initial run) virtualAddress accessMode privileges) := by
  obtain ⟨hok, -⟩ := tablesOk_stored_of_run hrun hfresh
  rcases translatePageTable_result hok virtualAddress accessMode privileges with
    ⟨x, s', hx, hret⟩ | ⟨hnot, hret⟩
  · refine ⟨_, s', hret, ?_⟩
    have hpermitted : Permitted (lastState initial run) virtualAddress accessMode privileges :=
      ⟨x, hx⟩
    have hlast : LastByte (lastState initial run) virtualAddress accessMode privileges ↔
        x.frame = LAST_FRAME ∧ offsetOf virtualAddress = 0xFFF#12 := by
      constructor
      · rintro ⟨y, hy, hframe, hoffset⟩
        obtain rfl : x = y := Option.some.inj (hx.1.symm.trans hy.1)
        exact ⟨hframe, hoffset⟩
      · rintro ⟨hframe, hoffset⟩
        exact ⟨x, hx, hframe, hoffset⟩
    rw [frame_add_offset_eq_invalid (frame_aligned hx.1), hlast]
    tauto
  · refine ⟨_, _, hret, ?_⟩
    have hlast : ¬LastByte (lastState initial run) virtualAddress accessMode privileges := by
      rintro ⟨x, hx, -⟩
      exact hnot ⟨x, hx⟩
    tauto

/-- Page 0 is mapped to the last frame. -/
def lastFrameRun : List (Event × State) :=
  let p := 0x10000#64
  [((.mapPage (some p) 0x0#32 LAST_FRAME .ACCESS_READ .USER_MODE, .status 0),
    (initial.addTable 0 p).setTable p
      (some (PageTable.zero.setEntry 0 (newEntry LAST_FRAME .ACCESS_READ .USER_MODE))))]

lemma isRun_lastFrameRun : IsRun Step initial lastFrameRun :=
  ⟨call_mapPage (mapPage_of_fresh (by decide) (by decide) (by decide)), trivial⟩

lemma stepsMeet_fresh_lastFrameRun : StepsMeet Fresh initial lastFrameRun :=
  ⟨⟨by decide, rfl⟩, trivial⟩

lemma permittedBy_lastFrameRun (virtualAddress : BitVec 32) (hpage : pageOf virtualAddress = 0) :
    PermittedBy (lastState initial lastFrameRun) virtualAddress .ACCESS_READ .USER_MODE
      ⟨LAST_FRAME, false, true⟩ := by
  refine ⟨?_, rfl⟩
  rw [hpage]
  rfl

/-- A user may read the last byte of the last frame. -/
theorem not_invalid_iff_lastFrameRun : ¬∀ run, IsRun Step initial run →
    StepsMeet Fresh initial run → ∀ virtualAddress accessMode privileges physicalAddress s',
      translatePageTable virtualAddress accessMode privileges (lastState initial run) =
        .ok (physicalAddress, s') →
      (physicalAddress = INVALID_ADDRESS ↔
        ¬Permitted (lastState initial run) virtualAddress accessMode privileges) := by
  intro h
  have hpermitted := permittedBy_lastFrameRun 0xFFF#32 (by decide)
  obtain ⟨hok, -⟩ := tablesOk_stored_of_run isRun_lastFrameRun stepsMeet_fresh_lastFrameRun
  rcases translatePageTable_result hok 0xFFF#32 .ACCESS_READ .USER_MODE with
    ⟨x, s', hx, hret⟩ | ⟨hnot, -⟩
  · obtain rfl := Option.some.inj (hpermitted.1.symm.trans hx.1)
    have hiff := h lastFrameRun isRun_lastFrameRun stepsMeet_fresh_lastFrameRun _ _ _ _ _ hret
    exact hiff.mp (by decide) ⟨_, hpermitted⟩
  · exact hnot ⟨_, hpermitted⟩

/-- Any other byte of that frame can be read. -/
theorem invalid_iff_lastFrameRun : ∃ physicalAddress s', translatePageTable 0xFFE#32 .ACCESS_READ
    .USER_MODE (lastState initial lastFrameRun) = .ok (physicalAddress, s') ∧
      (physicalAddress = INVALID_ADDRESS ↔
        ¬Permitted (lastState initial lastFrameRun) 0xFFE#32 .ACCESS_READ .USER_MODE) := by
  obtain ⟨physicalAddress, s', hret, hiff⟩ := invalid_iff_not_lastByte isRun_lastFrameRun
    stepsMeet_fresh_lastFrameRun 0xFFE#32 .ACCESS_READ .USER_MODE
  refine ⟨physicalAddress, s', hret, hiff.mpr ?_⟩
  rintro ⟨x, -, -, hoffset⟩
  revert hoffset
  decide

end StyLinux.Paging
