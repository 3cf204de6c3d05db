import StyLinux.Malloc.NullResult

/-!
# What the strategies select

Best-fit, worst-fit and first-fit of `vika5/malloc.c` take the lowest of the blocks they are after,
on any free list in address order. Next-fit takes the first block that is large enough on its round
from the cursor, whatever the order of the list.
-/

namespace StyLinux.Malloc.Vika5

open Lib

variable {σ : Type} {h : Heap σ} {s : State σ} {xs before after : List ℕ} {b size : ℕ}

/-- The blocks of a free list in address order, which do not overlap. -/
structure FreeBlocks (h : Heap σ) (xs : List ℕ) : Prop where
  chain : Chain Link.next h.read .first xs
  apart : xs.Pairwise (fun x y => x + h.size x ≤ y)
  sizes : ∀ x ∈ xs, 0 < h.size x ∧ 16 ∣ h.size x
  room : ∀ x ∈ xs, x + h.size x < 2 ^ 64

lemma sorted_of_apart {f : ℕ → ℕ} (hapart : xs.Pairwise (fun x y => x + f x ≤ y))
    (hpos : ∀ x ∈ xs, 0 < f x) : xs.Pairwise (· < ·) := by
  refine hapart.imp_of_mem ?_
  intro x y hx _ hxy
  have hxpos := hpos x hx
  omega

lemma FreeBlocks.sorted (hl : FreeBlocks h xs) : xs.Pairwise (· < ·) :=
  sorted_of_apart hl.apart fun x hx => (hl.sizes x hx).1

/-- The strategies that search the whole list from its head. -/
inductive Fit
  | bestFit
  | firstFit
  | worstFit
  deriving DecidableEq, Repr

namespace Fit

def strategy : Fit → AllocType
  | bestFit => .bestFit
  | firstFit => .firstFit
  | worstFit => .worstFit

/-- The comparison with which the search replaces the best block so far. -/
def improves : Fit → ℕ → ℕ → Bool
  | bestFit => fun new old => new < old
  | firstFit => fun _ _ => false
  | worstFit => fun new old => old < new

/-- The block is one of those the strategy is after. -/
def Wanted (h : Heap σ) (size : ℕ) (xs : List ℕ) (x : ℕ) : Fit → Prop
  | bestFit => size ≤ h.size x ∧ ∀ y ∈ xs, size ≤ h.size y → h.size x ≤ h.size y
  | firstFit => size ≤ h.size x
  | worstFit => ∀ y ∈ xs, h.size y ≤ h.size x

end Fit

/-- The free list without the block `b`, or with what `size` bytes leave of it. -/
def listAfter (h : Heap σ) (xs : List ℕ) (b size : ℕ) : List ℕ :=
  if h.size b = size then xs.erase b else xs.replace b (b + size)

/-- From `h` to `h'` the first `size` bytes of the block `b` have been taken off the list. -/
structure Taken (h h' : Heap σ) (xs : List ℕ) (b size : ℕ) : Prop where
  blocks : FreeBlocks h' (listAfter h xs b size)
  remainder : h.size b ≠ size → h'.size (b + size) = h.size b - size
  kept : ∀ x ∈ xs, x ≠ b → h'.size x = h.size x

/-- The call asks `allocHeap` for memory, and tries again if it has got some. -/
def Extends (allocHeap : AllocHeap σ) (s : State σ) (size : ℕ) (r : Option ℕ) (s' : State σ) :
    Prop :=
  ∃ fuel extended h, extendHeap allocHeap fuel s.toHeap = .ok (extended, h) ∧
    if extended then ∃ s₁, s₁.toHeap = h ∧ myMalloc allocHeap fuel size s₁ = .ok (r, s')
    else r = none ∧ s'.toHeap = h

/-! ### The lowest of the blocks -/

lemma isLeast_of_sorted {P : ℕ → Prop} (hsorted : (before ++ b :: after).Pairwise (· < ·))
    (hb : P b) (hbefore : ∀ x ∈ before, ¬P x) : IsLeast {x | x ∈ before ++ b :: after ∧ P x} b := by
  obtain ⟨-, hrest, -⟩ := List.pairwise_append.mp hsorted
  refine ⟨⟨by simp, hb⟩, ?_⟩
  rintro x ⟨hx, hPx⟩
  rcases List.mem_append.mp hx with hx | hx
  · exact absurd hPx (hbefore x hx)
  · rcases List.mem_cons.mp hx with rfl | hx
    · exact le_rfl
    · exact ((List.pairwise_cons.mp hrest).1 x hx).le

section Lowest

variable (hsorted : (before ++ b :: after).Pairwise (· < ·)) (hfit : size ≤ h.size b)

include hsorted hfit

lemma isLeast_bestFit (hbefore : ∀ x ∈ before, size ≤ h.size x → h.size b < h.size x)
    (hafter : ∀ x ∈ after, size ≤ h.size x → h.size b ≤ h.size x) :
    IsLeast {x | x ∈ before ++ b :: after ∧ Fit.bestFit.Wanted h size (before ++ b :: after) x}
      b := by
  apply isLeast_of_sorted hsorted
  · refine ⟨hfit, ?_⟩
    intro y hy hyfit
    rcases List.mem_append.mp hy with hy | hy
    · exact (hbefore y hy hyfit).le
    · rcases List.mem_cons.mp hy with rfl | hy
      · exact le_rfl
      · exact hafter y hy hyfit
  · rintro x hx ⟨hxfit, hleast⟩
    exact absurd (hleast b (by simp) hfit) (not_le.mpr (hbefore x hx hxfit))

lemma isLeast_firstFit (hbefore : ∀ x ∈ before, h.size x < size) :
    IsLeast {x | x ∈ before ++ b :: after ∧ Fit.firstFit.Wanted h size (before ++ b :: after) x}
      b := by
  apply isLeast_of_sorted hsorted
  · exact hfit
  · intro x hx hxfit
    exact absurd hxfit (not_le.mpr (hbefore x hx))

lemma isLeast_worstFit (hbefore : ∀ x ∈ before, size ≤ h.size x → h.size x < h.size b)
    (hafter : ∀ x ∈ after, size ≤ h.size x → h.size x ≤ h.size b) :
    IsLeast {x | x ∈ before ++ b :: after ∧ Fit.worstFit.Wanted h size (before ++ b :: after) x}
      b := by
  apply isLeast_of_sorted hsorted
  · intro y hy
    by_cases hyfit : size ≤ h.size y
    · rcases List.mem_append.mp hy with hy | hy
      · exact (hbefore y hy hyfit).le
      · rcases List.mem_cons.mp hy with rfl | hy
        · exact le_rfl
        · exact hafter y hy hyfit
    · omega
  · intro x hx hlargest
    have hle := hlargest b (by simp)
    have hlt := hbefore x hx (hfit.trans hle)
    omega

end Lowest

lemma Fit.returns_picks (fit : Fit) (hs : s.allocationStrategy = fit.strategy)
    (hc : Chain Link.next s.read .first xs) (size : ℕ) :
    ∃ r, Returns .outOfFuel (fun fuel => selectBlock s size fuel) (.ok (r, s)) ∧
      Picks fit.improves s.toHeap size xs r := by
  cases fit with
  | bestFit =>
    obtain ⟨r, hret, hpicks⟩ := returns_bestFit size hc
    refine ⟨r, ?_, hpicks⟩
    simp only [selectBlock, hs, strategy]
    exact hret.map (fun r => (r, s))
  | firstFit =>
    obtain ⟨r, hret, hpicks⟩ := returns_firstFit size hc
    refine ⟨r, ?_, hpicks⟩
    simp only [selectBlock, hs, strategy]
    exact hret.map (fun r => (r, s))
  | worstFit =>
    obtain ⟨r, hret, hpicks⟩ := returns_worstFit size hc
    refine ⟨r, ?_, hpicks⟩
    simp only [selectBlock, hs, strategy]
    exact hret.map (fun r => (r, s))

lemma Fit.isLeast (fit : Fit) (hsorted : (before ++ b :: after).Pairwise (· < ·))
    (hfit : size ≤ h.size b)
    (hbefore : ∀ x ∈ before, size ≤ h.size x → fit.improves (h.size b) (h.size x))
    (hafter : ∀ x ∈ after, size ≤ h.size x → ¬fit.improves (h.size x) (h.size b)) :
    IsLeast {x | x ∈ before ++ b :: after ∧ fit.Wanted h size (before ++ b :: after) x} b := by
  cases fit with
  | bestFit =>
    simp only [improves, decide_eq_true_eq, not_lt] at hbefore hafter
    exact isLeast_bestFit hsorted hfit hbefore hafter
  | firstFit =>
    apply isLeast_firstFit hsorted hfit
    intro x hx
    by_contra hle
    exact absurd (hbefore x hx (not_lt.mp hle)) (by simp [improves])
  | worstFit =>
    simp only [improves, decide_eq_true_eq, not_lt] at hbefore hafter
    exact isLeast_worstFit hsorted hfit hbefore hafter

/-- A search ends at the lowest of the blocks it is after, with the link in front of that block. -/
lemma Fit.returns_selectBlock (fit : Fit) (hs : s.allocationStrategy = fit.strategy)
    (hl : FreeBlocks s.toHeap xs) (size : ℕ) :
    (∀ x ∈ xs, s.size x < size) ∧
      Returns .outOfFuel (fun fuel => selectBlock s size fuel) (.ok (none, s)) ∨
    ∃ before b after, xs = before ++ b :: after ∧ size ≤ s.size b ∧
      IsLeast {x | x ∈ xs ∧ fit.Wanted s.toHeap size xs x} b ∧
      Returns .outOfFuel (fun fuel => selectBlock s size fuel)
        (.ok (some (b, endLink Link.next .first before), s)) := by
  obtain ⟨r, hret, hpicks⟩ := fit.returns_picks hs hl.chain size
  cases r with
  | none => exact .inl ⟨hpicks, hret⟩
  | some r =>
    obtain ⟨before, after, rfl, hlink, hfit, hbefore, hafter⟩ := hpicks
    refine .inr ⟨before, r.1, after, rfl, hfit, ?_, hlink ▸ hret⟩
    exact fit.isLeast hl.sorted hfit hbefore hafter

/-! ### The list behind the call -/

lemma listAfter_eq (hb : b ∉ before) : listAfter h (before ++ b :: after) b size =
    before ++ remainder ⟨b, h.size b, .free⟩ size ++ after := by
  unfold listAfter remainder
  split_ifs
  · rw [List.erase_append_right _ hb, List.erase_cons_head, List.append_nil]
  · rw [List.replace_append_right hb, List.replace_cons_self, List.append_assoc,
      List.singleton_append]

lemma mem_remainder {t : Chunk} {n x : ℕ} (hx : x ∈ remainder t n) : t.len ≠ n ∧ x = t.lo + n := by
  unfold remainder at hx
  split_ifs at hx with hlen
  · cases hx
  · exact ⟨hlen, List.mem_singleton.mp hx⟩

lemma pairwise_remainder (R : ℕ → ℕ → Prop) (t : Chunk) (n : ℕ) : (remainder t n).Pairwise R := by
  unfold remainder
  split_ifs <;> simp

/-- Blocks that lie within the range of `b` can take its place. -/
lemma apart_splice {mid : List ℕ} {f g : ℕ → ℕ}
    (hapart : (before ++ b :: after).Pairwise (fun x y => x + f x ≤ y))
    (hbefore : ∀ x ∈ before, g x = f x) (hafter : ∀ x ∈ after, g x = f x)
    (hmid : mid.Pairwise (fun x y => x + g x ≤ y))
    (hwithin : ∀ x ∈ mid, b ≤ x ∧ x + g x ≤ b + f b) :
    (before ++ mid ++ after).Pairwise (fun x y => x + g x ≤ y) := by
  obtain ⟨hfirst, hrest, hcross⟩ := List.pairwise_append.mp hapart
  obtain ⟨hbehind, hlast⟩ := List.pairwise_cons.mp hrest
  rw [List.append_assoc, List.pairwise_append, List.pairwise_append]
  refine ⟨?_, ⟨hmid, ?_, ?_⟩, ?_⟩
  · refine hfirst.imp_of_mem ?_
    intro x y hx _ hxy
    rwa [hbefore x hx]
  · refine hlast.imp_of_mem ?_
    intro x y hx _ hxy
    rwa [hafter x hx]
  · intro x hx y hy
    exact (hwithin x hx).2.trans (hbehind y hy)
  · intro x hx y hy
    rw [hbefore x hx]
    rcases List.mem_append.mp hy with hy | hy
    · exact (hcross x hx b (by simp)).trans (hwithin y hy).1
    · exact hcross x hx y (by simp [hy])

lemma mem_insert_middle {x : ℕ} (hx : x ∈ before ++ after) : x ∈ before ++ b :: after := by
  rcases List.mem_append.mp hx with hx | hx <;> simp [hx]

section Take

variable (hl : FreeBlocks h (before ++ b :: after)) (hpos : 0 < size) (hfit : size ≤ h.size b)

include hl hfit

lemma FreeBlocks.size_taken (l : Link) (a : ℕ) : (allocateBlock h l b size).2.size a =
    if a = b then size else if h.size b ≠ size ∧ a = b + size then h.size b - size
      else h.size a := by
  have hsizes := hl.sizes b (by simp)
  have hhead : HEADER_SIZE ≤ h.size b := by
    rw [HEADER_SIZE_eq]
    omega
  exact @size_allocateBlock σ h ⟨b, h.size b, .free⟩ size l rfl hfit (hl.room b (by simp)) hhead a

include hpos

lemma FreeBlocks.size_kept (l : Link) {x : ℕ} (hx : x ∈ before ++ after) :
    (allocateBlock h l b size).2.size x = h.size x := by
  obtain ⟨-, hrest, hcross⟩ := List.pairwise_append.mp hl.apart
  obtain ⟨hbehind, -⟩ := List.pairwise_cons.mp hrest
  rw [hl.size_taken hfit]
  rcases List.mem_append.mp hx with hx | hx
  · have hle := hcross x hx b (by simp)
    have hxpos := (hl.sizes x (by simp [hx])).1
    rw [if_neg (by omega), if_neg (by omega)]
  · have hle := hbehind x hx
    rw [if_neg (by omega), if_neg (by omega)]

lemma FreeBlocks.size_remainder (l : Link) (hne : h.size b ≠ size) :
    (allocateBlock h l b size).2.size (b + size) = h.size b - size := by
  rw [hl.size_taken hfit, if_neg (by omega), if_pos ⟨hne, rfl⟩]

/-- What a block of the new list is, and what its size is. -/
lemma FreeBlocks.mem_taken (l : Link) {x : ℕ}
    (hx : x ∈ before ++ remainder ⟨b, h.size b, .free⟩ size ++ after) :
    x ∈ before ++ after ∧ (allocateBlock h l b size).2.size x = h.size x ∨
    x = b + size ∧ size < h.size b ∧ (allocateBlock h l b size).2.size x = h.size b - size := by
  rw [List.append_assoc, List.mem_append, List.mem_append] at hx
  rcases hx with hx | hx | hx
  · have hmem : x ∈ before ++ after := by simp [hx]
    exact .inl ⟨hmem, hl.size_kept hpos hfit l hmem⟩
  · obtain ⟨hne, rfl⟩ := mem_remainder hx
    exact .inr ⟨rfl, lt_of_le_of_ne hfit hne.symm, hl.size_remainder hpos hfit l hne⟩
  · have hmem : x ∈ before ++ after := by simp [hx]
    exact .inl ⟨hmem, hl.size_kept hpos hfit l hmem⟩

lemma FreeBlocks.apart_taken (l : Link) :
    (before ++ remainder ⟨b, h.size b, .free⟩ size ++ after).Pairwise
      (fun x y => x + (allocateBlock h l b size).2.size x ≤ y) := by
  refine apart_splice hl.apart ?_ ?_ (pairwise_remainder _ _ _) ?_
  · exact fun x hx => hl.size_kept hpos hfit l (by simp [hx])
  · exact fun x hx => hl.size_kept hpos hfit l (by simp [hx])
  · intro x hx
    obtain ⟨hne, rfl⟩ := mem_remainder hx
    rw [hl.size_remainder hpos hfit l hne]
    simp only
    omega

lemma FreeBlocks.allocateBlock (hdvd : 16 ∣ size) :
    FreeBlocks (allocateBlock h (endLink Link.next .first before) b size).2
      (before ++ remainder ⟨b, h.size b, .free⟩ size ++ after) := by
  have hsizeb := hl.sizes b (by simp)
  have hroomb := hl.room b (by simp)
  have hsizes : ∀ x ∈ before ++ remainder ⟨b, h.size b, .free⟩ size ++ after,
      0 < (Malloc.allocateBlock h (endLink Link.next .first before) b size).2.size x ∧
        16 ∣ (Malloc.allocateBlock h (endLink Link.next .first before) b size).2.size x := by
    intro x hx
    rcases hl.mem_taken hpos hfit _ hx with ⟨hmem, he⟩ | ⟨-, hlt, he⟩
    · rw [he]
      exact hl.sizes x (mem_insert_middle hmem)
    · rw [he]
      omega
  have hapart := hl.apart_taken hpos hfit (endLink Link.next .first before)
  refine ⟨?_, hapart, hsizes, ?_⟩
  · have hhead : HEADER_SIZE ≤ h.size b := by
      rw [HEADER_SIZE_eq]
      omega
    obtain ⟨hpath, -, htail⟩ := (chain_append _ _ _).mp hl.chain
    have hnodup : (before ++ remainder ⟨b, h.size b, .free⟩ size ++ after).Nodup :=
      (sorted_of_apart hapart fun x hx => (hsizes x hx).1).imp fun hlt => hlt.ne
    have hb : b ∉ before ++ remainder ⟨b, h.size b, .free⟩ size ++ after := by
      intro hin
      rcases hl.mem_taken hpos hfit .first hin with ⟨hmem, -⟩ | ⟨he, -, -⟩
      · have hnd : (before ++ b :: after).Nodup := hl.sorted.imp fun hlt => hlt.ne
        exact (List.nodup_middle.mp hnd).notMem hmem
      · omega
    exact @chain_allocateBlock σ h ⟨b, h.size b, .free⟩ size before after rfl hfit hroomb hhead
      hpath htail hnodup hb
  · intro x hx
    rcases hl.mem_taken hpos hfit _ hx with ⟨hmem, he⟩ | ⟨rfl, hlt, he⟩
    · rw [he]
      exact hl.room x (mem_insert_middle hmem)
    · rw [he]
      omega

lemma FreeBlocks.taken (hdvd : 16 ∣ size) :
    Taken h (Malloc.allocateBlock h (endLink Link.next .first before) b size).2
      (before ++ b :: after) b size := by
  have hb : b ∉ before := by
    intro hin
    have hlt := (List.pairwise_append.mp hl.sorted).2.2 b hin b (by simp)
    omega
  refine ⟨?_, hl.size_remainder hpos hfit _, ?_⟩
  · rw [listAfter_eq hb]
    exact hl.allocateBlock hpos hfit hdvd
  · intro x hx hne
    apply hl.size_kept hpos hfit
    simpa [hne] using hx

end Take

lemma Fit.strategy_ne (fit : Fit) : fit.strategy ≠ .nextFit := by
  cases fit <;> simp [strategy]

lemma started_of_ne (hs : s.allocationStrategy ≠ .nextFit) : s.started = s := by
  unfold State.started
  split
  · exact absurd ‹_› hs
  · rfl

lemma update_of_ne (hs : s.allocationStrategy ≠ .nextFit) (h : Heap σ) (cursor : Option ℕ) :
    s.update h cursor = { s with toHeap := h } := by
  simp [State.update, hs]

/-- A call whose search selects nothing asks for memory. -/
lemma extends_of_none {allocHeap : AllocHeap σ} {n fuel : ℕ} {r : Option ℕ} {s₀ s' : State σ}
    (hn : paddedSize n ≤ HEAP_SIZE)
    (hsearch : Returns .outOfFuel (fun fuel => selectBlock s (paddedSize n) fuel) (.ok (none, s₀)))
    (hcall : myMalloc allocHeap fuel n s = .ok (r, s')) :
    Extends allocHeap s (paddedSize n) r s' := by
  cases fuel with
  | zero => cases hcall
  | succ fuel =>
    cases myMalloc_returned hcall with
    | tooLarge hlarge => exact absurd hlarge (not_lt.mpr hn)
    | selected _ _ _ _ hsome =>
      have heq := (hsearch.eq_of_ok hsome)
      cases heq
    | refused _ h' _ _ hext => exact ⟨fuel, false, h', hext, rfl, rfl⟩
    | retried _ h₁ _ _ _ _ hext hretry => exact ⟨fuel, true, h₁, hext, _, rfl, hretry⟩

/-- On a free list in address order, best-fit, first-fit and worst-fit select nothing exactly if no
block is large enough, and the call asks for memory then. Otherwise they select the lowest of the
blocks they are after, and the call takes it off the list, or what it needs of it. -/
theorem Fit.takes_lowest (fit : Fit) (hs : s.allocationStrategy = fit.strategy)
    (hl : FreeBlocks s.toHeap xs) (hpos : 0 < size) (hdvd : 16 ∣ size) :
    ((∀ x ∈ xs, s.size x < size) →
      Returns .outOfFuel (fun fuel => selectBlock s size fuel) (.ok (none, s)) ∧
      ∀ (allocHeap : AllocHeap σ) (n fuel : ℕ) (r : Option ℕ) (s' : State σ),
        paddedSize n = size → size ≤ HEAP_SIZE → myMalloc allocHeap fuel n s = .ok (r, s') →
          Extends allocHeap s size r s') ∧
    ((∃ x ∈ xs, size ≤ s.size x) → ∃ b link,
      IsLeast {x | x ∈ xs ∧ fit.Wanted s.toHeap size xs x} b ∧
      Returns .outOfFuel (fun fuel => selectBlock s size fuel) (.ok (some (b, link), s)) ∧
      Taken s.toHeap (allocateBlock s.toHeap link b size).2 xs b size ∧
      ∀ (allocHeap : AllocHeap σ) (n : ℕ), paddedSize n = size → size ≤ HEAP_SIZE →
        Returns .outOfFuel (fun fuel => myMalloc allocHeap fuel n s)
          (.ok (some (allocateBlock s.toHeap link b size).1,
            { s with toHeap := (allocateBlock s.toHeap link b size).2 }))) := by
  have hne : s.allocationStrategy ≠ .nextFit := hs ▸ fit.strategy_ne
  rcases fit.returns_selectBlock hs hl size with
    ⟨hsmall, hret⟩ | ⟨before, b, after, rfl, hfit, hleast, hret⟩
  · refine ⟨fun _ => ⟨hret, ?_⟩, ?_⟩
    · rintro allocHeap n fuel r s' rfl hmax hcall
      exact extends_of_none hmax hret hcall
    · rintro ⟨x, hx, hle⟩
      exact absurd (hsmall x hx) (not_lt.mpr hle)
  · refine ⟨fun hsmall => absurd (hsmall b (by simp)) (not_lt.mpr hfit), fun _ => ?_⟩
    refine ⟨b, _, hleast, hret, hl.taken hpos hfit hdvd, ?_⟩
    rintro allocHeap n rfl hmax
    have hstart : Returns .outOfFuel (fun fuel => selectBlock s (paddedSize n) fuel)
        (.ok (some (b, endLink Link.next .first before), s.started)) := by
      rw [started_of_ne hne]
      exact hret
    have hcall := @returns_selected σ s allocHeap n hmax b _ hstart _ _ rfl
    rwa [started_of_ne hne, update_of_ne hne] at hcall

/-- Worst-fit with two blocks on the list. -/
def worstFitState : State Unit := setAllocationStrategy 3 holedState

lemma freeBlocks_worstFitState : FreeBlocks worstFitState.toHeap [4096, 4160] := by
  have hfirst : worstFitState.size 4096 = 32 := rfl
  have hsecond : worstFitState.size 4160 = HEAP_SIZE - 64 := rfl
  rw [HEAP_SIZE_eq] at hsecond
  refine ⟨⟨rfl, rfl, rfl⟩, ?_, ?_, ?_⟩
  · simp [hfirst]
  · simp [hfirst, hsecond]
  · simp [hfirst, hsecond]

theorem takes_lowest_worstFitState : ∃ b link,
    IsLeast {x | x ∈ [4096, 4160] ∧
      Fit.worstFit.Wanted worstFitState.toHeap 32 [4096, 4160] x} b ∧
    Taken worstFitState.toHeap (allocateBlock worstFitState.toHeap link b 32).2 [4096, 4160]
      b 32 := by
  have hfits : ∃ x ∈ [4096, 4160], 32 ≤ worstFitState.size x := ⟨4096, by simp, le_of_eq rfl⟩
  obtain ⟨b, link, hleast, -, htaken, -⟩ :=
    (Fit.worstFit.takes_lowest rfl freeBlocks_worstFitState (by norm_num) (by norm_num)).2 hfits
  exact ⟨b, link, hleast, htaken⟩

/-! ### The round of next-fit -/

/-- The loop of next-fit, with the blocks whose size it reads. -/
def nextFitExamined (h : Heap σ) (size : ℕ) (start : Option ℕ) :
    ℕ → Option ℕ → Option ℕ → Except Fault (List ℕ × Option (ℕ × Link))
  | 0, _, _ => .error .outOfFuel
  | _ + 1, none, _ => .error .nullDeref
  | fuel + 1, some current, prev =>
    if size ≤ h.size current then .ok ([current], some (current, linkOf prev))
    else if nextCyclic h current = start then .ok ([current], none)
    else do
      let (examined, selected) ←
        nextFitExamined h size start fuel (nextCyclic h current) (some current)
      pure (current :: examined, selected)

/-- The free list in the order of next-fit, from the cursor round to the block in front of it. -/
def cyclicOrder (s : State σ) (xs : List ℕ) : List ℕ :=
  match s.nextFitCursor with
  | none => xs
  | some c => xs.rotate (xs.idxOf c)

lemma nextFitLoop_eq_examined (h : Heap σ) (size : ℕ) (start : Option ℕ) (fuel : ℕ)
    (current prev : Option ℕ) : nextFitLoop h size start fuel current prev =
      nextFitExamined h size start fuel current prev >>= fun x => pure x.2 := by
  induction fuel generalizing current prev with
  | zero => rfl
  | succ fuel ih =>
    cases current with
    | none => rfl
    | some current =>
      rw [nextFitLoop, nextFitExamined]
      split_ifs
      · rfl
      · rfl
      · rw [ih, bind_assoc]
        rfl

lemma visits_append {x y : ℕ} {ys : List ℕ} {e : Option ℕ} (hxs : Visits h (x :: xs) (some y))
    (hys : Visits h (y :: ys) e) : Visits h (x :: xs ++ y :: ys) e := by
  induction xs generalizing x with
  | nil => exact ⟨hxs, hys⟩
  | cons z xs ih => exact ⟨hxs.1, ih hxs.2⟩

/-- The walk from a block of the list goes through the whole list and comes back to the block. -/
lemma visits_round {c : ℕ} (hc : Chain Link.next h.read .first (before ++ c :: after)) :
    Visits h (c :: after ++ before) (some c) := by
  obtain ⟨hpath, hcread, htail⟩ := (chain_append _ _ _).mp hc
  have hfirst : h.firstFreeBlock = (before ++ c :: after).head? := hc.get_eq_head?
  have hend := visits_of_chain htail
  rw [hfirst] at hend
  cases before with
  | nil => simpa using hend
  | cons x before => exact visits_append hend (visits_of_path hpath.2 hcread)

lemma returns_nextFitExamined {x : ℕ} {start : Option ℕ} (prev : Option ℕ)
    (hv : Visits h (x :: xs) start) (hstart : ∀ y ∈ xs, some y ≠ start) :
    ∃ examined selected, Returns .outOfFuel
        (fun fuel => nextFitExamined h size start fuel (some x) prev) (.ok (examined, selected)) ∧
      examined <+: x :: xs ∧
      selected.map Prod.fst = (x :: xs).find? (fun y => size ≤ h.size y) := by
  induction xs generalizing x prev with
  | nil =>
    have hround : nextCyclic h x = start := hv
    by_cases hx : size ≤ h.size x
    · refine ⟨[x], some (x, linkOf prev), (Returns.const _).succ rfl ?_, by simp, by simp [hx]⟩
      intro fuel
      rw [nextFitExamined, if_pos hx]
    · refine ⟨[x], none, (Returns.const _).succ rfl ?_, by simp, by simp [hx]⟩
      intro fuel
      rw [nextFitExamined, if_neg hx, if_pos hround]
  | cons y xs ih =>
    by_cases hx : size ≤ h.size x
    · refine ⟨[x], some (x, linkOf prev), (Returns.const _).succ rfl ?_, by simp, by simp [hx]⟩
      intro fuel
      rw [nextFitExamined, if_pos hx]
    · obtain ⟨examined, selected, hret, hbegins, hfind⟩ :=
        ih (some x) hv.2 fun z hz => hstart z (by simp [hz])
      refine ⟨x :: examined, selected, ?_, by simpa using hbegins, by simpa [hx] using hfind⟩
      refine (hret.map (fun r => (x :: r.1, r.2))).succ rfl ?_
      intro fuel
      rw [nextFitExamined, if_neg hx, hv.1, if_neg (hstart y (by simp))]

lemma startCursor_cases (hc : Chain Link.next s.read .first xs) (hne : xs ≠ [])
    (hcursor : ∀ c, s.nextFitCursor = some c → c ∈ xs) :
    ∃ before c after, xs = before ++ c :: after ∧ startCursor s = some c ∧
      cyclicOrder s xs = c :: after ++ before := by
  unfold startCursor cyclicOrder
  cases hs : s.nextFitCursor with
  | none =>
    obtain ⟨x, ys, rfl⟩ := List.exists_cons_of_ne_nil hne
    exact ⟨[], x, ys, rfl, hc.1, by simp⟩
  | some c =>
    obtain ⟨before, after, rfl⟩ := List.append_of_mem (hcursor c hs)
    have hnd := hc.nodup
    have hnot : c ∉ before := fun hin => (List.nodup_middle.mp hnd).notMem (by simp [hin])
    refine ⟨before, c, after, rfl, rfl, ?_⟩
    have hidx : (before ++ c :: after).idxOf c = before.length := by
      rw [List.idxOf_append_of_notMem hnot, List.idxOf_cons_self, Nat.add_zero]
    simp only [hidx, List.rotate_append_length_eq]

/-- On any free list that is not empty, with the cursor `NULL` or on the list, next-fit selects the
first block on its round that is large enough. It examines the blocks of the round in order and
none of them twice, and selects nothing exactly if no block is large enough. -/
theorem nextFit_first (hc : Chain Link.next s.read .first xs) (hne : xs ≠ [])
    (hcursor : ∀ c, s.nextFitCursor = some c → c ∈ xs) (size : ℕ) :
    ∃ examined selected,
      Returns .outOfFuel (fun fuel => nextFitExamined s.toHeap size (startCursor s) fuel
        (startCursor s) none) (.ok (examined, selected)) ∧
      Returns .outOfFuel (fun fuel => nextFit s size fuel) (.ok selected) ∧
      selected.map Prod.fst = (cyclicOrder s xs).find? (fun x => size ≤ s.size x) ∧
      examined <+: cyclicOrder s xs ∧ examined.Nodup ∧
      (selected = none ↔ ∀ x ∈ xs, s.size x < size) := by
  obtain ⟨before, c, after, rfl, hstart, horder⟩ := startCursor_cases hc hne hcursor
  have hnd : (c :: after ++ before).Nodup := List.nodup_append_comm.mp hc.nodup
  have hapart : ∀ y ∈ after ++ before, some y ≠ some c := by
    intro y hy he
    obtain rfl := Option.some.inj he
    exact (List.nodup_cons.mp hnd).1 hy
  obtain ⟨examined, selected, hret, hbegins, hfind⟩ :=
    @returns_nextFitExamined σ s.toHeap _ size c _ none (visits_round hc) hapart
  rw [horder, hstart]
  refine ⟨examined, selected, hret, ?_, hfind, hbegins, hbegins.sublist.nodup hnd, ?_⟩
  · refine (hret.map Prod.snd).congr ?_
    intro fuel
    rw [nextFit, hstart, nextFitLoop_eq_examined]
  · have hnone : selected = none ↔ selected.map Prod.fst = none := by simp
    rw [hnone, hfind, List.find?_eq_none]
    simp only [decide_eq_true_eq, not_le]
    have hperm : (c :: after ++ before).Perm (before ++ c :: after) := List.perm_append_comm
    constructor
    · exact fun hall x hx => hall x (hperm.mem_iff.mpr hx)
    · exact fun hall x hx => hall x (hperm.mem_iff.mp hx)

/-- The cursor is at the second of two blocks, and both are large enough. -/
theorem nextFit_first_afterMalloc : ∃ selected,
    Returns .outOfFuel (fun fuel => nextFit (afterMalloc holedState 100) 32 fuel) (.ok selected) ∧
    selected.map Prod.fst = some 4288 := by
  have hchain : Chain Link.next (afterMalloc holedState 100).read .first [4096, 4288] :=
    ⟨rfl, rfl, rfl⟩
  have hcursor : (afterMalloc holedState 100).nextFitCursor = some 4288 := rfl
  obtain ⟨_, selected, -, hret, hfind, -⟩ := nextFit_first hchain (by simp)
    (by simp [hcursor]) 32
  refine ⟨selected, hret, hfind.trans ?_⟩
  have horder : cyclicOrder (afterMalloc holedState 100) [4096, 4288] = [4288, 4096] := by
    simp only [cyclicOrder, hcursor]
    rfl
  rw [horder]
  rfl

end StyLinux.Malloc.Vika5
