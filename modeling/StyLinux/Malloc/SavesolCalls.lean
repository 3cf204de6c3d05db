import StyLinux.Malloc.Savesol
import StyLinux.Malloc.Vika4Runs

/-!
# Calls of the second best-fit allocator

On the tiling the calls of `savesolmalloc.c` do what those of the first allocator do, except that
an extension hands out the start of the new block without padding the request again. A call of
`my_free` needs a free block to start from.
-/

namespace StyLinux.Malloc

open Lib

variable {σ : Type} {allocHeap : AllocHeap σ} {h : Heap σ} {ts us vs : List Chunk} {t : Chunk}
  {live : List ℕ} {n : ℕ}

/-- A heap with the same blocks and the same free list. -/
lemma Laid.congr {h' : Heap σ} (hl : Laid h ts live) (hstart : h'.heapStart = h.heapStart)
    (hsize : h'.heapSize = h.heapSize) (hsizes : ∀ s ∈ ts, h'.size s.lo = h.size s.lo)
    (hfirst : h'.read .first = h.read .first)
    (hnext : ∀ s ∈ ts, s.tag = .free → h'.read (.next s.lo) = h.read (.next s.lo)) :
    Laid h' ts live := by
  refine ⟨hl.toLayout.congr hstart hsize hsizes, hl.chain.congr hfirst ?_⟩
  intro a ha
  obtain ⟨s, hs, hfree, rfl⟩ := mem_freeStarts.mp ha
  exact hnext s hs hfree

lemma Laid.read_next (hl : Laid h (us ++ t :: vs) live) (ht : t.tag = .free) :
    h.read (.next t.lo) = (freeStarts vs).head? := by
  have hchain := hl.chain
  have hstarts : freeStarts (us ++ t :: vs) = (freeStarts us ++ [t.lo]) ++ freeStarts vs := by
    simp [ht]
  rw [hstarts] at hchain
  simpa using hchain.get_endLink

lemma Layout.notMem_freeStarts (hl : Layout h ts live) (ht : t ∈ ts) (hlive : t.tag = .live) :
    t.lo ∉ freeStarts ts := by
  intro hin
  obtain ⟨s, hs, hfree, hlo⟩ := mem_freeStarts.mp hin
  obtain rfl := hl.tiles.eq_of_lo hs ht hlo
  cases hlive.symm.trans hfree

namespace Savesol

/-! ### Handing out a block -/

lemma getNextBlockBySize_eq {a : ℕ} (hhead : HEADER_SIZE ≤ h.size a) (hsize : h.size a < 2 ^ 64) :
    getNextBlockBySize h a = Malloc.getNextBlockBySize h a := by
  have hnext : a + HEADER_SIZE + sub64 (h.size a) HEADER_SIZE = a + h.size a := by
    rw [sub64_of_le hhead hsize]
    omega
  simp only [getNextBlockBySize, Malloc.getNextBlockBySize, hnext]

lemma allocateBlock_exact {l : Link} {a : ℕ} (hn : h.size a = n) :
    allocateBlock h l a n = .ok (wrap64 (a + HEADER_SIZE),
      (h.write l (h.read (.next a))).write (.next a) ALLOCATED_BLOCK_MAGIC) := by
  simp [allocateBlock, hn]

lemma allocateBlock_split {l : Link} {a : ℕ} (hlt : n < h.size a) (hhead : HEADER_SIZE ≤ n)
    (hroom : h.heapStart + h.heapSize < 2 ^ 64)
    (hend : a + h.size a ≤ h.heapStart + h.heapSize) :
    allocateBlock h l a n = .ok (wrap64 (a + HEADER_SIZE),
      (((((h.setSize a n).setSize (a + n) (h.size a - n)).write (.next (a + n))
        (h.read (.next a))).write (.next a) ALLOCATED_BLOCK_MAGIC).write l (some (a + n)))) := by
  have hnext : getNextBlockBySize (h.setSize a n) a = .ok (some (a + n)) := by
    have hsize : (h.setSize a n).size a = n := by simp
    have hstop : wrap64 (h.heapStart + h.heapSize) = h.heapStart + h.heapSize :=
      wrap64_of_lt hroom
    have hwrap : wrap64 (a + n) = a + n := wrap64_of_lt (by omega)
    have hne : a + n ≠ h.heapStart + h.heapSize := by omega
    rw [getNextBlockBySize_eq (by omega) (by omega), Malloc.getNextBlockBySize, hsize]
    simp only [Heap.heapStart_setSize, Heap.heapSize_setSize, hstop, hwrap, if_neg hne]
    rw [if_pos (by omega)]
  have hsub : sub64 (h.size a) n = h.size a - n := sub64_of_le hlt.le (by omega)
  rw [allocateBlock, if_neg (not_not.mpr hlt.le), if_neg hlt.ne']
  dsimp only
  rw [hnext, hsub, ok_bind]
  dsimp only
  rw [Heap.read_setSize, Heap.read_setSize]

/-- Both allocators leave the same heap, except for the mark of the block handed out. -/
lemma exists_allocateBlock (hl : Laid h (us ++ t :: vs) live) (hhead : HEADER_SIZE ≤ n)
    (hle : n ≤ t.len) :
    let hv := (Malloc.allocateBlock h (endLink Link.next .first (freeStarts us)) t.lo n).2
    ∃ h', allocateBlock h (endLink Link.next .first (freeStarts us)) t.lo n =
        .ok (dataOf t.lo, h') ∧
      h'.heapStart = h.heapStart ∧ h'.heapSize = h.heapSize ∧ h'.os = h.os ∧ h'.size = hv.size ∧
      ∀ m, m ≠ .next t.lo → h'.read m = hv.read m := by
  intro hv
  have hmem : t ∈ us ++ t :: vs := by simp
  have hlen : h.size t.lo = t.len := hl.sizes t hmem
  have hend := (hl.bounds hmem).2
  have hroom := hl.lt_room hmem
  have hdata : wrap64 (t.lo + HEADER_SIZE) = dataOf t.lo := wrap64_of_lt (by omega)
  by_cases hn : t.len = n
  · have hv_eq : hv = _ :=
      congrArg Prod.snd (Malloc.allocateBlock_exact hlen hn hroom (hl.header_le hmem))
    rw [allocateBlock_exact (hlen.trans hn), hdata, hv_eq]
    refine ⟨_, rfl, by simp, by simp, by simp, by simp, ?_⟩
    intro m hm
    simp [hm]
  · have hv_eq : hv = _ :=
      congrArg Prod.snd (Malloc.allocateBlock_split hlen hn hle hroom (hl.header_le hmem))
    rw [allocateBlock_split (by omega) hhead hl.room (by omega), hdata, hv_eq, hlen]
    refine ⟨_, rfl, by simp, by simp, by simp, ?_, ?_⟩
    · have hne : t.lo + n ≠ t.lo := by
        rw [HEADER_SIZE_eq] at hhead
        omega
      simp only [Heap.size_write, Heap.size_setSize]
      exact Function.update_comm hne.symm _ _ _
    · intro m hm
      simp only [Heap.read_write, Heap.read_setSize]
      rw [Function.update_of_ne hm]
      by_cases hml : m = endLink Link.next .first (freeStarts us)
      · rw [hml, Function.update_self, Function.update_self]
      · rw [Function.update_of_ne hml, Function.update_of_ne hml, Function.update_of_ne hm]

/-- Handing out the free block `t`. -/
lemma returns_allocateBlock (hl : Laid h (us ++ t :: vs) live) (ht : t.tag = .free)
    (hhead : HEADER_SIZE ≤ n) (hdvd : 16 ∣ n) (hle : n ≤ t.len) :
    ∃ h', allocateBlock h (endLink Link.next .first (freeStarts us)) t.lo n =
        .ok (dataOf t.lo, h') ∧
      Laid h' (us ++ cut t n ++ vs) (dataOf t.lo :: live) ∧
      h'.heapStart = h.heapStart ∧ h'.heapSize = h.heapSize ∧ h'.os = h.os := by
  have hpos : 0 < n := by
    rw [HEADER_SIZE_eq] at hhead
    omega
  obtain ⟨-, hlaid⟩ := hl.serve ht hpos hdvd hle
  obtain ⟨h', heq, hstart, hsize, hos, hsizes, hread⟩ := exists_allocateBlock hl hhead hle
  refine ⟨h', heq, hlaid.congr ?_ ?_ ?_ ?_ ?_, hstart, hsize, hos⟩
  · simp [hstart]
  · simp [hsize]
  · intro s _
    rw [hsizes]
  · exact hread .first (Link.next_ne_first t.lo).symm
  · intro s hs hfree
    apply hread
    intro he
    have hcut : (⟨t.lo, n, .live⟩ : Chunk) ∈ us ++ cut t n ++ vs := by
      unfold cut
      split <;> simp
    have hst := hlaid.tiles.eq_of_lo hs hcut (Link.next.inj he)
    rw [hst] at hfree
    cases hfree

/-! ### The marks -/

/-- The headers of the blocks that are handed out carry the mark. -/
def Marked (h : Heap σ) (ts : List Chunk) : Prop :=
  ∀ t ∈ ts, t.tag = .live → h.read (.next t.lo) = ALLOCATED_BLOCK_MAGIC

/-- The heap has not moved, no block has got lost, and the marks are right if they were. -/
structure Kept (h : Heap σ) (ts : List Chunk) (h' : Heap σ) (ts' : List Chunk) : Prop where
  heapStart : h'.heapStart = h.heapStart
  noLost : NoLost ts → NoLost ts'
  marked : Marked h ts → Marked h' ts'

lemma Kept.refl (h : Heap σ) (ts : List Chunk) : Kept h ts h ts := ⟨rfl, id, id⟩

lemma Kept.trans {h' h'' : Heap σ} {ts' ts'' : List Chunk} (hk : Kept h ts h' ts')
    (hk' : Kept h' ts' h'' ts'') : Kept h ts h'' ts'' :=
  ⟨hk'.heapStart.trans hk.heapStart, hk'.noLost ∘ hk.noLost, hk'.marked ∘ hk.marked⟩

lemma Kept.withOs (h : Heap σ) (ts : List Chunk) (os : σ) : Kept h ts (h.withOs os) ts := by
  refine ⟨rfl, id, ?_⟩
  intro hm t ht htag
  rw [Heap.read_withOs]
  exact hm t ht htag

lemma endLink_ne_next {xs : List ℕ} {a : ℕ} (ha : a ∉ xs) :
    endLink Link.next .first xs ≠ .next a := by
  intro he
  rcases endLink_mem Link.first xs with ⟨hfirst, -⟩ | ⟨x, hx, hnext⟩
  · exact absurd (hfirst.symm.trans he) (by simp)
  · obtain rfl := Link.next.inj (hnext.symm.trans he)
    exact ha hx

/-- The old link of the block is read before the mark takes its place. -/
lemma read_allocateBlock (hl : Laid h (us ++ t :: vs) live) (hhead : HEADER_SIZE ≤ n)
    (hle : n ≤ t.len) {p : ℕ} {h' : Heap σ}
    (heq : allocateBlock h (endLink Link.next .first (freeStarts us)) t.lo n = .ok (p, h')) :
    h'.read (.next t.lo) = ALLOCATED_BLOCK_MAGIC ∧
      ∀ a, a ≠ t.lo → a ∉ freeStarts us → (t.len ≠ n → a ≠ t.lo + n) →
        h'.read (.next a) = h.read (.next a) := by
  have hmem : t ∈ us ++ t :: vs := by simp
  have hlen : h.size t.lo = t.len := hl.sizes t hmem
  have hend := (hl.bounds hmem).2
  have hbelow : t.lo ∉ freeStarts us := fun hin => (hl.tiles.startsOf_split.1 _ hin).false
  have hlink := (endLink_ne_next hbelow).symm
  by_cases hn : t.len = n
  · rw [allocateBlock_exact (hlen.trans hn)] at heq
    obtain ⟨-, rfl⟩ := Prod.mk.inj (Except.ok.inj heq)
    refine ⟨by simp, ?_⟩
    intro a ha hus _
    have hne := (endLink_ne_next hus).symm
    simp [ha, hne]
  · rw [allocateBlock_split (by omega) hhead hl.room (by omega)] at heq
    obtain ⟨-, rfl⟩ := Prod.mk.inj (Except.ok.inj heq)
    refine ⟨by simp [hlink], ?_⟩
    intro a ha hus hnew
    have hne := (endLink_ne_next hus).symm
    simp [ha, hne, hnew hn]

lemma kept_allocateBlock (hl : Laid h (us ++ t :: vs) live) (ht : t.tag = .free)
    (hhead : HEADER_SIZE ≤ n) (hle : n ≤ t.len) {p : ℕ} {h' : Heap σ}
    (heq : allocateBlock h (endLink Link.next .first (freeStarts us)) t.lo n = .ok (p, h'))
    (hstart : h'.heapStart = h.heapStart) :
    Kept h (us ++ t :: vs) h' (us ++ cut t n ++ vs) := by
  obtain ⟨hmark, hframe⟩ := read_allocateBlock hl hhead hle heq
  have hmem : t ∈ us ++ t :: vs := by simp
  refine ⟨hstart, ?_, ?_⟩
  · intro hts
    obtain ⟨hus, hrest⟩ := noLost_append.mp hts
    rw [noLost_append, noLost_append]
    exact ⟨⟨hus, noLost_cut t n⟩, (noLost_cons.mp hrest).2⟩
  · -- the other blocks that are handed out are neither patched nor split off
    have hother : Marked h (us ++ t :: vs) → ∀ s ∈ us ++ t :: vs, s.tag = .live →
        h'.read (.next s.lo) = ALLOCATED_BLOCK_MAGIC := by
      intro hm s hs hlive
      have hst : s ≠ t := by
        rintro rfl
        cases hlive.symm.trans ht
      have hspos := hl.tiles.pos hs
      have htpos := hl.tiles.pos hmem
      have hapart := hl.tiles.apart hs hmem hst
      simp only [Tile.hi] at hapart
      rw [← hm s hs hlive]
      apply hframe
      · omega
      · intro hin
        have hfree := hl.notMem_freeStarts hs hlive
        rw [freeStarts_append, List.mem_append] at hfree
        exact hfree (.inl hin)
      · omega
    intro hm s hs hlive
    rw [List.append_assoc, List.mem_append, List.mem_append] at hs
    rcases hs with hs | hs | hs
    · exact hother hm s (by simp [hs]) hlive
    · rcases mem_cut hs with rfl | ⟨-, rfl⟩
      · exact hmark
      · cases hlive
    · exact hother hm s (by simp [hs]) hlive

/-! ### The search -/

lemma paddedSize_eq_wrap (n : ℕ) : wrap64 (roundUp n + HEADER_SIZE) = paddedSize n := by
  rw [paddedSize, Nat.add_comm]

/-- The best block of the first allocator, with its size. -/
def withSize (h : Heap σ) (best : ℕ × Link) : Best := (h.size best.1, best.1, best.2)

lemma updateBest_eq (size : ℕ) (best : Option (ℕ × Link)) (prev : Option ℕ) (block : ℕ) :
    updateBest h size (best.map (withSize h)) (linkOf prev) block =
      (Malloc.updateBest (fun new old => new < old) h size best prev block).map (withSize h) := by
  unfold updateBest Malloc.updateBest
  by_cases hfit : size ≤ h.size block
  · rw [if_pos hfit, if_pos hfit]
    cases best with
    | none => rfl
    | some best =>
      by_cases hlt : h.size block < h.size best.1
      · simp [withSize, hlt]
      · simp [withSize, hlt]
  · rw [if_neg hfit, if_neg hfit]

/-- The loop finds what the loop of the first allocator finds. -/
lemma returns_searchLoop {size : ℕ} {xs ys : List ℕ} {best : Option (ℕ × Link)}
    (hc : Chain Link.next h.read (endLink Link.next .first xs) ys)
    (hp : Picks (fun new old => new < old) h size xs best) :
    ∃ r, Returns .outOfFuel (fun fuel => searchLoop h size fuel (best.map (withSize h))
        (endLink Link.next .first xs) (h.read (endLink Link.next .first xs)))
        (.ok (r.map (withSize h), endLink Link.next .first (xs ++ ys))) ∧
      Picks (fun new old => new < old) h size (xs ++ ys) r := by
  induction ys generalizing xs best with
  | nil =>
    refine ⟨best, (Returns.const _).succ rfl ?_, by simpa using hp⟩
    intro fuel
    have hr : h.read (endLink Link.next .first xs) = none := hc
    rw [hr, searchLoop, List.append_nil]
  | cons y ys ih =>
    have hnext : endLink Link.next .first (xs ++ [y]) = .next y := endLink_concat _ _ _
    have hp' := hp.updateBest (by simp only [decide_eq_true_eq]; omega)
      (by simp only [decide_eq_true_eq]; omega) y
    obtain ⟨r, hr, hpicks⟩ := ih (hnext.symm ▸ hc.2) hp'
    refine ⟨r, ?_, by simpa using hpicks⟩
    rw [List.append_assoc] at hr
    refine hr.succ rfl ?_
    intro fuel
    rw [hc.1, hnext, searchLoop, ← linkOf_getLast? xs, updateBest_eq]

lemma returns_search (hl : Laid h ts live) (size : ℕ) :
    ∃ r, Returns .outOfFuel (fun fuel => searchLoop h size fuel none .first h.firstFreeBlock)
        (.ok (r.map (withSize h), endLink Link.next .first (freeStarts ts))) ∧
      Picks (fun new old => new < old) h size (freeStarts ts) r := by
  have hempty : Picks (fun new old => decide (new < old)) h size [] none := by simp [Picks]
  exact returns_searchLoop hl.chain hempty

lemma returns_afterSearch {best : Option (ℕ × Link)} {r : Except Fault (Option ℕ × Heap σ)}
    {prevptr : Link}
    (hsearch : Returns .outOfFuel (fun fuel => searchLoop h (paddedSize n) fuel none .first
      h.firstFreeBlock) (.ok (best.map (withSize h), prevptr)))
    (hafter : afterSearch allocHeap (paddedSize n) h (best.map (withSize h)) prevptr = r) :
    Returns .outOfFuel (fun fuel => myMalloc allocHeap fuel n h) r := by
  refine (hsearch.bind (g := fun x _ => afterSearch allocHeap (paddedSize n) h x.1 x.2)
    (hafter ▸ Returns.const _)).congr ?_
  intro fuel
  rw [myMalloc, paddedSize_eq_wrap]

lemma header_le_paddedSize (hn : n + 32 ≤ 2 ^ 64) : HEADER_SIZE ≤ paddedSize n := by
  have hle := le_paddedSize hn
  rw [HEADER_SIZE_eq]
  omega

lemma returns_served_kept (allocHeap : AllocHeap σ) (hl : Laid h ts live) (hn : n + 32 ≤ 2 ^ 64)
    (hfit : ¬NoFit n ts) :
    ∃ us t vs h', ts = us ++ t :: vs ∧ IsBest (paddedSize n) us t vs ∧
      Returns .outOfFuel (fun fuel => myMalloc allocHeap fuel n h)
        (.ok (some (dataOf t.lo), h')) ∧
      Laid h' (us ++ cut t (paddedSize n) ++ vs) (dataOf t.lo :: live) ∧
      Kept h ts h' (us ++ cut t (paddedSize n) ++ vs) ∧
      h'.heapSize = h.heapSize ∧ h'.os = h.os := by
  obtain ⟨best, hsearch, hpicks⟩ := returns_search hl (paddedSize n)
  cases best with
  | none => exact absurd (hl.selects_none hpicks.selects) hfit
  | some best =>
    obtain ⟨block, link⟩ := best
    obtain ⟨us, t, vs, rfl, hbest, rfl, rfl⟩ := hl.picks_best hpicks
    have hhead := header_le_paddedSize hn
    obtain ⟨h', heq, hlaid, hstart, hsize, hos⟩ := returns_allocateBlock hl hbest.free hhead
      (dvd_paddedSize n) hbest.le
    have hkept := kept_allocateBlock hl hbest.free hhead hbest.le heq hstart
    refine ⟨us, t, vs, h', rfl, hbest, returns_afterSearch hsearch ?_, hlaid, hkept, hsize, hos⟩
    simp only [Option.map_some, withSize, afterSearch, heq, ok_bind]
    rfl

/-- A request that finds a block gets the start of the best one. -/
theorem returns_served (allocHeap : AllocHeap σ) (hl : Laid h ts live) (hn : n + 32 ≤ 2 ^ 64)
    (hfit : ¬NoFit n ts) :
    ∃ us t vs h', ts = us ++ t :: vs ∧ IsBest (paddedSize n) us t vs ∧
      Returns .outOfFuel (fun fuel => myMalloc allocHeap fuel n h)
        (.ok (some (dataOf t.lo), h')) ∧
      Laid h' (us ++ cut t (paddedSize n) ++ vs) (dataOf t.lo :: live) ∧
      h'.heapStart = h.heapStart ∧ h'.heapSize = h.heapSize ∧ h'.os = h.os := by
  obtain ⟨us, t, vs, h', hts, hbest, hret, hlaid, hkept, hframe⟩ :=
    returns_served_kept allocHeap hl hn hfit
  exact ⟨us, t, vs, h', hts, hbest, hret, hlaid, hkept.heapStart, hframe⟩

/-- The heap with a new block at the end of the free list. -/
lemma laid_addHeapBlock (hl : Laid h ts live)
    (hroom : h.heapStart + (h.heapSize + HEAP_SIZE) < 2 ^ 64) :
    let x := addHeapBlock h (endLink Link.next .first (freeStarts ts))
    x.1 = (newChunk h).lo ∧ Laid x.2 (ts ++ [newChunk h]) live ∧
      x.2.heapStart = h.heapStart ∧ x.2.heapSize = h.heapSize + HEAP_SIZE ∧ x.2.os = h.os := by
  intro x
  let new := h.heapStart + h.heapSize
  have hnew : wrap64 (h.heapStart + h.heapSize) = new := wrap64_of_lt (by omega)
  have hsize : wrap64 (h.heapSize + HEAP_SIZE) = h.heapSize + HEAP_SIZE :=
    wrap64_of_lt (by omega)
  let h₁ := ((h.setSize new HEAP_SIZE).write (.next new) none).write
    (endLink Link.next .first (freeStarts ts)) (some new)
  have hx : x = (new, { h₁ with heapSize := h.heapSize + HEAP_SIZE }) := by
    simp only [x, addHeapBlock, hnew]
    simp [hsize, h₁]
  have hread : x.2.read = h₁.read := by
    rw [hx]
    funext l
    cases l <;> rfl
  have hsizes : x.2.size = Function.update h.size (h.heapStart + h.heapSize) HEAP_SIZE := by
    have hx_size : x.2.size = h₁.size := by rw [hx]; rfl
    rw [hx_size]
    simp [h₁, new]
  have hstart : x.2.heapStart = h.heapStart := by
    rw [hx]
    simp [h₁]
  have hgrown : x.2.heapSize = h.heapSize + HEAP_SIZE := by rw [hx]
  refine ⟨by rw [hx]; rfl, ⟨hl.toLayout.append hstart hgrown hsizes hroom, ?_⟩, hstart, hgrown,
    by rw [hx]; simp [h₁]⟩
  obtain ⟨hpath, hend⟩ := (chain_iff_path _ _).mp hl.chain
  have hnil : Chain Link.next h.read (endLink Link.next .first (freeStarts ts)) [] := hend
  have hjoin := hpath.joinNode Link.next_injective Link.next_ne_first hnil hl.nodup_end
  have hstarts : freeStarts (ts ++ [newChunk h]) = freeStarts ts ++ [new] := by
    simp [newChunk, new]
  rw [hend] at hjoin
  rw [hread, hstarts]
  simpa [h₁] using hjoin

lemma read_addHeapBlock (h : Heap σ) (prevptr : Link) :
    (addHeapBlock h prevptr).2.read =
      (((h.setSize (wrap64 (h.heapStart + h.heapSize)) HEAP_SIZE).write
        (.next (wrap64 (h.heapStart + h.heapSize))) none).write prevptr
          (some (wrap64 (h.heapStart + h.heapSize)))).read := by
  rw [addHeapBlock]
  exact Heap.read_setHeapSize _ _

lemma kept_addHeapBlock (hl : Laid h ts live)
    (hroom : h.heapStart + (h.heapSize + HEAP_SIZE) < 2 ^ 64) :
    Kept h ts (addHeapBlock h (endLink Link.next .first (freeStarts ts))).2
      (ts ++ [newChunk h]) := by
  obtain ⟨-, -, hstart, -⟩ := laid_addHeapBlock hl hroom
  refine ⟨hstart, ?_, ?_⟩
  · intro hts
    rw [noLost_append]
    exact ⟨hts, by simp [NoLost, newChunk]⟩
  · intro hm s hs hlive
    rcases List.mem_append.mp hs with hs | hs
    · have hend := (hl.bounds hs).2
      have hpos := hl.tiles.pos hs
      have hnew : s.lo ≠ wrap64 (h.heapStart + h.heapSize) := by
        rw [wrap64_of_lt hl.room]
        omega
      have hlink := (endLink_ne_next (hl.notMem_freeStarts hs hlive)).symm
      rw [← hm s hs hlive]
      rw [read_addHeapBlock]
      simp [hnew, hlink]
    · rw [List.mem_singleton.mp hs] at hlive
      cases hlive

/-- Every request of at most `HEAP_SIZE` bytes returns and leaves a laid out heap. -/
theorem returns_myMalloc (hl : Laid h ts live) (hcont : Contiguous allocHeap)
    (hn : n + 32 ≤ 2 ^ 64) :
    ∃ r h' ts', Returns .outOfFuel (fun fuel => myMalloc allocHeap fuel n h) (.ok (r, h')) ∧
      Laid h' ts' (r.toList ++ live) ∧ Kept h ts h' ts' := by
  by_cases hfit : NoFit n ts
  · obtain ⟨best, hsearch, hpicks⟩ := returns_search hl (paddedSize n)
    cases best with
    | some best =>
      obtain ⟨us, t, vs, rfl, hbest, -, -⟩ := hl.picks_best hpicks
      have hle := hbest.le
      exact absurd (hfit t (by simp) hbest.free) (by omega)
    | none =>
      by_cases hlarge : HEAP_SIZE - HEADER_SIZE < paddedSize n
      · refine ⟨none, h, ts, returns_afterSearch hsearch ?_, hl, .refl h ts⟩
        simp only [Option.map_none, afterSearch, if_pos hlarge]
      · cases hA : allocHeap (some h.heapStart) (wrap64 (h.heapSize + HEAP_SIZE)) h.os with
        | mk p os =>
          cases p with
          | none =>
            refine ⟨none, h.withOs os, ts, returns_afterSearch hsearch ?_, hl.withOs os,
              .withOs h ts os⟩
            simp only [Option.map_none, afterSearch, if_neg hlarge, hA]
          | some p =>
            have hroom := hcont.extend _ _ _ _ _ hl.room hA
            obtain ⟨hlo, hlaid, -⟩ := laid_addHeapBlock (hl.withOs os) hroom
            have hadd := kept_addHeapBlock (hl.withOs os) hroom
            have hhead := header_le_paddedSize hn
            have hle : paddedSize n ≤ HEAP_SIZE := by
              rw [HEAP_SIZE_eq, HEADER_SIZE_eq] at *
              omega
            obtain ⟨h', heq, hlaid', hstart, -⟩ := returns_allocateBlock hlaid rfl hhead
              (dvd_paddedSize n) hle
            have hkept := (hadd.trans (kept_allocateBlock hlaid rfl hhead hle heq hstart))
            refine ⟨some (dataOf (newChunk h).lo), h', _, returns_afterSearch hsearch ?_, hlaid',
              (Kept.withOs h ts os).trans hkept⟩
            simp only [Option.map_none, afterSearch, if_neg hlarge, hA]
            rw [hlo]
            exact congrArg (· >>= _) heq
  · obtain ⟨us, t, vs, h', -, -, hret, hlaid, hkept, -⟩ :=
      returns_served_kept allocHeap hl hn hfit
    exact ⟨_, h', _, hret, hlaid, hkept⟩

/-! ### Returning a block -/

lemma write_comm {a b : ℕ} (hab : a ≠ b) (v w : Option ℕ) :
    (h.write (.next a) v).write (.next b) w = (h.write (.next b) w).write (.next a) v := by
  simp only [Heap.write, Function.update_of_ne hab, Function.update_of_ne hab.symm]
  rw [Function.update_comm hab]

lemma insertAfter_eq {a b : ℕ} (hab : a ≠ b) :
    insertAfter h b a = insertFree h b (some a) (h.read (.next a)) := by
  unfold insertAfter insertFree
  cases h.read (.next a) with
  | none => exact write_comm hab.symm _ _
  | some c => exact write_comm hab.symm _ _

lemma mergeBlocks_some {a b : ℕ} (hread : h.read (.next a) = some b) :
    mergeBlocks h a (some b) =
      .ok (if wrap64 (a + h.size a) = b then Malloc.mergeBlocks h a b else h) := by
  unfold mergeBlocks
  by_cases hb : wrap64 (a + h.size a) = b
  · simp [hb, hread, Malloc.mergeBlocks]
  · simp [hb]

/-- The merge with the next block, with the assertion in it. -/
lemma mergeBlocks_next (hl : Laid h (us ++ t :: vs) live) (ht : t.tag = .free) :
    mergeBlocks h t.lo (h.read (.next t.lo)) =
      .ok (mergeNext h t.lo (freeStarts vs).head?) := by
  have hread := hl.read_next ht
  cases hhead : (freeStarts vs).head? with
  | none =>
    have hlen := hl.sizes t (by simp)
    have hpos := hl.tiles.pos (t := t) (by simp)
    have hroom := hl.lt_room (t := t) (by simp)
    have hne : wrap64 (t.lo + h.size t.lo) ≠ 0 := by
      rw [hlen, wrap64_of_lt hroom]
      omega
    rw [hread, hhead, mergeBlocks]
    simp only [Option.getD_none]
    rw [if_pos hne]
    rfl
  | some c =>
    rw [hread, hhead]
    exact mergeBlocks_some (hread.trans hhead)

/-- The merge with the block before, with the assertion in it. -/
lemma mergeBlocks_prev (hl : Laid h (us ++ t :: vs) live) (ht : t.tag = .free) {a : ℕ}
    (ha : (freeStarts us).getLast? = some a) :
    mergeBlocks h a (some t.lo) = .ok (mergePrev h t.lo (freeStarts us).getLast?).2 := by
  obtain ⟨xs, hxs⟩ := List.getLast?_eq_some_iff.mp ha
  have hchain := hl.chain
  have hstarts : freeStarts (us ++ t :: vs) = (xs ++ [a]) ++ t.lo :: freeStarts vs := by
    simp [ht, hxs]
  rw [hstarts] at hchain
  have hread : h.read (.next a) = some t.lo := by simpa using hchain.get_endLink
  rw [mergeBlocks_some hread, ha, mergePrev]
  by_cases hb : wrap64 (a + h.size a) = t.lo
  · rw [if_pos hb, if_pos hb]
  · rw [if_neg hb, if_neg hb]

lemma returns_insertLoop {b x a : ℕ} {xs ys : List ℕ}
    (hc : Chain Link.next h.read (.next x) (xs ++ ys)) (hx : ∀ y ∈ xs, y < b)
    (hy : ∀ y ∈ ys, b < y) (ha : (x :: xs).getLast? = some a) :
    Returns .outOfFuel (fun fuel => insertLoop h b fuel x) (.ok a) := by
  induction xs generalizing x with
  | nil =>
    obtain rfl : x = a := by simpa using ha
    refine (Returns.const _).succ rfl ?_
    intro fuel
    rw [insertLoop]
    cases ys with
    | nil =>
      have hr : h.read (.next x) = none := hc
      rw [hr]
    | cons y ys =>
      have hr : h.read (.next x) = some y := hc.1
      have hlt : ¬y < b := by
        have hby := hy y (by simp)
        omega
      simp only [hr, if_neg hlt]
  | cons z zs ih =>
    have hlast : (z :: zs).getLast? = some a := by
      rw [← ha, List.getLast?_cons_cons]
    refine (ih hc.2 (fun y hy => hx y (by simp [hy])) hlast).succ rfl ?_
    intro fuel
    have hr : h.read (.next x) = some z := hc.1
    simp only [insertLoop, hr]
    rw [if_pos (hx z (by simp))]

end Savesol

lemma mergedBefore_of_nil (hus : freeStarts us = []) : mergedBefore us t = (us, t) := by
  rcases List.eq_nil_or_concat' us with rfl | ⟨us₀, q, rfl⟩
  · rfl
  · apply mergedBefore_concat_used
    intro hq
    simp [hq] at hus

/-- The order of the two merges does not matter for the tiling. -/
lemma release_eq (us : List Chunk) (t : Chunk) (vs : List Chunk) :
    release us t vs =
      (mergedBefore us (mergedAfter ⟨t.lo, t.len, .free⟩ vs).1).1 ++
        (mergedBefore us (mergedAfter ⟨t.lo, t.len, .free⟩ vs).1).2 ::
          (mergedAfter ⟨t.lo, t.len, .free⟩ vs).2 := by
  unfold release
  rcases List.eq_nil_or_concat' us with rfl | ⟨us₀, q, rfl⟩
  · rfl
  · by_cases hq : q.tag = .free
    · simp only [mergedBefore_concat_free hq]
      cases vs with
      | nil => rfl
      | cons r vs =>
        by_cases hr : r.tag = .free
        · simp [mergedAfter, hr, Nat.add_assoc]
        · simp [mergedAfter, hr]
    · simp only [mergedBefore_concat_used hq]

end StyLinux.Malloc
