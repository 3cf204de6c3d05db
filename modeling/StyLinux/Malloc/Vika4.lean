import StyLinux.Malloc.Release
import StyLinux.Malloc.Search

/-!
# The best-fit allocator

`my_malloc` and `my_free` of `vika4/malloc.c`. `vika9/malloc.c` has the same text with the
mutex calls added. A request that finds no block extends the heap and calls `my_malloc`
again, with the size that is already padded.
-/

namespace StyLinux.Malloc

open Lib

variable {σ : Type}

/-- The part of `my_malloc` behind the search, with the recursive call as `retry`. -/
def afterSearch (allocHeap : AllocHeap σ) (retry : ℕ → Heap σ → Except Fault (Option ℕ × Heap σ))
    (size : ℕ) (h : Heap σ) (selected : Option (ℕ × Link)) (fuel : ℕ) :
    Except Fault (Option ℕ × Heap σ) :=
  match selected with
  | some (block, link) =>
    let (p, h) := allocateBlock h link block size
    .ok (some p, h)
  | none => do
    let (extended, h) ← extendHeap allocHeap fuel h
    -- the retry passes the padded size, which is padded once more
    if extended then retry size h else pure (none, h)

namespace Vika4

def myMalloc (allocHeap : AllocHeap σ) : ℕ → ℕ → Heap σ → Except Fault (Option ℕ × Heap σ)
  | 0, _, _ => .error .outOfFuel
  | fuel + 1, size, h =>
    let size := paddedSize size
    if HEAP_SIZE < size then .ok (none, h)
    else do
      let selected ← bestFit h size fuel
      afterSearch allocHeap (myMalloc allocHeap fuel) size h selected fuel

def myFree (fuel : ℕ) (address : Option ℕ) (h : Heap σ) : Except Fault (Heap σ) :=
  match address with
  | none => .ok h
  | some address => do
    let (_, h) ← freeBlock fuel address h
    pure h

end Vika4

/-! ### What one call does -/

section Outcome

variable (allocHeap : AllocHeap σ) (n : ℕ) (h : Heap σ) (ts : List Chunk) (live : List ℕ)

def NoFit : Prop := ∀ t ∈ ts, t.tag = .free → t.len < paddedSize n

def newChunk : Chunk := ⟨h.heapStart + h.heapSize, HEAP_SIZE, .free⟩

/-- The ways in which a request can end in a heap laid out as `ts`. -/
inductive Outcome : Option ℕ → Heap σ → Prop
  | tooLarge : HEAP_SIZE < paddedSize n → Outcome none h
  | noMemory (os : σ) : paddedSize n ≤ HEAP_SIZE → NoFit n ts →
      allocHeap (some h.heapStart) (wrap64 (h.heapSize + HEAP_SIZE)) h.os = (none, os) →
      Outcome none (h.withOs os)
  | served (us vs : List Chunk) (t : Chunk) (h' : Heap σ) : paddedSize n ≤ HEAP_SIZE →
      ts = us ++ t :: vs → t.tag = .free → paddedSize n ≤ t.len →
      Laid h' (us ++ cut t (paddedSize n) ++ vs) (dataOf t.lo :: live) →
      h'.heapStart = h.heapStart → h'.heapSize = h.heapSize → h'.os = h.os →
      Outcome (some (dataOf t.lo)) h'
  | extended (p : ℕ) (os : σ) (h' : Heap σ) : paddedSize n + 16 ≤ HEAP_SIZE → NoFit n ts →
      allocHeap (some h.heapStart) (wrap64 (h.heapSize + HEAP_SIZE)) h.os = (some p, os) →
      Laid h' (ts ++ cut (newChunk h) (paddedSize n + 16)) (dataOf (newChunk h).lo :: live) →
      h'.heapStart = h.heapStart → h'.heapSize = h.heapSize + HEAP_SIZE → h'.os = os →
      Outcome (some (dataOf (newChunk h).lo)) h'
  | refused (p : ℕ) (os : σ) (h' : Heap σ) : paddedSize n = HEAP_SIZE → NoFit n ts →
      allocHeap (some h.heapStart) (wrap64 (h.heapSize + HEAP_SIZE)) h.os = (some p, os) →
      Laid h' (ts ++ [newChunk h]) live →
      h'.heapStart = h.heapStart → h'.heapSize = h.heapSize + HEAP_SIZE → h'.os = os →
      Outcome none h'

end Outcome

variable {allocHeap : AllocHeap σ} {h : Heap σ} {ts : List Chunk} {live : List ℕ} {n : ℕ}

lemma Laid.selects_some (hl : Laid h ts live) {size block : ℕ} {link : Link}
    (hs : Selects h size (freeStarts ts) (some (block, link))) :
    ∃ us t vs, ts = us ++ t :: vs ∧ t.tag = .free ∧ block = t.lo ∧ size ≤ t.len ∧
      link = endLink Link.next .first (freeStarts us) := by
  obtain ⟨before, after, hxs, hlink, hsize⟩ := hs
  obtain ⟨us, t, vs, rfl, ht, rfl, rfl, rfl⟩ := startsOf_eq_append_cons hxs
  have hlen := hl.sizes t (by simp)
  exact ⟨us, t, vs, rfl, ht, rfl, hlen ▸ hsize, hlink⟩

/-- The first smallest of the free tiles with room for `size` bytes. -/
structure IsBest (size : ℕ) (us : List Chunk) (t : Chunk) (vs : List Chunk) : Prop where
  free : t.tag = .free
  le : size ≤ t.len
  before : ∀ s ∈ us, s.tag = .free → size ≤ s.len → t.len < s.len
  after : ∀ s ∈ vs, s.tag = .free → size ≤ s.len → t.len ≤ s.len

lemma Laid.picks_best (hl : Laid h ts live) {size block : ℕ} {link : Link}
    (hp : Picks (fun new old => new < old) h size (freeStarts ts) (some (block, link))) :
    ∃ us t vs, ts = us ++ t :: vs ∧ IsBest size us t vs ∧ block = t.lo ∧
      link = endLink Link.next .first (freeStarts us) := by
  obtain ⟨before, after, hxs, hlink, hsize, hbefore, hafter⟩ := hp
  obtain ⟨us, t, vs, rfl, ht, rfl, rfl, rfl⟩ := startsOf_eq_append_cons hxs
  have hlen := hl.sizes t (by simp)
  refine ⟨us, t, vs, rfl, ⟨by simpa using ht, hlen ▸ hsize, ?_, ?_⟩, rfl, hlink⟩
  · intro s hs hfree hfit
    have hslen := hl.sizes s (by simp [hs])
    have himproves := hbefore s.lo (mem_freeStarts.mpr ⟨s, hs, hfree, rfl⟩) (hslen ▸ hfit)
    simpa [hlen, hslen] using himproves
  · intro s hs hfree hfit
    have hslen := hl.sizes s (by simp [hs])
    have himproves := hafter s.lo (mem_freeStarts.mpr ⟨s, hs, hfree, rfl⟩) (hslen ▸ hfit)
    simpa [hlen, hslen] using himproves

lemma Laid.selects_none (hl : Laid h ts live) {size : ℕ}
    (hs : Selects h size (freeStarts ts) none) : ∀ t ∈ ts, t.tag = .free → t.len < size := by
  intro t ht hfree
  rw [← hl.sizes t ht]
  exact hs t.lo (mem_freeStarts.mpr ⟨t, ht, hfree, rfl⟩)

lemma Laid.serve {us vs : List Chunk} {t : Chunk} {size : ℕ} (hl : Laid h (us ++ t :: vs) live)
    (ht : t.tag = .free) (hpos : 0 < size) (hdvd : 16 ∣ size) (hle : size ≤ t.len) :
    (Malloc.allocateBlock h (endLink Link.next .first (freeStarts us)) t.lo size).1 =
      dataOf t.lo ∧
    Laid (Malloc.allocateBlock h (endLink Link.next .first (freeStarts us)) t.lo size).2
      (us ++ cut t size ++ vs) (dataOf t.lo :: live) := by
  have hchain := hl.chain
  rw [freeStarts_append] at hchain
  exact hl.allocateBlock ht hpos hdvd hle (Abandons.refl us) ((chain_append _ _ _).mp hchain).1

lemma concat_eq_middle {us vs : List Chunk} {s t : Chunk} (he : ts ++ [s] = us ++ t :: vs)
    (ht : t ∉ ts) : us = ts ∧ t = s ∧ vs = [] := by
  rcases List.eq_nil_or_concat vs with rfl | ⟨ws, w, rfl⟩
  · obtain ⟨hts, hs⟩ := List.append_inj' he rfl
    exact ⟨hts.symm, by simpa using hs.symm, rfl⟩
  · have he' : ts ++ [s] = (us ++ t :: ws) ++ [w] := by simpa using he
    obtain ⟨rfl, -⟩ := List.append_inj' he' rfl
    exact absurd (by simp) ht

lemma returns_extendHeap_none {os : σ}
    (hA : allocHeap (some h.heapStart) (wrap64 (h.heapSize + HEAP_SIZE)) h.os = (none, os)) :
    Returns .outOfFuel (fun fuel => extendHeap allocHeap fuel h) (.ok (false, h.withOs os)) := by
  refine (Returns.const _).congr ?_
  intro fuel
  rw [extendHeap, hA]

lemma Laid.extendHeap (hl : Laid h ts live) (hcont : Contiguous allocHeap) {p : ℕ} {os : σ}
    (hA : allocHeap (some h.heapStart) (wrap64 (h.heapSize + HEAP_SIZE)) h.os = (some p, os)) :
    ∃ h', Returns .outOfFuel (fun fuel => extendHeap allocHeap fuel h) (.ok (true, h')) ∧
      Laid h' (ts ++ [newChunk h]) live ∧ h'.heapStart = h.heapStart ∧
      h'.heapSize = h.heapSize + HEAP_SIZE ∧ h'.os = os := by
  have hroom := hcont.extend _ _ _ _ _ hl.room hA
  obtain ⟨h', hret, hlaid, hstart, hsize, hos⟩ := (hl.withOs os).addHeapBlock hroom
  refine ⟨h', (hret.map (fun h => (true, h))).congr ?_, hlaid, hstart, hsize, hos⟩
  intro fuel
  rw [Malloc.extendHeap, hA]

/-- The retry behind an extension finds the new block. -/
lemma not_noFit_newChunk (hn : paddedSize n + 16 ≤ HEAP_SIZE) :
    ¬NoFit (paddedSize n) (ts ++ [newChunk h]) := by
  intro hno
  have hnew := hno (newChunk h) (by simp) rfl
  rw [paddedSize_paddedSize (by omega)] at hnew
  simp only [newChunk] at hnew
  omega

namespace Vika4

lemma returns_tooLarge (hn : HEAP_SIZE < paddedSize n) :
    Returns .outOfFuel (fun fuel => myMalloc allocHeap fuel n h) (.ok (none, h)) := by
  refine (Returns.const _).succ rfl ?_
  intro fuel
  simp only [myMalloc, hn, if_true]

lemma returns_myMalloc {selected : Option (ℕ × Link)} {r : Except Fault (Option ℕ × Heap σ)}
    (hn : paddedSize n ≤ HEAP_SIZE)
    (hsearch : Returns .outOfFuel (fun fuel => bestFit h (paddedSize n) fuel) (.ok selected))
    (hafter : Returns .outOfFuel (fun fuel => afterSearch allocHeap (myMalloc allocHeap fuel)
      (paddedSize n) h selected fuel) r) :
    Returns .outOfFuel (fun fuel => myMalloc allocHeap fuel n h) r := by
  have hbind := hsearch.bind (g := fun selected fuel => afterSearch allocHeap
    (myMalloc allocHeap fuel) (paddedSize n) h selected fuel) hafter
  refine hbind.succ rfl ?_
  intro fuel
  simp only [myMalloc, not_lt.mpr hn, if_false]

lemma returns_selected (hn : paddedSize n ≤ HEAP_SIZE) {block : ℕ} {link : Link}
    (hsearch : Returns .outOfFuel (fun fuel => bestFit h (paddedSize n) fuel)
      (.ok (some (block, link)))) :
    Returns .outOfFuel (fun fuel => myMalloc allocHeap fuel n h)
      (.ok (some (allocateBlock h link block (paddedSize n)).1,
        (allocateBlock h link block (paddedSize n)).2)) :=
  returns_myMalloc hn hsearch (Returns.const _)

lemma returns_noMemory (hn : paddedSize n ≤ HEAP_SIZE) {os : σ}
    (hsearch : Returns .outOfFuel (fun fuel => bestFit h (paddedSize n) fuel) (.ok none))
    (hA : allocHeap (some h.heapStart) (wrap64 (h.heapSize + HEAP_SIZE)) h.os = (none, os)) :
    Returns .outOfFuel (fun fuel => myMalloc allocHeap fuel n h) (.ok (none, h.withOs os)) := by
  apply returns_myMalloc hn hsearch
  refine (Returns.bind (returns_extendHeap_none hA)
    (g := fun x fuel => if x.1 then myMalloc allocHeap fuel (paddedSize n) x.2
      else pure (none, x.2)) (Returns.const _)).congr ?_
  intro fuel
  rfl

lemma returns_extended (hn : paddedSize n ≤ HEAP_SIZE) {h' : Heap σ}
    {r : Except Fault (Option ℕ × Heap σ)}
    (hsearch : Returns .outOfFuel (fun fuel => bestFit h (paddedSize n) fuel) (.ok none))
    (hext : Returns .outOfFuel (fun fuel => extendHeap allocHeap fuel h) (.ok (true, h')))
    (hretry : Returns .outOfFuel (fun fuel => myMalloc allocHeap fuel (paddedSize n) h') r) :
    Returns .outOfFuel (fun fuel => myMalloc allocHeap fuel n h) r := by
  apply returns_myMalloc hn hsearch
  refine (hext.bind (g := fun x fuel => if x.1 then myMalloc allocHeap fuel (paddedSize n) x.2
    else pure (none, x.2)) hretry).congr ?_
  intro fuel
  rfl

/-- A request that finds a block gets the start of the best one. -/
lemma returns_best (allocHeap : AllocHeap σ) (hl : Laid h ts live) (hn : paddedSize n ≤ HEAP_SIZE)
    (hpos : 0 < paddedSize n) (hfit : ¬NoFit n ts) :
    ∃ us t vs h', ts = us ++ t :: vs ∧ IsBest (paddedSize n) us t vs ∧
      Returns .outOfFuel (fun fuel => myMalloc allocHeap fuel n h)
        (.ok (some (dataOf t.lo), h')) ∧
      Laid h' (us ++ cut t (paddedSize n) ++ vs) (dataOf t.lo :: live) ∧
      h'.heapStart = h.heapStart ∧ h'.heapSize = h.heapSize ∧ h'.os = h.os := by
  obtain ⟨selected, hsearch, hpicks⟩ := returns_bestFit (paddedSize n) hl.chain
  cases selected with
  | none => exact absurd (hl.selects_none hpicks.selects) hfit
  | some selected =>
    obtain ⟨block, link⟩ := selected
    obtain ⟨us, t, vs, rfl, hbest, rfl, rfl⟩ := hl.picks_best hpicks
    obtain ⟨hp, hlaid⟩ := hl.serve hbest.free hpos (dvd_paddedSize n) hbest.le
    refine ⟨us, t, vs, _, rfl, hbest, ?_, hlaid, by simp, by simp, by simp⟩
    rw [← hp]
    exact returns_selected hn hsearch

lemma returns_served (allocHeap : AllocHeap σ) (hl : Laid h ts live) (hn : paddedSize n ≤ HEAP_SIZE)
    (hpos : 0 < paddedSize n) (hfit : ¬NoFit n ts) :
    ∃ us t vs h', ts = us ++ t :: vs ∧ t.tag = .free ∧ paddedSize n ≤ t.len ∧
      Returns .outOfFuel (fun fuel => myMalloc allocHeap fuel n h)
        (.ok (some (dataOf t.lo), h')) ∧
      Laid h' (us ++ cut t (paddedSize n) ++ vs) (dataOf t.lo :: live) ∧
      h'.heapStart = h.heapStart ∧ h'.heapSize = h.heapSize ∧ h'.os = h.os := by
  obtain ⟨us, t, vs, h', hts, hbest, hrest⟩ := returns_best allocHeap hl hn hpos hfit
  exact ⟨us, t, vs, h', hts, hbest.free, hbest.le, hrest⟩

/-- Every request that does not make the arithmetic wrap returns, in one of the ways of
`Outcome`. -/
theorem myMalloc_outcome (hl : Laid h ts live) (hcont : Contiguous allocHeap)
    (hn : n + 32 ≤ 2 ^ 64) :
    ∃ r h', Returns .outOfFuel (fun fuel => myMalloc allocHeap fuel n h) (.ok (r, h')) ∧
      Outcome allocHeap n h ts live r h' := by
  by_cases hlarge : HEAP_SIZE < paddedSize n
  · exact ⟨none, h, returns_tooLarge hlarge, .tooLarge hlarge⟩
  rw [not_lt] at hlarge
  by_cases hfit : NoFit n ts
  · obtain ⟨selected, hsearch, hpicks⟩ := returns_bestFit (paddedSize n) hl.chain
    cases selected with
    | some selected =>
      obtain ⟨us, t, vs, rfl, ht, -, hle, -⟩ := hl.selects_some hpicks.selects
      exact absurd (hfit t (by simp) ht) (by omega)
    | none =>
      cases hA : allocHeap (some h.heapStart) (wrap64 (h.heapSize + HEAP_SIZE)) h.os with
      | mk p os =>
        cases p with
        | none =>
          exact ⟨none, _, returns_noMemory hlarge hsearch hA, .noMemory os hlarge hfit hA⟩
        | some p =>
          obtain ⟨h₁, hext, hlaid₁, hstart₁, hsize₁, hos₁⟩ := hl.extendHeap hcont hA
          have hagain := paddedSize_paddedSize hlarge
          by_cases hmax : paddedSize n + 16 ≤ HEAP_SIZE
          · obtain ⟨us, t, vs, h', hts, ht, hle, hret, hlaid, hstart, hsize, hos⟩ :=
              returns_served allocHeap hlaid₁ (hagain ▸ hmax) (by omega)
                (not_noFit_newChunk hmax)
            have hmem : t ∉ ts := fun hin => by
              have := hfit t hin ht
              omega
            obtain ⟨rfl, rfl, rfl⟩ := concat_eq_middle hts hmem
            rw [hagain, List.append_nil] at hlaid
            exact ⟨_, h', returns_extended hlarge hsearch hext hret,
              .extended p os h' hmax hfit hA hlaid (hstart.trans hstart₁) (hsize.trans hsize₁)
                (hos.trans hos₁)⟩
          · have heq : paddedSize n = HEAP_SIZE := by
              have hdvd := dvd_paddedSize n
              rw [HEAP_SIZE_eq] at *
              omega
            refine ⟨none, h₁, returns_extended hlarge hsearch hext (returns_tooLarge ?_),
              .refused p os h₁ heq hfit hA hlaid₁ hstart₁ hsize₁ hos₁⟩
            omega
  · obtain ⟨us, t, vs, h', rfl, ht, hle, hret, hlaid, hstart, hsize, hos⟩ :=
      returns_served allocHeap hl hlarge (paddedSize_pos hn) hfit
    exact ⟨_, h', hret, .served us vs t h' hlarge rfl ht hle hlaid hstart hsize hos⟩

end Vika4

end StyLinux.Malloc
