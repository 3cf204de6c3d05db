import StyLinux.Malloc.Coalesced

/-!
# Coalesced heaps are canonical

A coalesced heap without lost blocks is determined by its live blocks: the free ones fill the gaps
between them, one a gap. So it does not matter in which order blocks are freed, and a block that
is allocated and freed again leaves no trace.
-/

namespace StyLinux.Malloc

open Lib

variable {σ : Type} {h h' : Heap σ} {ts us vs : List Chunk} {live : List ℕ} {a b p : ℕ}

/-! ### Live tiles -/

def liveTiles (ts : List Chunk) : List Chunk := ts.filter fun t => t.tag = .live

@[simp] lemma liveTiles_append (ts us : List Chunk) :
    liveTiles (ts ++ us) = liveTiles ts ++ liveTiles us := List.filter_append ts us

lemma liveTiles_cons_live {t : Chunk} (ht : t.tag = .live) (ts : List Chunk) :
    liveTiles (t :: ts) = t :: liveTiles ts := List.filter_cons_of_pos (by simpa using ht)

lemma liveTiles_cons_free {t : Chunk} (ht : t.tag = .free) (ts : List Chunk) :
    liveTiles (t :: ts) = liveTiles ts := List.filter_cons_of_neg (by simp [ht])

lemma mem_liveTiles {t : Chunk} : t ∈ liveTiles ts ↔ t ∈ ts ∧ t.tag = .live := by
  simp [liveTiles]

/-! ### Uniqueness -/

/-- The tiles fill `[a, b)` with live blocks and free ones that do not touch each other. -/
structure Canonical (a : ℕ) (ts : List Chunk) (b : ℕ) : Prop where
  tiles : Tiles a ts b
  noLost : NoLost ts
  coalesced : Coalesced ts

namespace Canonical

lemma tail {t : Chunk} (h : Canonical a (t :: ts) b) : Canonical t.hi ts b :=
  ⟨h.tiles.2.2, (noLost_cons.mp h.noLost).2, h.coalesced.tail⟩

lemma lo_eq {t : Chunk} (h : Canonical a (t :: ts) b) : t.lo = a := h.tiles.1

lemma tag {t : Chunk} (h : Canonical a (t :: ts) b) : t.tag = .free ∨ t.tag = .live := by
  have hlost := (noLost_cons.mp h.noLost).1
  cases htag : t.tag with
  | free => exact .inl rfl
  | live => exact .inr rfl
  | lost => exact absurd htag hlost

lemma eq_nil (h : Canonical a ts a) : ts = [] := by
  cases ts with
  | nil => rfl
  | cons t ts =>
    have hlo := h.lo_eq
    have hpos := h.tiles.2.1
    have hle := h.tail.tiles.le
    simp only [Tile.hi] at hle
    omega

/-- A free tile ends where the first live one starts. -/
lemma hi_eq {t : Chunk} (h : Canonical a (t :: ts) b) (ht : t.tag = .free) :
    t.hi = ((liveTiles (t :: ts)).head?.map Tile.lo).getD b := by
  rw [liveTiles_cons_free ht]
  cases ts with
  | nil => exact h.tail.tiles
  | cons r ts =>
    have hr : r.tag = .live := by
      rcases h.tail.tag with hr | hr
      · exact absurd ⟨ht, hr⟩ (List.isChain_cons_cons.mp h.coalesced).1
      · exact hr
    rw [liveTiles_cons_live hr]
    exact h.tail.lo_eq.symm

/-- Two tilings that start with a live and a free tile have different live tiles. -/
lemma liveTiles_ne {t u : Chunk} (h : Canonical a (t :: ts) b) (h' : Canonical a (u :: us) b)
    (ht : t.tag = .live) (hu : u.tag = .free) : liveTiles (t :: ts) ≠ liveTiles (u :: us) := by
  intro he
  have hmem : t ∈ liveTiles (u :: us) := by
    rw [← he, liveTiles_cons_live ht]
    exact List.mem_cons_self
  obtain rfl := h'.tiles.eq_of_lo (mem_liveTiles.mp hmem).1 List.mem_cons_self
    (h.lo_eq.trans h'.lo_eq.symm)
  rw [ht] at hu
  cases hu

/-- A canonical tiling is determined by its live tiles. -/
theorem eq_of_liveTiles (h : Canonical a ts b) (h' : Canonical a us b)
    (he : liveTiles ts = liveTiles us) : ts = us := by
  induction ts generalizing a us with
  | nil =>
    obtain rfl : a = b := h.tiles
    exact h'.eq_nil.symm
  | cons t ts ih =>
    cases us with
    | nil =>
      obtain rfl : a = b := h'.tiles
      exact h.eq_nil
    | cons u us =>
      have htu : t = u ∧ liveTiles ts = liveTiles us := by
        rcases h.tag with ht | ht
        · rcases h'.tag with hu | hu
          · have hhi : t.hi = u.hi := by rw [h.hi_eq ht, h'.hi_eq hu, he]
            rw [liveTiles_cons_free ht, liveTiles_cons_free hu] at he
            have hlo := h.lo_eq.trans h'.lo_eq.symm
            cases t
            cases u
            simp_all [Tile.hi]
          · exact absurd he.symm (h'.liveTiles_ne h hu ht)
        · rcases h'.tag with hu | hu
          · exact absurd he (h.liveTiles_ne h' ht hu)
          · rw [liveTiles_cons_live ht, liveTiles_cons_live hu] at he
            exact List.cons.inj he
      obtain ⟨rfl, htail⟩ := htu
      rw [ih h.tail h'.tail htail]

end Canonical

lemma Laid.canonical (hl : Laid h ts live) (hlost : NoLost ts) (hts : Coalesced ts) :
    Canonical h.heapStart ts (h.heapStart + h.heapSize) := ⟨hl.tiles, hlost, hts⟩

/-- The free list with the sizes of its blocks. -/
def SameFree (h h' : Heap σ) : Prop :=
  ∃ free, FreeList h free ∧ FreeList h' free ∧ ∀ a ∈ free, h'.size a = h.size a

/-- Two heaps with the same tiles have the same free blocks. -/
lemma Laid.sameFree {live' : List ℕ} (hl : Laid h ts live) (hl' : Laid h' ts live') :
    SameFree h h' := by
  refine ⟨freeStarts ts, hl.freeList, hl'.freeList, ?_⟩
  intro a ha
  obtain ⟨t, ht, -, rfl⟩ := mem_freeStarts.mp ha
  rw [hl.sizes t ht, hl'.sizes t ht]

/-! ### Allocating and freeing -/

lemma liveTiles_mergedBefore (us : List Chunk) (t : Chunk) :
    liveTiles (mergedBefore us t).1 = liveTiles us := by
  rcases List.eq_nil_or_concat' us with rfl | ⟨us, q, rfl⟩
  · rfl
  · by_cases hq : q.tag = .free
    · rw [mergedBefore_concat_free hq, liveTiles_append, liveTiles_cons_free hq]
      exact (List.append_nil _).symm
    · rw [mergedBefore_concat_used hq]

lemma liveTiles_mergedAfter (t : Chunk) (vs : List Chunk) :
    liveTiles (mergedAfter t vs).2 = liveTiles vs := by
  cases vs with
  | nil => rfl
  | cons r vs =>
    by_cases hr : r.tag = .free
    · simp only [mergedAfter, hr, if_true, liveTiles_cons_free hr]
    · simp only [mergedAfter, hr, if_false]

lemma liveTiles_release (us : List Chunk) (t : Chunk) (vs : List Chunk) :
    liveTiles (release us t vs) = liveTiles us ++ liveTiles vs := by
  have htag : (mergedAfter (mergedBefore us ⟨t.lo, t.len, .free⟩).2 vs).1.tag = .free :=
    tag_mergedAfter (tag_mergedBefore rfl)
  unfold release
  rw [liveTiles_append, liveTiles_cons_free htag, liveTiles_mergedBefore, liveTiles_mergedAfter]

/-- The live tile of a cut comes first. -/
lemma exists_cut_eq (t : Chunk) (n : ℕ) :
    ∃ rest, cut t n = ⟨t.lo, n, .live⟩ :: rest ∧ liveTiles rest = [] := by
  unfold cut
  split
  · exact ⟨[], rfl, rfl⟩
  · exact ⟨[⟨t.lo + n, t.len - n, .free⟩], rfl, rfl⟩

/-- The tiles other than those at the pointers `ps`. -/
def without (ps : List ℕ) (ts : List Chunk) : List Chunk := ts.filter fun t => dataOf t.lo ∉ ps

lemma without_nil (ts : List Chunk) : without [] ts = ts := List.filter_eq_self.mpr (by simp)

lemma without_cons (p : ℕ) (ps : List ℕ) (ts : List Chunk) :
    without (p :: ps) ts = without ps (without [p] ts) := by
  simp only [without, List.filter_filter]
  apply List.filter_congr
  intro t _
  simp [Bool.and_comm]

lemma without_perm {ps qs : List ℕ} (hperm : ps.Perm qs) (ts : List Chunk) :
    without ps ts = without qs ts := by
  apply List.filter_congr
  intro t _
  simp only [hperm.mem_iff]

lemma without_middle {t : Chunk} (ht : t.tag = .live) (htiles : Tiles a (us ++ t :: vs) b) :
    without [dataOf t.lo] (liveTiles (us ++ t :: vs)) = liveTiles us ++ liveTiles vs := by
  obtain ⟨hus, hpos, hvs⟩ := (tiles_middle a b us vs t).mp htiles
  have hbefore : ∀ s ∈ liveTiles us, dataOf s.lo ≠ dataOf t.lo := by
    intro s hs
    have hmem := (mem_liveTiles.mp hs).1
    have hhi := (hus.bounds hmem).2
    have hspos := hus.pos hmem
    simp only [Tile.hi] at hhi
    unfold dataOf
    omega
  have hafter : ∀ s ∈ liveTiles vs, dataOf s.lo ≠ dataOf t.lo := by
    intro s hs
    have hlo := (hvs.bounds (mem_liveTiles.mp hs).1).1
    simp only [Tile.hi] at hlo
    unfold dataOf
    omega
  rw [liveTiles_append, liveTiles_cons_live ht, without, List.filter_append,
    List.filter_cons_of_neg (by simp), List.filter_eq_self.mpr, List.filter_eq_self.mpr]
  · simpa using hafter
  · simpa using hbefore

namespace Vika4

/-- A live block is freed in a coalesced heap. -/
lemma returns_myFree_tidy (hl : Laid h ts live) (hlost : NoLost ts) (hts : Coalesced ts)
    (hp : p ∈ live) : ∃ ts' h', Returns .outOfFuel (fun fuel => myFree fuel (some p) h) (.ok h') ∧
      Laid h' ts' (live.erase p) ∧ NoLost ts' ∧ Coalesced ts' ∧
      liveTiles ts' = without [p] (liveTiles ts) ∧
      h'.heapStart = h.heapStart ∧ h'.heapSize = h.heapSize := by
  obtain ⟨us, t, vs, h', rfl, htag, rfl, hret, hlaid, hstart, hsize, -⟩ := returns_myFree hl hp
  refine ⟨_, h', hret, hlaid, hlost.release, hts.release, ?_, hstart, hsize⟩
  rw [liveTiles_release, without_middle htag hl.tiles]

/-- A block is allocated and freed again. -/
lemma returns_restored (allocHeap : AllocHeap σ) {n : ℕ} (hl : Laid h ts live) (hlost : NoLost ts)
    (hts : Coalesced ts) (hn : paddedSize n ≤ HEAP_SIZE) (hpos : 0 < paddedSize n)
    (hfit : ¬NoFit n ts) : ∃ p h' h'',
      Returns .outOfFuel (fun fuel => myMalloc allocHeap fuel n h) (.ok (some p, h')) ∧
      Returns .outOfFuel (fun fuel => myFree fuel (some p) h') (.ok h'') ∧
      Laid h'' ts live := by
  obtain ⟨us, t, vs, h', rfl, htag, -, hret, hlaid, hstart, hsize, -⟩ :=
    returns_served allocHeap hl hn hpos hfit
  obtain ⟨hus, hvs⟩ := noLost_append.mp hlost
  have hlost' : NoLost (us ++ cut t (paddedSize n) ++ vs) :=
    noLost_append.mpr ⟨noLost_append.mpr ⟨hus, noLost_cut t _⟩, (noLost_cons.mp hvs).2⟩
  obtain ⟨ts'', h'', hfree, hlaid'', hlost'', hts'', hlive, hstart', hsize'⟩ :=
    returns_myFree_tidy hlaid hlost' (hts.cut htag _) List.mem_cons_self
  have hsame : liveTiles ts'' = liveTiles (us ++ t :: vs) := by
    obtain ⟨rest, hcut, hrest⟩ := exists_cut_eq t (paddedSize n)
    have htiles := hlaid.tiles
    rw [hcut, List.append_assoc, List.cons_append] at hlive htiles
    have hwithout := without_middle rfl htiles
    rw [hlive, show dataOf t.lo = dataOf (⟨t.lo, paddedSize n, .live⟩ : Chunk).lo from rfl,
      hwithout, liveTiles_append, hrest, liveTiles_append, liveTiles_cons_free htag,
      List.nil_append]
  have hcanonical := hlaid''.canonical hlost'' hts''
  rw [hstart', hsize', hstart, hsize] at hcanonical
  obtain rfl := hcanonical.eq_of_liveTiles (hl.canonical hlost hts) hsame
  rw [List.erase_cons_head] at hlaid''
  exact ⟨dataOf t.lo, h', h'', hret, hfree, hlaid''⟩

end Vika4

end StyLinux.Malloc
