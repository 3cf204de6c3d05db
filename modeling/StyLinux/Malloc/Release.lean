import StyLinux.Malloc.Layout

/-!
# Returning a block

`my_free` links the block into the free list in address order and merges it with the
free blocks that touch it. On the tiling the block's tile becomes free and is joined with
its free neighbours.
-/

namespace StyLinux.Malloc

open Lib

variable {σ : Type} {h : Heap σ} {ts us vs : List Chunk} {t : Chunk} {live : List ℕ}

lemma returns_findFreePos {b : ℕ} {l : Link} {xs ys : List ℕ} (prev : Option ℕ)
    (hc : Chain Link.next h.read l (xs ++ ys)) (hx : ∀ x ∈ xs, x < b) (hy : ∀ y ∈ ys, b < y) :
    Returns .outOfFuel (fun fuel => findFreePos h b fuel prev (h.read l))
      (.ok (xs.getLast?.or prev, ys.head?)) := by
  induction xs generalizing l prev with
  | nil =>
    refine (Returns.const _).succ rfl ?_
    intro fuel
    cases ys with
    | nil =>
      have hr : h.read l = none := hc
      simp [hr, findFreePos]
    | cons y ys =>
      have hr : h.read l = some y := hc.1
      have hlt : ¬y < b := by
        have := hy y (by simp)
        omega
      simp [hr, findFreePos, hlt]
  | cons x xs ih =>
    have hi := ih (some x) hc.2 (fun z hz => hx z (by simp [hz]))
    have hlast : (x :: xs).getLast?.or prev = xs.getLast?.or (some x) := by
      rw [List.getLast?_cons]
      cases xs.getLast? <;> rfl
    rw [hlast]
    refine hi.succ rfl ?_
    intro fuel
    simp only [hc.1, findFreePos]
    rw [if_pos (hx x (by simp))]

section Insertion

@[simp] lemma heapStart_insertFree (b : ℕ) (prev current : Option ℕ) :
    (insertFree h b prev current).heapStart = h.heapStart := by
  cases prev <;> simp [insertFree]

@[simp] lemma heapSize_insertFree (b : ℕ) (prev current : Option ℕ) :
    (insertFree h b prev current).heapSize = h.heapSize := by
  cases prev <;> simp [insertFree]

@[simp] lemma os_insertFree (b : ℕ) (prev current : Option ℕ) :
    (insertFree h b prev current).os = h.os := by
  cases prev <;> simp [insertFree]

@[simp] lemma size_insertFree (b : ℕ) (prev current : Option ℕ) :
    (insertFree h b prev current).size = h.size := by
  cases prev <;> simp [insertFree]

/-- Both forms of the insertion make the link before the block point to it and the block
point to its successor. -/
lemma read_insertFree {b : ℕ} {xs : List ℕ} {current : Option ℕ} (hb : b ∉ xs)
    (hcur : current = h.read (endLink Link.next .first xs)) :
    (insertFree h b xs.getLast? current).read =
      Function.update (Function.update h.read (.next b) current)
        (endLink Link.next .first xs) (some b) := by
  rcases List.eq_nil_or_concat xs with rfl | ⟨ys, q, rfl⟩
  · simp [insertFree, hcur, Heap.firstFreeBlock_eq_read]
  · rw [List.concat_eq_append] at hb ⊢
    have hne : Link.next b ≠ Link.next q := by
      intro he
      exact hb (by simp [Link.next.inj he])
    simp only [List.getLast?_concat, insertFree, Heap.read_write, endLink_concat]
    exact Function.update_comm hne.symm _ _ _

lemma Laid.insertFree (hl : Laid h (us ++ t :: vs) live) (ht : t.tag = .live) :
    Laid (insertFree h t.lo (freeStarts us).getLast? (freeStarts vs).head?)
      (us ++ ⟨t.lo, t.len, .free⟩ :: vs) (live.erase (dataOf t.lo)) := by
  have hchain := hl.chain
  simp only [freeStarts_append, freeStarts_cons, ht, reduceCtorEq, if_false,
    List.nil_append] at hchain
  obtain ⟨hpath, htail⟩ := (chain_append _ _ _).mp hchain
  have htiles : Tiles h.heapStart (us ++ ⟨t.lo, t.len, .free⟩ :: vs)
      (h.heapStart + h.heapSize) := by
    have := hl.tiles
    rw [tiles_middle] at this ⊢
    exact this
  have hnd : (freeStarts us ++ t.lo :: freeStarts vs).Nodup := by
    have := htiles.nodup_startsOf (fun t => t.tag = .free)
    change (freeStarts _).Nodup at this
    simpa using this
  have hnot : t.lo ∉ freeStarts us := by
    have := (List.nodup_cons.mp (List.nodup_middle.mp hnd)).1
    simp only [List.mem_append, not_or] at this
    exact this.1
  have hread := read_insertFree hnot htail.get_eq_head?.symm
  refine ⟨⟨?_, ?_, ?_, ?_, ?_, ?_⟩, ?_⟩
  · simpa using htiles
  · intro s hs
    rw [size_insertFree]
    simp only [List.mem_append, List.mem_cons] at hs
    rcases hs with hs | rfl | hs
    · exact hl.sizes s (by simp [hs])
    · exact hl.sizes t (by simp)
    · exact hl.sizes s (by simp [hs])
  · intro s hs
    simp only [List.mem_append, List.mem_cons] at hs
    rcases hs with hs | rfl | hs
    · exact hl.aligned s (by simp [hs])
    · exact hl.aligned t (by simp)
    · exact hl.aligned s (by simp [hs])
  · have hlive := hl.live_perm
    simp only [liveStarts_append, liveStarts_cons, ht, reduceCtorEq, if_true, if_false,
      List.map_append, List.nil_append, List.singleton_append, List.map_cons] at hlive ⊢
    have herase := hlive.erase (dataOf t.lo)
    refine herase.trans ?_
    have hmid : ((liveStarts us).map dataOf ++ dataOf t.lo :: (liveStarts vs).map dataOf).Perm
        (dataOf t.lo :: ((liveStarts us).map dataOf ++ (liveStarts vs).map dataOf)) :=
      List.perm_middle
    have hmid := hmid.erase (dataOf t.lo)
    rwa [List.erase_cons_head] at hmid
  · simpa using hl.room
  · simpa using hl.grown
  · have hjoin := hpath.joinNode Link.next_injective Link.next_ne_first htail hnd
    rw [hread, ← htail.get_eq_head?]
    simpa using hjoin

end Insertion

section Merging

@[simp] lemma heapStart_mergeBlocks (a b : ℕ) : (mergeBlocks h a b).heapStart = h.heapStart := by
  unfold mergeBlocks
  split <;> simp

@[simp] lemma heapSize_mergeBlocks (a b : ℕ) : (mergeBlocks h a b).heapSize = h.heapSize := by
  unfold mergeBlocks
  split <;> simp

@[simp] lemma os_mergeBlocks (a b : ℕ) : (mergeBlocks h a b).os = h.os := by
  unfold mergeBlocks
  split <;> simp

lemma Laid.mergeBlocks {s : Chunk} (hl : Laid h (us ++ s :: t :: vs) live) (hs : s.tag = .free)
    (ht : t.tag = .free) :
    Laid (mergeBlocks h s.lo t.lo) (us ++ ⟨s.lo, s.len + t.len, .free⟩ :: vs) live := by
  obtain ⟨hus, hspos, htlo, htpos, hvs⟩ := (tiles_middle _ _ us (t :: vs) s).mp hl.tiles
  have hslen := hl.sizes s (by simp)
  have htlen := hl.sizes t (by simp)
  have hroom := hl.toLayout.lt_room (t := t) (by simp)
  simp only [Tile.hi] at htlo hvs
  have hcond : wrap64 (s.lo + h.size s.lo) = t.lo := by
    rw [hslen, htlo]
    exact wrap64_of_lt (by omega)
  have hsum : wrap64 (h.size s.lo + h.size t.lo) = s.len + t.len := by
    rw [hslen, htlen]
    exact wrap64_of_lt (by omega)
  have heq : Malloc.mergeBlocks h s.lo t.lo =
      (h.setSize s.lo (s.len + t.len)).write (.next s.lo) (h.read (.next t.lo)) := by
    simp only [Malloc.mergeBlocks, hcond, if_true, hsum, Heap.read_setSize]
  have htiles : Tiles h.heapStart (us ++ ⟨s.lo, s.len + t.len, .free⟩ :: vs)
      (h.heapStart + h.heapSize) := by
    rw [tiles_middle]
    refine ⟨hus, by simp only; omega, ?_⟩
    simp only [Tile.hi]
    rwa [htlo, Nat.add_assoc] at hvs
  rw [heq]
  refine ⟨⟨?_, ?_, ?_, ?_, ?_, ?_⟩, ?_⟩
  · simpa using htiles
  · intro x hx
    simp only [Heap.size_write, Heap.size_setSize]
    simp only [List.mem_append, List.mem_cons] at hx
    by_cases hlo : x.lo = s.lo
    · have hnew : (⟨s.lo, s.len + t.len, .free⟩ : Chunk) ∈
          us ++ ⟨s.lo, s.len + t.len, .free⟩ :: vs := by simp
      obtain rfl := htiles.eq_of_lo (by simpa using hx) hnew hlo
      simp
    · rw [Function.update_of_ne hlo]
      rcases hx with hx | rfl | hx
      · exact hl.sizes x (by simp [hx])
      · exact absurd rfl hlo
      · exact hl.sizes x (by simp [hx])
  · intro x hx
    simp only [List.mem_append, List.mem_cons] at hx
    rcases hx with hx | rfl | hx
    · exact hl.aligned x (by simp [hx])
    · exact Nat.dvd_add (hl.aligned s (by simp)) (hl.aligned t (by simp))
    · exact hl.aligned x (by simp [hx])
  · have hlive := hl.live_perm
    simpa [hs, ht] using hlive
  · simpa using hl.room
  · simpa using hl.grown
  · have hchain := hl.chain
    have hsplit : freeStarts (us ++ s :: t :: vs) =
        (freeStarts us ++ [s.lo]) ++ t.lo :: freeStarts vs := by simp [hs, ht]
    rw [hsplit] at hchain
    obtain ⟨hpath, -, htail⟩ := (chain_append _ _ _).mp hchain
    have hnd : ((freeStarts us ++ [s.lo]) ++ freeStarts vs).Nodup := by
      have := htiles.nodup_startsOf (fun t => t.tag = .free)
      change (freeStarts _).Nodup at this
      simpa using this
    have hjoin := hpath.joinChain Link.next_injective Link.next_ne_first htail hnd
    simpa using hjoin

end Merging

/-! ### The whole call -/

/-- The tiles before a free tile and that tile, after a merge with a free tile in front. -/
def mergedBefore (us : List Chunk) (t : Chunk) : List Chunk × Chunk :=
  match us.getLast? with
  | none => (us, t)
  | some q => if q.tag = .free then (us.dropLast, ⟨q.lo, q.len + t.len, .free⟩) else (us, t)

/-- A free tile and the tiles behind it, after a merge with a free tile behind. -/
def mergedAfter (t : Chunk) : List Chunk → Chunk × List Chunk
  | [] => (t, [])
  | r :: vs => if r.tag = .free then (⟨t.lo, t.len + r.len, .free⟩, vs) else (t, r :: vs)

/-- The tiling after the block `t` between `us` and `vs` is freed. -/
def release (us : List Chunk) (t : Chunk) (vs : List Chunk) : List Chunk :=
  let before := mergedBefore us ⟨t.lo, t.len, .free⟩
  let after := mergedAfter before.2 vs
  before.1 ++ after.1 :: after.2

lemma mergedBefore_concat_free {q : Chunk} (hq : q.tag = .free) :
    mergedBefore (us ++ [q]) t = (us, ⟨q.lo, q.len + t.len, .free⟩) := by
  simp [mergedBefore, hq]

lemma mergedBefore_concat_used {q : Chunk} (hq : q.tag ≠ .free) :
    mergedBefore (us ++ [q]) t = (us ++ [q], t) := by
  simp [mergedBefore, hq]

lemma tag_mergedBefore (ht : t.tag = .free) : (mergedBefore us t).2.tag = .free := by
  unfold mergedBefore
  split
  · exact ht
  · split
    · rfl
    · exact ht

lemma lo_mergedAfter : (mergedAfter t vs).1.lo = t.lo := by
  cases vs with
  | nil => rfl
  | cons r vs => by_cases hr : r.tag = .free <;> simp [mergedAfter, hr]

lemma tag_mergedAfter (ht : t.tag = .free) : (mergedAfter t vs).1.tag = .free := by
  cases vs with
  | nil => exact ht
  | cons r vs => by_cases hr : r.tag = .free <;> simp [mergedAfter, hr, ht]

lemma mergedBefore_subset (us : List Chunk) (t : Chunk) : (mergedBefore us t).1 ⊆ us := by
  unfold mergedBefore
  split
  · exact List.Subset.refl us
  · split
    · exact List.dropLast_subset us
    · exact List.Subset.refl us

lemma mergedAfter_subset (t : Chunk) (vs : List Chunk) : (mergedAfter t vs).2 ⊆ vs := by
  cases vs with
  | nil => exact List.Subset.refl []
  | cons r vs => by_cases hr : r.tag = .free <;> simp [mergedAfter, hr]

/-- A tile after the release is free or was there before. -/
lemma mem_release {s : Chunk} (hs : s ∈ release us t vs) : s.tag = .free ∨ s ∈ us ++ vs := by
  rcases List.mem_append.mp hs with hs | hs
  · exact .inr (List.mem_append_left vs (mergedBefore_subset _ _ hs))
  · rcases List.mem_cons.mp hs with rfl | hs
    · exact .inl (tag_mergedAfter (tag_mergedBefore rfl))
    · exact .inr (List.mem_append_right us (mergedAfter_subset _ _ hs))

lemma Laid.mergePrev (hl : Laid h (us ++ t :: vs) live) (ht : t.tag = .free) :
    (mergePrev h t.lo (freeStarts us).getLast?).1 = (mergedBefore us t).2.lo ∧
    Laid (mergePrev h t.lo (freeStarts us).getLast?).2
      ((mergedBefore us t).1 ++ (mergedBefore us t).2 :: vs) live := by
  rcases List.eq_nil_or_concat us with rfl | ⟨us₀, q, rfl⟩
  · exact ⟨rfl, hl⟩
  · rw [List.concat_eq_append] at hl ⊢
    obtain ⟨hus, -, -⟩ := (tiles_middle _ _ _ vs t).mp hl.tiles
    obtain ⟨hus₀, hqpos, hqhi⟩ := (tiles_middle _ _ us₀ [] q).mp hus
    simp only [tiles_nil, Tile.hi] at hqhi
    have hroom := hl.toLayout.lt_room (t := t) (by simp)
    by_cases hq : q.tag = .free
    · have hqlen : h.size q.lo = q.len := hl.sizes q (by simp)
      have hcond : wrap64 (q.lo + h.size q.lo) = t.lo := by
        rw [hqlen, hqhi]
        exact wrap64_of_lt (by omega)
      have hlast : (freeStarts (us₀ ++ [q])).getLast? = some q.lo := by simp [hq]
      have hl' : Laid h (us₀ ++ q :: t :: vs) live := by simpa using hl
      rw [hlast, mergedBefore_concat_free hq]
      simp only [Malloc.mergePrev, hcond, if_true]
      exact ⟨trivial, hl'.mergeBlocks hq ht⟩
    · rw [mergedBefore_concat_used hq]
      have hstarts : freeStarts (us₀ ++ [q]) = freeStarts us₀ := by simp [hq]
      rw [hstarts]
      cases hlast : (freeStarts us₀).getLast? with
      | none => exact ⟨rfl, hl⟩
      | some a =>
        obtain ⟨s, hs, -, rfl⟩ := mem_freeStarts.mp (List.mem_of_getLast? hlast)
        have hslen : h.size s.lo = s.len := hl.sizes s (by simp [hs])
        have hshi := (hus₀.bounds hs).2
        simp only [Tile.hi] at hshi
        have hcond : wrap64 (s.lo + h.size s.lo) ≠ t.lo := by
          rw [hslen, wrap64_of_lt (by omega)]
          omega
        simp only [Malloc.mergePrev, hcond, if_false]
        exact ⟨trivial, hl⟩

lemma Laid.mergeNext (hl : Laid h (us ++ t :: vs) live) (ht : t.tag = .free) :
    Laid (mergeNext h t.lo (freeStarts vs).head?)
      (us ++ (mergedAfter t vs).1 :: (mergedAfter t vs).2) live := by
  cases vs with
  | nil => exact hl
  | cons r vs =>
    obtain ⟨-, -, hvs⟩ := (tiles_middle _ _ us (r :: vs) t).mp hl.tiles
    obtain ⟨hrlo, hrpos, hvs⟩ := hvs
    have htlen : h.size t.lo = t.len := hl.sizes t (by simp)
    have hroom := hl.toLayout.lt_room (t := r) (by simp)
    simp only [Tile.hi] at hrlo
    by_cases hr : r.tag = .free
    · have hcond : wrap64 (t.lo + h.size t.lo) = r.lo := by
        rw [htlen, ← hrlo]
        exact wrap64_of_lt (by omega)
      simp only [freeStarts_cons, hr, if_true, List.singleton_append, List.head?_cons,
        Malloc.mergeNext, hcond, mergedAfter]
      exact hl.mergeBlocks ht hr
    · have hstarts : freeStarts (r :: vs) = freeStarts vs := by simp [hr]
      simp only [hstarts, mergedAfter, hr, if_false]
      cases hhead : (freeStarts vs).head? with
      | none => exact hl
      | some c =>
        obtain ⟨s, hs, -, rfl⟩ := mem_freeStarts.mp (List.mem_of_head? hhead)
        have hslo := (hvs.bounds hs).1
        simp only [Tile.hi] at hslo
        have hcond : wrap64 (t.lo + h.size t.lo) ≠ s.lo := by
          rw [htlen, wrap64_of_lt (by omega)]
          omega
        simp only [Malloc.mergeNext, hcond, if_false]
        exact hl

section Frames

variable (b : ℕ) (p : Option ℕ)

@[simp] lemma heapStart_mergePrev : (mergePrev h b p).2.heapStart = h.heapStart := by
  unfold mergePrev
  split
  · rfl
  · split <;> simp

@[simp] lemma heapSize_mergePrev : (mergePrev h b p).2.heapSize = h.heapSize := by
  unfold mergePrev
  split
  · rfl
  · split <;> simp

@[simp] lemma os_mergePrev : (mergePrev h b p).2.os = h.os := by
  unfold mergePrev
  split
  · rfl
  · split <;> simp

@[simp] lemma heapStart_mergeNext : (mergeNext h b p).heapStart = h.heapStart := by
  unfold mergeNext
  split
  · rfl
  · split <;> simp

@[simp] lemma heapSize_mergeNext : (mergeNext h b p).heapSize = h.heapSize := by
  unfold mergeNext
  split
  · rfl
  · split <;> simp

@[simp] lemma os_mergeNext : (mergeNext h b p).os = h.os := by
  unfold mergeNext
  split
  · rfl
  · split <;> simp

end Frames

/-- `my_free` of a live pointer returns, leaving the heap in which the block's tile is
released. -/
theorem Laid.freeBlock (hl : Laid h (us ++ t :: vs) live) (ht : t.tag = .live) :
    ∃ h', Returns .outOfFuel (fun fuel => freeBlock fuel (dataOf t.lo) h)
        (.ok ((mergedBefore us ⟨t.lo, t.len, .free⟩).2.lo, h')) ∧
      Laid h' (release us t vs) (live.erase (dataOf t.lo)) ∧
      h'.heapStart = h.heapStart ∧ h'.heapSize = h.heapSize ∧ h'.os = h.os := by
  have hblock := hl.toLayout.sub64_dataOf (t := t) (by simp)
  have hchain := hl.chain
  simp only [freeStarts_append, freeStarts_cons, ht, reduceCtorEq, if_false,
    List.nil_append] at hchain
  obtain ⟨hbelow, habove⟩ := hl.tiles.startsOf_split (p := fun t => t.tag = .free)
  have hfind := returns_findFreePos none hchain hbelow habove
  rw [Option.or_none] at hfind
  have h₁ := hl.insertFree ht
  have h₂ := h₁.mergePrev rfl
  have h₃ := h₂.2.mergeNext (tag_mergedBefore rfl)
  rw [← h₂.1] at h₃
  let finish : Option ℕ × Option ℕ → ℕ × Heap σ := fun x =>
    let merged := Malloc.mergePrev (Malloc.insertFree h t.lo x.1 x.2) t.lo x.1
    (merged.1, Malloc.mergeNext merged.2 merged.1 x.2)
  refine ⟨_, ?_, h₃, by simp, by simp, by simp⟩
  rw [← h₂.1]
  refine (hfind.map finish).congr ?_
  intro fuel
  simp only [Malloc.freeBlock, hblock]
  rfl

end StyLinux.Malloc
