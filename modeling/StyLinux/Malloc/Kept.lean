import Mathlib.Data.Set.Function
import StyLinux.Malloc.NullResult
import StyLinux.Malloc.Vika4Runs

/-!
# Memory that the allocator leaves alone

`my_malloc` and `my_free` write headers only: those of free blocks, of the block that is handed out
and of the block that is given back. What a client has stored in its blocks stays there, for as long
as it does not free them.
-/

namespace StyLinux.Malloc

open Lib

variable {σ : Type} {allocHeap : AllocHeap σ} {h h' : Heap σ} {ts us vs : List Chunk} {s t : Chunk}
  {live : List ℕ} {region : Set ℕ} {n fuel : ℕ}

/-! ### Single writes -/

lemma eqOn_write {l : Link} (hl : ∀ a, l = .next a → a ∉ region) (v : Option ℕ) :
    Set.EqOn (h.write l v).mem h.mem region := by
  intro b hb
  cases l with
  | first => rfl
  | next a =>
    have hne : b ≠ a := by
      rintro rfl
      exact hl b rfl hb
    exact Function.update_of_ne hne _ _

lemma eqOn_setSize {a : ℕ} (ha : a ∉ region) (n : ℕ) :
    Set.EqOn (h.setSize a n).mem h.mem region := by
  intro b hb
  have hne : b ≠ a := by
    rintro rfl
    exact ha hb
  exact Function.update_of_ne hne _ _

lemma eqOn_write_next {a : ℕ} (ha : a ∉ region) (v : Option ℕ) :
    Set.EqOn (h.write (.next a) v).mem h.mem region := by
  apply eqOn_write
  rintro b ⟨⟩
  exact ha

/-! ### `allocate_block` and the extension -/

lemma eqOn_allocateBlock {l : Link} {block : ℕ} (hl : ∀ a, l = .next a → a ∉ region)
    (hblock : block ∉ region) (hsplit : h.size block ≠ n → wrap64 (block + n) ∉ region) :
    Set.EqOn (allocateBlock h l block n).2.mem h.mem region := by
  unfold allocateBlock
  refine (eqOn_write_next hblock _).trans ?_
  split
  · exact eqOn_write hl _
  · rename_i hne
    have hnew := hsplit hne
    refine (eqOn_setSize hblock _).trans ((eqOn_write hl _).trans ?_)
    exact (eqOn_write_next hnew _).trans (eqOn_setSize hnew _)

lemma findInsertPos_mem {newBlock : ℕ} {l l' : Link} {xs : List ℕ}
    (hc : Chain Link.next h.read l xs) (hok : findInsertPos h newBlock fuel l = .ok l') :
    l' = l ∨ ∃ a ∈ xs, l' = .next a := by
  induction fuel generalizing l xs with
  | zero => cases hok
  | succ fuel ih =>
    rw [findInsertPos] at hok
    cases xs with
    | nil =>
      rw [chain_nil] at hc
      rw [hc] at hok
      cases hok
      exact .inl rfl
    | cons x xs =>
      rw [hc.1] at hok
      dsimp only at hok
      split at hok
      · rcases ih hc.2 hok with rfl | ⟨a, ha, rfl⟩
        · exact .inr ⟨x, by simp, rfl⟩
        · exact .inr ⟨a, by simp [ha], rfl⟩
      · cases hok
        exact .inl rfl

lemma eqOn_addHeapBlock (hl : Laid h ts live) (hnew : h.heapStart + h.heapSize ∉ region)
    (hstarts : ∀ a ∈ freeStarts ts, a ∉ region) (hok : addHeapBlock fuel h = .ok h') :
    Set.EqOn h'.mem h.mem region := by
  obtain ⟨l, hpos, hrest⟩ := bind_eq_ok.mp hok
  rw [← Except.ok.inj hrest]
  have hwrap : wrap64 (h.heapStart + h.heapSize) = h.heapStart + h.heapSize := wrap64_of_lt hl.room
  have hread := h.read_setHeapSize (wrap64 (h.heapSize + HEAP_SIZE))
  simp only [hwrap] at hpos ⊢
  have hchain := hl.chain.update_of_notMem Link.next_injective Link.next_ne_first
    (fun hin => (hl.lt_end hin).false) none
  have hfound : Chain Link.next _ .first (freeStarts ts) →
      l = .first ∨ ∃ a ∈ freeStarts ts, l = .next a := fun hc => findInsertPos_mem hc hpos
  have hl' : ∀ a, l = .next a → a ∉ region := by
    rintro a rfl
    rcases hfound (by simpa [hread] using hchain) with he | ⟨b, hb, he⟩
    · cases he
    · cases he
      exact hstarts a hb
  refine (eqOn_write hl' _).trans ((eqOn_write_next hnew _).trans ?_)
  exact (eqOn_write_next hnew _).trans (eqOn_setSize hnew _)

/-! ### `my_malloc` -/

/-- Addresses in one block are not in another one. -/
lemma Layout.notMem_of_ne (hl : Layout h ts live) (hs : s ∈ ts) (ht : t ∈ ts) (hne : s ≠ t) {a : ℕ}
    (ha : s.lo ≤ a) (ha' : a < s.hi) : a ∉ Set.Ico t.lo t.hi := by
  rintro ⟨hlo, hhi⟩
  rcases hl.tiles.apart hs ht hne with hap | hap
  · omega
  · omega

lemma Layout.notMem_of_free (hl : Layout h ts live) (ht : t ∈ ts) (htag : t.tag = .live) {a : ℕ}
    (ha : a ∈ freeStarts ts) : a ∉ Set.Ico t.lo t.hi := by
  obtain ⟨s, hs, hfree, rfl⟩ := mem_freeStarts.mp ha
  have hne : s ≠ t := by
    rintro rfl
    cases htag.symm.trans hfree
  exact hl.notMem_of_ne hs ht hne le_rfl (Nat.lt_add_of_pos_right (hl.tiles.pos hs))

/-- A cell in which a path through free blocks ends. -/
lemma Layout.notMem_of_endLink (hl : Layout h (us ++ vs) live) (ht : t ∈ us ++ vs)
    (htag : t.tag = .live) (a : ℕ) (ha : endLink Link.next .first (freeStarts us) = .next a) :
    a ∉ Set.Ico t.lo t.hi := by
  apply hl.notMem_of_free ht htag
  rw [freeStarts_append]
  have hend : endLink Link.next .first (freeStarts us) = .first ∧ freeStarts us = [] ∨
      ∃ x ∈ freeStarts us, endLink Link.next .first (freeStarts us) = .next x := endLink_mem _ _
  rcases hend with ⟨he, -⟩ | ⟨x, hx, he⟩
  · cases ha.symm.trans he
  · cases ha.symm.trans he
    exact List.mem_append_left _ hx

/-- The extension of the heap writes behind the heap and into free blocks. -/
lemma eqOn_extendHeap {extended : Bool} (hl : Laid h ts live) (ht : t ∈ ts) (htag : t.tag = .live)
    (hok : extendHeap allocHeap fuel h = .ok (extended, h')) :
    Set.EqOn h'.mem h.mem (Set.Ico t.lo t.hi) := by
  unfold extendHeap at hok
  split at hok
  · cases hok
    exact fun _ _ => rfl
  · rename_i p os _
    obtain ⟨h₁, hadd, hpair⟩ := bind_eq_ok.mp hok
    cases hpair
    have hnew : h.heapStart + h.heapSize ∉ Set.Ico t.lo t.hi :=
      fun hin => absurd hin.2 (not_lt.mpr (hl.bounds ht).2)
    have hmem : Set.EqOn h'.mem (h.withOs os).mem (Set.Ico t.lo t.hi) :=
      eqOn_addHeapBlock (hl.withOs os) hnew (fun a => hl.toLayout.notMem_of_free ht htag) hadd
    exact hmem

namespace Vika4

/-- A request does not write into live blocks. -/
lemma eqOn_myMalloc (hcont : Contiguous allocHeap) (hl : Laid h ts live) (ht : t ∈ ts)
    (htag : t.tag = .live) {r : Option ℕ} (hcall : myMalloc allocHeap fuel n h = .ok (r, h')) :
    Set.EqOn h'.mem h.mem (Set.Ico t.lo t.hi) := by
  induction fuel generalizing n h ts with
  | zero => cases hcall
  | succ fuel ih =>
    cases myMalloc_returned hcall with
    | tooLarge _ => exact fun _ _ => rfl
    | selected block link _ hsearch =>
      obtain ⟨selected, hret, hpicks⟩ := returns_bestFit (paddedSize n) hl.chain
      cases hret.eq_of_ok hsearch
      obtain ⟨us, s, vs, rfl, hbest, rfl, rfl⟩ := hl.picks_best hpicks
      have hs : s ∈ us ++ s :: vs := by simp
      have hne : s ≠ t := by
        rintro rfl
        cases htag.symm.trans hbest.free
      have hlen := hl.sizes s hs
      refine eqOn_allocateBlock (hl.toLayout.notMem_of_endLink ht htag) ?_ ?_
      · exact hl.toLayout.notMem_of_ne hs ht hne le_rfl (Nat.lt_add_of_pos_right (hl.tiles.pos hs))
      · intro hsplit
        have hlt : paddedSize n < s.len := lt_of_le_of_ne hbest.le (hlen ▸ hsplit.symm)
        have hhi : s.lo + s.len < 2 ^ 64 := hl.toLayout.lt_room hs
        rw [wrap64_of_lt (by omega)]
        exact hl.toLayout.notMem_of_ne hs ht hne (Nat.le_add_right _ _) (Nat.add_lt_add_left hlt _)
    | refused h' _ _ hext => exact eqOn_extendHeap hl ht htag hext
    | retried h₁ r h' _ _ hext hretry =>
      have hext' := hext
      unfold extendHeap at hext'
      split at hext'
      · cases hext'
      · rename_i p os hA
        obtain ⟨h₂, hret, hlaid, -⟩ := hl.extendHeap hcont hA
        cases hret.eq_of_ok hext
        exact (ih hlaid (List.mem_append_left _ ht) hretry).trans (eqOn_extendHeap hl ht htag hext)

end Vika4

/-! ### `my_free` -/

lemma eqOn_insertFree {b : ℕ} {prev current : Option ℕ} (hb : b ∉ region)
    (hprev : ∀ p, prev = some p → p ∉ region) :
    Set.EqOn (insertFree h b prev current).mem h.mem region := by
  cases prev with
  | none => exact eqOn_write_next hb _
  | some p => exact (eqOn_write_next hb _).trans (eqOn_write_next (hprev p rfl) _)

lemma eqOn_mergeBlocks {a b : ℕ} (ha : a ∉ region) :
    Set.EqOn (mergeBlocks h a b).mem h.mem region := by
  unfold mergeBlocks
  split
  · exact (eqOn_write_next ha _).trans (eqOn_setSize ha _)
  · exact fun _ _ => rfl

/-- The merges write into the block or the free block before it. -/
lemma eqOn_merges {b : ℕ} {prev current : Option ℕ} (hb : b ∉ region)
    (hprev : ∀ p, prev = some p → p ∉ region) :
    Set.EqOn (mergeNext (mergePrev h b prev).2 (mergePrev h b prev).1 current).mem h.mem
      region := by
  have hfirst : (mergePrev h b prev).1 ∉ region ∧
      Set.EqOn (mergePrev h b prev).2.mem h.mem region := by
    cases prev with
    | none => exact ⟨hb, fun _ _ => rfl⟩
    | some p =>
      unfold mergePrev
      dsimp only
      split
      · exact ⟨hprev p rfl, eqOn_mergeBlocks (hprev p rfl)⟩
      · exact ⟨hb, fun _ _ => rfl⟩
  generalize mergePrev h b prev = merged at hfirst
  refine Set.EqOn.trans ?_ hfirst.2
  cases current with
  | none => exact fun _ _ => rfl
  | some c =>
    unfold mergeNext
    dsimp only
    split
    · exact eqOn_mergeBlocks hfirst.1
    · exact fun _ _ => rfl

lemma findFreePos_mem {b : ℕ} {prev prev' current' : Option ℕ} {l : Link} {xs : List ℕ}
    (hc : Chain Link.next h.read l xs)
    (hok : findFreePos h b fuel prev (h.read l) = .ok (prev', current')) (p : ℕ)
    (hp : prev' = some p) : prev = some p ∨ p ∈ xs := by
  induction fuel generalizing l xs prev with
  | zero => cases hok
  | succ fuel ih =>
    cases xs with
    | nil =>
      rw [chain_nil] at hc
      rw [hc, findFreePos] at hok
      cases hok
      exact .inl hp
    | cons x xs =>
      rw [hc.1, findFreePos] at hok
      split at hok
      · rcases ih hc.2 hok with he | hin
        · cases he
          exact .inr List.mem_cons_self
        · exact .inr (List.mem_cons_of_mem _ hin)
      · cases hok
        exact .inl hp

namespace Vika4

/-- Freeing a block does not write into the other live ones. -/
lemma eqOn_myFree (hl : Laid h ts live) (hs : s ∈ ts) (ht : t ∈ ts) (hne : s ≠ t)
    (htag : t.tag = .live) (hcall : myFree fuel (some (dataOf s.lo)) h = .ok h') :
    Set.EqOn h'.mem h.mem (Set.Ico t.lo t.hi) := by
  obtain ⟨⟨b, h₁⟩, hfree, hpair⟩ := bind_eq_ok.mp hcall
  cases hpair
  obtain ⟨⟨prev, current⟩, hpos, hpair⟩ := bind_eq_ok.mp hfree
  rw [hl.sub64_dataOf hs] at hpos hpair
  have hb : s.lo ∉ Set.Ico t.lo t.hi :=
    hl.toLayout.notMem_of_ne hs ht hne le_rfl (Nat.lt_add_of_pos_right (hl.tiles.pos hs))
  have hprev : ∀ p, prev = some p → p ∉ Set.Ico t.lo t.hi := by
    intro p hp
    rcases findFreePos_mem hl.chain hpos p hp with he | hin
    · cases he
    · exact hl.toLayout.notMem_of_free ht htag hin
  cases hpair
  exact (eqOn_merges hb hprev).trans (eqOn_insertFree hb hprev)

/-! ### Runs -/

end Vika4

/-- The addresses of the block behind the data pointer. -/
def blockOf (h : Heap σ) (p : ℕ) : Set ℕ := Set.Ico (p - HEADER_SIZE) (dataEnd h p)

lemma Laid.blockOf_eq (hl : Laid h ts live) (ht : t ∈ ts) :
    blockOf h (dataOf t.lo) = Set.Ico t.lo t.hi := by
  rw [blockOf, hl.dataEnd_eq ht, dataOf, Nat.add_sub_cancel]

lemma Laid.nodup_live (hl : Laid h ts live) : live.Nodup := by
  rw [hl.live_perm.nodup_iff]
  refine List.Nodup.map ?_ (hl.tiles.nodup_startsOf _)
  intro a b hab
  exact Nat.add_right_cancel hab

namespace Vika4

/-- A step after which the client still has `p`, and in which it does not write into the block
behind it. -/
structure Keeping (allocHeap : AllocHeap σ) (p : ℕ) (c : Config (Heap σ)) (op : Op)
    (c' : Config (Heap σ)) : Prop where
  step : Step (allocator allocHeap) c op c'
  noWrap : NoWrap c op
  live : p ∈ c'.live
  spared : op = .write → Set.EqOn c'.state.mem c.state.mem (blockOf c.state p)

variable {c c' : Config (Heap σ)} {op : Op} {p : ℕ}

lemma Keeping.eqOn (hcont : Contiguous allocHeap) (hc : Intact c.state c.live)
    (h : Keeping allocHeap p c op c') (hp : p ∈ c.live) :
    Set.EqOn c'.state.mem c.state.mem (blockOf c.state p) := by
  obtain ⟨ts, hl, -⟩ := hc
  obtain ⟨hstep, -, hlive, hspared⟩ := h
  obtain ⟨t, ht, htag, rfl⟩ := hl.mem_live.mp hp
  have hblock := hl.blockOf_eq ht
  cases hstep with
  | malloc n r s _ hcall =>
    obtain ⟨fuel, hcall⟩ := hcall
    exact hblock ▸ eqOn_myMalloc hcont hl ht htag hcall
  | freeNull s hcall =>
    obtain ⟨fuel, hcall⟩ := hcall
    cases hcall
    exact fun _ _ => rfl
  | free q s hq hcall =>
    obtain ⟨fuel, hcall⟩ := hcall
    obtain ⟨u, hu, -, rfl⟩ := hl.mem_live.mp hq
    have hne : u ≠ t := by
      rintro rfl
      exact (hl.nodup_live.mem_erase_iff.mp hlive).1 rfl
    exact hblock ▸ eqOn_myFree hl hu ht hne htag hcall
  | write mem hw => exact hspared rfl

/-- The header of the block is in it. -/
lemma blockOf_congr (hc : Intact c.state c.live) (hp : p ∈ c.live)
    (heq : Set.EqOn c'.state.mem c.state.mem (blockOf c.state p)) :
    blockOf c'.state p = blockOf c.state p := by
  obtain ⟨ts, hl, -⟩ := hc
  obtain ⟨t, ht, -, rfl⟩ := hl.mem_live.mp hp
  have hheader : t.lo ∈ blockOf c.state (dataOf t.lo) := by
    rw [hl.blockOf_eq ht]
    exact ⟨le_rfl, Nat.lt_add_of_pos_right (hl.tiles.pos ht)⟩
  have hsize : c'.state.size t.lo = c.state.size t.lo := congrArg Block.size (heq hheader)
  simp only [blockOf, dataEnd, dataOf, Nat.add_sub_cancel, hsize]

/-- Whatever the client has in a block stays as it is while it allocates and frees other blocks and
writes into them. -/
theorem kept_of_run (hcont : Contiguous allocHeap) {mem : ℕ → Block} {os : σ}
    (hinit : initAllocator allocHeap mem os = .ok h) {run run' : List (Op × Config (Heap σ))}
    (hrun : IsRun (Step (allocator allocHeap)) (initial h) run)
    (hok : StepsMeet NoWrap (initial h) run) (hp : p ∈ (lastState (initial h) run).live)
    (hrun' : IsRun (Keeping allocHeap p) (lastState (initial h) run) run') :
    Set.EqOn (lastState (lastState (initial h) run) run').state.mem
      (lastState (initial h) run).state.mem (blockOf (lastState (initial h) run).state p) := by
  have hintact := intact_of_run hcont hinit hrun (hok.imp fun _ _ => noWrap_answered)
  generalize lastState (initial h) run = c at *
  induction run' generalizing c with
  | nil => exact fun _ _ => rfl
  | cons x run' ih =>
    obtain ⟨hx, hrun'⟩ := hrun'
    have heq := hx.eqOn hcont hintact hp
    have hstep := hx.step
    have hintact' := Step.intact hcont hintact (noWrap_answered hx.noWrap) hstep
    have hnext := ih x.2 hx.live hrun' hintact'
    rw [blockOf_congr hintact hp heq] at hnext
    exact hnext.trans heq

theorem kept_arenaRun :
    Set.EqOn (allocateBlock arenaServed .first 4224 224).2.mem arenaServed.mem
      (blockOf arenaServed 4112) := by
  have hrun : IsRun (Step (allocator arena)) (initial arenaHeap)
      [(.malloc 100, ⟨arenaServed, [4112]⟩)] := ⟨isRun_arenaRun.1, trivial⟩
  have hlater : IsRun (Keeping arena 4112) ⟨arenaServed, [4112]⟩
      [(.malloc 200, ⟨(allocateBlock arenaServed .first 4224 224).2, [4240, 4112]⟩)] := by
    refine ⟨⟨?_, by norm_num [NoWrap], by simp, by simp⟩, trivial⟩
    exact .malloc ⟨arenaServed, [4112]⟩ 200 (some 4240) _ (by norm_num) ⟨3, rfl⟩
  exact kept_of_run arena_contiguous initAllocator_arena hrun ⟨by norm_num [NoWrap], trivial⟩
    (by simp [lastState]) hlater

end Vika4

end StyLinux.Malloc
