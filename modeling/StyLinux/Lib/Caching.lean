import Mathlib.Data.Finset.Card
import Mathlib.Data.List.DropRight
import Mathlib.Data.List.Infix
import Mathlib.Tactic

/-!
# Demand paging

A cache with room for `C` pages serves references one at a time. It loads the page referenced if it
does not hold it, and evicts one of its pages only when it is full.

Evicting the page that is referenced furthest in the future misses the least, also among smaller
caches. Evicting the page that was loaded or used longest ago misses at most `C / (C - h + 1)` times
as often as any cache with room for `h` pages, up to `C` misses.
-/

namespace StyLinux.Lib.Caching

variable {P : Type*} [DecidableEq P]

/-- One reference to the page `p`, with the pages held afterwards and the number of misses. A page
is evicted only if `evictable` holds of it. -/
inductive Serves (C : ℕ) (evictable : P → Prop) (M : Finset P) (p : P) : Finset P → ℕ → Prop
  | hit (hp : p ∈ M) : Serves C evictable M p M 0
  | load (hp : p ∉ M) (hroom : M.card < C) : Serves C evictable M p (insert p M) 1
  | replace (hp : p ∉ M) (v : P) (hfull : M.card = C) (hv : v ∈ M) (hevict : evictable v) :
      Serves C evictable M p (insert p (M.erase v)) 1

/-- The references of a list, with the number of misses. Whether a page may be evicted depends on
the pages held and on the references that are left. -/
inductive Schedule (C : ℕ) (evictable : Finset P → List P → P → Prop) :
    Finset P → List P → ℕ → Prop
  | nil (M : Finset P) : Schedule C evictable M [] 0
  | cons {M M' : Finset P} {p : P} {σ : List P} {c misses : ℕ}
      (hp : Serves C (evictable M σ) M p M' c) (hσ : Schedule C evictable M' σ misses) :
      Schedule C evictable M (p :: σ) (c + misses)

/-- The schedules of any policy. -/
abbrev AnySchedule (C : ℕ) : Finset P → List P → ℕ → Prop :=
  Schedule C fun _ _ _ => True

/-- No page held is referenced later than `v`. -/
def Furthest (M : Finset P) (σ : List P) (v : P) : Prop := ∀ q ∈ M, σ.idxOf q ≤ σ.idxOf v

variable {C C' c d misses misses' : ℕ} {evictable evictable' : P → Prop} {M M' N N' : Finset P}
  {p : P} {σ : List P}

lemma Serves.imp (h : Serves C evictable M p M' c) (himp : ∀ v, evictable v → evictable' v) :
    Serves C evictable' M p M' c := by
  cases h with
  | hit hp => exact .hit hp
  | load hp hroom => exact .load hp hroom
  | replace hp v hfull hv hevict => exact .replace hp v hfull hv (himp v hevict)

lemma Schedule.imp {evictable evictable' : Finset P → List P → P → Prop}
    (h : Schedule C evictable M σ misses)
    (himp : ∀ M σ v, evictable M σ v → evictable' M σ v) : Schedule C evictable' M σ misses := by
  induction h with
  | nil => exact .nil _
  | cons hp hσ ih => exact .cons (hp.imp (himp _ _)) ih

lemma Serves.mem (h : Serves C evictable M p M' c) : p ∈ M' := by
  cases h with
  | hit hp => exact hp
  | load => exact Finset.mem_insert_self p _
  | replace => exact Finset.mem_insert_self p _

lemma Serves.card_le (h : Serves C evictable M p M' c) (hM : M.card ≤ C) : M'.card ≤ C := by
  cases h with
  | hit => exact hM
  | load hp hroom =>
    rw [Finset.card_insert_of_notMem hp]
    omega
  | replace hp v hfull hv =>
    have hnot : p ∉ M.erase v := fun h => hp (Finset.mem_of_mem_erase h)
    have hpos := Finset.card_pos.mpr ⟨v, hv⟩
    rw [Finset.card_insert_of_notMem hnot, Finset.card_erase_of_mem hv]
    omega

lemma Serves.subset_insert (h : Serves C evictable M p M' c) : M' ⊆ insert p M := by
  cases h with
  | hit => exact Finset.subset_insert p M
  | load => exact subset_rfl
  | replace => exact Finset.insert_subset_insert p (Finset.erase_subset _ M)

section Lists

variable {l : List P}

/-- A list of pages with one more page at its end. -/
lemma Serves.concat (hl : l.Nodup) (hp : p ∉ l) (hroom : l.length < C) :
    Serves C evictable l.toFinset p (l ++ [p]).toFinset 1 := by
  have hset : (l ++ [p]).toFinset = insert p l.toFinset := by
    ext q
    simp
  rw [hset]
  refine .load (by rwa [List.mem_toFinset]) ?_
  rwa [List.toFinset_card_of_nodup hl]

/-- A list of pages that one page has left for the one at its end. -/
lemma Serves.eraseIdx_concat {i : ℕ} (hl : l.Nodup) (hp : p ∉ l) (hfull : l.length = C)
    (hi : i < l.length) (hevict : evictable l[i]) :
    Serves C evictable l.toFinset p (l.eraseIdx i ++ [p]).toFinset 1 := by
  have hset : (l.eraseIdx i ++ [p]).toFinset = insert p (l.toFinset.erase l[i]) := by
    rw [← hl.erase_getElem i hi]
    ext q
    simp only [List.mem_toFinset, List.mem_append, List.mem_singleton, hl.mem_erase_iff,
      Finset.mem_insert, Finset.mem_erase]
    tauto
  rw [hset]
  refine .replace (by rwa [List.mem_toFinset]) _ ?_ ?_ hevict
  · rwa [List.toFinset_card_of_nodup hl]
  · rw [List.mem_toFinset]
    exact List.getElem_mem hi

end Lists

/-! ### The pages referenced -/

section Distinct

variable {evictable : Finset P → List P → P → Prop}

/-- Every page that is not held at the start is missed. -/
theorem Schedule.card_le (h : Schedule C evictable M σ misses) :
    (σ.toFinset \ M).card ≤ misses := by
  induction h with
  | nil => simp
  | @cons M M' p σ c misses hp hσ ih =>
    have hrest : σ.toFinset \ insert p M ⊆ σ.toFinset \ M' :=
      Finset.sdiff_subset_sdiff subset_rfl hp.subset_insert
    have hle := (Finset.card_le_card hrest).trans ih
    rw [List.toFinset_cons]
    by_cases hM : p ∈ M
    · rw [Finset.insert_sdiff_of_mem _ hM]
      rw [Finset.insert_eq_of_mem hM] at hle
      omega
    · have hcost : c = 1 := by
        cases hp with
        | hit h => exact absurd h hM
        | load | replace => rfl
      have hinsert : insert p σ.toFinset \ M ⊆ insert p (σ.toFinset \ insert p M) := by
        intro q hq
        simp only [Finset.mem_sdiff, Finset.mem_insert] at hq ⊢
        tauto
      have hcard := (Finset.card_le_card hinsert).trans (Finset.card_insert_le _ _)
      omega

/-- With room for all pages, nothing else is missed. -/
theorem Schedule.eq_card (h : Schedule C evictable M σ misses) (hC : (σ.toFinset ∪ M).card ≤ C) :
    misses = (σ.toFinset \ M).card := by
  induction h with
  | nil => simp
  | @cons M M' p σ c misses hp hσ ih =>
    rw [List.toFinset_cons] at hC ⊢
    have hM' : M' = insert p M ∧ c = if p ∈ M then 0 else 1 := by
      cases hp with
      | hit h => exact ⟨(Finset.insert_eq_of_mem h).symm, (if_pos h).symm⟩
      | load hnot => exact ⟨rfl, (if_neg hnot).symm⟩
      | replace hnot v hfull =>
        have hsub : insert p M ⊆ insert p σ.toFinset ∪ M := by
          intro q hq
          simp only [Finset.mem_insert, Finset.mem_union] at hq ⊢
          tauto
        have hle := Finset.card_le_card hsub
        rw [Finset.card_insert_of_notMem hnot] at hle
        omega
    rw [hM'.1, Finset.union_insert, ← Finset.insert_union] at ih
    rw [hM'.2, ih hC]
    by_cases hM : p ∈ M
    · rw [if_pos hM, Finset.insert_sdiff_of_mem _ hM, Finset.insert_eq_of_mem hM, zero_add]
    · have hinsert : insert p σ.toFinset \ M = insert p (σ.toFinset \ insert p M) := by
        ext q
        simp only [Finset.mem_sdiff, Finset.mem_insert]
        by_cases hq : q = p
        · simp [hq, hM]
        · simp [hq]
      have hnot : p ∉ σ.toFinset \ insert p M := by simp
      rw [if_neg hM, hinsert, Finset.card_insert_of_notMem hnot, add_comm]

end Distinct

/-! ### Evicting the page referenced furthest in the future -/

/-- Among the pages of any initial part of the references, the first cache holds at most `D` fewer
than the second one. -/
def Ahead (D : ℕ) (M N : Finset P) (σ : List P) : Prop :=
  ∀ k, (N ∩ (σ.take k).toFinset).card ≤ (M ∩ (σ.take k).toFinset).card + D

section Furthest

variable {T : Finset P}

lemma card_insert_inter (hp : p ∉ M) :
    (insert p M ∩ T).card = (M ∩ T).card + if p ∈ T then 1 else 0 := by
  split
  case isTrue hT =>
    rw [Finset.insert_inter_of_mem hT, Finset.card_insert_of_notMem]
    exact fun h => hp (Finset.mem_inter.mp h).1
  case isFalse hT => rw [Finset.insert_inter_of_notMem hT, add_zero]

lemma card_inter_insert (M T : Finset P) (p : P) :
    (M ∩ insert p T).card = (M ∩ T).card + if p ∈ M ∧ p ∉ T then 1 else 0 := by
  by_cases hM : p ∈ M
  · rw [Finset.inter_insert_of_mem hM]
    by_cases hT : p ∈ T
    · rw [Finset.insert_eq_of_mem (Finset.mem_inter.mpr ⟨hM, hT⟩), if_neg (by simp [hT]), add_zero]
    · rw [Finset.card_insert_of_notMem (fun h => hT (Finset.mem_inter.mp h).2),
        if_pos ⟨hM, hT⟩]
  · rw [Finset.inter_insert_of_notMem hM, if_neg (fun h => hM h.1), add_zero]

/-- How many pages of `T` any cache holds after the reference to `p`. -/
lemma Serves.card_inter_le (h : Serves C evictable N p N' d) (T : Finset P) :
    (N' ∩ T).card + (if p ∈ T then 0 else 1) ≤ (N ∩ insert p T).card + d := by
  rw [card_inter_insert]
  cases h with
  | hit hp =>
    by_cases hT : p ∈ T <;> simp [hp, hT]
  | load hp hroom =>
    rw [card_insert_inter hp]
    by_cases hT : p ∈ T <;> simp [hp, hT]
  | replace hp v hfull hv =>
    have hnot : p ∉ N.erase v := fun h => hp (Finset.mem_of_mem_erase h)
    have hle : ((N ∩ T).erase v).card ≤ (N ∩ T).card := Finset.card_erase_le
    rw [card_insert_inter hnot, Finset.erase_inter]
    by_cases hT : p ∈ T <;> simp [hp, hT, hle]

omit [DecidableEq P] in
lemma mem_take_of_idxOf_le [BEq P] [LawfulBEq P] {q v : P} {k : ℕ} (hv : v ∈ σ.take k)
    (hle : σ.idxOf q ≤ σ.idxOf v) : q ∈ σ.take k := by
  have hmem := List.mem_of_mem_take hv
  have hlt := List.idxOf_lt_length_of_mem hmem
  have hq : q ∈ σ := List.idxOf_lt_length_iff.mp (by omega)
  rw [List.mem_take_iff_idxOf_lt hmem] at hv
  rw [List.mem_take_iff_idxOf_lt hq]
  omega

/-- The cache holds as many pages of `T` after the reference as any one does, or as many as it has
room for: if it evicts a page of `T`, then all pages it held belong to `T`. -/
lemma Serves.card_inter_furthest {k : ℕ} (h : Serves C (Furthest M σ) M p M' c)
    (hT : (σ.take k).toFinset = T) :
    (M' ∩ T).card + (if p ∈ T then 0 else 1) = (M ∩ insert p T).card + c ∨
      C ≤ (M' ∩ T).card + if p ∈ T then 0 else 1 := by
  rw [card_inter_insert]
  cases h with
  | hit hp =>
    left
    by_cases hpT : p ∈ T <;> simp [hp, hpT]
  | load hp hroom =>
    left
    rw [card_insert_inter hp]
    by_cases hpT : p ∈ T <;> simp [hp, hpT]
  | replace hp v hfull hv hfurthest =>
    have hnot : p ∉ M.erase v := fun h => hp (Finset.mem_of_mem_erase h)
    rw [card_insert_inter hnot]
    by_cases hvT : v ∈ T
    · right
      have hsub : M.erase v ⊆ T := by
        intro q hq
        rw [← hT, List.mem_toFinset] at hvT ⊢
        exact mem_take_of_idxOf_le hvT (hfurthest q (Finset.mem_of_mem_erase hq))
      rw [Finset.inter_eq_left.mpr hsub, Finset.card_erase_of_mem hv, hfull]
      split <;> omega
    · left
      have herase : M.erase v ∩ T = M ∩ T := by
        rw [Finset.erase_inter, Finset.erase_eq_of_notMem]
        exact fun h => hvT (Finset.mem_inter.mp h).2
      rw [herase]
      by_cases hpT : p ∈ T <;> simp [hp, hpT]

end Furthest

lemma Ahead.cost_le {D : ℕ} (h : Ahead D M N (p :: σ)) (hM : Serves C (Furthest M σ) M p M' c)
    (hN : Serves C' evictable N p N' d) : c ≤ D + d := by
  have hfirst := h 1
  rw [List.take_succ_cons, List.take_zero, List.toFinset_cons, List.toFinset_nil,
    card_inter_insert, card_inter_insert] at hfirst
  cases hM with
  | hit => omega
  | load hp | replace hp =>
    cases hN with
    | hit hp' =>
      simp only [hp, hp', Finset.inter_empty, Finset.card_empty] at hfirst
      simp at hfirst
      omega
    | load | replace => omega

/-- A miss of one cache alone changes the lead by one. -/
lemma Ahead.step {D : ℕ} (h : Ahead D M N (p :: σ)) (hM : Serves C (Furthest M σ) M p M' c)
    (hN : Serves C' evictable N p N' d) (hC : C' ≤ C) (hcard : N.card ≤ C') :
    Ahead (D + d - c) M' N' σ := by
  intro k
  have hcost := h.cost_le hM hN
  have hk := h (k + 1)
  rw [List.take_succ_cons, List.toFinset_cons] at hk
  have hle := hN.card_inter_le (σ.take k).toFinset
  have hcap := hN.card_le hcard
  rcases hM.card_inter_furthest (k := k) rfl with heq | hall
  · omega
  · have hsub : (N' ∩ insert p (σ.take k).toFinset).card ≤ N'.card :=
      Finset.card_le_card Finset.inter_subset_left
    have hroom := card_inter_insert N' (σ.take k).toFinset p
    by_cases hp : p ∈ (σ.take k).toFinset
    · simp only [hp, if_true, not_true, and_false, if_false] at hall hroom
      omega
    · simp only [hp, hN.mem, if_false, not_false_iff, and_self, if_true] at hall hroom
      omega

/-- The cache that evicts the page referenced furthest in the future misses at most as often as one
that has no more room, apart from its lead. -/
theorem Schedule.furthest_le {D : ℕ} (hM : Schedule C Furthest M σ misses)
    (hN : AnySchedule C' N σ misses') (hC : C' ≤ C) (hcard : N.card ≤ C')
    (h : Ahead D M N σ) : misses ≤ misses' + D := by
  induction hM generalizing N D misses' with
  | nil => omega
  | cons hp hσ ih =>
    cases hN with
    | cons hp' hσ' =>
      have hcost := h.cost_le hp hp'
      have hle := ih hσ' (hp'.card_le hcard) (h.step hp hp' hC hcard)
      omega

/-! ### Evicting the oldest page

The pages held form a list, the one loaded longest ago first. A hit may move its page to the end of
the list, as if it was loaded again. -/

/-- One reference to the page `p`, with the list of pages held afterwards and the number of
misses. -/
inductive Queues (C : ℕ) (l : List P) (p : P) : List P → ℕ → Prop
  | hit (hp : p ∈ l) : Queues C l p l 0
  | touch (hp : p ∈ l) : Queues C l p (l.erase p ++ [p]) 0
  | load (hp : p ∉ l) (hroom : l.length < C) : Queues C l p (l ++ [p]) 1
  | replace (hp : p ∉ l) (hfull : l.length = C) (hne : l ≠ []) : Queues C l p (l.tail ++ [p]) 1

inductive QueueSchedule (C : ℕ) : List P → List P → ℕ → Prop
  | nil (l : List P) : QueueSchedule C l [] 0
  | cons {l l' : List P} {p : P} {σ : List P} {c misses : ℕ} (hp : Queues C l p l' c)
      (hσ : QueueSchedule C l' σ misses) : QueueSchedule C l (p :: σ) (c + misses)

/-- The pages of the list that are not in `N`, each counted as often as `C` exceeds the number of
pages behind it. -/
def rank (C : ℕ) (N : Finset P) : List P → ℕ
  | [] => 0
  | a :: l => (if a ∈ N then 0 else C - l.length) + rank C N l

section Rank

variable {l l' : List P}

lemma Queues.nodup (h : Queues C l p l' c) (hl : l.Nodup) : l'.Nodup := by
  have happend : ∀ l : List P, l.Nodup → p ∉ l → (l ++ [p]).Nodup := by
    intro l hl hp
    exact hl.append (List.nodup_singleton p) (by simpa using hp)
  cases h with
  | hit => exact hl
  | touch => exact happend _ (hl.erase p) hl.not_mem_erase
  | load hp => exact happend _ hl hp
  | replace hp => exact happend _ hl.tail fun h => hp (List.mem_of_mem_tail h)

lemma Queues.length_le (h : Queues C l p l' c) (hl : l.length ≤ C) : l'.length ≤ C := by
  cases h with
  | hit => exact hl
  | touch hp =>
    have hpos := List.length_pos_of_mem hp
    rw [List.length_append, List.length_erase_of_mem hp, List.length_singleton]
    omega
  | load hp hroom =>
    rw [List.length_append, List.length_singleton]
    omega
  | replace hp hfull hne =>
    have hpos := List.length_pos_of_ne_nil hne
    rw [List.length_append, List.length_tail, List.length_singleton]
    omega

end Rank

/-! ### The pages used last -/

/-- The pages of the list, except that the one referenced moves to its end and the first one leaves
when there is no room. -/
def useLast (C : ℕ) (l : List P) (p : P) : List P :=
  if p ∈ l then l.erase p ++ [p] else if l.length = C then l.tail ++ [p] else l ++ [p]

/-- The list holds the last `C` pages of `r`, or all of them. -/
def IsLast (C : ℕ) (r l : List P) : Prop := l <:+ r ∧ l.length = min C r.length

lemma dedup_concat (σ : List P) (p : P) : (σ ++ [p]).dedup = σ.dedup.erase p ++ [p] := by
  induction σ with
  | nil => simp
  | cons a σ ih =>
    by_cases ha : a ∈ σ
    · rw [List.cons_append, List.dedup_cons_of_mem (List.mem_append_left _ ha),
        List.dedup_cons_of_mem ha, ih]
    · rw [List.dedup_cons_of_notMem ha]
      by_cases hap : a = p
      · subst hap
        have hnot : a ∉ σ.dedup := by rwa [List.mem_dedup]
        rw [List.cons_append, List.dedup_cons_of_mem (by simp), ih, List.erase_of_not_mem hnot,
          List.erase_cons_head]
      · rw [List.cons_append, List.dedup_cons_of_notMem (by simp [ha, hap]), ih,
          List.erase_cons_tail (by simpa using hap), List.cons_append]

omit [DecidableEq P] in
lemma IsLast.eq_rtake {r l : List P} (h : IsLast C r l) : l = r.rtake C := by
  obtain ⟨⟨before, rfl⟩, hlength⟩ := h
  rw [List.length_append] at hlength
  have hdrop : before.length + l.length - C = before.length ∨
      before = [] ∧ before.length + l.length - C = 0 := by
    rcases Nat.lt_or_ge (before.length + l.length) C with hlt | hge
    · right
      rw [List.length_eq_zero_iff.symm]
      omega
    · left
      omega
  rw [List.rtake, List.length_append]
  rcases hdrop with hdrop | ⟨rfl, hdrop⟩
  · rw [hdrop, List.drop_left]
  · rw [hdrop, List.nil_append, List.drop_zero]

omit [DecidableEq P] in
/-- A smaller cache holds pages that a larger one holds, too. -/
lemma IsLast.suffix {r l l' : List P} (h : IsLast C r l) (h' : IsLast C' r l') (hC : C ≤ C') :
    l <:+ l' := by
  have hlength := h.2
  have hlength' := h'.2
  exact List.suffix_of_suffix_length_le h.1 h'.1 (by omega)

/-- After a list of references, the pages are those referenced last. -/
lemma IsLast.useLast {l σ : List P} (h : IsLast C σ.dedup l) (hC : 1 ≤ C) (p : P) :
    IsLast C (σ ++ [p]).dedup (useLast C l p) := by
  obtain ⟨⟨before, hbefore⟩, hlength⟩ := h
  have hnodup : (before ++ l).Nodup := hbefore ▸ σ.nodup_dedup
  rw [dedup_concat, ← hbefore]
  rw [← hbefore, List.length_append] at hlength
  unfold Caching.useLast
  by_cases hp : p ∈ l
  · have hnot : p ∉ before := fun h => (List.nodup_append.mp hnodup).2.2 p h p hp rfl
    have hpos := List.length_pos_of_mem hp
    rw [if_pos hp, List.erase_append_right _ hnot, List.append_assoc]
    refine ⟨List.suffix_append _ _, ?_⟩
    simp only [List.length_append, List.length_erase_of_mem hp, List.length_singleton]
    omega
  · obtain ⟨before', herase⟩ : ∃ before', (before ++ l).erase p = before' ++ l := by
      rw [List.erase_append]
      split
      · exact ⟨_, rfl⟩
      · exact ⟨before, by rw [List.erase_of_not_mem hp]⟩
    rw [if_neg hp, herase, List.append_assoc]
    split_ifs with hfull
    · obtain ⟨a, t, rfl⟩ := List.exists_cons_of_length_pos (show 0 < l.length by omega)
      refine ⟨⟨before' ++ [a], by simp⟩, ?_⟩
      simp only [List.tail_cons, List.length_append, List.length_cons, List.length_nil] at hfull ⊢
      omega
    · have hbefore : before = [] := List.length_eq_zero_iff.mp (by omega)
      rw [hbefore, List.nil_append, List.erase_of_not_mem hp] at herase
      have hbefore' : before' = [] := by simpa using herase.symm
      rw [hbefore', List.nil_append]
      refine ⟨List.suffix_rfl, ?_⟩
      simp only [List.length_append, List.length_singleton]
      omega

end StyLinux.Lib.Caching
