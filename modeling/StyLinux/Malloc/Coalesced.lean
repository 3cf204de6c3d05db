import StyLinux.Malloc.Vika4Runs

/-!
# Coalesced heaps

In a coalesced heap no two free blocks touch each other. Freeing a block merges it with both
neighbours; an extension may put the new block next to a free one, but the request that caused
it then takes the start of the new block. So the best-fit allocator keeps the heap coalesced as
long as it returns memory, and the heap is one free block again when all memory is given back.
-/

namespace StyLinux.Malloc

open Lib

variable {σ : Type} {allocHeap : AllocHeap σ} {h : Heap σ} {ts us vs : List Chunk}
  {live : List ℕ} {n : ℕ}

/-- Not both tiles are free. -/
def Separate (s t : Chunk) : Prop := ¬(s.tag = .free ∧ t.tag = .free)

def Coalesced (ts : List Chunk) : Prop := ts.IsChain Separate

lemma separate_of_not_free_left {s t : Chunk} (hs : s.tag ≠ .free) : Separate s t :=
  fun h => hs h.1

lemma separate_of_not_free_right {s t : Chunk} (ht : t.tag ≠ .free) : Separate s t :=
  fun h => ht h.2

lemma coalesced_middle {t : Chunk} : Coalesced (us ++ t :: vs) ↔ Coalesced us ∧ Coalesced vs ∧
    (∀ s ∈ us.getLast?, Separate s t) ∧ ∀ r ∈ vs.head?, Separate t r := by
  unfold Coalesced
  rw [List.isChain_append, List.isChain_cons]
  simp only [List.head?_cons, Option.mem_some_iff, forall_eq']
  tauto

lemma Coalesced.cut {t : Chunk} (hts : Coalesced (us ++ t :: vs)) (ht : t.tag = .free) (n : ℕ) :
    Coalesced (us ++ cut t n ++ vs) := by
  obtain ⟨hus, hvs, -, hafter⟩ := coalesced_middle.mp hts
  have hhead : ∀ r ∈ vs.head?, r.tag ≠ .free := fun r hr hfree => hafter r hr ⟨ht, hfree⟩
  have hlive : ∀ m, ∀ s ∈ us.getLast?, Separate s ⟨t.lo, m, .live⟩ :=
    fun m s _ => separate_of_not_free_right (by simp)
  unfold Malloc.cut
  split
  · rw [List.append_assoc, List.singleton_append, coalesced_middle]
    exact ⟨hus, hvs, hlive n, fun r _ => separate_of_not_free_left (by simp)⟩
  · rw [List.append_assoc, List.cons_append, List.singleton_append, coalesced_middle]
    refine ⟨hus, ?_, hlive n, fun r _ => separate_of_not_free_left (by simp)⟩
    exact List.isChain_cons.mpr ⟨fun r hr => separate_of_not_free_right (hhead r hr), hvs⟩

lemma Coalesced.extend (hts : Coalesced ts) (t : Chunk) (n : ℕ) :
    Coalesced (ts ++ Malloc.cut t n) := by
  have hlive : ∀ s ∈ ts.getLast?, Separate s ⟨t.lo, n, .live⟩ :=
    fun s _ => separate_of_not_free_right (by simp)
  unfold Malloc.cut
  split
  · exact coalesced_middle.mpr ⟨hts, .nil, hlive, by simp⟩
  · refine coalesced_middle.mpr ⟨hts, .singleton _, hlive, ?_⟩
    exact fun r _ => separate_of_not_free_left (by simp)

lemma coalesced_mergedBefore (hus : Coalesced us) (t : Chunk) :
    Coalesced (mergedBefore us t).1 ∧ ∀ s ∈ (mergedBefore us t).1.getLast?, s.tag ≠ .free := by
  rcases List.eq_nil_or_concat' us with rfl | ⟨us, q, rfl⟩
  · exact ⟨hus, by simp [mergedBefore]⟩
  · by_cases hq : q.tag = .free
    · rw [mergedBefore_concat_free hq]
      obtain ⟨hus, -, hbefore, -⟩ := coalesced_middle.mp hus
      exact ⟨hus, fun s hs hfree => hbefore s hs ⟨hfree, hq⟩⟩
    · rw [mergedBefore_concat_used hq]
      exact ⟨hus, by simpa using hq⟩

lemma coalesced_mergedAfter (hvs : Coalesced vs) (t : Chunk) :
    Coalesced (mergedAfter t vs).2 ∧ ∀ r ∈ (mergedAfter t vs).2.head?, r.tag ≠ .free := by
  cases vs with
  | nil => exact ⟨hvs, by simp [mergedAfter]⟩
  | cons r vs =>
    obtain ⟨hafter, hvs'⟩ := List.isChain_cons.mp hvs
    by_cases hr : r.tag = .free
    · simp only [mergedAfter, hr, if_true]
      exact ⟨hvs', fun s hs hfree => hafter s hs ⟨hr, hfree⟩⟩
    · simp only [mergedAfter, hr, if_false]
      exact ⟨hvs, by simpa using hr⟩

lemma Coalesced.release {t : Chunk} (hts : Coalesced (us ++ t :: vs)) :
    Coalesced (release us t vs) := by
  obtain ⟨hus, hvs, -, -⟩ := coalesced_middle.mp hts
  obtain ⟨hus', hlast⟩ := coalesced_mergedBefore hus ⟨t.lo, t.len, .free⟩
  obtain ⟨hvs', hhead⟩ := coalesced_mergedAfter hvs (mergedBefore us ⟨t.lo, t.len, .free⟩).2
  refine coalesced_middle.mpr ⟨hus', hvs', ?_, ?_⟩
  · exact fun s hs => separate_of_not_free_left (hlast s hs)
  · exact fun r hr => separate_of_not_free_right (hhead r hr)

/-! ### Free lists of coalesced heaps -/

lemma Laid.not_adjacent (hl : Laid h ts live) (hts : Coalesced ts) {a b : ℕ}
    (ha : a ∈ freeStarts ts) (hb : b ∈ freeStarts ts) : a + h.size a ≠ b := by
  obtain ⟨s, hs, hsfree, rfl⟩ := mem_freeStarts.mp ha
  obtain ⟨t, ht, htfree, rfl⟩ := mem_freeStarts.mp hb
  rw [hl.sizes s hs]
  intro he
  obtain ⟨us, vs, rfl⟩ := hl.tiles.neighbours hs ht he
  obtain ⟨-, -, -, hafter⟩ := coalesced_middle.mp hts
  exact hafter t (by simp) ⟨hsfree, htfree⟩

/-- Without live blocks a coalesced heap is one free block. -/
lemma Laid.eq_singleton (hl : Laid h ts []) (hlost : NoLost ts) (hts : Coalesced ts) :
    ts = [⟨h.heapStart, h.heapSize, .free⟩] := by
  have hfree : ∀ t ∈ ts, t.tag = .free := by
    intro t ht
    cases htag : t.tag with
    | free => rfl
    | live => exact absurd (hl.mem_live.mpr ⟨t, ht, htag, rfl⟩) (by simp)
    | lost => exact absurd htag (hlost t ht)
  have htiles := hl.tiles
  cases ts with
  | nil =>
    have hgrown := hl.grown
    rw [tiles_nil] at htiles
    rw [HEAP_SIZE_eq] at hgrown
    omega
  | cons t us =>
    cases us with
    | nil =>
      obtain ⟨hlo, -, hhi⟩ := htiles
      have htag := hfree t (by simp)
      simp only [tiles_nil, Tile.hi, hlo] at hhi
      cases t
      simp_all
    | cons u us =>
      exact absurd ⟨hfree t (by simp), hfree u (by simp)⟩ (List.isChain_cons_cons.mp hts).1

namespace Vika4

/-- The request is at most `HEAP_SIZE` bytes and does not return `NULL`. -/
def Served (allocHeap : AllocHeap σ) (c : Config (Heap σ)) : Op → Prop
  | .malloc n => n ≤ HEAP_SIZE ∧ ∀ fuel s, myMalloc allocHeap fuel n c.state ≠ .ok (none, s)
  | _ => True

/-- The heap is laid out without lost blocks and coalesced. -/
def Tidy (c : Config (Heap σ)) : Prop := ∃ ts, Laid c.state ts c.live ∧ NoLost ts ∧ Coalesced ts

end Vika4

lemma Outcome.tidy {p : ℕ} {h' : Heap σ} (ho : Outcome allocHeap n h ts live (some p) h')
    (hlost : NoLost ts) (hts : Coalesced ts) : Vika4.Tidy ⟨h', p :: live⟩ := by
  cases ho with
  | served us vs t h' _ he htag _ hlaid _ _ _ =>
    subst he
    obtain ⟨hus, hvs⟩ := noLost_append.mp hlost
    refine ⟨_, hlaid, ?_, hts.cut htag _⟩
    exact noLost_append.mpr ⟨noLost_append.mpr ⟨hus, noLost_cut t _⟩, (noLost_cons.mp hvs).2⟩
  | extended q os h' _ _ _ hlaid _ _ _ =>
    exact ⟨_, hlaid, noLost_append.mpr ⟨hlost, noLost_cut _ _⟩, hts.extend _ _⟩

namespace Vika4

lemma Step.tidy (hcont : Contiguous allocHeap) {c c' : Config (Heap σ)} {op : Op}
    (hc : Tidy c) (hop : Served allocHeap c op) (hstep : Step (allocator allocHeap) c op c') :
    Tidy c' := by
  obtain ⟨ts, hl, hlost, hts⟩ := hc
  cases hstep with
  | malloc n r s _ hcall =>
    obtain ⟨fuel, hcall⟩ := hcall
    obtain ⟨hn, hserved⟩ := hop
    have hwrap := add_32_le_of_le hn
    obtain ⟨r', h', hret, ho⟩ := myMalloc_outcome hl hcont hwrap
    obtain ⟨rfl, rfl⟩ := Prod.mk.inj (Except.ok.inj (hret.eq_of_ok hcall))
    cases r' with
    | none => exact absurd hcall (hserved fuel h')
    | some p => exact ho.tidy hlost hts
  | freeNull s hcall =>
    obtain ⟨fuel, hcall⟩ := hcall
    obtain rfl := Except.ok.inj hcall
    exact ⟨ts, hl, hlost, hts⟩
  | free p s hp hcall =>
    obtain ⟨fuel, hcall⟩ := hcall
    obtain ⟨us, t, vs, h', rfl, -, rfl, hret, hlaid, -⟩ := returns_myFree hl hp
    obtain rfl := Except.ok.inj (hret.eq_of_ok hcall)
    exact ⟨_, hlaid, hlost.release, hts.release⟩
  | write mem hw => exact ⟨ts, hl.writesData hw, hlost, hts⟩

end Vika4

end StyLinux.Malloc
