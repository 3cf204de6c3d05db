import StyLinux.Malloc.Layout

/-!
# Searching the free list

Best-fit and worst-fit run the same loop over the free list with opposite comparisons,
first-fit stops at the first block that is large enough. The results are described on
the list of free blocks: `Picks` names the selected block, and the link the loop would
have patched is the one in which the blocks before it end.
-/

namespace StyLinux.Malloc

open Lib

variable {σ : Type}

/-- The update of the best block so far by the current one. `improves a b` compares the
size `a` of the current block with the size `b` of the best one. -/
def updateBest (improves : ℕ → ℕ → Bool) (h : Heap σ) (size : ℕ) (best : Option (ℕ × Link))
    (prev : Option ℕ) (current : ℕ) : Option (ℕ × Link) :=
  if size ≤ h.size current then
    match best with
    | none => some (current, linkOf prev)
    | some (block, link) =>
      if improves (h.size current) (h.size block) then some (current, linkOf prev)
      else some (block, link)
  else best

/-- The search loop of best-fit and worst-fit. -/
def fitLoop (improves : ℕ → ℕ → Bool) (h : Heap σ) (size : ℕ) :
    ℕ → Option (ℕ × Link) → Option ℕ → Option ℕ → Except Fault (Option (ℕ × Link))
  | 0, _, _, _ => .error .outOfFuel
  | _ + 1, best, _, none => .ok best
  | fuel + 1, best, prev, some current =>
    fitLoop improves h size fuel (updateBest improves h size best prev current) (some current)
      (h.read (.next current))

/-- The search of `my_malloc` in `vika4`, and of `ALLOC_BESTFIT` in `vika5`. -/
def bestFit (h : Heap σ) (size fuel : ℕ) : Except Fault (Option (ℕ × Link)) :=
  fitLoop (fun new old => new < old) h size fuel none none h.firstFreeBlock

def worstFit (h : Heap σ) (size fuel : ℕ) : Except Fault (Option (ℕ × Link)) :=
  fitLoop (fun new old => old < new) h size fuel none none h.firstFreeBlock

def firstFitLoop (h : Heap σ) (size : ℕ) :
    ℕ → Option ℕ → Option ℕ → Except Fault (Option (ℕ × Link))
  | 0, _, _ => .error .outOfFuel
  | _ + 1, _, none => .ok none
  | fuel + 1, prev, some current =>
    if size ≤ h.size current then .ok (some (current, linkOf prev))
    else firstFitLoop h size fuel (some current) (h.read (.next current))

def firstFit (h : Heap σ) (size fuel : ℕ) : Except Fault (Option (ℕ × Link)) :=
  firstFitLoop h size fuel none h.firstFreeBlock

/-- A search over the blocks `xs` selects a block that is large enough, or no block is. -/
def Selects (h : Heap σ) (size : ℕ) (xs : List ℕ) : Option (ℕ × Link) → Prop
  | none => ∀ x ∈ xs, h.size x < size
  | some (block, link) => ∃ before after, xs = before ++ block :: after ∧
      link = endLink Link.next .first before ∧ size ≤ h.size block

/-- The selected block also improves on the large enough blocks before it, and those
behind it do not improve on it. -/
def Picks (improves : ℕ → ℕ → Bool) (h : Heap σ) (size : ℕ) (xs : List ℕ) :
    Option (ℕ × Link) → Prop
  | none => ∀ x ∈ xs, h.size x < size
  | some (block, link) => ∃ before after, xs = before ++ block :: after ∧
      link = endLink Link.next .first before ∧ size ≤ h.size block ∧
      (∀ x ∈ before, size ≤ h.size x → improves (h.size block) (h.size x)) ∧
      ∀ x ∈ after, size ≤ h.size x → ¬improves (h.size x) (h.size block)

variable {h : Heap σ} {size : ℕ} {improves : ℕ → ℕ → Bool}

lemma Picks.selects {xs : List ℕ} {r : Option (ℕ × Link)} (hp : Picks improves h size xs r) :
    Selects h size xs r := by
  cases r with
  | none => exact hp
  | some r =>
    obtain ⟨before, after, hxs, hlink, hsize, -, -⟩ := hp
    exact ⟨before, after, hxs, hlink, hsize⟩

lemma Picks.updateBest (htrans : ∀ a b c, improves a b → ¬improves c b → improves a c)
    (hlt : ∀ a b c, improves a b → improves b c → improves a c)
    {xs : List ℕ} {best : Option (ℕ × Link)} (hp : Picks improves h size xs best) (y : ℕ) :
    Picks improves h size (xs ++ [y]) (updateBest improves h size best xs.getLast? y) := by
  unfold Malloc.updateBest
  by_cases hy : size ≤ h.size y
  · rw [if_pos hy]
    cases best with
    | none =>
      refine ⟨xs, [], by simp, linkOf_getLast? xs, hy, ?_, by simp⟩
      intro x hx hfit
      exact absurd (hp x hx) (by omega)
    | some best =>
      obtain ⟨block, link⟩ := best
      obtain ⟨before, after, hxs, hlink, hsize, hbefore, hafter⟩ := hp
      by_cases hi : improves (h.size y) (h.size block)
      · simp only [hi, if_true]
        refine ⟨xs, [], by simp, linkOf_getLast? xs, hy, ?_, by simp⟩
        intro x hx hfit
        rw [hxs, List.mem_append, List.mem_cons] at hx
        rcases hx with hx | rfl | hx
        · exact hlt _ _ _ hi (hbefore x hx hfit)
        · exact hi
        · exact htrans _ _ _ hi (hafter x hx hfit)
      · simp only [hi]
        refine ⟨before, after ++ [y], by simp [hxs], hlink, hsize, hbefore, ?_⟩
        intro x hx hfit
        rcases List.mem_append.mp hx with hx | hx
        · exact hafter x hx hfit
        · rw [List.mem_singleton.mp hx]
          exact hi
  · rw [if_neg hy]
    cases best with
    | none =>
      intro x hx
      rcases List.mem_append.mp hx with hx | hx
      · exact hp x hx
      · rw [List.mem_singleton.mp hx]
        omega
    | some best =>
      obtain ⟨before, after, hxs, hlink, hsize, hbefore, hafter⟩ := hp
      refine ⟨before, after ++ [y], by simp [hxs], hlink, hsize, hbefore, ?_⟩
      intro x hx hfit
      rcases List.mem_append.mp hx with hx | hx
      · exact hafter x hx hfit
      · rw [List.mem_singleton.mp hx] at hfit
        exact absurd hfit hy

lemma returns_fitLoop (htrans : ∀ a b c, improves a b → ¬improves c b → improves a c)
    (hlt : ∀ a b c, improves a b → improves b c → improves a c)
    {xs ys : List ℕ} {best : Option (ℕ × Link)}
    (hc : Chain Link.next h.read (endLink Link.next .first xs) ys)
    (hp : Picks improves h size xs best) :
    ∃ r, Returns .outOfFuel (fun fuel => fitLoop improves h size fuel best xs.getLast?
        (h.read (endLink Link.next .first xs))) (.ok r) ∧ Picks improves h size (xs ++ ys) r := by
  induction ys generalizing xs best with
  | nil =>
    refine ⟨best, (Returns.const _).succ rfl ?_, by simpa using hp⟩
    intro fuel
    have hr : h.read (endLink Link.next .first xs) = none := hc
    rw [hr, fitLoop]
  | cons y ys ih =>
    have hnext : endLink Link.next .first (xs ++ [y]) = .next y := endLink_concat _ _ _
    obtain ⟨r, hr, hpicks⟩ := ih (hnext.symm ▸ hc.2) (hp.updateBest htrans hlt y)
    refine ⟨r, hr.succ rfl ?_, by simpa using hpicks⟩
    intro fuel
    rw [hc.1, hnext, List.getLast?_concat, fitLoop]

theorem returns_bestFit (size : ℕ) {xs : List ℕ} (hc : Chain Link.next h.read .first xs) :
    ∃ r, Returns .outOfFuel (fun fuel => bestFit h size fuel) (.ok r) ∧
      Picks (fun new old => new < old) h size xs r := by
  have hempty : Picks (fun new old => decide (new < old)) h size [] none := by simp [Picks]
  exact returns_fitLoop (by simp only [decide_eq_true_eq]; omega)
    (by simp only [decide_eq_true_eq]; omega) hc hempty

theorem returns_worstFit (size : ℕ) {xs : List ℕ} (hc : Chain Link.next h.read .first xs) :
    ∃ r, Returns .outOfFuel (fun fuel => worstFit h size fuel) (.ok r) ∧
      Picks (fun new old => old < new) h size xs r := by
  have hempty : Picks (fun new old => decide (old < new)) h size [] none := by simp [Picks]
  exact returns_fitLoop (by simp only [decide_eq_true_eq]; omega)
    (by simp only [decide_eq_true_eq]; omega) hc hempty

lemma returns_firstFitLoop {xs ys : List ℕ}
    (hc : Chain Link.next h.read (endLink Link.next .first xs) ys)
    (hx : ∀ x ∈ xs, h.size x < size) :
    ∃ r, Returns .outOfFuel (fun fuel => firstFitLoop h size fuel xs.getLast?
        (h.read (endLink Link.next .first xs))) (.ok r) ∧
      Picks (fun _ _ => false) h size (xs ++ ys) r := by
  induction ys generalizing xs with
  | nil =>
    refine ⟨none, (Returns.const _).succ rfl ?_, by simpa [Picks] using hx⟩
    intro fuel
    have hr : h.read (endLink Link.next .first xs) = none := hc
    rw [hr, firstFitLoop]
  | cons y ys ih =>
    by_cases hy : size ≤ h.size y
    · refine ⟨some (y, linkOf xs.getLast?), (Returns.const _).succ rfl ?_,
        xs, ys, rfl, linkOf_getLast? xs, hy, ?_, by simp⟩
      · intro fuel
        rw [hc.1, firstFitLoop, if_pos hy]
      · intro x hxs hfit
        exact absurd (hx x hxs) (by omega)
    · have hnext : endLink Link.next .first (xs ++ [y]) = .next y := endLink_concat _ _ _
      have hsmall : ∀ x ∈ xs ++ [y], h.size x < size := by
        intro x hxs
        rcases List.mem_append.mp hxs with hxs | hxs
        · exact hx x hxs
        · rw [List.mem_singleton.mp hxs]
          omega
      obtain ⟨r, hr, hpicks⟩ := ih (hnext.symm ▸ hc.2) hsmall
      refine ⟨r, hr.succ rfl ?_, by simpa using hpicks⟩
      intro fuel
      rw [hc.1, firstFitLoop, if_neg hy, hnext, List.getLast?_concat]

theorem returns_firstFit (size : ℕ) {xs : List ℕ} (hc : Chain Link.next h.read .first xs) :
    ∃ r, Returns .outOfFuel (fun fuel => firstFit h size fuel) (.ok r) ∧
      Picks (fun _ _ => false) h size xs r :=
  @returns_firstFitLoop σ h size [] xs hc (by simp)

end StyLinux.Malloc
