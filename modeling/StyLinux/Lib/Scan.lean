import Mathlib.Tactic

/-!
# Scans for a best element

A loop over a list remembers the position and the key of the best element it has seen. Which
position it ends with depends on how the keys compare, not on the keys.
-/

namespace StyLinux.Lib

variable {α κ κ' : Type*}

/-- The loop from position `i` on. It takes the element at hand if its key compares to the
remembered one as `takes` says. -/
def scan (takes : κ → κ → Prop) [DecidableRel takes] (key : α → κ) : List α → ℤ → ℤ → κ → ℤ
  | [], _, best, _ => best
  | a :: as, i, best, bestKey =>
    if takes bestKey (key a) then scan takes key as (i + 1) i (key a)
    else scan takes key as (i + 1) best bestKey

variable {takes : κ → κ → Prop} [DecidableRel takes] {takes' : κ' → κ' → Prop}
  [DecidableRel takes'] {key : α → κ} {key' : α → κ'}

lemma scan_congr {as : List α} {i best : ℤ} {k : κ} {k' : κ'}
    (hstart : ∀ a ∈ as, (takes k (key a) ↔ takes' k' (key' a)))
    (hkeys : ∀ a ∈ as, ∀ b ∈ as, (takes (key a) (key b) ↔ takes' (key' a) (key' b))) :
    scan takes key as i best k = scan takes' key' as i best k' := by
  induction as generalizing i best k k' with
  | nil => rfl
  | cons a as ih =>
    have hrest : ∀ b ∈ as, ∀ c ∈ as, (takes (key b) (key c) ↔ takes' (key' b) (key' c)) := by
      intro b hb c hc
      exact hkeys b (by simp [hb]) c (by simp [hc])
    unfold scan
    by_cases h : takes k (key a)
    · rw [if_pos h, if_pos ((hstart a (by simp)).mp h)]
      exact ih (fun b hb => hkeys a (by simp) b (by simp [hb])) hrest
    · rw [if_neg h, if_neg (fun h' => h ((hstart a (by simp)).mpr h'))]
      exact ih (fun b hb => hstart b (by simp [hb])) hrest

lemma scan_eq_or_mem (takes : κ → κ → Prop) [DecidableRel takes] (key : α → κ) (as : List α)
    (i best : ℤ) (k : κ) :
    scan takes key as i best k = best ∨
      i ≤ scan takes key as i best k ∧ scan takes key as i best k < i + as.length := by
  induction as generalizing i best k with
  | nil => exact .inl rfl
  | cons a as ih =>
    unfold scan
    rw [List.length_cons]
    split
    · have h := ih (i + 1) i (key a)
      omega
    · have h := ih (i + 1) best k
      omega

/-- A scan that takes the first element ends within the list. -/
lemma scan_mem {a : α} {as : List α} {best : ℤ} {k : κ} (h : takes k (key a)) :
    0 ≤ scan takes key (a :: as) 0 best k ∧
      scan takes key (a :: as) 0 best k < (a :: as).length := by
  unfold scan
  rw [if_pos h, List.length_cons]
  rcases scan_eq_or_mem takes key as (0 + 1) 0 (key a) with hrest | hrest
  · rw [hrest]
    omega
  · omega

/-- The loop for the last element with the greatest key. -/
lemma scan_greatest [LinearOrder κ] (key : α → κ) (as : List α) (i best : ℤ) (k : κ) :
    (scan (fun m x => x ≥ m) key as i best k = best ∧ ∀ a ∈ as, key a < k) ∨
      ∃ j, ∃ hj : j < as.length, scan (fun m x => x ≥ m) key as i best k = i + j ∧
        k ≤ key as[j] ∧ ∀ a ∈ as, key a ≤ key as[j] := by
  induction as generalizing i best k with
  | nil => exact .inl ⟨rfl, by simp⟩
  | cons a as ih =>
    unfold scan
    split_ifs with htakes
    · right
      rcases ih (i + 1) i (key a) with ⟨hscan, hlt⟩ | ⟨j, hj, hscan, hle, hall⟩
      · refine ⟨0, by simp, by simpa using hscan, htakes, ?_⟩
        rw [List.forall_mem_cons]
        exact ⟨le_rfl, fun b hb => (hlt b hb).le⟩
      · refine ⟨j + 1, by simpa using hj, ?_, htakes.trans hle, ?_⟩
        · rw [hscan]
          push_cast
          ring
        · rw [List.forall_mem_cons]
          exact ⟨hle, hall⟩
    · rcases ih (i + 1) best k with ⟨hscan, hlt⟩ | ⟨j, hj, hscan, hle, hall⟩
      · left
        rw [List.forall_mem_cons]
        exact ⟨hscan, not_le.mp htakes, hlt⟩
      · right
        refine ⟨j + 1, by simpa using hj, ?_, hle, ?_⟩
        · rw [hscan]
          push_cast
          ring
        · rw [List.forall_mem_cons]
          exact ⟨(not_le.mp htakes).le.trans hle, hall⟩

end StyLinux.Lib
