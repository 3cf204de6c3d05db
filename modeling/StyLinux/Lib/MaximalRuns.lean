import Mathlib.Tactic

/-!
# Maximal runs

A maximal run of a range of positions is a part of the range, as long as possible, in which a
property holds. Two scans, one to where the property fails and one to where it holds again, find
the first of them and leave the others in the rest of the range.
-/

namespace StyLinux.Lib

variable {p : ℕ → Prop} {start stop cur pos next a b : ℕ}

/-- A scan from `start` on stops at the first position where `p` fails, or at the end. -/
structure Scanned (p : ℕ → Prop) (start stop pos : ℕ) : Prop where
  le : start ≤ pos
  le_stop : pos ≤ stop
  holds : ∀ i, start ≤ i → i < pos → p i
  fails : pos < stop → ¬p pos

structure MaximalRun (p : ℕ → Prop) (start stop a b : ℕ) : Prop where
  start_le : start ≤ a
  lt : a < b
  left : start < a → ¬p (a - 1)
  right : Scanned p a stop b

/-- The maximal runs of a range, each of them once and in order. -/
structure MaximalRuns (p : ℕ → Prop) (start stop : ℕ) (runs : List (ℕ × ℕ)) : Prop where
  mem_iff : ∀ a b, (a, b) ∈ runs ↔ MaximalRun p start stop a b
  ordered : runs.Pairwise fun r r' => r.2 < r'.1

namespace Scanned

lemma refl (hle : pos ≤ stop) (hfails : pos < stop → ¬p pos) : Scanned p pos stop pos :=
  ⟨le_rfl, hle, fun i hi hlt => absurd hi (by omega), hfails⟩

lemma cons (hp : p cur) (h : Scanned p (cur + 1) stop pos) : Scanned p cur stop pos := by
  refine ⟨by have := h.le; omega, h.le_stop, fun i hi hlt => ?_, h.fails⟩
  rcases Nat.eq_or_lt_of_le hi with rfl | hi
  · exact hp
  · exact h.holds i hi hlt

lemma unique (ha : Scanned p cur stop a) (hb : Scanned p cur stop b) : a = b := by
  by_contra hne
  rcases Nat.lt_or_gt_of_ne hne with hlt | hlt
  · have hle := hb.le_stop
    exact ha.fails (by omega) (hb.holds a ha.le hlt)
  · have hle := ha.le_stop
    exact hb.fails (by omega) (ha.holds b hb.le hlt)

/-- Two scans, the second one as long as `p` fails, advance. -/
lemma lt_next (hscan : Scanned p cur stop pos) (hskip : Scanned (fun i => ¬p i) pos stop next)
    (hlt : cur < stop) : cur < next := by
  have hle := hscan.le
  have hle' := hskip.le
  by_contra hge
  obtain rfl : pos = cur := by omega
  obtain rfl : next = pos := by omega
  exact hskip.fails hlt (hscan.fails hlt)

end Scanned

namespace MaximalRun

lemma first (h : MaximalRun p start stop a b) : p a := h.right.holds a le_rfl h.lt

lemma lt_stop (h : MaximalRun p start stop a b) : a < stop := h.lt.trans_le h.right.le_stop

/-- Behind the end of a scan for a gap there is a gap before the next run. -/
lemma lt_of_le (hscan : Scanned p cur stop pos) (h : MaximalRun p next stop a b)
    (hle : pos ≤ a) : pos < a := by
  rcases Nat.eq_or_lt_of_le hle with rfl | hlt
  · exact absurd h.first (hscan.fails h.lt_stop)
  · exact hlt

end MaximalRun

section Scans

variable (hscan : Scanned p cur stop pos) (hskip : Scanned (fun i => ¬p i) pos stop next)

include hscan hskip

lemma maximalRun_iff :
    MaximalRun p cur stop a b ↔
      (cur < pos ∧ a = cur ∧ b = pos) ∨ MaximalRun p next stop a b := by
  have hle := hscan.le
  have hle' := hskip.le
  constructor
  · intro h
    rcases Nat.lt_or_ge a pos with hlt | hge
    · have hcur : cur = a := by
        by_contra hne
        have hbefore : cur < a := lt_of_le_of_ne h.start_le hne
        exact h.left hbefore (hscan.holds (a - 1) (by omega) (by omega))
      subst hcur
      exact .inl ⟨hlt, rfl, h.right.unique hscan⟩
    · have hnext : next ≤ a := by
        by_contra hlt
        exact hskip.holds a hge (by omega) h.first
      exact .inr ⟨hnext, h.lt, fun hlt => h.left (by omega), h.right⟩
  · rintro (⟨hlt, rfl, rfl⟩ | h)
    · exact ⟨le_rfl, hlt, fun hlt => absurd hlt (by omega), hscan⟩
    · have hnext := h.start_le
      have hgap : pos < a := h.lt_of_le hscan (by omega)
      refine ⟨by omega, h.lt, fun _ => ?_, h.right⟩
      rcases Nat.eq_or_lt_of_le hnext with rfl | hlt
      · exact hskip.holds (next - 1) (by omega) (by omega)
      · exact h.left hlt

namespace MaximalRuns

variable {runs : List (ℕ × ℕ)}

lemma skip (hcur : pos = cur) (h : MaximalRuns p next stop runs) :
    MaximalRuns p cur stop runs := by
  refine ⟨fun a b => ?_, h.ordered⟩
  rw [h.mem_iff, maximalRun_iff hscan hskip]
  simp [hcur]

lemma cons (hcur : cur < pos) (h : MaximalRuns p next stop runs) :
    MaximalRuns p cur stop ((cur, pos) :: runs) := by
  constructor
  · intro a b
    rw [List.mem_cons, h.mem_iff, maximalRun_iff hscan hskip, Prod.mk.injEq]
    simp [hcur]
  · refine List.pairwise_cons.mpr ⟨fun r hr => ?_, h.ordered⟩
    have hrun := (h.mem_iff r.1 r.2).mp hr
    exact hrun.lt_of_le hscan (hskip.le.trans hrun.start_le)

end MaximalRuns

end Scans

lemma MaximalRuns.nil (hle : stop ≤ start) : MaximalRuns p start stop [] := by
  refine ⟨fun a b => ⟨fun h => absurd h (by simp), fun h => ?_⟩, List.Pairwise.nil⟩
  have hstart := h.start_le
  have hlt := h.lt_stop
  omega

end StyLinux.Lib
