import Mathlib.Tactic

/-!
# Loops bounded by fuel

A loop of the source becomes a function of a fuel bound which reports the error `out`
when the bound is reached. `Returns out f r` says that the loop ends: there is a least
sufficient bound, from which on the answer is `r`, and below it the fuel runs out.
-/

namespace StyLinux.Lib

universe u v

variable {ε : Type u} {α β : Type v} {out : ε}

/-- The computation ends with `r`: from some bound on its answer is `r`, and below that
bound it runs out of fuel. -/
def Returns (out : ε) (f : ℕ → Except ε α) (r : Except ε α) : Prop :=
  ∃ k, ∀ fuel, f fuel = if k ≤ fuel then r else .error out

/-- A sequence of two computations answers only if both do. -/
lemma bind_eq_ok {x : Except ε α} {f : α → Except ε β} {b : β} :
    (x >>= f) = .ok b ↔ ∃ a, x = .ok a ∧ f a = .ok b := by
  cases x <;> simp [Bind.bind, Except.bind]

lemma ok_bind (a : α) (f : α → Except ε β) : (Except.ok a >>= f) = f a := rfl

namespace Returns

variable {f : ℕ → Except ε α} {g : α → ℕ → Except ε β} {r : Except ε α} {s : Except ε β}

lemma const (r : Except ε α) : Returns out (fun _ => r) r := ⟨0, by simp⟩

lemma succ {f' : ℕ → Except ε α} (h : Returns out f' r) (h0 : f 0 = .error out)
    (hs : ∀ fuel, f (fuel + 1) = f' fuel) : Returns out f r := by
  obtain ⟨k, hk⟩ := h
  refine ⟨k + 1, ?_⟩
  intro fuel
  cases fuel with
  | zero => simp [h0]
  | succ fuel => simp [hs, hk]

lemma bind {a : α} (hf : Returns out f (.ok a)) (hg : Returns out (g a) s) :
    Returns out (fun fuel => f fuel >>= fun x => g x fuel) s := by
  obtain ⟨k, hk⟩ := hf
  obtain ⟨l, hl⟩ := hg
  refine ⟨max k l, ?_⟩
  intro fuel
  by_cases h1 : k ≤ fuel
  · by_cases h2 : l ≤ fuel
    · simp [hk, hl, h1, h2, Bind.bind, Except.bind]
    · simp [hk, hl, h1, h2, Bind.bind, Except.bind]
  · simp [hk, h1, Bind.bind, Except.bind]

lemma bind_error {e : ε} (hf : Returns out f (.error e)) :
    Returns out (fun fuel => f fuel >>= fun x => g x fuel) (.error e) := by
  obtain ⟨k, hk⟩ := hf
  refine ⟨k, ?_⟩
  intro fuel
  by_cases h : k ≤ fuel
  · simp [hk, h, Bind.bind, Except.bind]
  · simp [hk, h, Bind.bind, Except.bind]

lemma map {a : α} (hf : Returns out f (.ok a)) (φ : α → β) :
    Returns out (fun fuel => f fuel >>= fun x => pure (φ x)) (.ok (φ a)) :=
  hf.bind (const (.ok (φ a)))

lemma congr {f' : ℕ → Except ε α} (h : Returns out f r) (he : ∀ fuel, f' fuel = f fuel) :
    Returns out f' r := by
  obtain rfl : f' = f := funext he
  exact h

lemma exists_eq (h : Returns out f r) : ∃ fuel, f fuel = r := by
  obtain ⟨k, hk⟩ := h
  exact ⟨k, by simp [hk]⟩

lemma eventually (h : Returns out f r) : ∃ k, ∀ fuel, k ≤ fuel → f fuel = r := by
  obtain ⟨k, hk⟩ := h
  exact ⟨k, fun fuel hfuel => by simp [hk, hfuel]⟩

lemma eq_of_ne (h : Returns out f r) {fuel : ℕ} (hne : f fuel ≠ .error out) : f fuel = r := by
  obtain ⟨k, hk⟩ := h
  by_cases hf : k ≤ fuel
  · simp [hk, hf]
  · exact absurd (by simp [hk, hf]) hne

lemma eq_of_ok (h : Returns out f r) {fuel : ℕ} {a : α} (hok : f fuel = .ok a) : r = .ok a := by
  rw [← hok, h.eq_of_ne (by simp [hok])]

/-- A computation that ends with a value never reports any other error than `out`. -/
lemma ne_error {a : α} {e : ε} (h : Returns out f (.ok a)) (hne : e ≠ out) (fuel : ℕ) :
    f fuel ≠ .error e := by
  intro he
  have hok : Except.ok a = Except.error e := by
    rw [← he]
    exact (h.eq_of_ne (by simpa [he] using hne)).symm
  cases hok

end Returns

end StyLinux.Lib
