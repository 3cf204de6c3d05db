import Mathlib.Tactic

/-!
# Tilings of an interval

A tiling of `[a, b)` is a list of nonempty tiles, each starting where the one before it
ends. Tiles carry a tag, so that the parts of the interval can be classified.
-/

namespace StyLinux.Lib

/-- The interval `[lo, lo + len)` with a tag. -/
structure Tile (τ : Type*) where
  lo : ℕ
  len : ℕ
  tag : τ
  deriving DecidableEq, Repr

namespace Tile

variable {τ : Type*}

def hi (t : Tile τ) : ℕ := t.lo + t.len

def Covers (t : Tile τ) (x : ℕ) : Prop := t.lo ≤ x ∧ x < t.hi

end Tile

variable {τ : Type*}

/-- The tiles are nonempty, consecutive, and fill `[a, b)`. -/
def Tiles : ℕ → List (Tile τ) → ℕ → Prop
  | a, [], b => a = b
  | a, t :: ts, b => t.lo = a ∧ 0 < t.len ∧ Tiles t.hi ts b

@[simp] lemma tiles_nil (a b : ℕ) : Tiles a ([] : List (Tile τ)) b ↔ a = b := Iff.rfl

@[simp] lemma tiles_cons (a b : ℕ) (t : Tile τ) (ts : List (Tile τ)) :
    Tiles a (t :: ts) b ↔ t.lo = a ∧ 0 < t.len ∧ Tiles t.hi ts b := Iff.rfl

lemma tiles_append (a b : ℕ) (ts us : List (Tile τ)) :
    Tiles a (ts ++ us) b ↔ ∃ m, Tiles a ts m ∧ Tiles m us b := by
  induction ts generalizing a with
  | nil => simp
  | cons t ts ih => simp [ih, and_assoc]

lemma tiles_middle (a b : ℕ) (ts us : List (Tile τ)) (t : Tile τ) :
    Tiles a (ts ++ t :: us) b ↔ Tiles a ts t.lo ∧ 0 < t.len ∧ Tiles t.hi us b := by
  rw [tiles_append]
  constructor
  · rintro ⟨m, hts, rfl, hlen, hus⟩
    exact ⟨hts, hlen, hus⟩
  · rintro ⟨hts, hlen, hus⟩
    exact ⟨t.lo, hts, rfl, hlen, hus⟩

namespace Tiles

variable {a b : ℕ} {ts us : List (Tile τ)} {s t : Tile τ}

lemma le (h : Tiles a ts b) : a ≤ b := by
  induction ts generalizing a with
  | nil => exact h.le
  | cons t ts ih =>
    obtain ⟨rfl, -, h⟩ := h
    have := ih h
    simp only [Tile.hi] at this
    omega

lemma pos (h : Tiles a ts b) (ht : t ∈ ts) : 0 < t.len := by
  obtain ⟨xs, ys, rfl⟩ := List.append_of_mem ht
  exact ((tiles_middle a b xs ys t).mp h).2.1

lemma bounds (h : Tiles a ts b) (ht : t ∈ ts) : a ≤ t.lo ∧ t.hi ≤ b := by
  obtain ⟨xs, ys, rfl⟩ := List.append_of_mem ht
  obtain ⟨hx, -, hy⟩ := (tiles_middle a b xs ys t).mp h
  exact ⟨hx.le, hy.le⟩

lemma cover (h : Tiles a ts b) {x : ℕ} (hax : a ≤ x) (hxb : x < b) : ∃ t ∈ ts, t.Covers x := by
  induction ts generalizing a with
  | nil => simp only [tiles_nil] at h; omega
  | cons t ts ih =>
    obtain ⟨rfl, -, h⟩ := h
    by_cases hx : x < t.hi
    · exact ⟨t, by simp, hax, hx⟩
    · obtain ⟨u, hu, hcov⟩ := ih h (by omega)
      exact ⟨u, by simp [hu], hcov⟩

lemma pairwise (h : Tiles a ts b) : ts.Pairwise (fun s t => s.hi ≤ t.lo) := by
  induction ts generalizing a with
  | nil => exact List.Pairwise.nil
  | cons t ts ih =>
    obtain ⟨-, -, h⟩ := h
    exact List.Pairwise.cons (fun u hu => (h.bounds hu).1) (ih h)

lemma pairwise_lo (h : Tiles a ts b) : (ts.map Tile.lo).Pairwise (· < ·) := by
  rw [List.pairwise_map]
  refine h.pairwise.imp_of_mem ?_
  intro s t hs ht hst
  have := h.pos hs
  simp only [Tile.hi] at hst
  omega

lemma nodup_lo (h : Tiles a ts b) : (ts.map Tile.lo).Nodup :=
  h.pairwise_lo.imp (fun h => h.ne)

lemma eq_of_lo (h : Tiles a ts b) (hs : s ∈ ts) (ht : t ∈ ts) (he : s.lo = t.lo) : s = t :=
  List.inj_on_of_nodup_map h.nodup_lo hs ht he

lemma apart (h : Tiles a ts b) (hs : s ∈ ts) (ht : t ∈ ts) (hne : s ≠ t) :
    s.hi ≤ t.lo ∨ t.hi ≤ s.lo := by
  obtain ⟨xs, ys, rfl⟩ := List.append_of_mem ht
  obtain ⟨hx, -, hy⟩ := (tiles_middle a b xs ys t).mp h
  simp only [List.mem_append, List.mem_cons] at hs
  rcases hs with hs | rfl | hs
  · exact .inl (hx.bounds hs).2
  · exact absurd rfl hne
  · exact .inr (hy.bounds hs).1

lemma dvd_lo (h : Tiles a ts b) {d : ℕ} (ha : d ∣ a) (hd : ∀ t ∈ ts, d ∣ t.len) :
    ∀ t ∈ ts, d ∣ t.lo := by
  induction ts generalizing a with
  | nil => simp
  | cons t ts ih =>
    obtain ⟨rfl, -, h⟩ := h
    have hhi : d ∣ t.hi := Nat.dvd_add ha (hd t (by simp))
    intro s hs
    rcases List.mem_cons.mp hs with rfl | hs
    · exact ha
    · exact ih h hhi (fun u hu => hd u (by simp [hu])) s hs

/-- Only the starts and lengths matter. -/
lemma map {σ : Type*} (h : Tiles a ts b) {f : Tile τ → Tile σ}
    (hf : ∀ t ∈ ts, (f t).lo = t.lo ∧ (f t).len = t.len) : Tiles a (ts.map f) b := by
  induction ts generalizing a with
  | nil => exact h
  | cons t ts ih =>
    obtain ⟨hlo, hlen⟩ := hf t (by simp)
    have htail := ih h.2.2 fun s hs => hf s (by simp [hs])
    refine ⟨hlo.trans h.1, hlen ▸ h.2.1, ?_⟩
    rwa [Tile.hi, hlo, hlen]

/-- Tiles that touch are neighbours in the list. -/
lemma neighbours (h : Tiles a ts b) (hs : s ∈ ts) (ht : t ∈ ts) (he : s.hi = t.lo) :
    ∃ us vs, ts = us ++ s :: t :: vs := by
  obtain ⟨us, vs, rfl⟩ := List.append_of_mem hs
  obtain ⟨hus, hspos, hvs⟩ := (tiles_middle a b us vs s).mp h
  simp only [List.mem_append, List.mem_cons] at ht
  rcases ht with ht | rfl | ht
  · have hle := (hus.bounds ht).2
    simp only [Tile.hi] at hle he
    omega
  · simp only [Tile.hi] at he
    omega
  · cases vs with
    | nil => simp at ht
    | cons r vs =>
      have hrlo : r.lo = s.hi := hvs.1
      obtain rfl := hvs.eq_of_lo ht (by simp) (he.symm.trans hrlo.symm)
      exact ⟨us, vs, rfl⟩

lemma covers_unique (h : Tiles a ts b) (hs : s ∈ ts) (ht : t ∈ ts) {x : ℕ} (hsx : s.Covers x)
    (htx : t.Covers x) : s = t := by
  by_contra hne
  obtain ⟨h1, h2⟩ := hsx
  obtain ⟨h3, h4⟩ := htx
  rcases h.apart hs ht hne with h5 | h5 <;> omega

end Tiles

/-! ### Classifying tiles -/

section Classes

variable (p : Tile τ → Prop) [DecidablePred p]

def startsOf (ts : List (Tile τ)) : List ℕ :=
  (ts.filter p).map Tile.lo

@[simp] lemma startsOf_nil : startsOf p ([] : List (Tile τ)) = [] := rfl

lemma startsOf_cons (t : Tile τ) (ts : List (Tile τ)) :
    startsOf p (t :: ts) = (if p t then [t.lo] else []) ++ startsOf p ts := by
  by_cases h : p t <;> simp [startsOf, h]

@[simp] lemma startsOf_append (ts us : List (Tile τ)) :
    startsOf p (ts ++ us) = startsOf p ts ++ startsOf p us := by
  simp [startsOf]

@[simp] lemma mem_startsOf {x : ℕ} {ts : List (Tile τ)} :
    x ∈ startsOf p ts ↔ ∃ t ∈ ts, p t ∧ t.lo = x := by
  simp [startsOf, and_assoc]

lemma Tiles.pairwise_startsOf {a b : ℕ} {ts : List (Tile τ)} (h : Tiles a ts b) :
    (startsOf p ts).Pairwise (· < ·) :=
  h.pairwise_lo.sublist ((List.filter_sublist).map Tile.lo)

lemma Tiles.nodup_startsOf {a b : ℕ} {ts : List (Tile τ)} (h : Tiles a ts b) :
    (startsOf p ts).Nodup :=
  (h.pairwise_startsOf p).imp (fun h => h.ne)

variable {p}

/-- Cutting the starts of a class at an element cuts the tiles at its tile. -/
lemma startsOf_eq_append_cons {ts : List (Tile τ)} {xs ys : List ℕ} {x : ℕ}
    (h : startsOf p ts = xs ++ x :: ys) :
    ∃ us t vs, ts = us ++ t :: vs ∧ p t ∧ t.lo = x ∧ startsOf p us = xs ∧ startsOf p vs = ys := by
  rw [startsOf, List.map_eq_append_iff] at h
  obtain ⟨l₁, l₂, hf, rfl, h₂⟩ := h
  obtain ⟨t, l₃, rfl, rfl, rfl⟩ := List.map_eq_cons_iff.mp h₂
  obtain ⟨us, ws, rfl, rfl, hw⟩ := List.filter_eq_append_iff.mp hf
  obtain ⟨skipped, vs, rfl, hskip, ht, rfl⟩ := List.filter_eq_cons_iff.mp hw
  refine ⟨us ++ skipped, t, vs, by simp, by simpa using ht, rfl, ?_, rfl⟩
  have : skipped.filter p = [] := List.filter_eq_nil_iff.mpr hskip
  simp [startsOf, this]

lemma Tiles.startsOf_split {a b : ℕ} {us vs : List (Tile τ)} {t : Tile τ}
    (h : Tiles a (us ++ t :: vs) b) :
    (∀ x ∈ startsOf p us, x < t.lo) ∧ (∀ x ∈ startsOf p vs, t.lo < x) := by
  obtain ⟨hu, hpos, hv⟩ := (tiles_middle a b us vs t).mp h
  constructor
  · intro x hx
    obtain ⟨s, hs, -, rfl⟩ := (mem_startsOf p).mp hx
    have h1 := (hu.bounds hs).2
    have h2 := hu.pos hs
    simp only [Tile.hi] at h1
    omega
  · intro x hx
    obtain ⟨s, hs, -, rfl⟩ := (mem_startsOf p).mp hx
    have h1 := (hv.bounds hs).1
    simp only [Tile.hi] at h1
    omega

end Classes

end StyLinux.Lib
