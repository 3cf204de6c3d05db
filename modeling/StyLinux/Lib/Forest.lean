import Mathlib.Tactic

/-!
# Ordered forests

Finite forests whose nodes carry labels. A node is named by the labels on the way to it, which is
unambiguous if siblings have different labels. In preorder a node comes immediately before its
descendants.
-/

namespace StyLinux.Lib

variable {α : Type*}

/-- A first tree with the root `a`, the forest `below` it and the `rest` of the forest. -/
inductive Forest (α : Type*)
  | nil
  | node (a : α) (below rest : Forest α)

namespace Forest

def roots : Forest α → List α
  | nil => []
  | node a _ rest => a :: rest.roots

def depth : Forest α → ℕ
  | nil => 0
  | node _ below rest => max (below.depth + 1) rest.depth

/-- Siblings have different labels. -/
def Distinct : Forest α → Prop
  | nil => True
  | node a below rest => a ∉ rest.roots ∧ below.Distinct ∧ rest.Distinct

/-- There is a node with these labels on the way to it. -/
inductive Has : Forest α → List α → Prop
  | root (a : α) (below rest : Forest α) : Has (node a below rest) [a]
  | descend {a : α} {below rest : Forest α} {p : List α} (h : Has below p) :
      Has (node a below rest) (a :: p)
  | skip {a : α} {below rest : Forest α} {p : List α} (h : Has rest p) :
      Has (node a below rest) p

/-- The nodes are listed once each, immediately before their descendants. -/
structure IsPreorder (f : Forest α) (order : List (List α)) : Prop where
  nodup : order.Nodup
  mem_iff : ∀ p, p ∈ order ↔ f.Has p
  descendants : ∀ p ∈ order, ∃ before below after, order = before ++ p :: (below ++ after) ∧
    ∀ q, q ∈ below ↔ f.Has q ∧ p <+: q ∧ q ≠ p

def preorder : Forest α → List (List α)
  | nil => []
  | node a below rest => [a] :: (below.preorder.map (List.cons a) ++ rest.preorder)

variable {f below rest : Forest α} {a : α} {p q : List α}

lemma Has.ne_nil (h : f.Has p) : p ≠ [] := by
  induction h with
  | root => simp
  | descend => simp
  | skip _ ih => exact ih

/-- The first label is the one of a root. -/
lemma Has.mem_roots (h : f.Has (a :: p)) : a ∈ f.roots := by
  generalize hq : a :: p = q at h
  induction h with
  | root b below rest =>
    cases hq
    simp [roots]
  | descend _ _ =>
    cases hq
    simp [roots]
  | skip _ ih => exact List.mem_cons_of_mem _ (ih hq)

lemma has_node_iff : (node a below rest).Has p ↔
    p = [a] ∨ (∃ q, below.Has q ∧ p = a :: q) ∨ rest.Has p := by
  constructor
  · intro h
    cases h with
    | root => exact .inl rfl
    | descend h => exact .inr (.inl ⟨_, h, rfl⟩)
    | skip h => exact .inr (.inr h)
  · rintro (rfl | ⟨q, h, rfl⟩ | h)
    · exact .root a below rest
    · exact .descend h
    · exact .skip h

lemma mem_preorder_iff : p ∈ f.preorder ↔ f.Has p := by
  induction f generalizing p with
  | nil =>
    constructor
    · simp [preorder]
    · intro h
      cases h
  | node a below rest ihbelow ihrest =>
    rw [has_node_iff, preorder, List.mem_cons, List.mem_append, ihrest, List.mem_map]
    simp only [ihbelow, eq_comm]

lemma nodup_roots (hf : f.Distinct) : f.roots.Nodup := by
  induction f with
  | nil => exact List.nodup_nil
  | node a below rest _ ihrest => exact List.nodup_cons.mpr ⟨hf.1, ihrest hf.2.2⟩

/-- The nodes below a root and the other nodes differ in their first label. -/
lemma disjoint_rest (ha : a ∉ rest.roots) (hq : rest.Has q) : ¬∃ p, q = a :: p := by
  rintro ⟨p, rfl⟩
  exact ha hq.mem_roots

lemma nodup_preorder (hf : f.Distinct) : f.preorder.Nodup := by
  induction f with
  | nil => exact List.nodup_nil
  | node a below rest ihbelow ihrest =>
    obtain ⟨ha, hbelow, hrest⟩ := hf
    rw [preorder, List.nodup_cons, List.nodup_append']
    refine ⟨?_, (ihbelow hbelow).map (List.cons_injective), ihrest hrest, ?_⟩
    · intro hmem
      rcases List.mem_append.mp hmem with hmem | hmem
      · obtain ⟨p, hp, heq⟩ := List.mem_map.mp hmem
        cases heq
        exact (mem_preorder_iff.mp hp).ne_nil rfl
      · exact disjoint_rest ha (mem_preorder_iff.mp hmem) ⟨[], rfl⟩
    · intro q hq hq'
      obtain ⟨p, -, rfl⟩ := List.mem_map.mp hq
      exact disjoint_rest ha (mem_preorder_iff.mp hq') ⟨p, rfl⟩

/-- A node whose label list begins with `a` is at or below the root `a`. -/
lemma Has.of_cons (ha : a ∉ rest.roots) (h : (node a below rest).Has (a :: p)) :
    p = [] ∨ below.Has p := by
  rcases has_node_iff.mp h with heq | ⟨q, hq, heq⟩ | hrest
  · cases heq
    exact .inl rfl
  · cases heq
    exact .inr hq
  · exact absurd hrest.mem_roots ha

/-- The preorder lists the descendants of a node immediately behind it. -/
lemma exists_descendants (hf : f.Distinct) (hp : f.Has p) :
    ∃ before below after, f.preorder = before ++ p :: (below ++ after) ∧
      ∀ q, q ∈ below ↔ f.Has q ∧ p <+: q ∧ q ≠ p := by
  induction hp with
  | root a below rest =>
    refine ⟨[], below.preorder.map (List.cons a), rest.preorder, rfl, ?_⟩
    intro q
    constructor
    · intro hq
      obtain ⟨t, ht, rfl⟩ := List.mem_map.mp hq
      have ht := mem_preorder_iff.mp ht
      exact ⟨.descend ht, List.prefix_append [a] t, by simpa using ht.ne_nil⟩
    · rintro ⟨hhas, ⟨t, rfl⟩, hne⟩
      rcases hhas.of_cons hf.1 with rfl | ht
      · exact absurd rfl hne
      · exact List.mem_map_of_mem (mem_preorder_iff.mpr ht)
  | @descend a below rest p hp ih =>
    obtain ⟨before, inner, after, hpreorder, hinner⟩ := ih hf.2.1
    refine ⟨[a] :: before.map (List.cons a), inner.map (List.cons a),
      after.map (List.cons a) ++ rest.preorder, ?_, ?_⟩
    · simp [preorder, hpreorder]
    · intro q
      constructor
      · intro hq
        obtain ⟨t, ht, rfl⟩ := List.mem_map.mp hq
        obtain ⟨hhas, hbegins, hne⟩ := (hinner t).mp ht
        exact ⟨.descend hhas, List.cons_prefix_cons.mpr ⟨rfl, hbegins⟩, by simpa using hne⟩
      · rintro ⟨hhas, ⟨t, rfl⟩, hne⟩
        rcases hhas.of_cons hf.1 with hnil | ht
        · exact absurd (List.append_eq_nil_iff.mp hnil).1 hp.ne_nil
        · refine List.mem_map_of_mem ((hinner (p ++ t)).mpr ⟨ht, List.prefix_append p t, ?_⟩)
          simpa using hne
  | @skip a below rest p hp ih =>
    obtain ⟨before, inner, after, hpreorder, hinner⟩ := ih hf.2.2
    refine ⟨[a] :: (below.preorder.map (List.cons a) ++ before), inner, after, ?_, ?_⟩
    · simp [preorder, hpreorder]
    · intro q
      rw [hinner q]
      constructor
      · exact fun ⟨hhas, hbegins, hne⟩ => ⟨.skip hhas, hbegins, hne⟩
      · rintro ⟨hhas, hbegins, hne⟩
        refine ⟨?_, hbegins, hne⟩
        obtain ⟨b, t, rfl⟩ := List.exists_cons_of_ne_nil hp.ne_nil
        -- A node with the prefix `b :: t` lies at or below a root of `rest`.
        have hb : b ≠ a := fun heq => hf.1 (heq ▸ hp.mem_roots)
        obtain ⟨u, rfl⟩ := hbegins
        rcases has_node_iff.mp hhas with heq | ⟨v, -, heq⟩ | hrest
        · exact absurd (List.cons.inj heq).1 hb
        · exact absurd (List.cons.inj heq).1 hb
        · exact hrest

theorem isPreorder_preorder (hf : f.Distinct) : f.IsPreorder f.preorder where
  nodup := nodup_preorder hf
  mem_iff _ := mem_preorder_iff
  descendants _ hp := exists_descendants hf (mem_preorder_iff.mp hp)

end Forest

end StyLinux.Lib
