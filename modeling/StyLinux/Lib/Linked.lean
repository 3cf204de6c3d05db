import StyLinux.Lib.Chain
import StyLinux.Lib.Descriptors
import StyLinux.Lib.Fuel

/-!
# Linked lists in an allocated memory

A memory holds nodes, each with a pointer to the next one. Nodes are allocated and freed, and only
an allocated node may be accessed. An address is a number and the null pointer is `none`.
-/

namespace StyLinux.Lib

universe u

/-- What keeps a program from going on: it follows a null pointer or a pointer to a node that is
not allocated, or it follows more pointers than there are nodes, and so runs in a circle. -/
inductive PointerFault
  | null
  | dangling
  | circle
  deriving DecidableEq, Repr

structure Node (D : Type*) where
  data : D
  next : Option ℕ
  deriving DecidableEq, Repr

/-- An allocator with the state `σ`. It fails or gives an address that is not allocated. -/
structure Allocator (σ : Type*) where
  malloc : σ → Finset ℕ → Option ℕ × σ
  fresh : ∀ os allocated a os', malloc os allocated = (some a, os') → a ∉ allocated

def Allocator.Succeeds {σ : Type*} (A : Allocator σ) : Prop :=
  ∀ os allocated, (A.malloc os allocated).1 ≠ none

/-- The allocator that gives the lowest free address. -/
def lowestFirst : Allocator Unit where
  malloc _ allocated := (some (lowestFree allocated), ())
  fresh _ allocated _ _ h := by
    cases h
    exact lowestFree_notMem allocated

lemma lowestFirst_succeeds : lowestFirst.Succeeds := fun _ _ => Option.some_ne_none _

structure Memory (σ D : Type u) where
  allocated : Finset ℕ
  node : ℕ → Node D
  os : σ

namespace Memory

variable {σ D : Type u} (mem : Memory σ D)

/-- The node that a pointer points to. -/
def load : Option ℕ → Except PointerFault (Node D)
  | none => .error .null
  | some a => if a ∈ mem.allocated then .ok (mem.node a) else .error .dangling

/-- `malloc` and the initialisation of the node, if there is one. -/
def malloc (A : Allocator σ) (init : Node D) : Option ℕ × Memory σ D :=
  match A.malloc mem.os mem.allocated with
  | (none, os) => (none, { mem with os })
  | (some a, os) => (some a, {
      allocated := insert a mem.allocated
      node := Function.update mem.node a init
      os })

def setNext (a : ℕ) (next : Option ℕ) : Except PointerFault (Memory σ D) := do
  let node ← mem.load (some a)
  .ok { mem with node := Function.update mem.node a { node with next } }

def free (a : ℕ) : Memory σ D := { mem with allocated := mem.allocated.erase a }

def next (a : ℕ) : Option ℕ := (mem.node a).next

/-- From the pointer `p` the list runs through the given nodes, which are allocated and hold the
given items. -/
structure Holds (p : Option ℕ) (nodes : List ℕ) (items : List D) : Prop where
  chain : Chain mem.next id p nodes
  allocated : ∀ a ∈ nodes, a ∈ mem.allocated
  items_eq : nodes.map (fun a => (mem.node a).data) = items

/-- Following the next pointers from `p` leads to the node `a`. -/
inductive Reaches (a : ℕ) : Option ℕ → Prop
  | here : Reaches a (some a)
  | there {b : ℕ} (h : Reaches a (mem.next b)) : Reaches a (some b)

variable {mem} {mem' : Memory σ D} {p : Option ℕ} {a b : ℕ} {nodes : List ℕ} {items : List D}
  {item : D}

lemma load_of_mem (ha : a ∈ mem.allocated) : mem.load (some a) = .ok (mem.node a) := if_pos ha

lemma setNext_of_mem (ha : a ∈ mem.allocated) (next : Option ℕ) : mem.setNext a next =
    .ok { mem with node := Function.update mem.node a { mem.node a with next } } := by
  rw [setNext, load_of_mem ha, ok_bind]

lemma holds_nil : mem.Holds none [] [] := ⟨rfl, by simp, rfl⟩

lemma holds_cons : mem.Holds p (a :: nodes) (item :: items) ↔
    p = some a ∧ a ∈ mem.allocated ∧ (mem.node a).data = item ∧
      mem.Holds (mem.next a) nodes items := by
  constructor
  · rintro ⟨⟨hp, hchain⟩, hallocated, hitems⟩
    obtain ⟨hitem, hitems⟩ := List.cons.inj hitems
    exact ⟨hp, hallocated a (by simp), hitem, hchain,
      fun b hb => hallocated b (by simp [hb]), hitems⟩
  · rintro ⟨rfl, ha, rfl, hchain, hallocated, rfl⟩
    refine ⟨⟨rfl, hchain⟩, ?_, rfl⟩
    intro b hb
    rcases List.mem_cons.mp hb with rfl | hb
    · exact ha
    · exact hallocated b hb

namespace Holds

lemma exists_cons (h : mem.Holds p (a :: nodes) items) : ∃ item rest, items = item :: rest ∧
    p = some a ∧ a ∈ mem.allocated ∧ (mem.node a).data = item ∧
      mem.Holds (mem.next a) nodes rest := by
  obtain rfl := h.items_eq
  exact ⟨_, _, rfl, holds_cons.mp h⟩

lemma length_eq (h : mem.Holds p nodes items) : nodes.length = items.length := by
  rw [← h.items_eq, List.length_map]

lemma eq_nil (h : mem.Holds p [] items) : items = [] := h.items_eq.symm

lemma eq_head? (h : mem.Holds p nodes items) : p = nodes.head? := h.chain.get_eq_head?

lemma eq_none_iff (h : mem.Holds p nodes items) : p = none ↔ items = [] := by
  rw [h.eq_head?, List.head?_eq_none_iff, ← List.length_eq_zero_iff, h.length_eq,
    List.length_eq_zero_iff]

lemma exists_eq_some (h : mem.Holds p (nodes ++ [a]) items) : ∃ head, p = some head := by
  rw [h.eq_head?]
  cases nodes <;> simp

/-- A list has no more nodes than are allocated. -/
lemma length_le (h : mem.Holds p nodes items) : nodes.length ≤ mem.allocated.card := by
  rw [← List.toFinset_card_of_nodup h.chain.nodup]
  refine Finset.card_le_card ?_
  intro a ha
  exact h.allocated a (List.mem_toFinset.mp ha)

lemma unique {nodes' : List ℕ} {items' : List D} (h : mem.Holds p nodes items)
    (h' : mem.Holds p nodes' items') : nodes = nodes' ∧ items = items' := by
  obtain rfl := h.chain.unique h'.chain
  exact ⟨rfl, h.items_eq.symm.trans h'.items_eq⟩

/-- What happens to other nodes does not matter. -/
lemma frame (h : mem.Holds p nodes items)
    (hsame : ∀ a ∈ nodes, a ∈ mem'.allocated ∧ mem'.node a = mem.node a) :
    mem'.Holds p nodes items := by
  refine ⟨h.chain.congr_next ?_, fun a ha => (hsame a ha).1, ?_⟩
  · intro a ha
    rw [next, next, (hsame a ha).2]
  · rw [← h.items_eq]
    refine List.map_congr_left ?_
    intro a ha
    rw [(hsame a ha).2]

/-- A list of one node. -/
lemma singleton (ha : a ∈ mem.allocated) (hnode : mem.node a = ⟨item, none⟩) :
    mem.Holds (some a) [a] [item] := by
  refine holds_cons.mpr ⟨rfl, ha, by rw [hnode], ?_⟩
  rw [next, hnode]
  exact holds_nil

lemma removeFirst (h : mem.Holds p (a :: nodes) (item :: items)) :
    (mem.free a).Holds (mem.next a) nodes items := by
  obtain ⟨-, -, -, hrest⟩ := holds_cons.mp h
  have ha : a ∉ nodes := (List.nodup_cons.mp h.chain.nodup).1
  refine hrest.frame ?_
  intro b hb
  have hne : b ≠ a := fun heq => ha (heq ▸ hb)
  exact ⟨Finset.mem_erase.mpr ⟨hne, hrest.allocated b hb⟩, rfl⟩

/-- A node that is not in the list is linked to its last node. -/
lemma append (h : mem.Holds p (nodes ++ [a]) items) (hb : b ∈ mem.allocated)
    (hnode : mem.node b = ⟨item, none⟩) (hnot : b ∉ nodes ++ [a]) :
    ({ mem with node := Function.update mem.node a { mem.node a with next := some b } } :
      Memory σ D).Holds p (nodes ++ [a, b]) (items ++ [item]) := by
  have hba : b ≠ a := by
    rintro rfl
    simp at hnot
  induction nodes generalizing p items with
  | nil =>
    obtain ⟨first, rest, rfl, hp, ha, hfirst, hrest⟩ := h.exists_cons
    obtain rfl := hrest.eq_nil
    refine holds_cons.mpr ⟨hp, ha, by simpa using hfirst, ?_⟩
    simp only [next, Function.update_self]
    refine singleton hb ?_
    simpa [hba] using hnode
  | cons c nodes ih =>
    have hca : c ≠ a := by
      rintro rfl
      simpa using (List.nodup_cons.mp h.chain.nodup).1
    obtain ⟨first, rest, rfl, hp, hc, hfirst, hrest⟩ := h.exists_cons
    refine holds_cons.mpr ⟨hp, hc, by simpa [hca] using hfirst, ?_⟩
    simp only [next, Function.update_of_ne hca]
    exact ih hrest fun hmem => hnot (List.mem_cons_of_mem c hmem)

/-- The last node has no next one. -/
lemma next_last (h : mem.Holds p (nodes ++ [a]) items) : mem.next a = none := by
  have hend := ((chain_append _ _ _).mp h.chain).2
  simpa using hend.2

/-- The nodes of the list are those that can be reached. -/
lemma reaches_iff (h : mem.Holds p nodes items) : mem.Reaches a p ↔ a ∈ nodes := by
  constructor
  · intro hreaches
    induction hreaches generalizing nodes items with
    | here =>
      cases nodes with
      | nil => exact absurd h.chain (by simp)
      | cons b nodes =>
        obtain rfl : a = b := by simpa using h.chain.1
        simp
    | @there b _ ih =>
      cases nodes with
      | nil => exact absurd h.chain (by simp)
      | cons c nodes =>
        obtain rfl : b = c := by simpa using h.chain.1
        obtain ⟨item, rest, -, -, -, -, hrest⟩ := h.exists_cons
        exact List.mem_cons_of_mem b (ih hrest)
  · intro hmem
    induction nodes generalizing p items with
    | nil => simp at hmem
    | cons b nodes ih =>
      obtain ⟨item, rest, -, rfl, -, -, hrest⟩ := h.exists_cons
      rcases List.mem_cons.mp hmem with rfl | hmem
      · exact .here
      · exact .there (ih hrest hmem)

end Holds

lemma malloc_of_none {A : Allocator σ} (h : (A.malloc mem.os mem.allocated).1 = none)
    (init : Node D) : ∃ os, mem.malloc A init = (none, { mem with os }) := by
  unfold malloc
  cases hmalloc : A.malloc mem.os mem.allocated with
  | mk newNode os =>
    obtain rfl : newNode = none := by simpa [hmalloc] using h
    exact ⟨os, rfl⟩

/-- A new node is apart from all the others. -/
lemma malloc_of_some {A : Allocator σ} (h : (A.malloc mem.os mem.allocated).1 = some b)
    (init : Node D) : b ∉ mem.allocated ∧ ∃ os, mem.malloc A init = (some b, {
      allocated := insert b mem.allocated
      node := Function.update mem.node b init
      os }) := by
  unfold malloc
  cases hmalloc : A.malloc mem.os mem.allocated with
  | mk newNode os =>
    obtain rfl : newNode = some b := by simpa [hmalloc] using h
    exact ⟨A.fresh _ _ _ _ hmalloc, os, rfl⟩

/-- A list stays as it is when a node is allocated, which is none of its nodes. -/
lemma Holds.exists_malloc {A : Allocator σ} (h : mem.Holds p nodes items)
    (hb : (A.malloc mem.os mem.allocated).1 = some b) (init : Node D) :
    ∃ mem', mem.malloc A init = (some b, mem') ∧ mem'.Holds p nodes items ∧ b ∉ nodes ∧
      b ∈ mem'.allocated ∧ mem'.node b = init := by
  obtain ⟨hfresh, os, hmalloc⟩ := malloc_of_some hb init
  have hnot : b ∉ nodes := fun hmem => hfresh (h.allocated b hmem)
  refine ⟨_, hmalloc, h.frame fun a ha => ?_, hnot, Finset.mem_insert_self _ _,
    Function.update_self _ _ _⟩
  have hne : a ≠ b := ne_of_mem_of_not_mem ha hnot
  exact ⟨Finset.mem_insert_of_mem (h.allocated a ha), Function.update_of_ne hne _ _⟩

end Memory

end StyLinux.Lib
