import Mathlib

/-!
Lists whose members depend on each other: acyclic dependencies, a rank that drops
along them, and orders in which every member stands behind those it depends on.
-/

namespace Bfx.DependencyOrder

variable {α : Type} (r : α → α → Prop)

/-- A dependency between members of a list. -/
def Within (l : List α) (a b : α) : Prop := a ∈ l ∧ b ∈ l ∧ r a b

def Acyclic (l : List α) : Prop := ∀ a, ¬ Relation.TransGen (Within r l) a a

/-- Every member stands behind those that it depends on. -/
def DependenciesFirst (l : List α) : Prop :=
  ∀ (i j : Nat) (a b : α), l[i]? = some a → l[j]? = some b → r a b → j < i

variable {r} {l : List α} {a b : α}

theorem Acyclic.mono (h : Acyclic r l) (hsubset : l' ⊆ l) : Acyclic r l' := by
  intro a hcycle
  refine h a (Relation.TransGen.mono ?_ _ _ hcycle)
  rintro x y ⟨hx, hy, hxy⟩
  exact ⟨hsubset hx, hsubset hy, hxy⟩

theorem acyclic_of_lt {f : α → Nat} (h : ∀ a ∈ l, ∀ b ∈ l, r a b → f b < f a) : Acyclic r l := by
  have hdrops : ∀ a b, Relation.TransGen (Within r l) a b → f b < f a := by
    intro a b hpath
    induction hpath with
    | single hab => exact h _ hab.1 _ hab.2.1 hab.2.2
    | tail _ hbc ih => exact Nat.lt_trans (h _ hbc.1 _ hbc.2.1 hbc.2.2) ih
  exact fun a hcycle => Nat.lt_irrefl _ (hdrops a a hcycle)

theorem acyclic_of_pairwise (h : l.Pairwise fun a b => ¬ r a b) (hself : ∀ a ∈ l, ¬ r a a) :
    Acyclic r l := by
  classical
  refine acyclic_of_lt (f := fun a => l.idxOf a) fun a ha b hb hab => ?_
  have ha' := List.idxOf_lt_length_of_mem ha
  have hb' := List.idxOf_lt_length_of_mem hb
  rcases Nat.lt_trichotomy (l.idxOf b) (l.idxOf a) with hlt | heq | hlt
  · exact hlt
  · exact absurd hab ((List.idxOf_inj hb).mp heq ▸ hself a ha)
  have hpair := List.pairwise_iff_getElem.mp h _ _ ha' hb' hlt
  rw [List.getElem_idxOf, List.getElem_idxOf] at hpair
  exact absurd hab hpair

theorem Acyclic.irrefl (h : Acyclic r l) (ha : a ∈ l) : ¬ r a a :=
  fun hself => h a (.single ⟨ha, ha, hself⟩)

theorem dependenciesFirst_nil : DependenciesFirst r ([] : List α) := by
  intro i j a b hi
  rw [List.getElem?_nil] at hi
  cases hi

theorem DependenciesFirst.cons (h : DependenciesFirst r l) (ha : ¬ r a a)
    (hl : ∀ b ∈ l, ¬ r a b) : DependenciesFirst r (a :: l) := by
  intro i j x y hi hj hxy
  cases i with
  | zero =>
    rw [List.getElem?_cons_zero] at hi
    cases hi
    cases j with
    | zero =>
      rw [List.getElem?_cons_zero] at hj
      cases hj
      exact absurd hxy ha
    | succ j =>
      rw [List.getElem?_cons_succ] at hj
      exact absurd hxy (hl y (List.mem_of_getElem? hj))
  | succ i =>
    cases j with
    | zero => exact Nat.zero_lt_succ i
    | succ j =>
      rw [List.getElem?_cons_succ] at hi hj
      exact Nat.succ_lt_succ (h i j x y hi hj hxy)

section Rank

variable [DecidableEq α]

open Classical in
/-- How many members a member depends on, directly or through others. -/
noncomputable def rank (r : α → α → Prop) (l : List α) (a : α) : Nat :=
  (l.toFinset.filter fun b => Relation.TransGen (Within r l) a b).card

theorem rank_perm (h : l.Perm l') (a : α) : rank r l a = rank r l' a := by
  have hwithin : Within r l = Within r l' := by
    funext x y
    rw [Within, Within, h.mem_iff, h.mem_iff]
  rw [rank, rank, hwithin, List.toFinset_eq_of_perm l l' h]

open Classical in
theorem rank_lt_of_within (hacyclic : Acyclic r l) (h : Within r l a b) :
    rank r l b < rank r l a := by
  apply Finset.card_lt_card
  rw [Finset.ssubset_iff_of_subset]
  · refine ⟨b, ?_, fun hb => ?_⟩
    · exact Finset.mem_filter.mpr ⟨List.mem_toFinset.mpr h.2.1, .single h⟩
    · exact hacyclic b (Finset.mem_filter.mp hb).2
  intro x hx
  obtain ⟨hmem, hbx⟩ := Finset.mem_filter.mp hx
  exact Finset.mem_filter.mpr ⟨hmem, .head h hbx⟩

open Classical in
theorem rank_lt_length (hacyclic : Acyclic r l) (ha : a ∈ l) : rank r l a < l.length := by
  refine Nat.lt_of_lt_of_le (Finset.card_lt_card ?_) l.toFinset_card_le
  rw [Finset.ssubset_iff_of_subset (Finset.filter_subset _ _)]
  exact ⟨a, List.mem_toFinset.mpr ha, fun hself => hacyclic a (Finset.mem_filter.mp hself).2⟩

end Rank

end Bfx.DependencyOrder
