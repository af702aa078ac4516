import Mathlib

/-!
Coins that are spent: the sum of those that are left, and rounds in which coins
are taken out of a set before new ones come in.
-/

namespace Bfx.CoinSpending

open List

section Amounts

variable {κ : Type} [DecidableEq κ]

/-- The amount of the coins whose key is not spent. -/
def unspent (spent : List κ) (coins : List (κ × Nat)) : Nat :=
  (coins.map fun coin => if coin.1 ∈ spent then 0 else coin.2).sum

@[simp] theorem unspent_nil (spent : List κ) : unspent spent ([] : List (κ × Nat)) = 0 := rfl

@[simp] theorem unspent_cons (spent : List κ) (coin : κ × Nat) (coins : List (κ × Nat)) :
    unspent spent (coin :: coins) =
      (if coin.1 ∈ spent then 0 else coin.2) + unspent spent coins := by
  simp [unspent]

@[simp] theorem unspent_append (spent : List κ) (coins coins' : List (κ × Nat)) :
    unspent spent (coins ++ coins') = unspent spent coins + unspent spent coins' := by
  simp [unspent]

theorem unspent_le_sum (spent : List κ) (coins : List (κ × Nat)) :
    unspent spent coins ≤ (coins.map Prod.snd).sum := by
  induction coins with
  | nil => exact Nat.le_refl _
  | cons coin coins ih =>
    rw [unspent_cons, map_cons, sum_cons]
    split
    · omega
    · omega

theorem unspent_spend_le (key : κ) (spent : List κ) (coins : List (κ × Nat)) :
    unspent (key :: spent) coins ≤ unspent spent coins := by
  induction coins with
  | nil => exact Nat.le_refl _
  | cons coin coins ih =>
    rw [unspent_cons, unspent_cons]
    by_cases hspent : coin.1 ∈ spent
    · rw [if_pos hspent, if_pos (mem_cons_of_mem _ hspent)]
      omega
    rw [if_neg hspent]
    split
    · omega
    · omega

theorem unspent_spend_add_le {coins : List (κ × Nat)} (hmem : (key, amount) ∈ coins)
    (hspent : key ∉ spent) : unspent (key :: spent) coins + amount ≤ unspent spent coins := by
  induction coins with
  | nil => cases hmem
  | cons coin coins ih =>
    rw [unspent_cons, unspent_cons]
    rcases mem_cons.mp hmem with rfl | hmem
    · have hle := unspent_spend_le key spent coins
      rw [if_pos mem_cons_self, if_neg hspent]
      dsimp only
      omega
    have hrest := ih hmem
    by_cases hcoin : coin.1 ∈ spent
    · rw [if_pos hcoin, if_pos (mem_cons_of_mem _ hcoin)]
      omega
    rw [if_neg hcoin]
    split
    · omega
    · omega

theorem unspent_spends_add_le {picks : List (κ × Nat)}
    (hpicks : ∀ pick ∈ picks, pick.2 ≠ 0 → pick ∈ coins)
    (hnodup : (picks.map Prod.fst ++ spent).Nodup) :
    unspent (picks.map Prod.fst ++ spent) coins + (picks.map Prod.snd).sum ≤
      unspent spent coins := by
  induction picks with
  | nil => exact Nat.le_refl _
  | cons pick picks ih =>
    rw [map_cons, cons_append, nodup_cons] at hnodup
    have hrest := ih (fun other hother => hpicks other (mem_cons_of_mem _ hother)) hnodup.2
    have hfirst : unspent (pick.1 :: (picks.map Prod.fst ++ spent)) coins + pick.2 ≤
        unspent (picks.map Prod.fst ++ spent) coins := by
      rcases eq_or_ne pick.2 0 with hzero | hpos
      · rw [hzero]
        exact unspent_spend_le _ _ _
      · exact unspent_spend_add_le (hpicks pick mem_cons_self hpos) hnodup.1
    rw [map_cons, cons_append, map_cons, sum_cons]
    omega

end Amounts

section Rounds

variable {γ : Type}

/-- Coins are taken out of a set one after the other. -/
inductive Takes : Set γ → List γ → Set γ → Prop
  | nil {coins : Set γ} : Takes coins [] coins
  | cons {coins coins' : Set γ} {coin : γ} {taken : List γ} (hmem : coin ∈ coins)
      (hrest : Takes (coins \ {coin}) taken coins') : Takes coins (coin :: taken) coins'

theorem Takes.mem (h : Takes coins taken coins') : ∀ coin ∈ taken, coin ∈ coins := by
  induction h with
  | nil => exact nofun
  | cons hmem _ ih =>
    intro coin hcoin
    rcases mem_cons.mp hcoin with rfl | hcoin
    · exact hmem
    · exact (ih coin hcoin).1

theorem Takes.nodup (h : Takes coins taken coins') : taken.Nodup := by
  induction h with
  | nil => exact nodup_nil
  | cons _ hrest ih => exact nodup_cons.mpr ⟨fun hmem => (hrest.mem _ hmem).2 rfl, ih⟩

theorem Takes.left_eq (h : Takes coins taken coins') : coins' = coins \ {coin | coin ∈ taken} := by
  induction h with
  | nil => simp
  | @cons coins coins' coin taken _ _ ih =>
    rw [ih, Set.sdiff_sdiff]
    congr 1
    ext other
    simp

/-- In every round coins are taken and then a batch of new ones comes in. -/
inductive Rounds : Set γ → List (List γ × Set γ) → Set γ → Prop
  | nil {coins : Set γ} : Rounds coins [] coins
  | cons {coins left next final : Set γ} {taken : List γ} {batch : Set γ}
      {rounds : List (List γ × Set γ)} (htakes : Takes coins taken left)
      (hnext : next ⊆ left ∪ batch) (hrest : Rounds next rounds final) :
      Rounds coins ((taken, batch) :: rounds) final

theorem Rounds.mem (h : Rounds coins rounds final) :
    ∀ coin ∈ rounds.flatMap Prod.fst, coin ∈ coins ∨ ∃ round ∈ rounds, coin ∈ round.2 := by
  induction h with
  | nil => exact nofun
  | @cons coins left next final taken batch rounds htakes hnext _ ih =>
    intro coin hcoin
    rcases mem_append.mp hcoin with hcoin | hcoin
    · exact .inl (htakes.mem coin hcoin)
    rcases ih coin hcoin with hmem | ⟨round, hround, hmem⟩
    · rw [htakes.left_eq] at hnext
      rcases hnext hmem with hleft | hbatch
      · exact .inl hleft.1
      · exact .inr ⟨_, mem_cons_self, hbatch⟩
    · exact .inr ⟨round, mem_cons_of_mem _ hround, hmem⟩

theorem Rounds.nodup {rounds : List (List γ × Set γ)} (h : Rounds coins rounds final)
    (hnew : ∀ round ∈ rounds, ∀ coin ∈ coins, coin ∉ round.2)
    (hbatches : rounds.Pairwise fun round round' => ∀ coin ∈ round.2, coin ∉ round'.2) :
    (rounds.flatMap Prod.fst).Nodup := by
  induction h with
  | nil => exact nodup_nil
  | @cons coins left next final taken batch rounds htakes hnext hrest ih =>
    obtain ⟨hfirst, hbatches⟩ := pairwise_cons.mp hbatches
    obtain ⟨hbatch, hnew⟩ := forall_mem_cons.mp hnew
    rw [htakes.left_eq] at hnext
    have hlater : ∀ round ∈ rounds, ∀ coin ∈ next, coin ∉ round.2 := by
      intro round hround coin hcoin
      rcases hnext hcoin with hleft | hin
      · exact hnew round hround coin hleft.1
      · exact hfirst round hround coin hin
    rw [flatMap_cons]
    refine List.Nodup.append htakes.nodup (ih hlater hbatches) fun coin hcoin hagain => ?_
    have hcoins := htakes.mem coin hcoin
    rcases hrest.mem coin hagain with hmem | ⟨round, hround, hmem⟩
    · rcases hnext hmem with hleft | hin
      · exact hleft.2 hcoin
      · exact hbatch coin hcoins hin
    · exact hnew round hround coin hcoins hmem

end Rounds

end Bfx.CoinSpending
