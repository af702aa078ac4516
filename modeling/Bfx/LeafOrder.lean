import Bfx.DependencyOrder
import Bfx.TokenSymbols

/-!
The order in which `WriteBFXTBlockTransactionsToDisk` takes the transactions of a
block: `PopLeafTransaction` returns one that spends none of those left.
-/

namespace Bfx.LeafOrder

open ChainIndex DependencyOrder List MintingBound TokenSymbols Transaction

section Loop

variable (env : ChainEnv)

def SpendsFrom (tx parent : CTransaction) : Prop :=
  tx.vin.any (·.prevout.hash == env.getHash parent) = true

/-- The loop of `PopLeafTransaction`, from a position on, with the transaction that has
been taken out of the list: what it returns and what it leaves. -/
inductive Scans : Nat → CTransaction → List CTransaction → CTransaction → List CTransaction → Prop
  | exit {i : Nat} {result : CTransaction} {vtx : List CTransaction} (hexit : vtx.length ≤ i) :
      Scans i result vtx result vtx
  | next {i : Nat} {result tx leaf : CTransaction} {vtx rest : List CTransaction}
      (htx : vtx[i]? = some tx) (hspends : ¬ SpendsFrom env result tx)
      (hscans : Scans (i + 1) result vtx leaf rest) : Scans i result vtx leaf rest
  -- the two are swapped, and the loop starts again
  | swap {i : Nat} {result tx leaf : CTransaction} {vtx rest : List CTransaction}
      (htx : vtx[i]? = some tx) (hspends : SpendsFrom env result tx)
      (hscans : Scans 0 tx (vtx.set i result) leaf rest) : Scans i result vtx leaf rest

/-- `PopLeafTransaction` is called until the list is empty. -/
inductive PopsTo : List CTransaction → List CTransaction → Prop
  | empty : PopsTo [] []
  | pop {vtx rest order : List CTransaction} {result leaf : CTransaction}
      (hscans : Scans env 0 result vtx leaf rest) (hrest : PopsTo rest order) :
      PopsTo (vtx ++ [result]) (leaf :: order)

def popLeaves : Nat → List CTransaction → List CTransaction
  | 0, _ => []
  | left + 1, transactions =>
    match popLeafTransaction env transactions with
    | none => []
    | some (tx, transactions) => tx :: popLeaves left transactions

end Loop

variable {env : ChainEnv} {vtx order : List CTransaction}

theorem Scans.ofStart (hscans : Scans env j result vtx leaf rest) (hj : j ≤ vtx.length)
    (hpassed : ∀ k tx, k < j → vtx[k]? = some tx → ¬ SpendsFrom env result tx) :
    Scans env 0 result vtx leaf rest := by
  induction j with
  | zero => exact hscans
  | succ j ih =>
    have hat : vtx[j]? = some vtx[j] := List.getElem?_eq_getElem hj
    refine ih (.next hat (hpassed j _ (Nat.lt_succ_self j) hat) hscans) (Nat.le_of_succ_le hj) ?_
    exact fun k tx hk => hpassed k tx (Nat.lt_succ_of_lt hk)

/-- With dependencies that are acyclic, there are fewer swaps than transactions: every
swap takes out one of smaller rank. -/
theorem scans_swapToLeaf (hacyclic : Acyclic (SpendsFrom env) (result :: vtx))
    (hswaps : rank (SpendsFrom env) (result :: vtx) result < swaps) :
    Scans env 0 result vtx (swapToLeaf env swaps result vtx).1
      (swapToLeaf env swaps result vtx).2 := by
  induction swaps generalizing result vtx with
  | zero => exact absurd hswaps (Nat.not_lt_zero _)
  | succ swaps ih =>
    rw [swapToLeaf]
    cases hfind : vtx.findIdx? fun tx => result.vin.any (·.prevout.hash == env.getHash tx) with
    | none =>
      refine Scans.ofStart (.exit (Nat.le_refl _)) (Nat.le_refl _) fun k tx _ htx => ?_
      exact Bool.eq_false_iff.mp (List.findIdx?_eq_none_iff.mp hfind tx (mem_of_getElem? htx))
    | some i =>
      obtain ⟨hlt, hparent, hpassed⟩ := List.findIdx?_eq_some_iff_getElem.mp hfind
      have hat : vtx[i]? = some vtx[i] := List.getElem?_eq_getElem hlt
      have hperm : (vtx[i] :: vtx.set i result).Perm (result :: vtx) :=
        perm_set hlt result
      dsimp only
      rw [hat]
      refine Scans.ofStart (.swap hat hparent (ih ?_ ?_)) (Nat.le_of_lt hlt) ?_
      · exact hacyclic.mono hperm.subset
      · rw [rank_perm hperm]
        have hwithin : Within (SpendsFrom env) (result :: vtx) result vtx[i] :=
          ⟨mem_cons_self, mem_cons_of_mem _ (getElem_mem hlt), hparent⟩
        have := rank_lt_of_within hacyclic hwithin
        omega
      intro k tx hk htx
      obtain ⟨hk', rfl⟩ := List.getElem?_eq_some_iff.mp htx
      exact hpassed k hk

theorem Scans.leaf_spends (h : Scans env i result vtx leaf rest)
    (hpassed : ∀ k tx, k < i → vtx[k]? = some tx → ¬ SpendsFrom env result tx) :
    ∀ tx ∈ rest, ¬ SpendsFrom env leaf tx := by
  induction h with
  | exit hexit =>
    intro tx htx
    obtain ⟨k, hk, rfl⟩ := mem_iff_getElem.mp htx
    exact hpassed k _ (by omega) (List.getElem?_eq_getElem hk)
  | next htx hspends _ ih =>
    apply ih
    intro k tx' hk htx'
    rcases Nat.lt_succ_iff_lt_or_eq.mp hk with hk | rfl
    · exact hpassed k tx' hk htx'
    · obtain rfl := Option.mem_unique htx htx'
      exact hspends
  | swap _ _ _ ih => exact ih fun k _ hk => absurd hk (Nat.not_lt_zero k)

theorem Scans.perm (h : Scans env i result vtx leaf rest) : (leaf :: rest).Perm (result :: vtx) := by
  induction h with
  | exit => exact .refl _
  | next _ _ _ ih => exact ih
  | swap htx _ _ ih =>
    obtain ⟨hlt, rfl⟩ := List.getElem?_eq_some_iff.mp htx
    exact ih.trans (perm_set hlt _)

theorem PopsTo.perm (h : PopsTo env vtx order) : order.Perm vtx := by
  induction h with
  | empty => exact .refl _
  | pop hscans _ ih =>
    exact ((ih.cons _).trans hscans.perm).trans (perm_append_singleton _ _).symm

theorem PopsTo.dependenciesFirst (h : PopsTo env vtx order)
    (hacyclic : Acyclic (SpendsFrom env) vtx) : DependenciesFirst (SpendsFrom env) order := by
  induction h with
  | empty => exact dependenciesFirst_nil
  | @pop front rest order result leaf hscans hrest ih =>
    have hperm : (leaf :: rest).Perm (front ++ [result]) :=
      hscans.perm.trans (perm_append_singleton _ _).symm
    have hleaf := hscans.leaf_spends fun k _ hk => absurd hk (Nat.not_lt_zero k)
    refine (ih (hacyclic.mono fun tx htx => ?_)).cons ?_ fun tx htx => ?_
    · exact hperm.subset (mem_cons_of_mem _ htx)
    · exact hacyclic.irrefl (hperm.subset mem_cons_self)
    · exact hleaf tx (hrest.perm.subset htx)

theorem popsTo_popLeaves (hacyclic : Acyclic (SpendsFrom env) vtx) (hleft : vtx.length ≤ left) :
    PopsTo env vtx (popLeaves env left vtx) := by
  induction left generalizing vtx with
  | zero =>
    obtain rfl := eq_nil_of_length_eq_zero (Nat.le_zero.mp hleft)
    exact .empty
  | succ left ih =>
    rcases eq_nil_or_concat vtx with rfl | ⟨front, result, rfl⟩
    · exact .empty
    rw [concat_eq_append] at hacyclic hleft ⊢
    have hperm : (result :: front).Perm (front ++ [result]) :=
      (perm_append_singleton _ _).symm
    have hpop : popLeafTransaction env (front ++ [result]) =
        some (swapToLeaf env (front ++ [result]).length result front) := by
      rw [popLeafTransaction, List.getLast?_concat, dropLast_concat, Option.map_some]
    have hscans := scans_swapToLeaf (hacyclic.mono hperm.subset)
      ((rank_lt_length (hacyclic.mono hperm.subset) mem_cons_self).trans_eq hperm.length_eq)
    rw [popLeaves, hpop]
    refine .pop hscans (ih (hacyclic.mono fun tx htx => ?_) ?_)
    · exact hperm.subset (hscans.perm.subset (mem_cons_of_mem _ htx))
    have hlength := hscans.perm.length_eq
    rw [length_cons, length_cons] at hlength
    rw [length_append, length_singleton] at hleft
    omega

/-- Transactions that do not spend each other in a circle are taken one after the other
until none is left, each behind those that it spends from. -/
theorem popLeafTransaction_order (hacyclic : Acyclic (SpendsFrom env) vtx) :
    (∃ order, PopsTo env vtx order) ∧
      ∀ order, PopsTo env vtx order →
        order.Perm vtx ∧ DependenciesFirst (SpendsFrom env) order :=
  ⟨⟨_, popsTo_popLeaves hacyclic (Nat.le_refl _)⟩,
    fun _ horder => ⟨horder.perm, horder.dependenciesFirst hacyclic⟩⟩

def diamond : List CTransaction :=
  [⟨2, [⟨⟨1, 0⟩, []⟩], [], 0⟩, ⟨1, [⟨⟨0, 0⟩, []⟩], [], 0⟩, ⟨3, [⟨⟨1, 1⟩, []⟩], [], 0⟩,
    ⟨4, [⟨⟨2, 0⟩, []⟩, ⟨⟨3, 0⟩, []⟩], [], 0⟩]

instance : DecidableRel (SpendsFrom env) :=
  fun tx parent => inferInstanceAs (Decidable (tx.vin.any (·.prevout.hash == env.getHash parent) = true))

theorem popLeafTransaction_diamond :
    Acyclic (SpendsFrom workEnv) diamond ∧
      ∃ order, PopsTo workEnv diamond order ∧ order.map (·.nTime) = [1, 3, 2, 4] ∧
        order.Perm diamond ∧ DependenciesFirst (SpendsFrom workEnv) order := by
  have hacyclic : Acyclic (SpendsFrom workEnv) diamond :=
    acyclic_of_lt (f := fun tx => tx.nTime) (by decide +kernel)
  obtain ⟨-, horder⟩ := popLeafTransaction_order hacyclic
  have hpops := popsTo_popLeaves hacyclic (Nat.le_refl _)
  exact ⟨hacyclic, _, hpops, by decide +kernel, horder _ hpops⟩

end Bfx.LeafOrder
