import Mathlib

/-!
The tried buckets of the address manager: which entry of a full bucket gives way to a new
one. `SelectTried` returns the place that the stalest inspected entry was drawn from, not the
one that it has been moved to.
-/

namespace Bfx.TriedEviction

open Function List

abbrev ADDRMAN_TRIED_BUCKET_SIZE : Nat := 64
abbrev ADDRMAN_NEW_BUCKET_SIZE : Nat := 64
abbrev ADDRMAN_TRIED_ENTRIES_INSPECT_ON_EVICT : Nat := 4

structure CAddrInfo where
  nLastSuccess : Int
  nRefCount : Int
  fInTried : Bool

/-- The ids in the buckets are keys of `mapInfo`. -/
structure CAddrMan where
  mapInfo : Nat → CAddrInfo
  vvNew : List (List Nat)
  vvTried : List (List Nat)
  nTried : Int
  nNew : Int

/-- The random number of each round, and the buckets that the hashes of the addresses give. -/
structure Choices where
  getRandInt : Nat → Nat
  getTriedBucket : Nat → Nat
  getNewBucket : Nat → Nat

section Code

variable (c : Choices) (man : CAddrMan)

def nLastSuccess (id : Nat) : Int := (man.mapInfo id).nLastSuccess

/-- The rounds from the `i`-th one on, with `nOldest` and `nOldestPos`. -/
def selectFrom : Nat → Nat → List Nat → Option (Nat × Nat) → List Nat × Option (Nat × Nat)
  | 0, _, vTried, oldest => (vTried, oldest)
  | n + 1, i, vTried, oldest =>
    let nPos := c.getRandInt i % (vTried.length - i) + i
    let nTemp := vTried.getD nPos 0
    selectFrom n (i + 1) ((vTried.set nPos (vTried.getD i 0)).set i nTemp)
      (match oldest with
      | none => some (nTemp, nPos)
      | some (nOldest, nOldestPos) =>
        if nLastSuccess man nTemp < nLastSuccess man nOldest then some (nTemp, nPos)
        else some (nOldest, nOldestPos))

def selectTried (vTried : List Nat) : List Nat × Option Nat :=
  let selected := selectFrom c man
    (min ADDRMAN_TRIED_ENTRIES_INSPECT_ON_EVICT vTried.length) 0 vTried none
  (selected.1, selected.2.map Prod.snd)

/-- Fails where an assertion does. -/
def makeTried (nId nOrigin : Nat) : Option CAddrMan :=
  let info := man.mapInfo nId
  if nId ∉ man.vvNew.getD nOrigin [] ∨ info.nRefCount ≠ man.vvNew.countP (nId ∈ ·) then none
  else
    let vvNew := man.vvNew.map (·.erase nId)
    let mapInfo := update man.mapInfo nId { info with nRefCount := 0, fInTried := true }
    let nKBucket := c.getTriedBucket nId
    let vTried := man.vvTried.getD nKBucket []
    if vTried.length < ADDRMAN_TRIED_BUCKET_SIZE then
      some ⟨mapInfo, vvNew, man.vvTried.set nKBucket (vTried ++ [nId]), man.nTried + 1, man.nNew - 1⟩
    else
      match selectTried c man vTried with
      | (_, none) => none
      | (vTried, some nPos) =>
        let nOld := vTried.getD nPos 0
        let nUBucket := c.getNewBucket nOld
        let nBucket :=
          if (vvNew.getD nUBucket []).length < ADDRMAN_NEW_BUCKET_SIZE then nUBucket else nOrigin
        some ⟨update mapInfo nOld { mapInfo nOld with fInTried := false, nRefCount := 1 },
          vvNew.set nBucket ((vvNew.getD nBucket []).insert nOld),
          man.vvTried.set nKBucket (vTried.set nPos nId), man.nTried, man.nNew⟩

/-- The entries that are drawn, each with the place that it is drawn from. -/
def drawnFrom : Nat → Nat → List Nat → List (Nat × Nat)
  | 0, _, _ => []
  | n + 1, i, vTried =>
    let nPos := c.getRandInt i % vTried.length
    (vTried.getD nPos 0, nPos + i) :: drawnFrom n (i + 1) (vTried.set nPos (vTried.getD 0 0)).tail

def inspected (vTried : List Nat) : List (Nat × Nat) :=
  drawnFrom c (min ADDRMAN_TRIED_ENTRIES_INSPECT_ON_EVICT vTried.length) 0 vTried

/-- To the place from which the first of the stalest entries is drawn, one comes that is as
stale. -/
def DrawnInPlace (vTried : List Nat) : Prop :=
  ∀ entry ∈ (inspected c vTried).argmin fun entry => nLastSuccess man entry.1,
    ∃ other, (inspected c vTried)[entry.2]? = some other ∧
      nLastSuccess man other.1 ≤ nLastSuccess man entry.1

end Code

variable {c : Choices} {man : CAddrMan} {vTried : List Nat}

theorem getD_add_length (front vTried : List Nat) (nPos : Nat) :
    (front ++ vTried).getD (nPos + front.length) 0 = vTried.getD nPos 0 := by
  rw [getD_append_right _ _ _ _ (Nat.le_add_left _ _), Nat.add_sub_cancel]

theorem swap_append (front : List Nat) (hpos : nPos < vTried.length) (nTemp : Nat) :
    ((front ++ vTried).set (nPos + front.length) ((front ++ vTried).getD front.length 0)).set
        front.length nTemp =
      front ++ nTemp :: (vTried.set nPos (vTried.getD 0 0)).tail := by
  have hfirst := getD_add_length front vTried 0
  rw [Nat.zero_add] at hfirst
  rw [hfirst, set_append_right _ _ (Nat.le_add_left _ _), set_append_right _ _ (Nat.le_refl _),
    Nat.add_sub_cancel, Nat.sub_self]
  rcases vTried with _ | ⟨first, vTried⟩
  · cases hpos
  · cases nPos with
    | zero => rfl
    | succ nPos => rfl

theorem draw_perm (hpos : nPos < vTried.length) :
    (vTried.getD nPos 0 :: (vTried.set nPos (vTried.getD 0 0)).tail).Perm vTried := by
  rcases vTried with _ | ⟨first, vTried⟩
  · cases hpos
  · cases nPos with
    | zero => exact .refl _
    | succ nPos =>
      have hpos := Nat.lt_of_succ_lt_succ hpos
      rw [getD_cons_succ, getD_eq_getElem _ _ hpos]
      exact (((set_perm_cons_eraseIdx hpos _).cons _).trans (.swap _ _ _)).trans
        ((getElem_cons_eraseIdx_perm hpos).cons _)

/-- The drawn entries come to the front, and the first of the stalest is remembered. -/
theorem selectFrom_eq (h : n ≤ vTried.length) :
    ∃ rest, ((drawnFrom c n front.length vTried).map Prod.fst ++ rest).Perm vTried ∧
      selectFrom c man n front.length (front ++ vTried) oldest =
        (front ++ ((drawnFrom c n front.length vTried).map Prod.fst ++ rest),
          (drawnFrom c n front.length vTried).foldl
            (argAux fun entry other => nLastSuccess man entry.1 < nLastSuccess man other.1)
            oldest) := by
  induction n generalizing front vTried oldest with
  | zero => exact ⟨vTried, .refl _, rfl⟩
  | succ n ih =>
    have hpos := Nat.mod_lt (c.getRandInt front.length) (Nat.lt_of_lt_of_le n.succ_pos h)
    dsimp only [selectFrom, drawnFrom]
    rw [length_append, Nat.add_sub_cancel_left, getD_add_length, swap_append front hpos]
    generalize c.getRandInt front.length % vTried.length = nPos at hpos ⊢
    obtain ⟨rest, hperm, heq⟩ := @ih (vTried.set nPos (vTried.getD 0 0)).tail
      (front ++ [vTried.getD nPos 0]) (argAux (fun entry other => nLastSuccess man entry.1 <
        nLastSuccess man other.1) oldest (vTried.getD nPos 0, nPos + front.length))
      (by rw [length_tail, length_set]; omega)
    rw [length_append, length_singleton] at hperm heq
    refine ⟨rest, (hperm.cons _).trans (draw_perm hpos), ?_⟩
    rw [append_assoc, append_assoc] at heq
    refine Eq.trans ?_ heq
    cases oldest with
    | none => rfl
    | some oldest => rfl

theorem selectTried_eq (hne : vTried ≠ []) :
    ∃ rest entry, ((inspected c vTried).map Prod.fst ++ rest).Perm vTried ∧
      entry ∈ (inspected c vTried).argmin (fun entry => nLastSuccess man entry.1) ∧
      selectTried c man vTried = ((inspected c vTried).map Prod.fst ++ rest, some entry.2) := by
  have hpos := length_pos_iff.mpr hne
  obtain ⟨n, hn⟩ : ∃ n, min ADDRMAN_TRIED_ENTRIES_INSPECT_ON_EVICT vTried.length = n + 1 :=
    Nat.exists_eq_succ_of_ne_zero (Nat.pos_iff_ne_zero.mp (Nat.lt_min.mpr ⟨by decide, hpos⟩))
  rw [selectTried, inspected, hn]
  obtain ⟨rest, hperm, heq⟩ := @selectFrom_eq c man vTried (n + 1) [] none
    (hn ▸ Nat.min_le_right _ _)
  obtain ⟨entry, hentry⟩ : ∃ entry, (drawnFrom c (n + 1) 0 vTried).argmin
      (fun entry => nLastSuccess man entry.1) = some entry :=
    Option.ne_none_iff_exists'.mp fun hnone => cons_ne_nil _ _ (argmin_eq_none.mp hnone)
  refine ⟨rest, entry, hperm, hentry, ?_⟩
  rw [show selectFrom c man (n + 1) 0 vTried none = _ from heq]
  exact Prod.ext rfl (congrArg (Option.map Prod.snd) hentry)

/-- `SelectTried` permutes the bucket, `MakeTried` replaces the entry at the place that it
returns, and that is the stalest inspected one exactly if it was drawn in place. -/
theorem selectTried_iff (c : Choices) (man : CAddrMan) (nKBucket : Nat)
    (hbucket : man.vvTried.getD nKBucket [] = vTried) (hne : vTried ≠ []) (hnodup : vTried.Nodup) :
    ∃ permuted nPos, selectTried c man vTried = (permuted, some nPos) ∧ permuted.Perm vTried ∧
      (∀ nId nOrigin next, makeTried c man nId nOrigin = some next →
        c.getTriedBucket nId = nKBucket → ADDRMAN_TRIED_BUCKET_SIZE ≤ vTried.length →
        next.vvTried = man.vvTried.set nKBucket (permuted.set nPos nId)) ∧
      ((∃ entry ∈ inspected c vTried, permuted[nPos]? = some entry.1 ∧
          ∀ other ∈ inspected c vTried, nLastSuccess man entry.1 ≤ nLastSuccess man other.1) ↔
        DrawnInPlace c man vTried) := by
  obtain ⟨rest, entry, hperm, hentry, heq⟩ := @selectTried_eq c man _ hne
  have hplace : ∀ (m : Nat) (other : Nat × Nat), (inspected c vTried)[m]? = some other →
      ((inspected c vTried).map Prod.fst ++ rest)[m]? = some other.1 := by
    intro m other hother
    have hlt := (List.getElem?_eq_some_iff.mp hother).1
    rw [getElem?_append_left (by rwa [length_map]), getElem?_map, hother, Option.map_some]
  refine ⟨_, _, heq, hperm, fun nId nOrigin next hcall hbucket' hfull => ?_, ?_, fun h => ?_⟩
  · rw [makeTried] at hcall
    split at hcall
    · cases hcall
    dsimp only at hcall
    rw [hbucket', hbucket, if_neg (not_lt.mpr hfull), heq] at hcall
    cases hcall
    rfl
  · rintro ⟨first, hfirst, hat, hmin⟩ entry' hentry'
    obtain rfl := Option.mem_unique hentry hentry'
    obtain ⟨m, hm⟩ := getElem?_of_mem hfirst
    have hfound := hplace m first hm
    have hlt := (List.getElem?_eq_some_iff.mp hfound).1
    obtain rfl := (getElem?_inj hlt (hperm.nodup_iff.mpr hnodup)).mp (hfound.trans hat.symm)
    exact ⟨first, hm, hmin entry (argmin_mem hentry)⟩
  · obtain ⟨other, hother, hle⟩ := h entry hentry
    refine ⟨other, mem_of_getElem? hother, hplace _ other hother, fun first hfirst => hle.trans ?_⟩
    exact le_of_mem_argmin (f := fun e : Nat × Nat => nLastSuccess man e.1) hfirst hentry

/-- Entry 5 of the bucket is the stalest one. -/
def fullMan : CAddrMan where
  mapInfo id := ⟨if id = 5 then 1 else 9, if id = 64 then 1 else 0, id < 64⟩
  vvNew := [[64]]
  vvTried := [range 64]
  nTried := 64
  nNew := 1

theorem selectTried_fullMan :
    ∃ permuted nPos, selectTried ⟨fun _ => 0, fun _ => 0, fun _ => 0⟩ fullMan (range 64) =
        (permuted, some nPos) ∧
      ∃ entry ∈ inspected ⟨fun _ => 0, fun _ => 0, fun _ => 0⟩ (range 64),
        permuted[nPos]? = some entry.1 ∧
        ∀ other ∈ inspected ⟨fun _ => 0, fun _ => 0, fun _ => 0⟩ (range 64),
          nLastSuccess fullMan entry.1 ≤ nLastSuccess fullMan other.1 := by
  obtain ⟨permuted, nPos, heq, -, -, hiff⟩ := selectTried_iff ⟨fun _ => 0, fun _ => 0, fun _ => 0⟩
    fullMan 0 rfl (by decide) (nodup_range)
  refine ⟨permuted, nPos, heq, hiff.mpr fun entry hentry => ?_⟩
  cases (show some (0, 0) = some entry from hentry)
  exact ⟨(0, 0), rfl, le_refl _⟩

/-- It is drawn first; in its place entry 0 is evicted. -/
theorem makeTried_keeps_stalest :
    (makeTried ⟨fun i => if i = 0 then 5 else 0, fun _ => 0, fun _ => 0⟩ fullMan 64 0).map
        (fun next => (next.vvTried.getD 0 [])) =
      some (5 :: range' 1 4 ++ 64 :: range' 6 58) := by
  decide +kernel

end Bfx.TriedEviction
