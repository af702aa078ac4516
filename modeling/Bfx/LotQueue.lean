import Mathlib

/-!
Queues of lots. A lot is an item with an amount left; items are classified by a
key. Amounts are taken from the front of the queue, out of the run of lots that
share the key of the first lot that is not empty.
-/

namespace Bfx.LotQueue

open List

structure Lot (α : Type) where
  item : α
  left : Nat
  deriving DecidableEq, Repr

section Totals

variable {α : Type}

def total (lots : List (Lot α)) : Nat := (lots.map Lot.left).sum

@[simp] theorem total_nil : total ([] : List (Lot α)) = 0 := rfl

@[simp] theorem total_cons (lot : Lot α) (lots : List (Lot α)) :
    total (lot :: lots) = lot.left + total lots := by
  simp [total]

@[simp] theorem total_append (lots lots' : List (Lot α)) :
    total (lots ++ lots') = total lots + total lots' := by
  simp [total]

theorem total_eq_zero_iff : total lots = 0 ↔ ∀ lot ∈ lots, lot.left = 0 := by
  induction lots with
  | nil => simp
  | cons lot lots ih => simp [ih]

def isEmptyLot (lot : Lot α) : Bool := lot.left == 0

def emptyFront (lots : List (Lot α)) : List (Lot α) := lots.takeWhile isEmptyLot

def skipEmpty (lots : List (Lot α)) : List (Lot α) := lots.dropWhile isEmptyLot

theorem emptyFront_append_skipEmpty (lots : List (Lot α)) :
    emptyFront lots ++ skipEmpty lots = lots :=
  takeWhile_append_dropWhile

theorem skipEmpty_cons_of_zero (h : lot.left = 0) (lots : List (Lot α)) :
    skipEmpty (lot :: lots) = skipEmpty lots := by
  simp [skipEmpty, isEmptyLot, h]

theorem skipEmpty_cons_of_pos (h : 0 < lot.left) (lots : List (Lot α)) :
    skipEmpty (lot :: lots) = lot :: lots := by
  simp [skipEmpty, isEmptyLot, Nat.pos_iff_ne_zero.mp h]

variable (lots : List (Lot α))
include lots

theorem length_emptyFront_add :
    (emptyFront lots).length + (skipEmpty lots).length = lots.length := by
  rw [← length_append, emptyFront_append_skipEmpty]

theorem drop_length_emptyFront :
    lots.drop (emptyFront lots).length = skipEmpty lots := by
  calc
    lots.drop (emptyFront lots).length
        = (emptyFront lots ++ skipEmpty lots).drop (emptyFront lots).length := by
          rw [emptyFront_append_skipEmpty]
    _ = skipEmpty lots := drop_left

theorem take_length_emptyFront :
    lots.take (emptyFront lots).length = emptyFront lots := by
  calc
    lots.take (emptyFront lots).length
        = (emptyFront lots ++ skipEmpty lots).take (emptyFront lots).length := by
          rw [emptyFront_append_skipEmpty]
    _ = emptyFront lots := take_left

omit lots

theorem skipEmpty_append_of_pos {lots : List (Lot α)} (h : 0 < total lots)
    (lots' : List (Lot α)) : skipEmpty (lots ++ lots') = skipEmpty lots ++ lots' := by
  induction lots with
  | nil => simp at h
  | cons lot lots ih =>
    rcases Nat.eq_zero_or_pos lot.left with hzero | hpos
    · rw [cons_append, skipEmpty_cons_of_zero hzero, skipEmpty_cons_of_zero hzero]
      apply ih
      simpa [hzero] using h
    · rw [cons_append, skipEmpty_cons_of_pos hpos, skipEmpty_cons_of_pos hpos, cons_append]

theorem emptyFront_append_of_pos {lots : List (Lot α)} (h : 0 < total lots)
    (lots' : List (Lot α)) : emptyFront (lots ++ lots') = emptyFront lots := by
  induction lots with
  | nil => simp at h
  | cons lot lots ih =>
    rcases Nat.eq_zero_or_pos lot.left with hzero | hpos
    · have htail := ih (by simpa [hzero] using h)
      unfold emptyFront at htail ⊢
      simp [isEmptyLot, hzero, htail]
    · simp [emptyFront, isEmptyLot, Nat.pos_iff_ne_zero.mp hpos]

theorem skipEmpty_append_of_zero {lots : List (Lot α)} (h : total lots = 0)
    (lots' : List (Lot α)) : skipEmpty (lots ++ lots') = skipEmpty lots' := by
  rw [total_eq_zero_iff] at h
  exact dropWhile_append_of_pos fun lot hlot => by simp [isEmptyLot, h lot hlot]

theorem emptyFront_append_of_zero {lots : List (Lot α)} (h : total lots = 0)
    (lots' : List (Lot α)) : emptyFront (lots ++ lots') = lots ++ emptyFront lots' := by
  rw [total_eq_zero_iff] at h
  exact takeWhile_append_of_pos fun lot hlot => by simp [isEmptyLot, h lot hlot]

theorem pos_of_skipEmpty {lots rest : List (Lot α)} (h : skipEmpty lots = lot :: rest) :
    0 < lot.left := by
  have hhead := List.head?_dropWhile_not isEmptyLot lots
  rw [← skipEmpty, h] at hhead
  exact Nat.pos_of_ne_zero (by simpa [isEmptyLot] using hhead)

theorem exists_skipEmpty_of_pos {lots : List (Lot α)} (h : 0 < total lots) :
    ∃ lot rest, skipEmpty lots = lot :: rest ∧ 0 < lot.left := by
  induction lots with
  | nil => simp at h
  | cons lot lots ih =>
    rcases Nat.eq_zero_or_pos lot.left with hzero | hpos
    · obtain ⟨first, rest, hskip, hfirst⟩ := ih (by simpa [hzero] using h)
      exact ⟨first, rest, by rw [skipEmpty_cons_of_zero hzero, hskip], hfirst⟩
    · exact ⟨lot, lots, skipEmpty_cons_of_pos hpos lots, hpos⟩

end Totals

section Keys

variable {α κ : Type} [DecidableEq κ] (key : α → κ)

def held (k : κ) (lots : List (Lot α)) : Nat :=
  (lots.map fun lot => if key lot.item = k then lot.left else 0).sum

@[simp] theorem held_nil (k : κ) : held key k [] = 0 := rfl

@[simp] theorem held_cons (k : κ) (lot : Lot α) (lots : List (Lot α)) :
    held key k (lot :: lots) = (if key lot.item = k then lot.left else 0) + held key k lots := by
  simp [held]

@[simp] theorem held_append (k : κ) (lots lots' : List (Lot α)) :
    held key k (lots ++ lots') = held key k lots + held key k lots' := by
  simp [held]

def run (k : κ) (lots : List (Lot α)) : List (Lot α) :=
  lots.takeWhile fun lot => key lot.item = k

theorem run_cons_of_eq (h : key lot.item = k) (lots : List (Lot α)) :
    run key k (lot :: lots) = lot :: run key k lots := by
  simp [run, h]

theorem run_cons_of_ne (h : key lot.item ≠ k) (lots : List (Lot α)) :
    run key k (lot :: lots) = [] := by
  simp [run, h]

theorem run_append (k : κ) (lots lots' : List (Lot α)) :
    run key k (lots ++ lots') =
      if (run key k lots).length = lots.length then lots ++ run key k lots'
      else run key k lots :=
  takeWhile_append

def drain (k : κ) : Nat → List (Lot α) → List (Lot α)
  | _, [] => []
  | amount, lot :: lots =>
    if key lot.item = k then
      if amount ≤ lot.left then ⟨lot.item, lot.left - amount⟩ :: lots
      else ⟨lot.item, 0⟩ :: drain k (amount - lot.left) lots
    else lot :: lots

variable {amount : Nat}

theorem drain_cons_of_le (hkey : key lot.item = k) (hle : amount ≤ lot.left) (lots : List (Lot α)) :
    drain key k amount (lot :: lots) = ⟨lot.item, lot.left - amount⟩ :: lots := by
  rw [drain, if_pos hkey, if_pos hle]

theorem drain_cons_of_lt (hkey : key lot.item = k) (hlt : lot.left < amount) (lots : List (Lot α)) :
    drain key k amount (lot :: lots) =
      ⟨lot.item, 0⟩ :: drain key k (amount - lot.left) lots := by
  rw [drain, if_pos hkey, if_neg (Nat.not_le.mpr hlt)]

theorem drain_zero (k : κ) (lots : List (Lot α)) : drain key k 0 lots = lots := by
  rcases lots with _ | ⟨⟨item, left⟩, lots⟩
  · rfl
  · simp [drain]

theorem drain_cons_add (hkey : key lot.item = k) (amount : Nat) (lots : List (Lot α)) :
    drain key k (lot.left + amount) (lot :: lots) = ⟨lot.item, 0⟩ :: drain key k amount lots := by
  rcases Nat.eq_zero_or_pos amount with rfl | hpos
  · rw [drain_cons_of_le key hkey (by omega), drain_zero, Nat.add_zero, Nat.sub_self]
  · rw [drain_cons_of_lt key hkey (by omega), Nat.add_sub_cancel_left]

theorem map_item_drain (k : κ) (amount : Nat) (lots : List (Lot α)) :
    (drain key k amount lots).map Lot.item = lots.map Lot.item := by
  induction lots generalizing amount with
  | nil => rfl
  | cons lot lots ih =>
    rw [drain]
    split_ifs
    · rfl
    · rw [map_cons, map_cons, ih]
    · rfl

theorem held_drain (hamount : amount ≤ total (run key k lots)) (k' : κ) :
    held key k' (drain key k amount lots) + (if k' = k then amount else 0) =
      held key k' lots := by
  induction lots generalizing amount with
  | nil =>
    have hzero : amount = 0 := by simpa [run] using hamount
    simp [drain, hzero]
  | cons lot lots ih =>
    rw [drain]
    split_ifs with hk hle hk' hk'
    · subst hk'
      simp only [held_cons, hk, if_true]
      omega
    · simp only [held_cons, hk, if_neg (Ne.symm hk'), Nat.add_zero]
    · have hrest := ih (show amount - lot.left ≤ total (run key k lots) by
        rw [run_cons_of_eq key hk, total_cons] at hamount
        omega)
      subst hk'
      simp only [held_cons, hk, if_true] at hrest ⊢
      omega
    · have hrest := ih (show amount - lot.left ≤ total (run key k lots) by
        rw [run_cons_of_eq key hk, total_cons] at hamount
        omega)
      simp only [held_cons, hk, if_neg (Ne.symm hk'), if_neg hk', Nat.add_zero,
        Nat.zero_add] at hrest ⊢
      exact hrest
    · have hzero : amount = 0 := by simpa [run_cons_of_ne key hk] using hamount
      simp [hzero]
    · simp

def frontTotal (lots : List (Lot α)) : Nat :=
  match skipEmpty lots with
  | [] => 0
  | lot :: rest => total (run key (key lot.item) (lot :: rest))

def drainFront (amount : Nat) (lots : List (Lot α)) : List (Lot α) :=
  match skipEmpty lots with
  | [] => lots
  | lot :: rest => emptyFront lots ++ drain key (key lot.item) amount (lot :: rest)

theorem frontTotal_of_skipEmpty (h : skipEmpty lots = lot :: rest) :
    frontTotal key lots = total (run key (key lot.item) (lot :: rest)) := by
  simp [frontTotal, h]

theorem drainFront_of_skipEmpty (h : skipEmpty lots = lot :: rest) (amount : Nat) :
    drainFront key amount lots =
      emptyFront lots ++ drain key (key lot.item) amount (lot :: rest) := by
  simp [drainFront, h]

theorem map_item_drainFront (amount : Nat) (lots : List (Lot α)) :
    (drainFront key amount lots).map Lot.item = lots.map Lot.item := by
  rcases hskip : skipEmpty lots with _ | ⟨lot, rest⟩
  · simp [drainFront, hskip]
  · rw [drainFront_of_skipEmpty key hskip, map_append, map_item_drain, ← map_append,
      ← hskip, emptyFront_append_skipEmpty]

theorem held_drainFront (hskip : skipEmpty lots = lot :: rest)
    (hamount : amount ≤ frontTotal key lots) (k : κ) :
    held key k (drainFront key amount lots) + (if k = key lot.item then amount else 0) =
      held key k lots := by
  rw [frontTotal_of_skipEmpty key hskip] at hamount
  rw [drainFront_of_skipEmpty key hskip, held_append, Nat.add_assoc, held_drain key hamount,
    ← held_append, ← hskip, emptyFront_append_skipEmpty]

theorem frontTotal_append_of_zero {lots : List (Lot α)} (h : total lots = 0)
    (lots' : List (Lot α)) : frontTotal key (lots ++ lots') = frontTotal key lots' := by
  rw [frontTotal, frontTotal, skipEmpty_append_of_zero h]

theorem drainFront_append_of_zero {lots : List (Lot α)} (h : total lots = 0) (amount : Nat)
    (lots' : List (Lot α)) :
    drainFront key amount (lots ++ lots') = lots ++ drainFront key amount lots' := by
  rw [drainFront, drainFront, skipEmpty_append_of_zero h, emptyFront_append_of_zero h]
  split
  · rfl
  · rw [append_assoc]

theorem total_run_le (k : κ) (lots : List (Lot α)) : total (run key k lots) ≤ total lots := by
  conv_rhs => rw [← takeWhile_append_dropWhile (p := fun lot => key lot.item = k)
    (l := lots), total_append]
  exact Nat.le_add_right _ _

theorem front_of_run_pos (h : 0 < total (run key k lots)) :
    ∃ lot rest, skipEmpty lots = lot :: rest ∧ key lot.item = k ∧
      frontTotal key lots = total (run key k lots) ∧
      ∀ amount, drainFront key amount lots = drain key k amount lots := by
  induction lots with
  | nil => simp [run] at h
  | cons lot lots ih =>
    by_cases hkey : key lot.item = k
    · rcases Nat.eq_zero_or_pos lot.left with hzero | hpos
      · have hlot : total [lot] = 0 := by simp [hzero]
        rw [run_cons_of_eq key hkey, total_cons, hzero, Nat.zero_add] at h
        obtain ⟨first, rest, hskip, hfirst, hfront, hdrain⟩ := ih h
        refine ⟨first, rest, ?_, hfirst, ?_, ?_⟩
        · rw [skipEmpty_cons_of_zero hzero, hskip]
        · rw [run_cons_of_eq key hkey, total_cons, hzero, Nat.zero_add, ← hfront]
          exact frontTotal_append_of_zero key hlot lots
        intro amount
        have hfrontDrain : drainFront key amount (lot :: lots) =
            lot :: drainFront key amount lots :=
          drainFront_append_of_zero key hlot amount lots
        rw [hfrontDrain, hdrain]
        rcases Nat.eq_zero_or_pos amount with rfl | hamount
        · rw [drain_zero, drain_zero]
        · rw [drain_cons_of_lt key hkey (by omega), hzero, Nat.sub_zero, ← hzero]
      have hskip := skipEmpty_cons_of_pos hpos lots
      refine ⟨lot, lots, hskip, hkey, ?_, ?_⟩
      · rw [frontTotal_of_skipEmpty key hskip, hkey]
      intro amount
      have hnone : emptyFront (lot :: lots) = [] := by
        simp [emptyFront, isEmptyLot, Nat.pos_iff_ne_zero.mp hpos]
      rw [drainFront_of_skipEmpty key hskip, hnone, hkey, nil_append]
    · rw [run_cons_of_ne key hkey] at h
      simp at h

theorem total_drain_add (hamount : amount ≤ total (run key k lots)) :
    total (drain key k amount lots) + amount = total lots := by
  induction lots generalizing amount with
  | nil => simpa [drain, run] using hamount
  | cons lot lots ih =>
    by_cases hkey : key lot.item = k
    · rw [run_cons_of_eq key hkey, total_cons] at hamount
      rcases Nat.lt_or_ge lot.left amount with hlt | hle
      · have hrest := ih (show amount - lot.left ≤ total (run key k lots) by omega)
        rw [drain_cons_of_lt key hkey hlt, total_cons, total_cons, Nat.zero_add]
        omega
      rw [drain_cons_of_le key hkey hle, total_cons, total_cons]
      dsimp only
      omega
    rw [run_cons_of_ne key hkey, total_nil] at hamount
    rw [drain, if_neg hkey]
    omega

theorem total_drainFront_add (hskip : skipEmpty lots = lot :: rest)
    (hamount : amount ≤ frontTotal key lots) :
    total (drainFront key amount lots) + amount = total lots := by
  rw [frontTotal_of_skipEmpty key hskip] at hamount
  rw [drainFront_of_skipEmpty key hskip, total_append, Nat.add_assoc,
    total_drain_add key hamount, ← total_append, ← hskip, emptyFront_append_skipEmpty]

/-- Amounts are paid one after the other out of the front of the queue; each
comes with the item it is paid from. -/
inductive Pays : List (Lot α) → List (α × Nat) → List (Lot α) → Prop
  | nil {lots : List (Lot α)} : Pays lots [] lots
  | cons {lots lots' rest : List (Lot α)} {lot : Lot α} {amount : Nat} {paid : List (α × Nat)}
      (hskip : skipEmpty lots = lot :: rest) (hamount : amount ≤ frontTotal key lots)
      (hrest : Pays (drainFront key amount lots) paid lots') :
      Pays lots ((lot.item, amount) :: paid) lots'

theorem Pays.append (h : Pays key lots₁ paid lots₂) (h' : Pays key lots₂ paid' lots₃) :
    Pays key lots₁ (paid ++ paid') lots₃ := by
  induction h with
  | nil => exact h'
  | cons hskip hamount _ ih => exact .cons hskip hamount (ih h')

theorem Pays.append_zero (hempty : total empty = 0) (h : Pays key lots paid lots') :
    Pays key (empty ++ lots) paid (empty ++ lots') := by
  induction h with
  | nil => exact .nil
  | cons hskip hamount _ ih =>
    refine .cons ((skipEmpty_append_of_zero hempty _).trans hskip) ?_ ?_
    · rwa [frontTotal_append_of_zero key hempty]
    · rwa [drainFront_append_of_zero key hempty]

theorem Pays.of_run (hpos : 0 < amount) (hamount : amount ≤ total (run key k lots)) :
    ∃ item, key item = k ∧ Pays key lots [(item, amount)] (drain key k amount lots) := by
  obtain ⟨lot, rest, hskip, hkey, hfront, hdrain⟩ :=
    front_of_run_pos key (Nat.lt_of_lt_of_le hpos hamount)
  refine ⟨lot.item, hkey, .cons hskip (by omega) ?_⟩
  rw [hdrain]
  exact .nil

theorem Pays.each (hpos : ∀ lot ∈ lots, 0 < lot.left) :
    Pays key lots (lots.map fun lot => (lot.item, lot.left))
      (lots.map fun lot => ⟨lot.item, 0⟩) := by
  induction lots with
  | nil => exact .nil
  | cons lot lots ih =>
    rw [forall_mem_cons] at hpos
    have hskip := skipEmpty_cons_of_pos hpos.1 lots
    have hnone : emptyFront (lot :: lots) = [] := by
      simp [emptyFront, isEmptyLot, Nat.pos_iff_ne_zero.mp hpos.1]
    refine .cons hskip ?_ ?_
    · rw [frontTotal_of_skipEmpty key hskip, run_cons_of_eq key rfl, total_cons]
      exact Nat.le_add_right _ _
    rw [drainFront_of_skipEmpty key hskip, hnone, drain_cons_of_le key rfl (le_refl _),
      Nat.sub_self, nil_append]
    have hzero : total [(⟨lot.item, 0⟩ : Lot α)] = 0 := rfl
    exact (ih hpos.2).append_zero key hzero

theorem Pays.eq_nil (h : Pays key [] paid lots') : paid = [] := by
  cases h with
  | nil => rfl
  | cons hskip => cases hskip

theorem Pays.map_item (h : Pays key lots paid lots') : lots'.map Lot.item = lots.map Lot.item := by
  induction h with
  | nil => rfl
  | cons _ _ _ ih => rw [ih, map_item_drainFront]

/-- The amounts of the lots of one key, each by itself, without the empty ones. -/
def lotAmounts (k : κ) (lots : List (Lot α)) : List Nat :=
  (lots.filter fun lot => key lot.item = k ∧ lot.left ≠ 0).map Lot.left

/-- The amounts of the runs of adjacent lots of one key, without the empty ones.
The first argument is the amount of the run that the lots continue. -/
def runAmounts (k : κ) : Nat → List (Lot α) → List Nat
  | current, [] => if current = 0 then [] else [current]
  | current, lot :: lots =>
    if key lot.item = k then runAmounts k (current + lot.left) lots
    else (if current = 0 then [] else [current]) ++ runAmounts k 0 lots

theorem runAmounts_cons_of_eq (h : key lot.item = k) (current : Nat) (lots : List (Lot α)) :
    runAmounts key k current (lot :: lots) = runAmounts key k (current + lot.left) lots := by
  rw [runAmounts, if_pos h]

theorem runAmounts_cons_of_ne (h : key lot.item ≠ k) (current : Nat) (lots : List (Lot α)) :
    runAmounts key k current (lot :: lots) =
      (if current = 0 then [] else [current]) ++ runAmounts key k 0 lots := by
  rw [runAmounts, if_neg h]

theorem runAmounts_zero_cons_of_zero (k : κ) (h : lot.left = 0) (lots : List (Lot α)) :
    runAmounts key k 0 (lot :: lots) = runAmounts key k 0 lots := by
  rw [runAmounts, h, if_pos rfl, nil_append, ite_self]

def runs : List (Lot α) → List (List (Lot α))
  | [] => []
  | lot :: lots =>
    match runs lots with
    | (next :: others) :: rest =>
      if key lot.item = key next.item then (lot :: next :: others) :: rest
      else [lot] :: (next :: others) :: rest
    | rest => [lot] :: rest

theorem runs_cons (lot : Lot α) (lots : List (Lot α)) :
    runs key (lot :: lots) =
      (lot :: run key (key lot.item) lots) ::
        runs key (lots.dropWhile fun other => key other.item = key lot.item) := by
  induction lots generalizing lot with
  | nil => rfl
  | cons next lots ih =>
    rw [runs, ih]
    dsimp only
    by_cases hkey : key next.item = key lot.item
    · rw [if_pos hkey.symm, run_cons_of_eq key hkey, hkey, dropWhile_cons_of_pos (by simp [hkey])]
    · rw [if_neg (Ne.symm hkey), run_cons_of_ne key hkey,
        dropWhile_cons_of_neg (by simp [hkey]), ih]

theorem flatMap_runs_cons (hnil : f [] = []) (hadd : ∀ lots, f (lot :: lots) = added ++ f lots)
    (lots : List (Lot α)) :
    (runs key (lot :: lots)).flatMap f = added ++ (runs key lots).flatMap f := by
  rcases lots with _ | ⟨next, lots⟩
  · rw [runs_cons, flatMap_cons, hadd]
    simp [run, runs, hnil]
  by_cases hkey : key next.item = key lot.item
  · rw [runs_cons, runs_cons key next, run_cons_of_eq key hkey, hkey,
      dropWhile_cons_of_pos (by simp [hkey]), flatMap_cons, flatMap_cons, hadd,
      append_assoc]
  · rw [runs_cons, run_cons_of_ne key hkey, dropWhile_cons_of_neg (by simp [hkey]),
      flatMap_cons, hadd, hnil, append_nil]

end Keys

end Bfx.LotQueue
