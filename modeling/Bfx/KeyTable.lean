import Mathlib

/-!
Tables that are kept in the order of their keys, as `std::map` keeps them.
-/

namespace Bfx.KeyTable

variable {κ ν : Type} [DecidableEq κ]

def find (k : κ) : List (κ × ν) → Option ν
  | [] => none
  | (key, value) :: table => if key = k then some value else find k table

theorem mem_of_find {table : List (κ × ν)} (h : find k table = some value) :
    (k, value) ∈ table := by
  induction table with
  | nil => cases h
  | cons entry table ih =>
    rw [find] at h
    split at h
    · rename_i hkey
      obtain rfl := hkey
      cases h
      exact List.mem_cons_self
    · exact List.mem_cons_of_mem _ (ih h)

theorem foldl_erase_eq_some {f : α → κ} {l : List α} {map : κ → Option ν} :
    l.foldl (fun map a => Function.update map (f a) none) map k = some value ↔
      map k = some value ∧ ∀ a ∈ l, f a ≠ k := by
  induction l generalizing map with
  | nil => simp
  | cons a l ih =>
    rw [List.foldl_cons, ih, List.forall_mem_cons, ← and_assoc]
    apply and_congr_left'
    by_cases heq : k = f a
    · simp [heq]
    · simp [heq, Ne.symm heq]

def modifyAt (k : κ) (f : ν → ν) : List (κ × ν) → List (κ × ν)
  | [] => []
  | (key, value) :: table =>
    if key = k then (key, f value) :: table else (key, value) :: modifyAt k f table

theorem find_modifyAt_self (k : κ) (f : ν → ν) (table : List (κ × ν)) :
    find k (modifyAt k f table) = (find k table).map f := by
  induction table with
  | nil => rfl
  | cons entry table ih =>
    obtain ⟨key, value⟩ := entry
    rcases eq_or_ne key k with rfl | hne
    · simp [modifyAt, find]
    · simp [modifyAt, find, hne, ih]

theorem find_modifyAt_of_ne (hne : other ≠ k) (f : ν → ν) (table : List (κ × ν)) :
    find other (modifyAt k f table) = find other table := by
  induction table with
  | nil => rfl
  | cons entry table ih =>
    obtain ⟨key, value⟩ := entry
    rcases eq_or_ne key k with rfl | hkey
    · simp [modifyAt, find, Ne.symm hne]
    · simp [modifyAt, find, hkey, ih]

/-- What a change keeps of the value that it changes, it keeps of all. -/
theorem map_find_modifyAt (hkeep : ∀ value, find k table = some value → g (f value) = g value)
    (other : κ) : (find other (modifyAt k f table)).map g = (find other table).map g := by
  rcases eq_or_ne other k with rfl | hne
  · rw [find_modifyAt_self, Option.map_map]
    rcases hfind : find other table with _ | value
    · rfl
    · exact congrArg some (hkeep value hfind)
  · rw [find_modifyAt_of_ne hne]

variable [LE κ] [DecidableLE κ]

/-- `insert`, which changes nothing if the key is there. -/
def insertNew (k : κ) (value : ν) (table : List (κ × ν)) : List (κ × ν) := match find k table with
  | some _ => table
  | none => table.orderedInsert (fun a b => a.1 ≤ b.1) (k, value)

theorem find_insertNew_of_none (hnone : find k table = none) (value : ν) (other : κ) :
    find other (insertNew k value table) = if k = other then some value else find other table := by
  rw [insertNew, hnone]
  dsimp only
  induction table with
  | nil => rfl
  | cons entry table ih =>
    obtain ⟨key, found⟩ := entry
    rw [find] at hnone
    split at hnone
    · cases hnone
    rename_i hkey
    rw [List.orderedInsert_cons]
    split
    · rw [find]
    rw [find, ih hnone, find]
    rcases eq_or_ne key other with rfl | hother
    · rw [if_pos rfl, if_pos rfl, if_neg (Ne.symm hkey)]
    · rw [if_neg hother, if_neg hother]

end Bfx.KeyTable
