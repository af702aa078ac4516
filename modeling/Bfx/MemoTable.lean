import Mathlib

/-!
Tables whose entries are made from other entries of the same table. A rule says
which value a key gets from a table; more entries do not change it. Entries may then
be made in any order, and more than once.
-/

namespace Bfx.MemoTable

open Function

variable {κ ν : Type}

/-- The entries of the first table are entries of the second. -/
def Extends (t t' : κ → Option ν) : Prop := ∀ k v, t k = some v → t' k = some v

theorem Extends.refl (t : κ → Option ν) : Extends t t := fun _ _ h => h

theorem Extends.trans (h : Extends t t') (h' : Extends t' t'') : Extends t t'' :=
  fun k v hv => h' k v (h k v hv)

theorem Extends.update [DecidableEq κ] (h : Extends t t') {k : κ} (hv : t' k = some v) :
    Extends (update t k (some v)) t' := by
  intro k' v' hentry
  rcases eq_or_ne k' k with rfl | hne
  · rw [update_self] at hentry
    rw [hv, Option.some.inj hentry]
  · rw [update_of_ne hne] at hentry
    exact h k' v' hentry

structure Rule (κ ν : Type) where
  makes : (κ → Option ν) → κ → ν → Prop
  mono : ∀ {t t' : κ → Option ν} {k : κ} {v : ν}, Extends t t' → makes t k v → makes t' k v
  unique : ∀ {t : κ → Option ν} {k : κ} {v v' : ν}, makes t k v → makes t k v' → v = v'

/-- Every entry is the value that the rule makes for it. -/
def Rule.Consistent (rule : Rule κ ν) (t : κ → Option ν) : Prop :=
  ∀ k v, t k = some v → rule.makes t k v

variable {rule : Rule κ ν} {t : κ → Option ν} {k : κ} {v v' : ν}

theorem Rule.consistent_empty (rule : Rule κ ν) : rule.Consistent fun _ => none :=
  fun _ _ h => nomatch h

variable [DecidableEq κ]

theorem Rule.Consistent.extends_update (h : rule.Consistent t) (hmakes : rule.makes t k v) :
    Extends t (update t k (some v)) := by
  intro k' v' hentry
  rcases eq_or_ne k' k with rfl | hne
  · rw [update_self, rule.unique hmakes (h k' v' hentry)]
  · rwa [update_of_ne hne]

theorem Rule.Consistent.update (h : rule.Consistent t) (hmakes : rule.makes t k v) :
    rule.Consistent (update t k (some v)) := by
  have hextends := h.extends_update hmakes
  intro k' v' hentry
  rcases eq_or_ne k' k with rfl | hne
  · rw [update_self] at hentry
    rw [← Option.some.inj hentry]
    exact rule.mono hextends hmakes
  · rw [update_of_ne hne] at hentry
    exact rule.mono hextends (h k' v' hentry)

end Bfx.MemoTable
