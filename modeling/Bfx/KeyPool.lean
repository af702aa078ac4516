import Mathlib

/-!
The key pool: keys that have been generated in advance, with the reservations of
`CReserveKey` objects.
-/

namespace Bfx.KeyPool

open Function

structure CReserveKey where
  holder : Nat
  nIndex : Nat
  vchPubKey : Nat
  deriving DecidableEq

/-- Keys are numbered in the order in which they are generated. `pool` has the records
of the database, and `kept` the keys that holders have kept. -/
structure CWallet where
  setKeyPool : Finset Nat
  pool : Nat → Option Nat
  nextKey : Nat
  reserved : List CReserveKey
  kept : List Nat

/-- `GenerateNewKey` and `WritePool`, with the index in the set. -/
def writePool (nIndex : Nat) (w : CWallet) : CWallet :=
  { w with
    setKeyPool := insert nIndex w.setKeyPool
    pool := update w.pool nIndex (some w.nextKey)
    nextKey := w.nextKey + 1 }

def erasePool (indices : Finset Nat) (w : CWallet) : CWallet :=
  { w with pool := fun nIndex => if nIndex ∈ indices then none else w.pool nIndex }

def nEnd (w : CWallet) : Nat := w.setKeyPool.sup id + 1

/-- `nTargetSize + 1` is an `unsigned int`. -/
def targetSize (keypool nSize : Nat) : Nat := ((if nSize > 0 then nSize else keypool) + 1) % 2 ^ 32

/-- Every turn of the loop adds one index. -/
def topUpKeyPool (locked : Bool) (target : Nat) (w : CWallet) : CWallet :=
  if locked then w else (fun w => writePool (nEnd w) w)^[target - w.setKeyPool.card] w

def newKeyPool (locked : Bool) (nKeys : Nat) (w : CWallet) : CWallet :=
  let erased := { erasePool w.setKeyPool w with setKeyPool := ∅ }
  if locked then erased else (List.range nKeys).foldl (fun w i => writePool (i + 1) w) erased

/-- The index and the key, unless the pool is empty. -/
def reserveKeyFromKeyPool (locked : Bool) (target : Nat) (w : CWallet) :
    Except String (Option (Nat × Nat) × CWallet) :=
  let w := topUpKeyPool locked target w
  if h : w.setKeyPool.Nonempty then
    let nIndex := w.setKeyPool.min' h
    match w.pool nIndex with
    | none => .error "ReserveKeyFromKeyPool() : read failed"
    | some key => .ok (some (nIndex, key), { w with setKeyPool := w.setKeyPool.erase nIndex })
  else .ok (none, w)

def keepKey (nIndex key : Nat) (w : CWallet) : CWallet :=
  { erasePool {nIndex} w with kept := key :: w.kept }

def returnKey (nIndex : Nat) (w : CWallet) : CWallet :=
  { w with setKeyPool := insert nIndex w.setKeyPool }

inductive Call where
  | topUpKeyPool (locked : Bool) (nSize : Nat)
  | newKeyPool (locked : Bool)
  | getReservedKey (locked : Bool) (holder : Nat)
  | getKeyFromPool (locked : Bool)
  | keepKey (holder : Nat)
  | returnKey (holder : Nat)

def reservation (holder : Nat) (w : CWallet) : Option CReserveKey :=
  w.reserved.find? (·.holder = holder)

/-- The object of a holder has no index any more. -/
def release (holder : Nat) (w : CWallet) : CWallet :=
  { w with reserved := w.reserved.filter (·.holder ≠ holder) }

/-- Default keys, and keys that are generated when the pool is empty, are not from the
pool. -/
def step (keypool : Nat) (w : CWallet) : Call → Except String CWallet
  | .topUpKeyPool locked nSize => .ok (topUpKeyPool locked (targetSize keypool nSize) w)
  | .newKeyPool locked => .ok (newKeyPool locked keypool w)
  | .getReservedKey locked holder =>
    match reservation holder w with
    | some _ => .ok w
    | none => do
      match ← reserveKeyFromKeyPool locked (targetSize keypool 0) w with
      | (none, w) => return w
      | (some (nIndex, key), w) =>
        return { w with reserved := ⟨holder, nIndex, key⟩ :: w.reserved }
  | .getKeyFromPool locked => do
    match ← reserveKeyFromKeyPool locked (targetSize keypool 0) w with
    | (none, w) => return w
    | (some (nIndex, key), w) => return keepKey nIndex key w
  | .keepKey holder =>
    match reservation holder w with
    | none => .ok w
    | some r => .ok (keepKey r.nIndex r.vchPubKey (release holder w))
  | .returnKey holder =>
    match reservation holder w with
    | none => .ok w
    | some r => .ok (returnKey r.nIndex (release holder w))

def run (keypool : Nat) : List Call → CWallet → Except String CWallet
  | [], w => .ok w
  | call :: calls, w => step keypool w call >>= run keypool calls

structure Exclusive (w : CWallet) : Prop where
  recorded : ∀ nIndex ∈ w.setKeyPool, (w.pool nIndex).isSome
  single : ∀ r ∈ w.reserved, ∀ r' ∈ w.reserved, r.vchPubKey = r'.vchPubKey → r = r'
  unkept : ∀ r ∈ w.reserved, r.vchPubKey ∉ w.kept

/-- If keys are added, every reserved index is below the last one of the set. -/
def toppable (locked : Bool) (target : Nat) (w : CWallet) : Bool :=
  locked || target ≤ w.setKeyPool.card || w.reserved.all (·.nIndex < nEnd w)

/-- New indices are not those of reserved keys. -/
def careful (keypool : Nat) (w : CWallet) : Call → Bool
  | .topUpKeyPool locked nSize => toppable locked (targetSize keypool nSize) w
  | .newKeyPool locked => locked || w.reserved.all (keypool < ·.nIndex)
  | .getReservedKey locked holder =>
    (reservation holder w).isSome || toppable locked (targetSize keypool 0) w
  | .getKeyFromPool locked => toppable locked (targetSize keypool 0) w
  | _ => true

def carefulRun (keypool : Nat) : List Call → CWallet → Bool
  | [], _ => true
  | call :: calls, w => careful keypool w call &&
    match step keypool w call with
    | .ok next => carefulRun keypool calls next
    | .error _ => true

/-- Records belong to one index each, and reserved indices have left the set. -/
structure Sound (w : CWallet) : Prop where
  recorded : ∀ i ∈ w.setKeyPool, (w.pool i).isSome
  held : ∀ r ∈ w.reserved, w.pool r.nIndex = some r.vchPubKey ∧ r.nIndex ∉ w.setKeyPool
  once : ∀ r ∈ w.reserved, ∀ r' ∈ w.reserved, r.nIndex = r'.nIndex → r = r'
  inj : ∀ i j key, w.pool i = some key → w.pool j = some key → i = j
  fresh : ∀ i key, w.pool i = some key → key < w.nextKey ∧ key ∉ w.kept
  old : ∀ key ∈ w.kept, key < w.nextKey

/-- A key that is neither in the set nor reserved. -/
def Loose (nIndex key : Nat) (w : CWallet) : Prop :=
  w.pool nIndex = some key ∧ nIndex ∉ w.setKeyPool ∧ ∀ r ∈ w.reserved, r.nIndex ≠ nIndex

theorem Sound.exclusive (h : Sound w) : Exclusive w := by
  refine ⟨h.recorded, fun r hr r' hr' heq => ?_, fun r hr => (h.fresh _ _ (h.held r hr).1).2⟩
  refine h.once r hr r' hr' (h.inj _ _ r.vchPubKey (h.held r hr).1 ?_)
  rw [heq]
  exact (h.held r' hr').1

theorem sound_writePool (h : Sound w) (hnew : ∀ r ∈ w.reserved, r.nIndex ≠ i) :
    Sound (writePool i w) := by
  cases h
  constructor <;> simp only [writePool, update_apply] <;> grind

theorem sound_keepKey (h : Sound w) (hloose : Loose i key w) : Sound (keepKey i key w) := by
  cases h
  constructor <;> simp only [keepKey, erasePool, Finset.mem_singleton] <;> grind [Loose]

theorem sound_returnKey (h : Sound w) (hloose : Loose i key w) : Sound (returnKey i w) := by
  cases h
  constructor <;> simp only [returnKey] <;> grind [Loose]

theorem sound_release (h : Sound w) (hfound : reservation holder w = some r) :
    Sound (release holder w) ∧ Loose r.nIndex r.vchPubKey (release holder w) := by
  cases h
  have hmem := List.mem_of_find?_eq_some hfound
  have hholder := List.find?_some hfound
  refine ⟨?_, ?_⟩
  · constructor <;> simp only [release] <;> grind
  · simp only [Loose, release]
    grind

theorem sound_topUpKeyPool (h : Sound w) (hc : toppable locked target w = true) :
    Sound (topUpKeyPool locked target w) := by
  have hiterate : ∀ n w, Sound w → (∀ r ∈ w.reserved, r.nIndex < nEnd w) →
      Sound ((fun w => writePool (nEnd w) w)^[n] w) := by
    intro n
    induction n with
    | zero => exact fun w h _ => h
    | succ n ih =>
      intro w h hbelow
      rw [iterate_succ_apply]
      refine ih _ (sound_writePool h fun r hr => (hbelow r hr).ne) fun r hr => ?_
      have hlt := hbelow r hr
      simp only [nEnd, writePool, Finset.sup_insert, id_eq] at hlt ⊢
      omega
  rw [topUpKeyPool]
  split
  · exact h
  rename_i hlocked
  simp only [toppable, hlocked, Bool.false_or, Bool.or_eq_true, decide_eq_true_eq,
    List.all_eq_true] at hc
  rcases hc with hfull | hbelow
  · rw [Nat.sub_eq_zero_of_le hfull]
    exact h
  · exact hiterate _ w h hbelow

theorem sound_newKeyPool (h : Sound w)
    (hc : (locked || w.reserved.all (nKeys < ·.nIndex)) = true) : Sound (newKeyPool locked nKeys w) := by
  have herased : Sound { erasePool w.setKeyPool w with setKeyPool := ∅ } := by
    cases h
    constructor <;> simp only [erasePool] <;> grind
  rw [newKeyPool]
  split
  · exact herased
  rename_i hlocked
  simp only [hlocked, Bool.false_or, List.all_eq_true, decide_eq_true_eq] at hc
  -- the loop keeps the reservations, and writes no index above `nKeys`
  refine (List.foldlRecOn (motive := fun w' => Sound w' ∧ w'.reserved = w.reserved)
    (List.range nKeys) _ ⟨herased, rfl⟩ fun w' hw' i hi => ?_).1
  refine ⟨sound_writePool hw'.1 fun r hr => ?_, hw'.2⟩
  have hlt := hc r (hw'.2 ▸ hr)
  have hle := List.mem_range.mp hi
  omega

theorem sound_reserveKeyFromKeyPool (h : Sound w) (hc : toppable locked target w = true) :
    ∃ taken next, reserveKeyFromKeyPool locked target w = .ok (taken, next) ∧ Sound next ∧
      ∀ i key, taken = some (i, key) → Loose i key next := by
  have htop := sound_topUpKeyPool h hc
  rw [reserveKeyFromKeyPool]
  generalize topUpKeyPool locked target w = w at htop
  dsimp only
  split
  · rename_i hne
    have hmem := w.setKeyPool.min'_mem hne
    generalize w.setKeyPool.min' hne = i at hmem
    obtain ⟨key, hkey⟩ := Option.isSome_iff_exists.mp (htop.recorded i hmem)
    cases htop
    rw [hkey]
    refine ⟨_, _, rfl, ?_, ?_⟩
    · constructor <;> grind
    · grind [Loose]
  · exact ⟨none, w, rfl, htop, nofun⟩

theorem sound_step (h : Sound w) (hc : careful keypool w call = true) :
    ∃ next, step keypool w call = .ok next ∧ Sound next := by
  cases call with
  | topUpKeyPool locked nSize => exact ⟨_, rfl, sound_topUpKeyPool h hc⟩
  | newKeyPool locked => exact ⟨_, rfl, sound_newKeyPool h hc⟩
  | getReservedKey locked holder =>
    rw [step]
    cases hfound : reservation holder w with
    | some r => exact ⟨w, rfl, h⟩
    | none =>
      rw [careful, hfound] at hc
      obtain ⟨taken, next, heq, hnext, htaken⟩ := sound_reserveKeyFromKeyPool h hc
      rw [heq]
      rcases taken with - | ⟨i, key⟩
      · exact ⟨next, rfl, hnext⟩
      · have hloose := htaken i key rfl
        refine ⟨_, rfl, ?_⟩
        cases hnext
        constructor <;> grind [Loose]
  | getKeyFromPool locked =>
    obtain ⟨taken, next, heq, hnext, htaken⟩ := sound_reserveKeyFromKeyPool h hc
    rw [step, heq]
    rcases taken with - | ⟨i, key⟩
    · exact ⟨next, rfl, hnext⟩
    · exact ⟨_, rfl, sound_keepKey hnext (htaken i key rfl)⟩
  | keepKey holder =>
    rw [step]
    cases hfound : reservation holder w with
    | none => exact ⟨w, rfl, h⟩
    | some r =>
      obtain ⟨hfree, hloose⟩ := sound_release h hfound
      exact ⟨_, rfl, sound_keepKey hfree hloose⟩
  | returnKey holder =>
    rw [step]
    cases hfound : reservation holder w with
    | none => exact ⟨w, rfl, h⟩
    | some r =>
      obtain ⟨hfree, hloose⟩ := sound_release h hfound
      exact ⟨_, rfl, sound_returnKey hfree hloose⟩

theorem sound_run (h : Sound w) (hcareful : carefulRun keypool calls w = true) :
    ∃ final, run keypool calls w = .ok final ∧ Sound final := by
  induction calls generalizing w with
  | nil => exact ⟨w, rfl, h⟩
  | cons call calls ih =>
    obtain ⟨hcall, hcalls⟩ := Bool.and_eq_true_iff.mp hcareful
    obtain ⟨next, hnext, hsound⟩ := sound_step h hcall
    rw [hnext] at hcalls
    rw [run, hnext]
    exact ih hsound hcalls

def newWallet : CWallet := ⟨∅, fun _ => none, 0, [], []⟩

theorem sound_newWallet : Sound newWallet := by
  constructor <;> simp [newWallet]

/-- While no index of a reserved key is written again, no call throws, and every key has
one holder at most. -/
theorem keyPool_exclusive (keypool : Nat) (calls : List Call)
    (h : carefulRun keypool calls newWallet = true) :
    ∃ final, run keypool calls newWallet = .ok final ∧ Exclusive final := by
  obtain ⟨final, hrun, hsound⟩ := sound_run sound_newWallet h
  exact ⟨final, hrun, hsound.exclusive⟩

/-- Two holders reserve a key each, then one keeps its key and the other returns its. -/
def keepAndReturn : List Call :=
  [.getReservedKey false 0, .getReservedKey false 1, .keepKey 0, .returnKey 1]

theorem keyPool_exclusive_two : carefulRun 1 keepAndReturn newWallet = true ∧
    ∃ final, run 1 keepAndReturn newWallet = .ok final ∧ Exclusive final :=
  ⟨by decide, keyPool_exclusive 1 _ (by decide)⟩

/-- With `-keypool=0` both holders get the index 1: when one keeps its key, the other
one returns an index without a record, and when one returns its index, the key of the
other one is reserved again. -/
theorem keyPool_index_twice :
    run 0 (keepAndReturn ++ [.getReservedKey false 2]) newWallet =
        .error "ReserveKeyFromKeyPool() : read failed" ∧
      ∃ final, run 0 [.getReservedKey false 0, .getReservedKey false 1, .returnKey 0,
          .getReservedKey false 2] newWallet = .ok final ∧ ¬ Exclusive final := by
  refine ⟨rfl, _, rfl, fun h => ?_⟩
  exact absurd (h.single ⟨1, 1, 1⟩ (by decide) ⟨2, 1, 1⟩ (by decide) rfl) (by decide)

end Bfx.KeyPool
