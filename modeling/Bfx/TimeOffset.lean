import Bfx.CallOutcome

/-!
The offset between the clock of the node and those of its peers: a median over the
samples of the peers, of which the last 200 are kept.
-/

namespace Bfx.TimeOffset

open List

/-- The values are of type `int64_t`. -/
structure CMedianFilter where
  nSize : Nat
  vValues : List Int
  vSorted : List Int

def CMedianFilter.new (size : Nat) (initial : Int) : CMedianFilter :=
  ⟨size, [initial], [initial]⟩

def CMedianFilter.input (filter : CMedianFilter) (value : Int) : CMedianFilter :=
  let vValues := (if filter.vValues.length = filter.nSize then filter.vValues.tail
    else filter.vValues) ++ [value]
  { filter with vValues := vValues, vSorted := vValues.insertionSort (· ≤ ·) }

/-- The assertion holds: a filter has at least one value. -/
def CMedianFilter.median (filter : CMedianFilter) : Int :=
  let size := filter.vSorted.length
  if size % 2 = 1 then filter.vSorted.getD (size / 2) 0
  else
    let sum := filter.vSorted.getD (size / 2 - 1) 0 + filter.vSorted.getD (size / 2) 0
    (sum.bmod (2 ^ 64)).tdiv 2

def abs64 (n : Int) : Int := if 0 ≤ n then n else (-n).bmod (2 ^ 64)

def clockWarning : String :=
  "Warning: Please check that your computer's date and time are correct! If " ++
    "your clock is wrong bfx will not work properly."

section Calls

variable {α : Type}

structure TimeData (α : Type) where
  setKnown : List α
  vTimeOffsets : CMedianFilter
  nTimeOffset : Int
  fDone : Bool
  strMiscWarning : String

def TimeData.new (α : Type) : TimeData α := ⟨[], .new 200 0, 0, false, ""⟩

/-- A call of `AddTimeData`, with the time of the system clock. -/
structure Call (α : Type) where
  ip : α
  nTime : Int
  getTime : Int

def Call.nOffsetSample (call : Call α) : Int := (call.nTime - call.getTime).bmod (2 ^ 64)

def updateOffset (data : TimeData α) : TimeData α :=
  let nMedian := data.vTimeOffsets.median
  if abs64 nMedian < 70 * 60 then { data with nTimeOffset := nMedian }
  else
    let fMatch := data.vTimeOffsets.vSorted.any fun nOffset =>
      nOffset ≠ 0 ∧ abs64 nOffset < 5 * 60
    { data with
      nTimeOffset := 0
      fDone := data.fDone || !fMatch
      strMiscWarning :=
        if !data.fDone && !fMatch then clockWarning else data.strMiscWarning }

def addTimeData [DecidableEq α] (data : TimeData α) (call : Call α) : TimeData α :=
  if call.ip ∈ data.setKnown then data
  else
    let vTimeOffsets := data.vTimeOffsets.input call.nOffsetSample
    let data := { data with setKnown := call.ip :: data.setKnown, vTimeOffsets := vTimeOffsets }
    let size := vTimeOffsets.vValues.length
    if 5 ≤ size ∧ size % 2 = 1 then updateOffset data else data

def run [DecidableEq α] (calls : List (Call α)) : TimeData α := calls.foldl addTimeData (.new α)

/-- The initial value and the samples, the last 200 of them. -/
def contents (calls : List (Call α)) : List Int :=
  (0 :: calls.map Call.nOffsetSample).drop (calls.length + 1 - 200)

def filterOf (values : List Int) : CMedianFilter := ⟨200, values, values.insertionSort (· ≤ ·)⟩

theorem vValues_filterOf (values : List Int) : (filterOf values).vValues = values := rfl

/-- What the offset should be. -/
def bounded (nMedian : Int) : Int := if |nMedian| < 4200 then nMedian else 0

theorem length_contents (calls : List (Call α)) :
    (contents calls).length = min (calls.length + 1) 200 := by
  rw [contents, length_drop, length_cons, length_map]
  omega

theorem contents_concat (calls : List (Call α)) (call : Call α) :
    contents (calls ++ [call]) =
      (if (contents calls).length = 200 then (contents calls).tail else contents calls) ++
        [call.nOffsetSample] := by
  rw [length_contents, contents, contents, map_append, length_append, ← cons_append,
    map_singleton, length_singleton, drop_append_of_le_length (by simp; omega)]
  split
  · rw [tail_drop, show calls.length + 1 + 1 - 200 = calls.length + 1 - 200 + 1 by omega]
  · rw [show calls.length + 1 + 1 - 200 = calls.length + 1 - 200 by omega]

theorem abs64_eq (hlow : -2 ^ 63 < n) (hhigh : n < 2 ^ 63) : abs64 n = |n| := by
  rw [abs64]
  split
  · rename_i hpos
    exact (abs_of_nonneg hpos).symm
  · rename_i hneg
    rw [abs_of_neg (Int.not_le.mp hneg)]
    exact Int.bmod_eq_of_le (by omega) (by omega)

theorem median_mem (hodd : values.length % 2 = 1) : (filterOf values).median ∈ values := by
  rw [filterOf, CMedianFilter.median]
  dsimp only
  rw [length_insertionSort, if_pos hodd, getD_eq_getElem _ _ (by rw [length_insertionSort]; omega)]
  exact (mem_insertionSort (· ≤ ·)).mp (getElem_mem _)

theorem abs64_of_mem_contents {calls : List (Call α)}
    (hleast : ∀ call ∈ calls, call.nOffsetSample ≠ -2 ^ 63) (hmem : value ∈ contents calls) :
    abs64 value = |value| := by
  rcases mem_cons.mp (mem_of_mem_drop hmem) with rfl | hsample
  · rfl
  obtain ⟨call, hcall, rfl⟩ := mem_map.mp hsample
  have hne := hleast call hcall
  rw [Call.nOffsetSample] at hne ⊢
  have hlow := @Int.le_bmod (call.nTime - call.getTime) (2 ^ 64) (by decide)
  have hhigh := @Int.bmod_lt (call.nTime - call.getTime) (2 ^ 64) (by decide)
  exact abs64_eq (by omega) (by omega)

variable [DecidableEq α] {calls : List (Call α)} {call : Call α}

/-- The addresses and the filter after the calls, and what the last call does to the offset. -/
theorem run_eq (hnodup : (calls.map (·.ip)).Nodup) :
    (run calls).setKnown = (calls.map (·.ip)).reverse ∧
      (run calls).vTimeOffsets = filterOf (contents calls) ∧
      ∀ init call, calls = init ++ [call] → (run calls).nTimeOffset =
        if 5 ≤ (contents calls).length ∧ (contents calls).length % 2 = 1 then
          let nMedian := (filterOf (contents calls)).median
          if abs64 nMedian < 70 * 60 then nMedian else 0
        else (run init).nTimeOffset := by
  induction calls using List.reverseRecOn with
  | nil =>
    refine ⟨rfl, ?_, fun init call hcalls => absurd hcalls.symm (append_ne_nil_of_right_ne_nil _ ?_)⟩
    · rw [contents, length_nil, Nat.zero_add, Nat.sub_eq_zero_of_le (by decide), drop_zero]
      rfl
    · exact cons_ne_nil _ _
  | append_singleton calls call ih =>
    rw [map_append, map_singleton, nodup_append] at hnodup
    obtain ⟨hknown, hfilter, -⟩ := ih hnodup.1
    have hnew : call.ip ∉ (run calls).setKnown := by
      rw [hknown, mem_reverse]
      exact fun hmem => hnodup.2.2 _ hmem _ (mem_singleton_self _) rfl
    have hinput : (run calls).vTimeOffsets.input call.nOffsetSample =
        filterOf (contents (calls ++ [call])) := by
      rw [hfilter, CMedianFilter.input, filterOf, filterOf, contents_concat]
    have hset : call.ip :: (run calls).setKnown = (map (·.ip) (calls ++ [call])).reverse := by
      rw [hknown, map_append, map_singleton, reverse_concat]
    rw [show run (calls ++ [call]) = addTimeData (run calls) call from
      foldl_concat _ _ _ _, addTimeData, if_neg hnew]
    dsimp only [updateOffset]
    rw [hinput, vValues_filterOf, hset]
    split
    · split <;> exact ⟨rfl, rfl, by simp⟩
    refine ⟨rfl, rfl, fun init _ hcalls => ?_⟩
    rw [(append_inj' hcalls rfl).1]

variable (hnodup : (calls.map (·.ip)).Nodup) (hleast : ∀ call ∈ calls, call.nOffsetSample ≠ -2 ^ 63)

include hnodup hleast

theorem nTimeOffset_concat (hsplit : calls = init ++ [call]) :
    (run calls).nTimeOffset =
      if 5 ≤ (contents calls).length ∧ (contents calls).length % 2 = 1 then
        bounded (filterOf (contents calls)).median
      else (run init).nTimeOffset := by
  obtain ⟨-, -, hoffset⟩ := run_eq hnodup
  rw [hoffset init call hsplit]
  dsimp only
  split
  · rename_i hupdate
    rw [abs64_of_mem_contents hleast (median_mem hupdate.2)]
    rfl
  · rfl

theorem abs_nTimeOffset_lt : |(run calls).nTimeOffset| < 4200 := by
  induction calls using List.reverseRecOn with
  | nil => exact (by decide : |(0 : Int)| < 4200)
  | append_singleton calls call ih =>
    rw [nTimeOffset_concat hnodup hleast rfl]
    split
    · rw [bounded]
      split
      · assumption
      · decide
    rw [map_append] at hnodup
    exact ih hnodup.of_append_left fun call hcall => hleast call (mem_append_left _ hcall)

/-- Up to 199 samples the offset is the bounded median of the contents, or of those before
the last call; it stays within its bound for ever. -/
theorem nTimeOffset_follows :
    |(run calls).nTimeOffset| < 4200 ∧
      (calls.length ≤ 199 → ∀ init call, calls = init ++ [call] → 5 ≤ (contents calls).length →
        ((contents calls).length % 2 = 1 →
          (run calls).nTimeOffset = bounded (filterOf (contents calls)).median) ∧
        ((contents calls).length % 2 = 0 →
          (run calls).nTimeOffset = bounded (filterOf (contents init)).median ∨
            (run calls).nTimeOffset = bounded (filterOf (contents calls)).median)) := by
  refine ⟨abs_nTimeOffset_lt hnodup hleast, fun hcount init call hcalls hfive => ?_⟩
  have hoffset := nTimeOffset_concat hnodup hleast hcalls
  refine ⟨fun hodd => ?_, fun heven => .inl ?_⟩
  · rw [hoffset, if_pos ⟨hfive, hodd⟩]
  rw [hoffset, if_neg (by omega)]
  have hsize := length_contents calls
  have hinit := length_contents init
  subst hcalls
  rw [length_append, length_singleton] at hcount hsize
  rw [map_append] at hnodup
  rcases eq_nil_or_concat' init with rfl | ⟨init', call', rfl⟩
  · rw [length_nil] at hsize
    omega
  rw [nTimeOffset_concat hnodup.of_append_left
    (fun call hcall => hleast call (mem_append_left _ hcall)) rfl, if_pos (by omega)]

end Calls

def peers (nTimes : List Int) : List (Call Nat) :=
  nTimes.mapIdx fun ip nTime => ⟨ip, nTime, 1000⟩

theorem nTimeOffset_fourPeers :
    |(run (peers [1010, 1020, 1030, 1040])).nTimeOffset| < 4200 ∧
      (run (peers [1010, 1020, 1030, 1040])).nTimeOffset = 20 := by
  obtain ⟨hbound, hfollows⟩ := nTimeOffset_follows
    (by decide : ((peers [1010, 1020, 1030, 1040]).map (·.ip)).Nodup) (by decide)
  refine ⟨hbound, ?_⟩
  rw [(hfollows (by decide) (peers [1010, 1020, 1030]) ⟨3, 1040, 1000⟩ rfl (by decide)).1 (by decide)]
  decide

/-- The offset does not follow the 200th sample, and a median of `-2 ^ 63` passes the test
of its absolute value. -/
theorem nTimeOffset_stuck :
    (run (peers (replicate 99 1000 ++ replicate 101 1100))).nTimeOffset = 0 ∧
      bounded (filterOf (contents (peers (replicate 99 1000 ++ replicate 100 1100)))).median = 50 ∧
      bounded (filterOf (contents (peers (replicate 99 1000 ++ replicate 101 1100)))).median = 100 ∧
      (run (peers (replicate 4 (1000 - 2 ^ 63)))).nTimeOffset = -2 ^ 63 := by
  decide +kernel

end Bfx.TimeOffset
