import Mathlib

/-!
A log of entries that spend slots of earlier entries and bring slots of their
own, and a view of the log: for every id the newest entry with the positions at
which its slots were spent. Entries come and go at the new end of the log. An id
may be used again once all slots of the entry before are spent; that entry is
lost from the view, also after the second one is gone.

Logs are lists with the newest entry first.
-/

namespace Bfx.SpentLog

open Function List

section Views

variable {ι π : Type} [DecidableEq ι]

structure Entry (ι π : Type) where
  id : ι
  pos : π
  spends : List (ι × Nat)
  size : Nat

/-- An entry in a view, with the position that has spent it for each of its slots. -/
structure Record (π : Type) where
  pos : π
  slots : List (Option π)

abbrev View (ι π : Type) := ι → Option (Record π)

def Record.setSlots (record : Record π) (isSet : Nat → Prop) [DecidablePred isSet]
    (value : Option π) : Record π :=
  { record with slots := record.slots.mapIdx fun n slot => if isSet n then value else slot }

def setSlots (view : View ι π) (coins : List (ι × Nat)) (value : Option π) : View ι π :=
  fun id => (view id).map fun record => record.setSlots (fun n => (id, n) ∈ coins) value

def Unspent (view : View ι π) (coin : ι × Nat) : Prop :=
  ∃ record, view coin.1 = some record ∧ record.slots[coin.2]? = some none

/-- No slot of the id is left. -/
def AllSpent (view : View ι π) (id : ι) : Prop :=
  ∀ record, view id = some record → none ∉ record.slots

def append (view : View ι π) (entry : Entry ι π) : View ι π :=
  update (setSlots view entry.spends (some entry.pos)) entry.id
    (some ⟨entry.pos, List.replicate entry.size none⟩)

def remove (view : View ι π) (entry : Entry ι π) : View ι π :=
  update (setSlots view entry.spends none) entry.id none

/-- The view of a log that has only grown. -/
def replay : List (Entry ι π) → View ι π
  | [] => fun _ => none
  | entry :: log => append (replay log) entry

/-- An entry may come next: it spends slots that are left, each once, and its id is
not in use. -/
structure Fits (view : View ι π) (entry : Entry ι π) : Prop where
  nodup : entry.spends.Nodup
  unspent : ∀ coin ∈ entry.spends, Unspent view coin
  spent : AllSpent view entry.id

def Valid : List (Entry ι π) → Prop
  | [] => True
  | entry :: log => Fits (replay log) entry ∧ Valid log

theorem Record.setSlots_eq_self {record : Record π} [DecidablePred isSet]
    (h : ∀ n slot, record.slots[n]? = some slot → isSet n → slot = value) :
    record.setSlots isSet value = record := by
  rcases record with ⟨pos, slots⟩
  rw [Record.setSlots]
  congr 1
  refine ext_getElem? fun n => ?_
  rw [List.getElem?_mapIdx]
  rcases hslot : slots[n]? with _ | slot
  · rfl
  rw [Option.map_some]
  split
  · rename_i hset
    rw [h n slot hslot hset]
  · rfl

theorem Record.setSlots_setSlots (record : Record π) (isSet : Nat → Prop) [DecidablePred isSet]
    (value value' : Option π) :
    (record.setSlots isSet value).setSlots isSet value' = record.setSlots isSet value' := by
  rw [Record.setSlots, Record.setSlots, Record.setSlots]
  congr 1
  rw [mapIdx_mapIdx]
  congr 1
  funext n slot
  rw [comp_apply]
  split
  · rfl
  · rfl

theorem setSlots_append (view : View ι π) (coins coins' : List (ι × Nat)) (value : Option π) :
    setSlots (setSlots view coins value) coins' value = setSlots view (coins ++ coins') value := by
  funext id
  rw [setSlots, setSlots, setSlots, Option.map_map]
  congr 1
  funext record
  rw [comp_apply, Record.setSlots, Record.setSlots, Record.setSlots, mapIdx_mapIdx]
  congr 2
  funext n slot
  rw [comp_apply]
  simp only [mem_append]
  split_ifs <;> simp_all

theorem setSlots_of_notMem {view : View ι π} {id : ι} (h : ∀ coin ∈ coins, coin.1 ≠ id)
    (value : Option π) : setSlots view coins value id = view id := by
  rw [setSlots]
  rcases view id with _ | record
  · rfl
  · rw [Option.map_some, Record.setSlots_eq_self]
    exact fun n _ _ hmem => absurd rfl (h _ hmem)

@[simp] theorem setSlots_nil (view : View ι π) (value : Option π) :
    setSlots view [] value = view := by
  funext id
  exact setSlots_of_notMem (fun coin hcoin => absurd hcoin not_mem_nil) value

theorem setSlots_none_setSlots {view : View ι π} (h : ∀ coin ∈ coins, Unspent view coin)
    (value : Option π) : setSlots (setSlots view coins value) coins none = view := by
  funext id
  rw [setSlots, setSlots, Option.map_map]
  rcases hview : view id with _ | record
  · rfl
  rw [Option.map_some, comp_apply, Record.setSlots_setSlots, Record.setSlots_eq_self]
  intro n slot hslot hmem
  obtain ⟨record', hrecord, hnone⟩ := h _ hmem
  obtain rfl := Option.mem_unique hview hrecord
  rw [hslot] at hnone
  exact Option.some.inj hnone

theorem AllSpent.setSlots {id : ι} (h : AllSpent view id) (coins : List (ι × Nat)) (pos : π) :
    AllSpent (SpentLog.setSlots view coins (some pos)) id := by
  intro record hrecord hnone
  obtain ⟨before, hbefore, rfl⟩ := Option.map_eq_some_iff.mp hrecord
  obtain ⟨n, hn⟩ := mem_iff_getElem?.mp hnone
  rw [Record.setSlots, List.getElem?_mapIdx, Option.map_eq_some_iff] at hn
  obtain ⟨slot, hslot, hn⟩ := hn
  split at hn
  · cases hn
  · subst hn
    exact h before hbefore (mem_of_getElem? hslot)

theorem AllSpent.append {id : ι} (h : AllSpent view id) (hne : id ≠ entry.id) :
    AllSpent (SpentLog.append view entry) id := by
  intro record hrecord
  rw [SpentLog.append, update_of_ne hne] at hrecord
  exact h.setSlots _ _ record hrecord

end Views

section Exactness

variable {ι π : Type} [DecidableEq ι]

def spenders (coin : ι × Nat) (log : List (Entry ι π)) : List π :=
  log.flatMap fun entry => (entry.spends.filter (· == coin)).map fun _ => entry.pos

/-- What comes behind an entry before its id is used again. -/
def lifetime (id : ι) (later : List (Entry ι π)) : List (Entry ι π) :=
  (later.reverse.takeWhile fun entry => entry.id ≠ id).reverse

theorem Valid.append_right {later log : List (Entry ι π)} (h : Valid (later ++ log)) :
    Valid log := by
  induction later with
  | nil => exact h
  | cons entry later ih => exact ih h.2

theorem replay_exact {entry : Entry ι π} (hvalid : Valid (later ++ entry :: earlier))
    (hlater : ∀ other ∈ later, other.id ≠ entry.id) :
    ∃ slots, replay (later ++ entry :: earlier) entry.id = some ⟨entry.pos, slots⟩ ∧
      slots.length = entry.size ∧
      ∀ n, n < entry.size → ∃ slot, slots[n]? = some slot ∧
        spenders (entry.id, n) later = slot.toList := by
  induction later with
  | nil =>
    refine ⟨List.replicate entry.size none, ?_, length_replicate, fun n hn => ?_⟩
    · rw [nil_append, replay, append, update_self]
    · exact ⟨none, List.getElem?_replicate_of_lt hn, rfl⟩
  | cons newest later ih =>
    obtain ⟨hne, hlater⟩ := forall_mem_cons.mp hlater
    obtain ⟨hfits, hvalid⟩ := hvalid
    obtain ⟨slots, hreplay, hlength, hslots⟩ := ih hvalid hlater
    refine ⟨slots.mapIdx fun n slot =>
      if (entry.id, n) ∈ newest.spends then some newest.pos else slot, ?_, ?_, fun n hn => ?_⟩
    · rw [cons_append, replay, append, update_of_ne (Ne.symm hne), setSlots, hreplay,
        Option.map_some, Record.setSlots]
    · rw [length_mapIdx, hlength]
    obtain ⟨slot, hslot, hspenders⟩ := hslots n hn
    rw [List.getElem?_mapIdx, hslot, Option.map_some]
    by_cases hmem : (entry.id, n) ∈ newest.spends
    · -- the slot was not spent before
      obtain ⟨record, hrecord, hnone⟩ := hfits.unspent _ hmem
      obtain rfl := Option.mem_unique hreplay hrecord
      obtain rfl := Option.mem_unique hslot hnone
      refine ⟨some newest.pos, ?_, ?_⟩
      · rw [if_pos hmem]
      · rw [spenders, flatMap_cons, filter_beq, count_eq_one_of_mem hfits.nodup hmem, ← spenders,
          hspenders]
        rfl
    refine ⟨slot, ?_, ?_⟩
    · rw [if_neg hmem]
    · rw [← hspenders, spenders, flatMap_cons, filter_beq, count_eq_zero_of_not_mem hmem]
      rfl

theorem exists_of_replay_eq_some {id : ι} {record : Record π} (h : replay log id = some record) :
    ∃ later entry earlier, log = later ++ entry :: earlier ∧ entry.id = id ∧
      ∀ other ∈ later, other.id ≠ id := by
  induction log generalizing record with
  | nil => cases h
  | cons newest log ih =>
    by_cases hid : newest.id = id
    · exact ⟨[], newest, log, rfl, hid, nofun⟩
    rw [replay, append, update_of_ne (Ne.symm hid)] at h
    obtain ⟨before, hbefore, -⟩ := Option.map_eq_some_iff.mp h
    obtain ⟨later, entry, earlier, rfl, hentry, hlater⟩ := ih hbefore
    exact ⟨newest :: later, entry, earlier, rfl, hentry, forall_mem_cons.mpr ⟨hid, hlater⟩⟩

theorem replay_eq_none {log : List (Entry ι π)} {id : ι} (h : ∀ entry ∈ log, entry.id ≠ id) :
    replay log id = none := by
  rcases hreplay : replay log id with _ | record
  · rfl
  · obtain ⟨later, entry, earlier, rfl, hid, -⟩ := exists_of_replay_eq_some hreplay
    exact absurd hid (h entry (by simp))

theorem Valid.spends_created {entry : Entry ι π} (h : Valid (later ++ entry :: earlier)) :
    ∀ coin ∈ entry.spends, ∃ created ∈ earlier, created.id = coin.1 ∧ coin.2 < created.size := by
  intro coin hcoin
  obtain ⟨hfits, hvalid⟩ := h.append_right
  obtain ⟨record, hrecord, hslot⟩ := hfits.unspent coin hcoin
  obtain ⟨between, created, before, rfl, hid, hbetween⟩ := exists_of_replay_eq_some hrecord
  obtain ⟨slots, hreplay, hlength, -⟩ := replay_exact hvalid fun other hother =>
    hid ▸ hbetween other hother
  rw [hid, hrecord] at hreplay
  cases hreplay
  obtain ⟨hlt, -⟩ := List.getElem?_eq_some_iff.mp hslot
  exact ⟨created, by simp, hid, hlength ▸ hlt⟩

theorem spenders_of_allSpent {entry : Entry ι π} (hvalid : Valid (later ++ entry :: earlier))
    (hlater : ∀ other ∈ later, other.id ≠ entry.id)
    (hspent : AllSpent (replay (later ++ entry :: earlier)) entry.id) :
    ∀ n, n < entry.size → ∃ pos, spenders (entry.id, n) later = [pos] := by
  intro n hn
  obtain ⟨slots, hreplay, -, hslots⟩ := replay_exact hvalid hlater
  obtain ⟨slot, hslot, hspenders⟩ := hslots n hn
  rcases slot with _ | pos
  · exact absurd (mem_of_getElem? hslot) (hspent _ hreplay)
  · exact ⟨pos, hspenders⟩

theorem lifetime_of_forall {id : ι} {later : List (Entry ι π)} (h : ∀ entry ∈ later, entry.id ≠ id) :
    lifetime id later = later := by
  rw [lifetime, takeWhile_eq_self_iff.mpr, reverse_reverse]
  intro entry hentry
  exact decide_eq_true (h entry (mem_reverse.mp hentry))

theorem lifetime_split {id : ι} {later : List (Entry ι π)} (h : ∃ entry ∈ later, entry.id = id) :
    ∃ newer again, later = newer ++ again :: lifetime id later ∧ again.id = id ∧
      ∀ entry ∈ lifetime id later, entry.id ≠ id := by
  obtain ⟨again, rest, hdrop⟩ : ∃ again rest,
      later.reverse.dropWhile (fun entry => decide (entry.id ≠ id)) = again :: rest := by
    rcases hdrop : later.reverse.dropWhile (fun entry => decide (entry.id ≠ id)) with
      _ | ⟨again, rest⟩
    · obtain ⟨entry, hentry, hid⟩ := h
      have hall := dropWhile_eq_nil_iff.mp hdrop entry (mem_reverse.mpr hentry)
      exact absurd hid (of_decide_eq_true hall)
    · exact ⟨again, rest, hdrop⟩
  refine ⟨rest.reverse, again, ?_, ?_, ?_⟩
  · have hsplit := takeWhile_append_dropWhile (p := fun entry => decide (entry.id ≠ id))
      (l := later.reverse)
    rw [hdrop] at hsplit
    have hreverse := congrArg List.reverse hsplit
    rw [reverse_reverse, reverse_append, reverse_cons, append_assoc] at hreverse
    exact hreverse.symm
  · have hhead := List.head?_dropWhile_not (fun entry => decide (entry.id ≠ id)) later.reverse
    rw [hdrop] at hhead
    simpa using hhead
  intro entry hentry
  rw [lifetime, mem_reverse] at hentry
  have hne := mem_takeWhile_imp hentry
  exact of_decide_eq_true hne

end Exactness

section Tracking

variable {ι π : Type} [DecidableEq ι]

/-- An entry of a log and whether its id has been used again since. -/
structure Marked (ι π : Type) where
  entry : Entry ι π
  overwritten : Bool

def mark (id : ι) (log : List (Marked ι π)) : List (Marked ι π) :=
  log.map fun marked => { marked with overwritten := marked.overwritten || marked.entry.id == id }

def push (log : List (Marked ι π)) (entry : Entry ι π) : List (Marked ι π) :=
  ⟨entry, false⟩ :: mark entry.id log

def entries (log : List (Marked ι π)) : List (Entry ι π) := log.map Marked.entry

def isOverwritten (log : List (Marked ι π)) (id : ι) : Bool :=
  match log.find? fun marked => marked.entry.id == id with
  | some marked => marked.overwritten
  | none => false

/-- A view belongs to a log: it is that of the log without the entries that were
overwritten. -/
structure Tracks (log : List (Marked ι π)) (view : View ι π) : Prop where
  valid : Valid (entries log)
  view_eq : ∀ id, view id = if isOverwritten log id then none else replay (entries log) id
  spent : ∀ id, isOverwritten log id = true → AllSpent (replay (entries log)) id
  marked : log.Pairwise fun newer older => newer.entry.id = older.entry.id →
    older.overwritten = true

theorem Tracks.nil : Tracks ([] : List (Marked ι π)) fun _ => none :=
  ⟨trivial, fun _ => rfl, fun _ h => (nomatch h), .nil⟩

@[simp] theorem entries_mark (id : ι) (log : List (Marked ι π)) :
    entries (mark id log) = entries log := by
  rw [entries, mark, map_map, entries]
  rfl

theorem isOverwritten_cons (newest : Marked ι π) (log : List (Marked ι π)) (id : ι) :
    isOverwritten (newest :: log) id =
      if newest.entry.id = id then newest.overwritten else isOverwritten log id := by
  by_cases hid : newest.entry.id = id
  · rw [isOverwritten, List.find?_cons, beq_iff_eq.mpr hid, if_pos hid]
  · rw [isOverwritten, List.find?_cons, beq_eq_false_iff_ne.mpr hid, if_neg hid, isOverwritten]

theorem isOverwritten_of_forall {log : List (Marked ι π)} {id : ι}
    (hmem : ∃ marked ∈ log, marked.entry.id = id)
    (hall : ∀ marked ∈ log, id = marked.entry.id → marked.overwritten = true) :
    isOverwritten log id = true := by
  obtain ⟨marked, hmarked, hid⟩ := hmem
  have hfound : (log.find? fun marked => marked.entry.id == id).isSome :=
    List.find?_isSome.mpr ⟨marked, hmarked, beq_iff_eq.mpr hid⟩
  obtain ⟨newest, hnewest⟩ := Option.isSome_iff_exists.mp hfound
  have hnewestId := List.find?_some hnewest
  rw [isOverwritten, hnewest]
  exact hall newest (mem_of_find?_eq_some hnewest) (beq_iff_eq.mp hnewestId).symm

theorem isOverwritten_mark_of_ne {id other : ι} (hne : other ≠ id) (log : List (Marked ι π)) :
    isOverwritten (mark other log) id = isOverwritten log id := by
  induction log with
  | nil => rfl
  | cons newest log ih =>
    rw [mark, map_cons, isOverwritten_cons, isOverwritten_cons, ← mark, ih]
    dsimp only
    split
    · rename_i hid
      rw [hid, beq_eq_false_iff_ne.mpr (Ne.symm hne), Bool.or_false]
    · rfl

theorem Tracks.fits (h : Tracks log view) {entry : Entry ι π} (hfits : Fits view entry) :
    Fits (replay (entries log)) entry := by
  refine ⟨hfits.nodup, fun coin hcoin => ?_, ?_⟩
  swap
  · cases hmark : isOverwritten log entry.id with
    | true => exact h.spent _ hmark
    | false =>
      intro record hrecord
      refine hfits.spent record ?_
      rw [h.view_eq, hmark, hrecord]
      rfl
  obtain ⟨record, hrecord, hslot⟩ := hfits.unspent coin hcoin
  have heq := h.view_eq coin.1
  rw [hrecord] at heq
  split at heq
  · cases heq
  · exact ⟨record, heq.symm, hslot⟩

theorem Tracks.push {view : View ι π} (h : Tracks log view) {entry : Entry ι π}
    (hfits : Fits view entry) : Tracks (SpentLog.push log entry) (SpentLog.append view entry) := by
  have hentries : entries (SpentLog.push log entry) = entry :: entries log := by
    rw [entries, SpentLog.push, map_cons, ← entries, entries_mark]
  have hmark : ∀ id, isOverwritten (SpentLog.push log entry) id =
      if entry.id = id then false else isOverwritten log id := by
    intro id
    rw [SpentLog.push, isOverwritten_cons]
    split
    · rfl
    · rename_i hne
      exact isOverwritten_mark_of_ne hne log
  refine ⟨?_, fun id => ?_, fun id hid => ?_, ?_⟩
  · rw [hentries]
    exact ⟨h.fits hfits, h.valid⟩
  · rw [hentries, hmark, replay, SpentLog.append, SpentLog.append]
    rcases eq_or_ne entry.id id with rfl | hne
    · rw [update_self, update_self, if_pos rfl]
      rfl
    rw [update_of_ne (Ne.symm hne), update_of_ne (Ne.symm hne), if_neg hne, setSlots, h.view_eq]
    cases isOverwritten log id with
    | true => rfl
    | false => rfl
  · rw [hmark] at hid
    split at hid
    · cases hid
    rename_i hne
    rw [hentries]
    exact (h.spent id hid).append (Ne.symm hne)
  rw [SpentLog.push, pairwise_cons]
  constructor
  · intro older holder hid
    obtain ⟨before, -, rfl⟩ := mem_map.mp holder
    dsimp only at hid ⊢
    rw [← hid, beq_self_eq_true, Bool.or_true]
  · refine pairwise_map.mpr (h.marked.imp fun holder hid => ?_)
    rw [holder hid, Bool.true_or]

/-- The newest entry goes, if all that it spends can be read. -/
theorem Tracks.remove {newest : Marked ι π} {log : List (Marked ι π)} {view : View ι π}
    (h : Tracks (newest :: log) view)
    (hreads : ∀ coin ∈ newest.entry.spends, (view coin.1).isSome = true) :
    Tracks log (SpentLog.remove view newest.entry) := by
  obtain ⟨hfits, hvalid⟩ := h.valid
  obtain ⟨hnewest, hmarked⟩ := pairwise_cons.mp h.marked
  refine ⟨hvalid, fun id => ?_, fun id hid => ?_, hmarked⟩
  · rw [SpentLog.remove]
    rcases eq_or_ne newest.entry.id id with rfl | hne
    · rw [update_self]
      cases hmark : isOverwritten log newest.entry.id with
      | true => rfl
      | false =>
        refine (replay_eq_none fun entry hentry hid => ?_).symm
        obtain ⟨older, holder, rfl⟩ := mem_map.mp hentry
        rw [isOverwritten_of_forall ⟨older, holder, hid⟩ hnewest] at hmark
        cases hmark
    rw [update_of_ne (Ne.symm hne), setSlots, h.view_eq, isOverwritten_cons, if_neg hne]
    cases isOverwritten log id with
    | true => rfl
    | false =>
      have hback := congrFun (setSlots_none_setSlots hfits.unspent (some newest.entry.pos)) id
      rw [setSlots] at hback
      rw [if_neg Bool.false_ne_true, if_neg Bool.false_ne_true, entries, map_cons, replay,
        append, update_of_ne (Ne.symm hne)]
      exact hback
  rcases eq_or_ne newest.entry.id id with rfl | hne
  · exact hfits.spent
  have hnewestMark : isOverwritten (newest :: log) id = true := by
    rw [isOverwritten_cons, if_neg hne, hid]
  have hview := h.view_eq id
  rw [hnewestMark, if_pos rfl] at hview
  -- an overwritten entry cannot be read, so nothing was spent from it
  have hother : ∀ coin ∈ newest.entry.spends, coin.1 ≠ id := by
    rintro coin hcoin rfl
    have hsome := hreads coin hcoin
    rw [hview] at hsome
    cases hsome
  intro record hrecord
  refine h.spent id hnewestMark record ?_
  rw [entries, map_cons, replay, append, update_of_ne (Ne.symm hne), setSlots_of_notMem hother]
  exact hrecord

theorem isOverwritten_append (hlater : ∀ newer ∈ later, newer.entry.id ≠ marked.entry.id)
    (earlier : List (Marked ι π)) :
    isOverwritten (later ++ marked :: earlier) marked.entry.id = marked.overwritten := by
  induction later with
  | nil => rw [nil_append, isOverwritten_cons, if_pos rfl]
  | cons newest later ih =>
    obtain ⟨hnewest, hlater⟩ := forall_mem_cons.mp hlater
    rw [cons_append, isOverwritten_cons, if_neg hnewest, ih hlater]

theorem Tracks.valid_append {marked : Marked ι π} (h : Tracks (later ++ marked :: earlier) view) :
    Valid (entries later ++ marked.entry :: entries earlier) := by
  have hvalid := h.valid
  rw [entries, map_append, map_cons] at hvalid
  exact hvalid

theorem Tracks.not_used_again {marked : Marked ι π} (h : Tracks (later ++ marked :: earlier) view)
    (hmark : marked.overwritten = false) : ∀ newer ∈ later, newer.entry.id ≠ marked.entry.id := by
  intro newer hnewer hid
  have hpair := (pairwise_append.mp h.marked).2.2 newer hnewer marked mem_cons_self hid
  rw [hmark] at hpair
  cases hpair

theorem Tracks.exact {marked : Marked ι π} (h : Tracks (later ++ marked :: earlier) view)
    (hmark : marked.overwritten = false) :
    ∃ slots, view marked.entry.id = some ⟨marked.entry.pos, slots⟩ ∧
      slots.length = marked.entry.size ∧
      ∀ n, n < marked.entry.size → ∃ slot, slots[n]? = some slot ∧
        spenders (marked.entry.id, n) (entries later) = slot.toList := by
  have hlater := h.not_used_again hmark
  have hview := h.view_eq marked.entry.id
  rw [isOverwritten_append hlater, hmark, if_neg Bool.false_ne_true, entries, map_append,
    map_cons] at hview
  rw [hview]
  refine replay_exact h.valid_append fun other hother => ?_
  obtain ⟨newer, hnewer, rfl⟩ := mem_map.mp hother
  exact hlater newer hnewer

/-- An entry that is overwritten has been spent before, slot by slot. -/
theorem Tracks.overwritten {later earlier : List (Marked ι π)} {marked : Marked ι π}
    (h : Tracks (later ++ marked :: earlier) view) (hmark : marked.overwritten = true) :
    ∀ n, n < marked.entry.size → ∃ pos,
      spenders (marked.entry.id, n) (lifetime marked.entry.id (entries later)) = [pos] := by
  have hvalid := h.valid_append
  rcases Decidable.em (∃ entry ∈ entries later, entry.id = marked.entry.id) with hagain | hnone
  · obtain ⟨newer, again, hsplit, hid, hlifetime⟩ := lifetime_split hagain
    rw [hsplit, append_assoc] at hvalid
    obtain ⟨hfits, hvalid⟩ := hvalid.append_right
    exact spenders_of_allSpent hvalid hlifetime (hid ▸ hfits.spent)
  have hlater : ∀ entry ∈ entries later, entry.id ≠ marked.entry.id :=
    fun entry hentry hid => hnone ⟨entry, hentry, hid⟩
  rw [lifetime_of_forall hlater]
  refine spenders_of_allSpent hvalid hlater ?_
  have hspent := h.spent marked.entry.id ?_
  · rw [entries, map_append, map_cons] at hspent
    exact hspent
  · rw [isOverwritten_append fun newer hnewer => hlater _ (mem_map_of_mem hnewer), hmark]

end Tracking

end Bfx.SpentLog
