import Mathlib

/-!
Results of modelled C++ calls. A call returns, throws, or makes an access that
the language leaves undefined; the last case is kept apart from the second so
that memory safety can be stated.
-/

namespace Bfx.CallOutcome

open List

/-- The objects whose unchecked accesses are tracked. `tokenSlots` stands for
the parallel arrays `totalTokensLeftInInputs` and `tokensKindsInInputs`, which
always have one shape. -/
inductive Storage where
  | tokenSlots
  | vout
  | prevVout
  | scriptBin
  | vSpent
  | vtx
  | vin
  deriving DecidableEq, Repr

/-- The ways in which a call does not return. -/
inductive Fault where
  | thrown (what : String)
  | outOfBounds (storage : Storage)
  deriving DecidableEq, Repr

abbrev Outcome (α : Type) := Except Fault α

/-- `throw std::runtime_error(what)`. -/
def raise {α : Type} (what : String) : Outcome α :=
  .error (.thrown what)

/-- Unchecked `operator[]`. -/
def index {α : Type} (storage : Storage) (l : List α) (i : Nat) : Outcome α :=
  match l[i]? with
  | some a => .ok a
  | none => .error (.outOfBounds storage)

/-- Checked `at`. -/
def checkedAt {α : Type} (l : List α) (i : Nat) : Outcome α :=
  match l[i]? with
  | some a => .ok a
  | none => raise "vector::_M_range_check"

/-- The call makes no undefined access to one object. -/
def InBoundsAt {α : Type} (storage : Storage) (x : Outcome α) : Prop :=
  x ≠ .error (.outOfBounds storage)

/-- The call returns or throws: it makes no undefined access. -/
def InBounds {α : Type} (x : Outcome α) : Prop :=
  ∀ storage, InBoundsAt storage x

section Monad

variable {ε α β : Type}

@[simp] theorem ok_bind (a : α) (f : α → Except ε β) :
    ((.ok a : Except ε α) >>= f) = f a := rfl

@[simp] theorem error_bind (e : ε) (f : α → Except ε β) :
    ((.error e : Except ε α) >>= f) = .error e := rfl

@[simp] theorem raise_bind (what : String) (f : α → Outcome β) :
    ((raise what : Outcome α) >>= f) = raise what := rfl

@[simp] theorem raise_ne_ok (what : String) (a : α) :
    (raise what : Outcome α) ≠ .ok a := by
  simp [raise]

theorem bind_eq_ok {f : α → Except ε β} : (x >>= f) = .ok b ↔ ∃ a, x = .ok a ∧ f a = .ok b := by
  cases x with
  | error e => simp
  | ok a => simp

theorem exists_bind_iff {f : α → Except ε β}
    (h : ∀ a, x = .ok a → ((∃ b, f a = .ok b) ↔ p)) :
    (∃ b, (x >>= f) = .ok b) ↔ (∃ a, x = .ok a) ∧ p := by
  cases x with
  | error e => simp
  | ok a => simpa using h a rfl

theorem exists_of_isOk {x : Except ε α} (h : x.isOk = true) : ∃ a, x = .ok a := by
  cases x with
  | error e => cases h
  | ok a => exact ⟨a, rfl⟩

theorem exists_of_toOption {x : Except ε α} {p : α → Prop} [DecidablePred p]
    (h : x.toOption.any (fun a => decide (p a)) = true) : ∃ a, x = .ok a ∧ p a := by
  cases x with
  | error e => cases h
  | ok a => exact ⟨a, rfl, of_decide_eq_true h⟩

/-- The call returns a value with a property. -/
def Returns (x : Except ε α) (P : α → Prop) : Prop := ∃ a, x = .ok a ∧ P a

theorem returns_ok (ha : P a) : Returns (.ok a : Except ε α) P :=
  ⟨a, rfl, ha⟩

theorem Returns.bind (hx : Returns x P) (hf : ∀ a, P a → Returns (f a) Q) :
    Returns (x >>= f) Q := by
  obtain ⟨a, rfl, ha⟩ := hx
  exact hf a ha

theorem Returns.mono (hx : Returns x P) (hPQ : ∀ a, P a → Q a) : Returns x Q := by
  obtain ⟨a, hx, ha⟩ := hx
  exact ⟨a, hx, hPQ a ha⟩

/-- The call returns under a condition, and what it returns has a property. -/
def ReturnsWhen (p : Prop) (x : Except ε α) (P : α → Prop) : Prop :=
  match x with
  | .ok a => P a
  | .error _ => ¬ p

theorem ReturnsWhen.of_eq_ok (h : ReturnsWhen p x P) (hx : x = .ok a) : P a := by
  rw [hx] at h
  exact h

theorem ReturnsWhen.returns (h : ReturnsWhen p x P) (hp : p) : Returns x P := by
  cases x with
  | error e => exact absurd hp h
  | ok a => exact returns_ok h

theorem ReturnsWhen.mono (h : ReturnsWhen q x P) (hpq : p → q) (hPQ : ∀ a, P a → Q a) :
    ReturnsWhen p x Q := by
  cases x with
  | error e => exact fun hp => h (hpq hp)
  | ok a => exact hPQ a h

theorem ReturnsWhen.bind (hx : ReturnsWhen p x P) (hf : ∀ a, P a → ReturnsWhen q (f a) Q) :
    ReturnsWhen (p ∧ q) (x >>= f) Q := by
  cases x with
  | error e => exact fun h => hx h.1
  | ok a =>
    specialize hf a hx
    rw [ok_bind]
    revert hf
    cases f a with
    | error e => exact fun hrest h => hrest h.2
    | ok b => exact id

theorem mapM_eq_ok {f : α → Except ε β} {l : List α} :
    l.mapM f = .ok l' ↔ List.Forall₂ (fun a b => f a = .ok b) l l' := by
  induction l generalizing l' with
  | nil =>
    rw [mapM_nil, forall₂_nil_left_iff]
    exact ⟨fun h => (Except.ok.inj h).symm, fun h => h ▸ rfl⟩
  | cons a l ih =>
    rw [mapM_cons, bind_eq_ok, forall₂_cons_left_iff]
    constructor
    · rintro ⟨b, hb, hrest⟩
      obtain ⟨rest, hrest, hl'⟩ := bind_eq_ok.mp hrest
      exact ⟨b, rest, hb, ih.mp hrest, (Except.ok.inj hl').symm⟩
    · rintro ⟨b, rest, hb, hrest, rfl⟩
      exact ⟨b, hb, bind_eq_ok.mpr ⟨rest, ih.mpr hrest, rfl⟩⟩

theorem exists_of_forall₂ (h : List.Forall₂ R l l') (ha : a ∈ l) : ∃ b ∈ l', R a b := by
  induction h with
  | nil => cases ha
  | cons hfirst _ ih =>
    rcases mem_cons.mp ha with rfl | ha
    · exact ⟨_, mem_cons_self, hfirst⟩
    · obtain ⟨b, hb, hab⟩ := ih ha
      exact ⟨b, mem_cons_of_mem _ hb, hab⟩

theorem forall₂_of_mem (h : List.Forall₂ R l l') (himp : ∀ a ∈ l, ∀ b, R a b → S a b) :
    List.Forall₂ S l l' := by
  induction h with
  | nil => exact .nil
  | cons hfirst _ ih =>
    obtain ⟨hhead, htail⟩ := forall_mem_cons.mp himp
    exact .cons (hhead _ hfirst) (ih htail)

theorem index_eq_ok : index storage l i = .ok a ↔ l[i]? = some a := by
  unfold index
  cases l[i]? with
  | none => simp
  | some b => simp

theorem index_of_lt (hi : i < l.length) : index storage l i = .ok l[i] := by
  simp [index_eq_ok]

theorem index_of_le (hi : l.length ≤ i) : index storage l i = .error (.outOfBounds storage) := by
  simp [index, List.getElem?_eq_none hi]

theorem checkedAt_eq_ok : checkedAt l i = .ok a ↔ l[i]? = some a := by
  unfold checkedAt
  cases l[i]? with
  | none => simp
  | some b => simp

@[simp] theorem inBoundsAt_ok (storage : Storage) (a : α) :
    InBoundsAt storage (.ok a : Outcome α) := by
  simp [InBoundsAt]

@[simp] theorem inBoundsAt_raise (storage : Storage) (what : String) :
    InBoundsAt storage (raise what : Outcome α) := by
  simp [InBoundsAt, raise]

theorem inBoundsAt_bind :
    InBoundsAt storage (x >>= f) ↔
      InBoundsAt storage x ∧ ∀ a, x = .ok a → InBoundsAt storage (f a) := by
  cases x with
  | error e =>
    simp only [error_bind, reduceCtorEq, false_implies, implies_true, and_true]
    simp [InBoundsAt]
  | ok a => simp

theorem inBoundsAt_ite [Decidable c] (hx : InBoundsAt storage x) (hy : InBoundsAt storage y) :
    InBoundsAt storage (if c then x else y) := by
  split
  · exact hx
  · exact hy

theorem inBoundsAt_index_of_ne (hne : storage ≠ other) (l : List α) (i : Nat) :
    InBoundsAt storage (index other l i) := by
  rcases Nat.lt_or_ge i l.length with hlt | hle
  · rw [index_of_lt hlt]
    exact inBoundsAt_ok _ _
  rw [index_of_le hle]
  intro h
  cases h
  exact hne rfl

theorem inBoundsAt_checkedAt (storage : Storage) (l : List α) (i : Nat) :
    InBoundsAt storage (checkedAt l i) := by
  unfold checkedAt
  split
  · exact inBoundsAt_ok _ _
  · exact inBoundsAt_raise _ _

@[simp] theorem inBounds_ok (a : α) : InBounds (.ok a : Outcome α) :=
  fun storage => inBoundsAt_ok storage a

@[simp] theorem inBounds_raise (what : String) : InBounds (raise what : Outcome α) :=
  fun storage => inBoundsAt_raise storage what

@[simp] theorem not_inBounds_outOfBounds (storage : Storage) :
    ¬ InBounds (.error (.outOfBounds storage) : Outcome α) := by
  intro h
  exact h storage rfl

theorem inBounds_ite [Decidable c] (hx : InBounds x) (hy : InBounds y) :
    InBounds (if c then x else y) :=
  fun storage => inBoundsAt_ite (hx storage) (hy storage)

theorem inBounds_bind : InBounds (x >>= f) ↔ InBounds x ∧ ∀ a, x = .ok a → InBounds (f a) := by
  constructor
  · intro h
    exact ⟨fun storage => (inBoundsAt_bind.mp (h storage)).1,
      fun a ha storage => (inBoundsAt_bind.mp (h storage)).2 a ha⟩
  · rintro ⟨hx, hf⟩ storage
    exact inBoundsAt_bind.mpr ⟨hx storage, fun a ha => hf a ha storage⟩

end Monad

section Agreement

variable {α β : Type}

/-- A call agrees with a reference that fails without giving a reason: both have
related results, or the call throws where the reference fails. -/
inductive Agrees (R : α → β → Prop) : Outcome α → Option β → Prop
  | ok {a : α} {b : β} (h : R a b) : Agrees R (.ok a) (some b)
  | thrown (what : String) : Agrees R (raise what) none

theorem Agrees.bind (h : Agrees R x y) (hrest : ∀ a b, R a b → Agrees S (f a) (g b)) :
    Agrees S (x >>= f) (y >>= g) := by
  cases h with
  | ok hab => exact hrest _ _ hab
  | thrown what => exact .thrown what

variable {ε ε' : Type}

/-- Both calls return related results, or none of them returns. -/
inductive Alike (R : α → β → Prop) : Except ε α → Except ε' β → Prop
  | ok {a : α} {b : β} (h : R a b) : Alike R (.ok a) (.ok b)
  | error (e : ε) (e' : ε') : Alike R (.error e) (.error e')

theorem Alike.bind (h : Alike R x y) (hrest : ∀ a b, R a b → Alike S (f a) (g b)) :
    Alike S (x >>= f) (y >>= g) := by
  cases h with
  | ok hab => exact hrest _ _ hab
  | error e e' => exact .error e e'

/-- Whenever the first call returns, the second returns a related result. -/
def Follows (R : α → β → Prop) (x : Except ε α) (y : Except ε' β) : Prop :=
  ∀ a, x = .ok a → Returns y (R a)

theorem Alike.follows (h : Alike R x y) : Follows R x y := by
  intro a ha
  cases h with
  | ok hab =>
    cases ha
    exact returns_ok hab
  | error e e' => cases ha

theorem Follows.bind (h : Follows R x y) (hrest : ∀ a b, R a b → Follows S (f a) (g b)) :
    Follows S (x >>= f) (y >>= g) := by
  intro c hc
  obtain ⟨a, ha, hc⟩ := bind_eq_ok.mp hc
  exact (h a ha).bind fun b hab => hrest a b hab c hc

/-- Whatever the first call returns, the second returns as well. -/
def Below (x y : Except ε α) : Prop := ∀ a, x = .ok a → y = .ok a

theorem Below.rfl : Below x x := fun _ h => h

theorem Below.raise : Below (raise what) (x : Outcome α) := fun _ h => nomatch h

theorem Below.bind {f g : α → Except ε β} (h : Below x y) (hrest : ∀ a, Below (f a) (g a)) :
    Below (x >>= f) (y >>= g) := by
  intro b hb
  obtain ⟨a, ha, hb⟩ := bind_eq_ok.mp hb
  exact bind_eq_ok.mpr ⟨a, h a ha, hrest a b hb⟩

theorem Below.ite [Decidable c] (hx : Below x x') (hy : Below y y') :
    Below (if c then x else y) (if c then x' else y') := by
  split
  · exact hx
  · exact hy

theorem mapM_of_imp {f : α → Except ε β} {g : α → Except ε' β} {l : List α}
    (himp : ∀ a ∈ l, ∀ b, f a = .ok b → g a = .ok b) (h : l.mapM f = .ok l') :
    l.mapM g = .ok l' := by
  rw [mapM_eq_ok] at h ⊢
  exact forall₂_of_mem h himp

end Agreement

end Bfx.CallOutcome
