import Mathlib.Algebra.GroupWithZero.Nat
import Mathlib.Data.List.GetD
import Mathlib.Order.Nat

/-!
# Reading an array through a pointer

A computation that reads an array through a pointer it moves: its result, the pointer
afterwards and the offsets it has read. `StaysBelow` says that it reads nothing from an
offset on, `Reads` what it makes of given elements.
-/

namespace ContikiMaster.Lib

open List

/-- Arrays of these lengths have a first element. -/
instance neZeroFour : NeZero 4 := ⟨by decide⟩

instance neZeroEight : NeZero 8 := ⟨by decide⟩

instance neZeroSixteen : NeZero 16 := ⟨by decide⟩

variable {β α γ : Type}

/-- From an array and a pointer: the result, the pointer afterwards, the offsets read. -/
def Cursor (β α : Type) := (ℕ → β) → ℕ → α × ℕ × List ℕ

namespace Cursor

/-- The result of a computation. -/
def value (x : Cursor β α) (mem : ℕ → β) (p : ℕ) : α := (x mem p).1

/-- The pointer after a computation. -/
def next (x : Cursor β α) (mem : ℕ → β) (p : ℕ) : ℕ := (x mem p).2.1

/-- The offsets a computation reads, oldest first. -/
def touched (x : Cursor β α) (mem : ℕ → β) (p : ℕ) : List ℕ := (x mem p).2.2

instance : Monad (Cursor β) where
  pure a := fun _ p ↦ (a, p, [])
  bind x f := fun mem p ↦
    let first := x mem p
    let second := f first.1 mem first.2.1
    (second.1, second.2.1, first.2.2 ++ second.2.2)

/-- `p[k]`. -/
def peek (k : ℕ) : Cursor β β := fun mem p ↦ (mem (p + k), p, [p + k])

/-- `p += n`. -/
def skip (n : ℕ) : Cursor β Unit := fun _ p ↦ ((), p + n, [])

/-- The pointer itself. -/
def here : Cursor β ℕ := fun _ p ↦ (p, p, [])

/-- `*p++`. -/
def take : Cursor β β := do
  let b ← peek 0
  skip 1
  pure b

/-- A loop over `c < n` that reads `p[off c]` each time. -/
def peekEach (n : ℕ) (off : Fin n → ℕ) : Cursor β (Fin n → β) :=
  fun mem p ↦ (fun c ↦ mem (p + off c), p, ofFn fun c ↦ p + off c)

section Equations

variable (mem : ℕ → β) (p k : ℕ) (a : α) (x : Cursor β α) (f : α → Cursor β γ)

@[simp]
theorem value_pure : value (pure a : Cursor β α) mem p = a := rfl

@[simp]
theorem next_pure : next (pure a : Cursor β α) mem p = p := rfl

@[simp]
theorem touched_pure : touched (pure a : Cursor β α) mem p = [] := rfl

@[simp]
theorem value_bind : value (x >>= f) mem p = value (f (value x mem p)) mem (next x mem p) := rfl

@[simp]
theorem next_bind : next (x >>= f) mem p = next (f (value x mem p)) mem (next x mem p) := rfl

@[simp]
theorem touched_bind : touched (x >>= f) mem p =
    touched x mem p ++ touched (f (value x mem p)) mem (next x mem p) := rfl

@[simp]
theorem value_peek : value (peek k) mem p = mem (p + k) := rfl

@[simp]
theorem next_peek : next (peek k : Cursor β β) mem p = p := rfl

@[simp]
theorem touched_peek : touched (peek k : Cursor β β) mem p = [p + k] := rfl

@[simp]
theorem value_peekEach (n : ℕ) (off : Fin n → ℕ) :
    value (peekEach n off : Cursor β _) mem p = fun c ↦ mem (p + off c) := rfl

@[simp]
theorem next_peekEach (n : ℕ) (off : Fin n → ℕ) :
    next (peekEach n off : Cursor β _) mem p = p := rfl

@[simp]
theorem touched_peekEach (n : ℕ) (off : Fin n → ℕ) :
    touched (peekEach n off : Cursor β _) mem p = ofFn fun c ↦ p + off c := rfl

@[simp]
theorem next_skip : next (skip k : Cursor β Unit) mem p = p + k := rfl

@[simp]
theorem touched_skip : touched (skip k : Cursor β Unit) mem p = [] := rfl

@[simp]
theorem value_here : value (here : Cursor β ℕ) mem p = p := rfl

@[simp]
theorem next_here : next (here : Cursor β ℕ) mem p = p := rfl

@[simp]
theorem touched_here : touched (here : Cursor β ℕ) mem p = [] := rfl

@[simp]
theorem value_take : value take mem p = mem p := rfl

@[simp]
theorem next_take : next (take : Cursor β β) mem p = p + 1 := rfl

@[simp]
theorem touched_take : touched (take : Cursor β β) mem p = [p] := rfl

end Equations

/-- From the pointer `p` the computation reads no offset from `n` on. -/
def StaysBelow (n : ℕ) (x : Cursor β α) (mem : ℕ → β) (p : ℕ) : Prop :=
  ∀ o ∈ touched x mem p, o < n

variable {n p k : ℕ} {l l₁ l₂ : List β} {mem : ℕ → β} {x : Cursor β α} {f : α → Cursor β γ} {a : α}

theorem staysBelow_pure (a : α) (mem : ℕ → β) (p : ℕ) :
    StaysBelow n (pure a : Cursor β α) mem p := by
  simp [StaysBelow]

theorem staysBelow_bind :
    StaysBelow n (x >>= f) mem p ↔
      StaysBelow n x mem p ∧ StaysBelow n (f (value x mem p)) mem (next x mem p) := by
  simp only [StaysBelow, touched_bind, mem_append, or_imp, forall_and]

@[simp]
theorem staysBelow_peek :
    StaysBelow n (peek k : Cursor β β) mem p ↔ p + k < n := by
  simp [StaysBelow]

/-- The computation reads what it moves over, every element and no other. -/
def Sweeps (x : Cursor β α) (mem : ℕ → β) (p : ℕ) : Prop :=
  p ≤ next x mem p ∧ ∀ o, o ∈ touched x mem p ↔ p ≤ o ∧ o < next x mem p

theorem sweeps_pure (a : α) (mem : ℕ → β) (p : ℕ) : Sweeps (pure a : Cursor β α) mem p := by
  constructor
  · rfl
  · intro o
    simp only [touched_pure, not_mem_nil, next_pure, false_iff]
    omega

theorem sweeps_take (mem : ℕ → β) (p : ℕ) : Sweeps take mem p := by
  constructor
  · simp
  · intro o
    simp only [touched_take, mem_singleton, next_take]
    omega

theorem Sweeps.bind (hx : Sweeps x mem p) (hf : Sweeps (f (value x mem p)) mem (next x mem p)) :
    Sweeps (x >>= f) mem p := by
  constructor
  · exact hx.1.trans hf.1
  · intro o
    have hfirst := hx.1
    have hsecond := hf.1
    rw [touched_bind, mem_append, hx.2 o, hf.2 o, next_bind]
    omega

/-- A sweep stays below a bound exactly when it ends by the bound. -/
theorem Sweeps.staysBelow_iff (hx : Sweeps x mem p)
    (hn : p ≤ n) : StaysBelow n x mem p ↔ next x mem p ≤ n := by
  constructor
  · intro hbelow
    by_contra hover
    push Not at hover
    exact absurd (hbelow n ((hx.2 n).mpr ⟨hn, hover⟩)) (lt_irrefl n)
  · intro hle o ho
    exact ((hx.2 o).mp ho).2.trans_le hle

/-- The elements `l` stand in the array from offset `p` on. -/
def Holds (mem : ℕ → β) (p : ℕ) (l : List β) : Prop :=
  ∀ i (hi : i < l.length), mem (p + i) = l[i]

@[simp]
theorem holds_nil (mem : ℕ → β) (p : ℕ) : Holds mem p [] := by
  intro i hi
  simp at hi

@[simp]
theorem holds_cons {b : β} :
    Holds mem p (b :: l) ↔ mem p = b ∧ Holds mem (p + 1) l := by
  constructor
  · intro hholds
    constructor
    · exact hholds 0 (by simp)
    · intro i hi
      have hnext := hholds (i + 1) (by simpa using hi)
      rw [show p + 1 + i = p + (i + 1) by omega, hnext]
      rfl
  · intro hholds i hi
    cases i with
    | zero => exact hholds.1
    | succ i =>
      rw [show p + (i + 1) = p + 1 + i by omega, hholds.2 i (by simpa using hi)]
      rfl

@[simp]
theorem holds_append :
    Holds mem p (l₁ ++ l₂) ↔ Holds mem p l₁ ∧ Holds mem (p + l₁.length) l₂ := by
  induction l₁ generalizing p with
  | nil => simp
  | cons b l₁ ih =>
    rw [cons_append, holds_cons, ih, holds_cons, length_cons,
      show p + 1 + l₁.length = p + (l₁.length + 1) by omega, and_assoc]

theorem length_flatMap_of_const {f : α → List β} {l : List α}
    (hlength : ∀ a ∈ l, (f a).length = k) : (l.flatMap f).length = k * l.length := by
  induction l with
  | nil => rfl
  | cons a l ih =>
    rw [flatMap_cons, length_append, hlength a (by simp),
      ih fun b hb ↦ hlength b (by simp [hb]), length_cons, Nat.mul_succ, Nat.add_comm]

/-- Each piece of a concatenation of pieces of the same length. -/
theorem holds_flatMap {f : α → List β} {l : List α}
    (hlength : ∀ a ∈ l, (f a).length = k) (hholds : Holds mem p (l.flatMap f)) {i : ℕ}
    (hi : i < l.length) : Holds mem (p + k * i) (f l[i]) := by
  induction l generalizing p i with
  | nil => simp at hi
  | cons a l ih =>
    rw [flatMap_cons, holds_append, hlength a (by simp)] at hholds
    cases i with
    | zero => exact hholds.1
    | succ i =>
      have htail := ih (fun b hb ↦ hlength b (by simp [hb])) hholds.2 (by simpa using hi)
      rw [show p + k * (i + 1) = p + k + k * i by rw [Nat.mul_succ]; omega]
      exact htail

/-- A list stands at the start of the array of its own elements. -/
theorem holds_getD (l : List β) (b : β) : Holds (fun i ↦ l.getD i b) 0 l := by
  intro i hi
  simp only [Nat.zero_add]
  exact getD_eq_getElem l b hi

/-- The computation makes the result `a` of the elements `l`, and moves over them. -/
def Reads (x : Cursor β α) (a : α) (l : List β) : Prop :=
  ∀ mem p, Holds mem p l → value x mem p = a ∧ next x mem p = p + l.length

theorem reads_pure (a : α) : Reads (pure a : Cursor β α) a [] := by
  intro mem p _
  simp

theorem reads_take (b : β) : Reads take b [b] := by
  intro mem p hholds
  simpa using hholds

theorem Reads.bind {c : γ} (hx : Reads x a l₁)
    (hf : Reads (f a) c l₂) : Reads (x >>= f) c (l₁ ++ l₂) := by
  intro mem p hholds
  obtain ⟨hfirst, hsecond⟩ := holds_append.mp hholds
  obtain ⟨hvalue, hnext⟩ := hx mem p hfirst
  rw [value_bind, next_bind, hvalue, hnext, length_append, ← Nat.add_assoc]
  exact hf mem _ hsecond

/-- A computation followed by one that only uses its result. -/
theorem Reads.map (hx : Reads x a l) (g : α → γ) :
    Reads (x >>= fun b ↦ pure (g b)) (g a) l := by
  rw [← append_nil l]
  apply Reads.bind hx
  apply reads_pure

end Cursor

end ContikiMaster.Lib
