import Mathlib.Data.List.Basic

/-!
# Calls that may fail

Programs in `Except ε` are taken apart call by call. Loops over a list are `foldlM`; what every
iteration preserves, the loop preserves. Two programs agree when both return, with results in a
relation, or both fail, with faults in another.
-/

namespace ContikiMaster.Lib

open List Option

variable {ε α β : Type}

variable {rest : α → Except ε β} {fault : ε} {body : α → β → Except ε α} {items : List β}
  {P : α → Prop} {s t : α} {call : Except ε α}

/-- A call sequence that returns got a result from its first call. -/
theorem bind_eq_ok {result : β} (hbind : call >>= rest = .ok result) :
    ∃ value, call = .ok value ∧ rest value = .ok result := by
  cases call with
  | error fault => cases hbind
  | ok value => exact ⟨value, rfl, hbind⟩

@[simp] theorem ok_bind (value : α) (rest : α → Except ε β) :
    (Except.ok value >>= rest) = rest value := rfl

/-- A call sequence fails with a fault only if one of its calls does. -/
theorem bind_ne_error (hcall : call ≠ .error fault)
    (hrest : ∀ value, call = .ok value → rest value ≠ .error fault) :
    (call >>= rest) ≠ .error fault := by
  cases call with
  | error other => exact fun heq ↦ hcall (congrArg Except.error (Except.error.inj heq))
  | ok value => exact hrest value rfl

/-- A loop fails with a fault only if its body does. -/
theorem foldlM_ne_error (hbody : ∀ x ∈ items, ∀ s, body s x ≠ .error fault) (s : α) :
    items.foldlM body s ≠ .error fault := by
  induction items generalizing s with
  | nil => exact fun heq ↦ nomatch heq
  | cons x items ih =>
    rw [foldlM_cons]
    apply bind_ne_error (hbody x mem_cons_self s)
    intro t _
    exact ih (fun y hy ↦ hbody y (mem_cons_of_mem x hy)) t

/-- A map fails with a fault only if one of its calls does. -/
theorem mapM_ne_error {call : α → Except ε β} {items : List α}
    (hcall : ∀ x ∈ items, call x ≠ .error fault) : items.mapM call ≠ .error fault := by
  induction items with
  | nil => exact fun heq ↦ nomatch heq
  | cons x items ih =>
    rw [mapM_cons]
    apply bind_ne_error (hcall x mem_cons_self)
    intro y _
    apply bind_ne_error (ih fun z hz ↦ hcall z (mem_cons_of_mem x hz))
    exact fun ys _ heq ↦ nomatch heq

theorem toOption_eq_some {result : α}
    (hcall : call.toOption = some result) : call = .ok result := by
  cases call with
  | error fault => cases hcall
  | ok value => exact congrArg Except.ok (some.inj hcall)

/-- A result with a property of a call that can be evaluated. -/
theorem exists_ok [DecidablePred P]
    (hany : call.toOption.any (fun result ↦ decide (P result)) = true) :
    ∃ result, call = .ok result ∧ P result := by
  obtain ⟨result, hcall, hresult⟩ := (any_eq_true _ _).mp hany
  exact ⟨result, toOption_eq_some hcall, of_decide_eq_true hresult⟩

theorem exists_eq_ok (hok : call.toOption.isSome = true) :
    ∃ result, call = .ok result := by
  cases call with
  | error fault => cases hok
  | ok value => exact ⟨value, rfl⟩

/-- The results of a map whose calls all return. -/
theorem mapM_forall₂ {call : α → Except ε β} {items : List α} {results : List β}
    (hmap : items.mapM call = .ok results) :
    List.Forall₂ (fun x y ↦ call x = .ok y) items results := by
  induction items generalizing results with
  | nil =>
    cases hmap
    exact .nil
  | cons x items ih =>
    rw [mapM_cons] at hmap
    obtain ⟨y, hfirst, hrest⟩ := bind_eq_ok hmap
    obtain ⟨ys, hmore, hdone⟩ := bind_eq_ok hrest
    cases hdone
    exact .cons hfirst (ih hmore)

/-- A map whose calls all return. -/
theorem mapM_eq_ok {call : α → Except ε β} {result : α → β} {items : List α}
    (hcalls : ∀ x ∈ items, call x = .ok (result x)) : items.mapM call = .ok (items.map result) := by
  induction items with
  | nil => rfl
  | cons x items ih =>
    rw [mapM_cons, hcalls x mem_cons_self, ih fun y hy ↦ hcalls y (mem_cons_of_mem x hy)]
    rfl

/-- A loop whose iterations all return. -/
theorem foldlM_eq_ok {step : α → β → α} (hbody : ∀ x ∈ items, ∀ s, body s x = .ok (step s x))
    (s : α) : items.foldlM body s = .ok (items.foldl step s) := by
  induction items generalizing s with
  | nil => rfl
  | cons x items ih =>
    rw [foldlM_cons, hbody x mem_cons_self s]
    exact ih (fun y hy ↦ hbody y (mem_cons_of_mem x hy)) (step s x)

/-- What every iteration of a loop over a list preserves, the loop preserves. -/
theorem foldlM_invariant (hstep : ∀ x ∈ items, ∀ s t, P s → body s x = .ok t → P t)
    (hloop : items.foldlM body s = .ok t) (hs : P s) : P t := by
  induction items generalizing s with
  | nil =>
    cases hloop
    exact hs
  | cons x items ih =>
    rw [foldlM_cons] at hloop
    obtain ⟨u, hfirst, hrest⟩ := bind_eq_ok hloop
    exact ih (fun y hy ↦ hstep y (mem_cons_of_mem x hy)) hrest
      (hstep x mem_cons_self s u hs hfirst)

/-- A loop over a list, with an invariant that speaks of the items done so far. -/
theorem foldlM_invariant_done {P : List β → α → Prop}
    (hstep : ∀ done x todo, items = done ++ x :: todo → ∀ s t, P done s → body s x = .ok t →
      P (done ++ [x]) t) (hloop : items.foldlM body s = .ok t) (hs : P [] s) : P items t := by
  have hgeneral : ∀ (todo done : List β) (s : α), items = done ++ todo → P done s →
      todo.foldlM body s = .ok t → P items t := by
    intro todo
    induction todo with
    | nil =>
      intro done s hitems hdone hrun
      cases hrun
      rw [hitems, append_nil]
      exact hdone
    | cons x todo ih =>
      intro done s hitems hdone hrun
      rw [foldlM_cons] at hrun
      obtain ⟨u, hfirst, hrest⟩ := bind_eq_ok hrun
      exact ih (done ++ [x]) u (by rw [hitems, append_assoc]; rfl)
        (hstep done x todo hitems s u hdone hfirst) hrest
  exact hgeneral items [] s rfl hs hloop

/-- A loop whose iterations are counted does not fail with a fault, as long as no iteration does at
the count it starts with. -/
theorem foldlM_count {P : ℕ → α → Prop} {n : ℕ}
    (hstep : ∀ x ∈ items, ∀ k s, k < n + items.length → P k s →
      body s x ≠ .error fault ∧ ∀ t, body s x = .ok t → P (k + 1) t) (hs : P n s) :
    items.foldlM body s ≠ .error fault ∧
      ∀ t, items.foldlM body s = .ok t → P (n + items.length) t := by
  induction items generalizing n s with
  | nil =>
    constructor
    · exact fun heq ↦ nomatch heq
    · intro t hloop
      cases hloop
      exact hs
  | cons x items ih =>
    rw [length_cons] at hstep ⊢
    obtain ⟨hfault, hnext⟩ := hstep x mem_cons_self n s (by omega) hs
    have hrest : ∀ t, body s x = .ok t → items.foldlM body t ≠ .error fault ∧
        ∀ u, items.foldlM body t = .ok u → P (n + 1 + items.length) u := by
      intro t ht
      exact ih (fun y hy k s hk ↦ hstep y (mem_cons_of_mem x hy) k s (by omega)) (hnext t ht)
    rw [foldlM_cons]
    constructor
    · exact bind_ne_error hfault fun t ht ↦ (hrest t ht).1
    · intro u hloop
      obtain ⟨t, ht, hmore⟩ := bind_eq_ok hloop
      have hdone := (hrest t ht).2 u hmore
      rwa [Nat.add_right_comm, Nat.add_assoc] at hdone

section Agreement

variable {ε ε' α α' β β' ι : Type}

/-- Both calls return, with results in `R`, or both fail, with faults in `F`. -/
inductive Agree (F : ε → ε' → Prop) (R : α → α' → Prop) : Except ε α → Except ε' α' → Prop
  | ok {x : α} {y : α'} (hresult : R x y) : Agree F R (.ok x) (.ok y)
  | error {e : ε} {e' : ε'} (hfault : F e e') : Agree F R (.error e) (.error e')

namespace Agree

variable {F : ε → ε' → Prop} {R : α → α' → Prop} {S : β → β' → Prop}
  {call : Except ε α} {call' : Except ε' α'}

theorem bind {rest : α → Except ε β} {rest' : α' → Except ε' β'} (hcall : Agree F R call call')
    (hrest : ∀ x y, R x y → Agree F S (rest x) (rest' y)) :
    Agree F S (call >>= rest) (call' >>= rest') := by
  cases hcall with
  | ok hresult => exact hrest _ _ hresult
  | error hfault => exact .error hfault

/-- A loop over one list, with bodies that agree for every item. -/
theorem foldlM {body : α → ι → Except ε α} {body' : α' → ι → Except ε' α'} {items : List ι}
    (hbody : ∀ item ∈ items, ∀ x y, R x y → Agree F R (body x item) (body' y item))
    {x : α} {y : α'} (hstart : R x y) : Agree F R (items.foldlM body x) (items.foldlM body' y) := by
  induction items generalizing x y with
  | nil => exact .ok hstart
  | cons item items ih =>
    rw [foldlM_cons, foldlM_cons]
    apply (hbody item mem_cons_self x y hstart).bind
    intro x' y' hresult
    exact ih (fun other hother ↦ hbody other (mem_cons_of_mem item hother)) hresult

end Agree

end Agreement

end ContikiMaster.Lib
