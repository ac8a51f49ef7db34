import ContikiMaster.Lib.Pointer

/-!
# Chains of nodes

Where a rank grows along the pointers and is bounded, following them ends. Where they may
run in circles, as many steps as there are nodes visit every node that can be reached.
Hanging a node onto the end of a chain keeps what could be reached, and so does redirecting
a node that still reaches the target, or never reached it.
-/

namespace ContikiMaster.Lib

open List Option

universe u

variable {ι : Type u} {next : ι → Option ι} {rank : ι → ℕ} {bound : ℕ} {i j k : ι}

/-- The nodes from `pos` on, at most `fuel` of them. -/
def chain (next : ι → Option ι) : ℕ → ι → List ι
  | 0, _ => []
  | fuel + 1, pos => pos :: (next pos).elim [] (chain next fuel)

/-- Following the pointers from `i` arrives at `j`. -/
def Follows (next : ι → Option ι) : ι → ι → Prop :=
  Relation.ReflTransGen fun i j ↦ next i = some j

/-- A rank that grows along the pointers and stays below a bound. -/
def Ranked (next : ι → Option ι) (rank : ι → ℕ) (bound : ℕ) : Prop :=
  ∀ i j, next i = some j → rank i < rank j ∧ rank j < bound

theorem follows_of_mem_chain {fuel : ℕ} (hmem : j ∈ chain next fuel i) : Follows next i j := by
  induction fuel generalizing i with
  | zero => cases hmem
  | succ fuel ih =>
    rw [chain, mem_cons] at hmem
    rcases hmem with rfl | hmem
    · exact Relation.ReflTransGen.refl
    · cases hnext : next i with
      | none =>
        rw [hnext] at hmem
        cases hmem
      | some k =>
        rw [hnext] at hmem
        exact Relation.ReflTransGen.head hnext (ih hmem)

section

variable (hranked : Ranked next rank bound) {fuel : ℕ} (hpos : 0 < fuel)

include hranked hpos

/-- Enough steps visit every node that can be reached. -/
theorem Ranked.mem_chain
    (hfuel : ∀ k, next i = some k → bound ≤ fuel + rank i) (hfollows : Follows next i j) :
    j ∈ chain next fuel i := by
  induction fuel generalizing i with
  | zero => cases hpos
  | succ fuel ih =>
    rw [chain, mem_cons]
    rcases Relation.ReflTransGen.cases_head hfollows with rfl | ⟨k, hnext, hrest⟩
    · exact Or.inl rfl
    · right
      obtain ⟨hlt, hbound⟩ := hranked i k hnext
      have henough := hfuel k hnext
      rw [hnext]
      exact ih (by omega) (fun _ _ ↦ by omega) hrest

theorem Ranked.mem_chain_iff (hfuel : bound ≤ fuel) : j ∈ chain next fuel i ↔ Follows next i j :=
  ⟨follows_of_mem_chain, hranked.mem_chain hpos fun _ _ ↦ Nat.le_trans hfuel (Nat.le_add_right _ _)⟩

/-- Enough steps arrive at a node that points nowhere. -/
theorem Ranked.getLast_chain (hfuel : ∀ k, next i = some k → bound ≤ fuel + rank i) :
    ∃ l, (chain next fuel i).getLast? = some l ∧ next l = none ∧ Follows next i l := by
  induction fuel generalizing i with
  | zero => cases hpos
  | succ fuel ih =>
    cases hnext : next i with
    | none =>
      refine ⟨i, ?_, hnext, Relation.ReflTransGen.refl⟩
      rw [chain, hnext]
      rfl
    | some k =>
      obtain ⟨hlt, hbound⟩ := hranked i k hnext
      have henough := hfuel k hnext
      obtain ⟨l, hlast, hnone, hfollows⟩ := ih (i := k) (by omega) (fun _ _ ↦ by omega)
      refine ⟨l, ?_, hnone, Relation.ReflTransGen.head hnext hfollows⟩
      rw [chain, hnext, getLast?_cons]
      change some ((chain next fuel k).getLast?.getD i) = some l
      rw [hlast]
      rfl

end

theorem iterate_bind_none (next : ι → Option ι) (m : ℕ) :
    (fun o : Option ι ↦ o.bind next)^[m] none = none :=
  Function.iterate_fixed rfl m

theorem mem_chain_iff_iterate {fuel : ℕ} :
    j ∈ chain next fuel i ↔ ∃ k < fuel, (fun o ↦ o.bind next)^[k] (some i) = some j := by
  induction fuel generalizing i with
  | zero => simp [chain]
  | succ fuel ih =>
    rw [chain, mem_cons]
    constructor
    · rintro (rfl | hmem)
      · exact ⟨0, Nat.succ_pos fuel, rfl⟩
      · cases hnext : next i with
        | none =>
          rw [hnext] at hmem
          cases hmem
        | some k =>
          rw [hnext] at hmem
          obtain ⟨m, hm, hiterate⟩ := ih.mp hmem
          refine ⟨m + 1, Nat.succ_lt_succ hm, ?_⟩
          rw [Function.iterate_succ_apply, bind_some, hnext]
          exact hiterate
    · rintro ⟨_ | m, hm, hiterate⟩
      · exact Or.inl (some.inj hiterate).symm
      · right
        rw [Function.iterate_succ_apply, bind_some] at hiterate
        cases hnext : next i with
        | none =>
          rw [hnext, iterate_bind_none] at hiterate
          cases hiterate
        | some k =>
          rw [hnext] at hiterate
          exact ih.mpr ⟨m, Nat.lt_of_succ_lt_succ hm, hiterate⟩

theorem Follows.leadsTo (hfollows : Follows next i j) :
    LeadsTo (fun o ↦ o.bind next) (some j) (some i) := by
  induction hfollows using Relation.ReflTransGen.head_induction_on with
  | refl => exact leadsTo_root
  | head hstep _ ih =>
    apply leadsTo_of_next
    rw [bind_some, hstep]
    exact ih

variable {nodes : List ι} {o : Option ι}

/-- As many steps as there are nodes visit every node that can be reached. -/
theorem Follows.mem_chain (hclosed : ∀ x ∈ nodes, ∀ y, next x = some y → y ∈ nodes)
    (hi : i ∈ nodes) (hfollows : Follows next i j) : j ∈ chain next nodes.length i := by
  obtain ⟨k, hk, hdistinct⟩ := hfollows.leadsTo.withoutRepeat
  refine mem_chain_iff_iterate.mpr ⟨k, ?_, hk⟩
  -- the nodes on the way are different nodes of the list
  let way := (range (k + 1)).map fun m ↦ (fun o ↦ o.bind next)^[m] (some i)
  have hnodup : way.Nodup := by
    refine List.Nodup.map_on (fun a ha b hb heq ↦ ?_) nodup_range
    rw [mem_range] at ha hb
    rcases Nat.lt_trichotomy a b with hlt | hsame | hlt
    · exact absurd heq (hdistinct a b hlt (by omega))
    · exact hsame
    · exact absurd heq.symm (hdistinct b a hlt (by omega))
  have hlisted : ∀ m, ∀ x ∈ (fun o ↦ o.bind next)^[m] (some i), x ∈ nodes := by
    intro m
    induction m with
    | zero =>
      intro x hx
      exact some.inj hx ▸ hi
    | succ m ih =>
      intro y hy
      rw [Function.iterate_succ_apply'] at hy
      obtain ⟨x, hx, hnext⟩ := bind_eq_some_iff.mp hy
      exact hclosed x (ih x hx) y hnext
  have hsubset : way ⊆ nodes.map some := by
    intro o ho
    obtain ⟨m, hm, rfl⟩ := mem_map.mp ho
    cases hx : (fun o ↦ o.bind next)^[m] (some i) with
    | some x => exact mem_map.mpr ⟨x, hlisted m x hx, rfl⟩
    | none =>
      have hend : (fun o ↦ o.bind next)^[k - m + m] (some i) = none := by
        rw [Function.iterate_add_apply, hx, iterate_bind_none]
      rw [Nat.sub_add_cancel (Nat.le_of_lt_succ (mem_range.mp hm)), hk] at hend
      cases hend
  have hle := (hnodup.subperm hsubset).length_le
  rw [length_map, length_range, length_map] at hle
  exact hle

/-- What can be reached inside a closed list depends on the pointers of the list only. -/
theorem Follows.congr {next' : ι → Option ι}
    (hclosed : ∀ x ∈ nodes, ∀ y, next x = some y → y ∈ nodes)
    (hsame : ∀ x ∈ nodes, next' x = next x) (hi : i ∈ nodes) (hfollows : Follows next i j) :
    Follows next' i j := by
  induction hfollows using Relation.ReflTransGen.head_induction_on with
  | refl => exact Relation.ReflTransGen.refl
  | @head a c hstep _ ih =>
    exact (ih (hclosed a hi c hstep)).head (by rwa [hsame a hi])

variable [DecidableEq ι]

/-- Redirecting `i` keeps what reaches `k` when `i` itself still reaches it. -/
theorem Follows.update (hself : Follows (Function.update next i o) i k)
    (hfollows : Follows next j k) : Follows (Function.update next i o) j k := by
  induction hfollows using Relation.ReflTransGen.head_induction_on with
  | refl => exact Relation.ReflTransGen.refl
  | @head a _ hstep _ ih =>
    by_cases ha : a = i
    · exact ha ▸ hself
    · exact ih.head (by rwa [Function.update_of_ne ha])

/-- Redirecting a node that does not reach `k` keeps what reaches it. -/
theorem Follows.update_of_not (hnot : ¬ Follows next i k) (hfollows : Follows next j k) :
    Follows (Function.update next i o) j k := by
  induction hfollows using Relation.ReflTransGen.head_induction_on with
  | refl => exact Relation.ReflTransGen.refl
  | @head a _ hstep hrest ih =>
    have ha : a ≠ i := by
      rintro rfl
      exact hnot (hrest.head hstep)
    exact ih.head (by rwa [Function.update_of_ne ha])

/-- A node hung onto a node that points nowhere. -/
theorem Follows.hang {l : ι} (hlast : next l = none) (k : ι) (hfollows : Follows next i j) :
    Follows (Function.update next l (some k)) i j := by
  induction hfollows with
  | refl => exact Relation.ReflTransGen.refl
  | tail _ hstep ih =>
    apply ih.tail
    rw [Function.update_of_ne]
    · exact hstep
    · rintro rfl
      rw [hlast] at hstep
      cases hstep

theorem Follows.hang_end {l : ι} (hlast : next l = none) (k : ι) (hfollows : Follows next i l) :
    Follows (Function.update next l (some k)) i k :=
  (hfollows.hang hlast k).tail (Function.update_self l (some k) next)

end ContikiMaster.Lib
