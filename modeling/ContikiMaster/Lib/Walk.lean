import ContikiMaster.Lib.Chain

/-!
# Walks along a list that changes

A loop over a linked list keeps a node and follows its pointer when it is done with it, while
nodes may be taken from the list or put in front of it. Taking out a node removes nothing
else from the nodes that are still to come.
-/

namespace ContikiMaster.Lib

open List Option

universe u

variable {ι : Type u} {next next' : ι → Option ι} {q : Option ι} {i j p : ι} {nodes l : List ι}

/-- Following the pointers from `q` on visits these nodes, one after the other, and ends. -/
def Rest (next : ι → Option ι) : Option ι → List ι → Prop
  | q, [] => q = none
  | q, i :: nodes => q = some i ∧ Rest next (next i) nodes

theorem Rest.head (hrest : Rest next q nodes) : q = nodes.head? := by
  cases nodes with
  | nil => exact hrest
  | cons i nodes => exact hrest.1

theorem Rest.follows (hrest : Rest next (some i) nodes) (hj : j ∈ nodes) : Follows next i j := by
  induction nodes generalizing i with
  | nil => cases hj
  | cons k nodes ih =>
    obtain ⟨hsame, htail⟩ := hrest
    obtain rfl := some.inj hsame
    rcases mem_cons.mp hj with rfl | hj
    · exact Relation.ReflTransGen.refl
    · cases hnext : next i with
      | none =>
        rw [htail.head] at hnext
        rw [head?_eq_none_iff.mp hnext] at hj
        cases hj
      | some b =>
        rw [hnext] at htail
        exact Relation.ReflTransGen.head hnext (ih htail hj)

theorem Rest.congr (hrest : Rest next q nodes) (hsame : ∀ i ∈ nodes, next' i = next i) :
    Rest next' q nodes := by
  induction nodes generalizing q with
  | nil => exact hrest
  | cons i nodes ih =>
    refine ⟨hrest.1, ?_⟩
    rw [hsame i mem_cons_self]
    exact ih hrest.2 fun j hj ↦ hsame j (mem_cons_of_mem i hj)

/-- Pointers to a node are redirected to the one behind it, maybe not all of them. The walk misses
that node at most. -/
theorem Rest.bypass (hp : next' p = next p)
    (hothers : ∀ i, next' i = next i ∨ next i = some p ∧ next' i = next p)
    (hrest : Rest next q nodes) :
    ∃ nodes', Rest next' q nodes' ∧ nodes'.Sublist nodes ∧ ∀ i ∈ nodes, i ≠ p → i ∈ nodes' := by
  induction nodes generalizing q with
  | nil => exact ⟨[], hrest, List.Sublist.refl _, fun i hi _ ↦ hi⟩
  | cons i nodes ih =>
    obtain ⟨hq, htail⟩ := hrest
    obtain ⟨nodes', hrest', hsub, hkept⟩ := ih htail
    rcases hothers i with hsame | ⟨hto, hnew⟩
    · refine ⟨i :: nodes', ⟨hq, ?_⟩, hsub.cons_cons i, fun j hj hne ↦ ?_⟩
      · rw [hsame]
        exact hrest'
      · rcases mem_cons.mp hj with rfl | hj
        · exact mem_cons_self
        · exact mem_cons_of_mem _ (hkept j hj hne)
    · -- the node behind `i` is the one that is bypassed
      rw [hto] at hrest'
      cases nodes' with
      | nil => cases hrest'
      | cons k rest =>
        obtain ⟨hk, hbehind⟩ := hrest'
        obtain rfl := some.inj hk
        refine ⟨i :: rest, ⟨hq, ?_⟩, ((sublist_cons_self p rest).trans hsub).cons_cons i,
          fun j hj hne ↦ ?_⟩
        · rw [hnew, ← hp]
          exact hbehind
        · rcases mem_cons.mp hj with rfl | hj
          · exact mem_cons_self
          · rcases mem_cons.mp (hkept j hj hne) with heq | hrest
            · exact absurd heq hne
            · exact mem_cons_of_mem _ hrest

variable [DecidableEq ι]

/-- The node behind `i` in a list. -/
def successor (i : ι) : List ι → Option ι
  | [] => none
  | j :: l => if j = i then l.head? else successor i l

theorem successor_cons_of_ne (hne : j ≠ i) : successor i (j :: l) = successor i l := if_neg hne

theorem successor_cons_self : successor i (i :: l) = l.head? := if_pos rfl

theorem mem_of_successor (hsucc : successor i l = some j) : j ∈ l := by
  induction l with
  | nil => cases hsucc
  | cons k l ih =>
    by_cases hk : k = i
    · rw [hk, successor_cons_self] at hsucc
      exact mem_cons_of_mem k (mem_of_mem_head? hsucc)
    · rw [successor_cons_of_ne hk] at hsucc
      exact mem_cons_of_mem k (ih hsucc)

/-- Where the pointers of a list's nodes are its own, following them visits the list. -/
theorem rest_successor (hnodup : l.Nodup) (hnext : ∀ i ∈ l, next i = successor i l) :
    Rest next l.head? l := by
  induction l with
  | nil => rfl
  | cons i l ih =>
    obtain ⟨hi, hl⟩ := nodup_cons.mp hnodup
    refine ⟨rfl, ?_⟩
    rw [hnext i mem_cons_self, successor_cons_self]
    refine ih hl fun j hj ↦ ?_
    rw [hnext j (mem_cons_of_mem i hj), successor_cons_of_ne]
    rintro rfl
    exact hi hj

theorem successor_erase (hnodup : l.Nodup) (hne : i ≠ p) : successor i (l.erase p) =
      if successor i l = some p then successor p l else successor i l := by
  induction l with
  | nil => simp [successor]
  | cons j l ih =>
    obtain ⟨hj, hl⟩ := nodup_cons.mp hnodup
    by_cases hjp : j = p
    · subst hjp
      rw [erase_cons_head, successor_cons_of_ne hne.symm, if_neg]
      exact fun hsucc ↦ hj (mem_of_successor hsucc)
    · rw [erase_cons_tail (by simpa using hjp)]
      by_cases hji : j = i
      · subst hji
        rw [successor_cons_self, successor_cons_self, successor_cons_of_ne hjp]
        cases l with
        | nil => simp
        | cons k l =>
          by_cases hkp : k = p
          · simp [hkp, successor_cons_self]
          · simp [hkp]
      · rw [successor_cons_of_ne hji, successor_cons_of_ne hji, successor_cons_of_ne hjp, ih hl]

end ContikiMaster.Lib
