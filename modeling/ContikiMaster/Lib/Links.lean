import ContikiMaster.Lib.Loop
import ContikiMaster.Lib.Walk

/-!
# Lists whose pointers are in the items

The head of a list and the pointer of every item. The loops that walk, search, remove and append
have a bound on their turns; on a list that ends they return and do what the operation does to a
list. An item put in front of a list it is on closes a circle.
-/

namespace ContikiMaster.Lib

open Function List Option

universe u v

variable {ι : Type u} {ρ : Type v} {next next' : ι → Option ι} {q r : Option ι} {i j item : ι}
  {items items' first last : List ι}

theorem Rest.unique (hrest : Rest next q items) (hrest' : Rest next q items') : items = items' := by
  induction items generalizing q items' with
  | nil =>
    have hhead := hrest'.head
    rw [hrest] at hhead
    exact (head?_eq_none_iff.mp hhead.symm).symm
  | cons i items ih =>
    obtain ⟨hq, htail⟩ := hrest
    cases items' with
    | nil =>
      rw [hq] at hrest'
      cases hrest'
    | cons j items' =>
      obtain ⟨hq', htail'⟩ := hrest'
      obtain rfl := some.inj (hq.symm.trans hq')
      rw [ih htail htail']

theorem Rest.behind (hrest : Rest next q (first ++ last)) : Rest next last.head? last := by
  induction first generalizing q with
  | nil =>
    have hhead := hrest.head
    rw [nil_append] at hrest hhead
    rwa [hhead] at hrest
  | cons i first ih => exact ih hrest.2

/-- A walk that ends meets no item twice. -/
theorem Rest.nodup (hrest : Rest next q items) : items.Nodup := by
  induction items generalizing q with
  | nil => exact nodup_nil
  | cons i items ih =>
    refine nodup_cons.mpr ⟨fun hi ↦ ?_, ih hrest.2⟩
    -- what follows the second visit is what follows the first one
    obtain ⟨first, last, rfl⟩ := append_of_mem hi
    have hagain : Rest next (next i) last := (Rest.behind hrest.2).2
    have hlength := congrArg length (hrest.2.unique hagain)
    rw [length_append, length_cons] at hlength
    omega

theorem Rest.next_mem (hrest : Rest next q items) (hi : i ∈ items) (hnext : next i = some j) :
    j ∈ items := by
  obtain ⟨first, last, rfl⟩ := append_of_mem hi
  have hhead := (Rest.behind hrest).2.head
  rw [hnext] at hhead
  exact mem_append_right _ (mem_cons_of_mem i (mem_of_mem_head? hhead.symm))

/-- What follows an item is exchanged. -/
theorem Rest.splice (hrest : Rest next q (first ++ i :: last))
    (hsame : ∀ j ∈ first, next' j = next j) (hnew : Rest next' (next' i) items) :
    Rest next' q (first ++ i :: items) := by
  induction first generalizing q with
  | nil => exact ⟨hrest.1, hnew⟩
  | cons j first ih =>
    refine ⟨hrest.1, ?_⟩
    rw [hsame j mem_cons_self]
    exact ih hrest.2 fun k hk ↦ hsame k (mem_cons_of_mem j hk)

/-- A loop that goes on at the first items of a list comes to the next one. -/
theorem Rest.goes {turn : Option ι → Turn (Option ι) ρ} (hrest : Rest next q (first ++ last))
    (hturn : ∀ i ∈ first, turn (some i) = .goesOn (next i)) : Goes turn q last.head? := by
  induction first generalizing q with
  | nil =>
    rw [show q = last.head? from hrest.head]
    exact Goes.refl _
  | cons i first ih =>
    rw [hrest.1]
    exact (goes_single (hturn i mem_cons_self)).trans
      (ih hrest.2 fun j hj ↦ hturn j (mem_cons_of_mem i hj))

/-- The items up to the first one with a property, that one included. -/
def upTo (p : ι → Bool) : List ι → List ι
  | [] => []
  | i :: items => if p i then [i] else i :: upTo p items

variable {p : ι → Bool}

/-- Clearing the pointers of some items cuts the list behind the first of them. -/
theorem Rest.upTo (hrest : Rest next q items) (hcleared : ∀ i, p i = true → next' i = none)
    (hothers : ∀ i, p i = false → next' i = next i) : Rest next' q (upTo p items) := by
  induction items generalizing q with
  | nil => exact hrest
  | cons i items ih =>
    by_cases hi : p i = true
    · rw [Lib.upTo, if_pos hi]
      exact ⟨hrest.1, hcleared i hi⟩
    · rw [Lib.upTo, if_neg hi]
      refine ⟨hrest.1, ?_⟩
      rw [hothers i (Bool.eq_false_iff.mpr hi)]
      exact ih hrest.2

/-- The only item with the property that a cut leaves is the first one. -/
theorem mem_upTo_iff_find (hi : p i = true) : i ∈ upTo p items ↔ items.find? p = some i := by
  induction items with
  | nil => simp [upTo]
  | cons j items ih =>
    by_cases hj : p j = true
    · rw [upTo, if_pos hj, find?_cons_of_pos hj, mem_singleton, some.injEq, eq_comm]
    · have hne : i ≠ j := fun heq ↦ hj (heq ▸ hi)
      rw [upTo, if_neg hj, find?_cons_of_neg hj, mem_cons, ih, or_iff_right hne]

/-- A cut loses no item without the property if none of them is behind one that has it. -/
theorem forall_mem_upTo_iff (hnodup : items.Nodup) : (∀ i ∈ items, p i = false → i ∈ upTo p items) ↔
      ∀ i ∈ items.dropWhile fun i ↦ !p i, p i = true := by
  induction items with
  | nil => simp
  | cons j items ih =>
    obtain ⟨hj, hitems⟩ := nodup_cons.mp hnodup
    by_cases hpj : p j = true
    · rw [upTo, if_pos hpj, dropWhile_cons_of_neg (by simp [hpj])]
      refine forall₂_congr fun i _ ↦ ⟨fun hkept ↦ ?_, fun hpi hnot ↦ ?_⟩
      · by_contra hnot
        have hsame := mem_singleton.mp (hkept (Bool.eq_false_iff.mpr hnot))
        exact hnot (hsame ▸ hpj)
      · rw [hpi] at hnot
        cases hnot
    · rw [upTo, if_neg hpj, dropWhile_cons_of_pos (by simp [hpj]), ← ih hitems]
      constructor
      · intro hkept i hi hpi
        exact (mem_cons.mp (hkept i (mem_cons_of_mem j hi) hpi)).resolve_left
          (ne_of_mem_of_not_mem hi hj)
      · intro hkept i hi hpi
        rcases mem_cons.mp hi with rfl | hi
        · exact mem_cons_self
        · exact mem_cons_of_mem j (hkept i hi hpi)

/-! ### Lists and their loops -/

/-- The head of a list and the pointers of the items. -/
structure LinkChain (ι : Type u) where
  head : Option ι
  next : ι → Option ι

variable {l : LinkChain ι} {fuel : ℕ}

namespace LinkChain

/-- The pointers lead through these items, and end. -/
def Lists (l : LinkChain ι) (items : List ι) : Prop := Rest l.next l.head items

def walkTurn (l : LinkChain ι) : Option ι → Turn (Option ι) Unit
  | none => .returns ()
  | some i => .goesOn (l.next i)

/-- Go down the list to its end. -/
def walk (l : LinkChain ι) (fuel : ℕ) : Option Unit := loop l.walkTurn fuel l.head

theorem Lists.walk (hlists : l.Lists items) : Returns l.walk () := by
  have hgoes : Goes l.walkTurn l.head none := by
    have hall : Rest l.next l.head (items ++ []) := by
      rw [append_nil]
      exact hlists
    exact hall.goes fun i _ ↦ rfl
  exact returns_loop hgoes rfl

/-- A walk that ends has gone down a list. -/
theorem lists_of_walk (hwalk : l.walk fuel = some ()) : ∃ items, l.Lists items := by
  have hends : ∀ q, loop l.walkTurn fuel q = some () → ∃ items, Rest l.next q items := by
    intro q hloop
    clear hwalk
    induction fuel generalizing q with
    | zero => cases hloop
    | succ fuel ih =>
      cases q with
      | none => exact ⟨[], rfl⟩
      | some i =>
        obtain ⟨items, hrest⟩ := ih (l.next i) hloop
        exact ⟨i :: items, rfl, hrest⟩
  exact hends l.head hwalk

def tailTurn (l : LinkChain ι) (i : ι) : Turn ι ι :=
  match l.next i with
  | none => .returns i
  | some j => .goesOn j

def tail (l : LinkChain ι) (fuel : ℕ) : Option (Option ι) :=
  match l.head with
  | none => some none
  | some i => (loop l.tailTurn fuel i).map some

theorem Lists.tail (hlists : l.Lists items) : Returns l.tail items.getLast? := by
  have hends : ∀ i items, Rest l.next (some i) items →
      ∃ k, items.getLast? = some k ∧ Returns (fun fuel ↦ loop l.tailTurn fuel i) k := by
    intro i items hrest
    induction items generalizing i with
    | nil => cases hrest
    | cons j items ih =>
      obtain ⟨hi, htail⟩ := hrest
      obtain rfl := some.inj hi
      cases hnext : l.next i with
      | none =>
        rw [hnext] at htail
        rw [head?_eq_none_iff.mp htail.head.symm]
        refine ⟨i, rfl, returns_loop (Goes.refl i) ?_⟩
        rw [tailTurn, hnext]
      | some k =>
        rw [hnext] at htail
        obtain ⟨z, hz, bound, hbound⟩ := ih k htail
        refine ⟨z, ?_, bound + 1, fun fuel hfuel ↦ ?_⟩
        · rw [getLast?_cons, hz]
          rfl
        · obtain ⟨fuel, rfl⟩ :=
            Nat.exists_eq_succ_of_ne_zero (Nat.ne_of_gt (Nat.zero_lt_of_lt hfuel))
          have hturn : l.tailTurn i = .goesOn k := by rw [tailTurn, hnext]
          exact (loop_goesOn hturn).trans (hbound fuel (Nat.le_of_succ_le_succ hfuel))
  cases hhead : l.head with
  | none =>
    rw [Lists, hhead] at hlists
    rw [head?_eq_none_iff.mp hlists.head.symm]
    refine ⟨0, fun fuel _ ↦ ?_⟩
    rw [LinkChain.tail, hhead]
    rfl
  | some i =>
    rw [Lists, hhead] at hlists
    obtain ⟨k, hk, bound, hbound⟩ := hends i items hlists
    refine ⟨bound, fun fuel hfuel ↦ ?_⟩
    rw [LinkChain.tail, hhead, hk]
    exact congrArg (Option.map some) (hbound fuel hfuel)

variable [DecidableEq ι]

def searchTurn (l : LinkChain ι) (item : ι) : Option ι → Turn (Option ι) Bool
  | none => .returns false
  | some i => if i = item then .returns true else .goesOn (l.next i)

def search (l : LinkChain ι) (item : ι) (fuel : ℕ) : Option Bool := loop (l.searchTurn item) fuel l.head

/-- A search goes on at items that are not searched for. -/
theorem searchTurn_of_ne (hne : i ≠ item) : l.searchTurn item (some i) = .goesOn (l.next i) :=
  if_neg hne

variable (item) in
theorem Lists.search (hlists : l.Lists items) :
    Returns (l.search item) (decide (item ∈ items)) := by
  by_cases hitem : item ∈ items
  · obtain ⟨first, last, rfl, hfirst⟩ := eq_append_cons_of_mem hitem
    have hgoes : Goes (l.searchTurn item) l.head (some item) :=
      Rest.goes hlists fun i hi ↦ searchTurn_of_ne (ne_of_mem_of_not_mem hi hfirst)
    rw [decide_eq_true hitem]
    exact returns_loop hgoes (if_pos rfl)
  · have hall : Rest l.next l.head (items ++ []) := by
      rw [append_nil]
      exact hlists
    have hgoes : Goes (l.searchTurn item) l.head none :=
      hall.goes fun i hi ↦ searchTurn_of_ne (ne_of_mem_of_not_mem hi hitem)
    rw [decide_eq_false hitem]
    exact returns_loop hgoes rfl

def beforeTurn (l : LinkChain ι) (item : ι) : Option ι → Turn (Option ι) (Option ι)
  | none => .returns none
  | some i => if l.next i = some item then .returns (some i) else .goesOn (l.next i)

/-- The item whose pointer leads to another one. -/
def before (l : LinkChain ι) (item : ι) (fuel : ℕ) : Option (Option ι) :=
  loop (l.beforeTurn item) fuel l.head

theorem beforeTurn_of_ne (hne : l.next i ≠ some item) :
    l.beforeTurn item (some i) = .goesOn (l.next i) := if_neg hne

/-- The item in front of another one is found, unless that one is the first. -/
theorem Lists.before (hlists : l.Lists (first ++ i :: item :: last)) :
    Returns (l.before item) (some i) := by
  have hnodup := hlists.nodup
  have hnext : l.next i = some item := (Rest.behind hlists).2.1
  refine returns_loop (Rest.goes hlists fun j hj ↦ beforeTurn_of_ne fun hto ↦ ?_) (if_pos hnext)
  -- an earlier item would lead past `i`
  obtain ⟨front, back, rfl⟩ := append_of_mem hj
  rw [Lists, append_assoc, cons_append] at hlists
  have hbehind := (Rest.behind hlists).2.head
  rw [hto] at hbehind
  cases back with
  | nil =>
    obtain rfl := some.inj hbehind
    simp [nodup_append] at hnodup
  | cons k back =>
    obtain rfl := some.inj hbehind
    simp [nodup_append] at hnodup

theorem Lists.before_of_notMem (hlists : l.Lists items) (hitem : item ∉ items) :
    Returns (l.before item) none := by
  have hall : Rest l.next l.head (items ++ []) := by
    rw [append_nil]
    exact hlists
  have hgoes : Goes (l.beforeTurn item) l.head none :=
    hall.goes fun i hi ↦ beforeTurn_of_ne fun hto ↦ hitem (hlists.next_mem hi hto)
  exact returns_loop hgoes rfl

/-- Search an item, keeping the one that was visited before. -/
def locateTurn (l : LinkChain ι) (item : ι) :
    Option ι × Option ι → Turn (Option ι × Option ι) (Option (Option ι))
  | (_, none) => .returns none
  | (r, some i) => if i = item then .returns (some r) else .goesOn (some i, l.next i)

/-- Where an item is on the list, the item in front of it, if any. -/
def locate (l : LinkChain ι) (item : ι) (fuel : ℕ) : Option (Option (Option ι)) :=
  loop (l.locateTurn item) fuel (none, l.head)

theorem goes_locate (hrest : Rest l.next q (first ++ last)) (hitem : item ∉ first) :
    Goes (l.locateTurn item) (r, q) (first.getLast?.or r, last.head?) := by
  induction first generalizing q r with
  | nil =>
    rw [show q = last.head? from hrest.head]
    exact Goes.refl _
  | cons i first ih =>
    obtain ⟨hi, hfirst⟩ := ne_and_not_mem_of_not_mem_cons hitem
    rw [hrest.1]
    have hturn : l.locateTurn item (r, some i) = .goesOn (some i, l.next i) := if_neg (Ne.symm hi)
    have hbehind := ih (r := some i) hrest.2 hfirst
    have hlast : (i :: first).getLast?.or r = first.getLast?.or (some i) := by
      rw [getLast?_cons]
      cases first.getLast? <;> rfl
    rw [hlast]
    exact (goes_single hturn).trans hbehind

theorem Lists.locate (hlists : l.Lists (first ++ item :: last)) :
    Returns (l.locate item) (some first.getLast?) := by
  have hitem : item ∉ first := fun hmem ↦ by
    have hnodup := hlists.nodup
    rw [nodup_append] at hnodup
    exact hnodup.2.2 item hmem item mem_cons_self rfl
  have hgoes := goes_locate (r := none) hlists hitem
  rw [or_none] at hgoes
  exact returns_loop hgoes (if_pos rfl)

theorem Lists.locate_of_notMem (hlists : l.Lists items) (hitem : item ∉ items) :
    Returns (l.locate item) none := by
  have hall : Rest l.next l.head (items ++ []) := by
    rw [append_nil]
    exact hlists
  exact returns_loop (goes_locate (r := none) hall hitem) rfl

def push (l : LinkChain ι) (item : ι) : LinkChain ι :=
  ⟨some item, update l.next item l.head⟩

/-- The pointer to an item is redirected to the one behind it. -/
def bypass (l : LinkChain ι) (previous : Option ι) (item : ι) : LinkChain ι :=
  match previous with
  | none => ⟨l.next item, l.next⟩
  | some i => ⟨l.head, update l.next i (l.next item)⟩

def clear (l : LinkChain ι) (item : ι) : LinkChain ι := ⟨l.head, update l.next item none⟩

/-- The pointer of the last item, or the head of an empty list, is led to an item. -/
def link (l : LinkChain ι) (last : Option ι) (item : ι) : LinkChain ι :=
  match last with
  | none => ⟨some item, l.next⟩
  | some i => ⟨l.head, update l.next i (some item)⟩

theorem Lists.push (hlists : l.Lists items) (hitem : item ∉ items) :
    (l.push item).Lists (item :: items) := by
  refine ⟨rfl, ?_⟩
  change Rest (update l.next item l.head) (update l.next item l.head item) items
  rw [update_self]
  exact Rest.congr hlists fun i hi ↦ update_of_ne (ne_of_mem_of_not_mem hi hitem) _ _

/-- An item that is on the list closes a circle in front of it. -/
theorem Lists.not_lists_push (hlists : l.Lists items) (hitem : item ∈ items) :
    ¬ (l.push item).Lists items' := by
  intro hpushed
  cases items' with
  | nil => cases hpushed
  | cons i rest =>
    have hnodup := hpushed.nodup
    obtain ⟨hi, hrest⟩ := hpushed
    obtain rfl := some.inj hi
    change Rest (update l.next item l.head) (update l.next item l.head item) rest
      at hrest
    rw [update_self] at hrest
    have hsame : Rest l.next l.head rest := hrest.congr fun j hj ↦
      (update_of_ne (ne_of_mem_of_not_mem hj (nodup_cons.mp hnodup).1) _ _).symm
    rw [hlists.unique hsame] at hitem
    exact (nodup_cons.mp hnodup).1 hitem

theorem Lists.clear (hlists : l.Lists items) (hitem : item ∉ items) : (l.clear item).Lists items :=
  Rest.congr hlists fun _ hi ↦ update_of_ne (ne_of_mem_of_not_mem hi hitem) _ _

theorem Lists.bypass (hlists : l.Lists (first ++ item :: last)) :
    (l.bypass first.getLast? item).Lists (first ++ last) := by
  have hnodup := hlists.nodup
  have hlast : Rest l.next (l.next item) last := (Rest.behind hlists).2
  rcases eq_nil_or_concat first with rfl | ⟨front, i, rfl⟩
  · exact hlast
  · rw [concat_eq_append] at *
    have hi : i ∉ front ∧ i ∉ last := by
      simp only [append_assoc, cons_append, nil_append, nodup_append, nodup_cons] at hnodup
      exact ⟨fun hmem ↦ hnodup.2.2 i hmem i mem_cons_self rfl,
        fun hmem ↦ hnodup.2.1.1 (mem_cons_of_mem _ hmem)⟩
    rw [getLast?_concat, append_assoc, singleton_append]
    rw [append_assoc, singleton_append] at hlists
    change Rest (update l.next i (l.next item)) l.head _
    refine Rest.splice hlists (fun j hj ↦ ?_) ?_
    · rw [update_of_ne (ne_of_mem_of_not_mem hj hi.1)]
    · rw [update_self]
      exact hlast.congr fun j hj ↦ update_of_ne (ne_of_mem_of_not_mem hj hi.2) _ _

theorem Lists.link (hlists : l.Lists items) (hitem : item ∉ items) (hclear : l.next item = none) :
    (l.link items.getLast? item).Lists (items ++ [item]) := by
  have hnodup := hlists.nodup
  rcases eq_nil_or_concat items with rfl | ⟨front, i, rfl⟩
  · exact ⟨rfl, hclear⟩
  · rw [concat_eq_append] at *
    have hne : i ≠ item := ne_of_mem_of_not_mem (mem_append_right _ mem_cons_self) hitem
    have hi : i ∉ front := by
      rw [nodup_append] at hnodup
      exact fun hmem ↦ hnodup.2.2 i hmem i mem_cons_self rfl
    rw [getLast?_concat, append_assoc, singleton_append]
    change Rest (update l.next i (some item)) l.head _
    refine Rest.splice hlists (fun j hj ↦ ?_) ?_
    · rw [update_of_ne (ne_of_mem_of_not_mem hj hi)]
    · rw [update_self]
      refine ⟨rfl, ?_⟩
      rw [update_of_ne hne.symm]
      exact hclear

end LinkChain

end ContikiMaster.Lib
