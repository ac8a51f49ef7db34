import ContikiMaster.Lib.Run
import ContikiMaster.Rpl.LinkGraph
import Mathlib.Data.List.Find

/-!
# Soundness of the link graph

The listed nodes stay the allocated ones, and the bounded climb to the root finds every
way there is. A parent pointer dangles when an expired node is freed while a node that
stays points to it, and two nodes share an identifier when a look-up fails although the
identifier is listed. These are the only ways in which the graph goes wrong.
-/

namespace ContikiMaster.Rpl.RplNs

open Lib Sys Function List Option Memb

variable {dagId child addr : UipIpaddr} {s t : RplNs} {p q root : ℕ} {n : RplNsNode}
  {parent : Option UipIpaddr} {childNode parentNode : Option ℕ} {lifetime seconds : BitVec 32}

def parentOf (s : RplNs) (p : ℕ) : Option ℕ := (s.node p).parent

def linkIdentifier (s : RplNs) (p : ℕ) : BitVec 64 := (s.node p).linkIdentifier

/-- The parent chain of the node with this address arrives at the node of the root. -/
def ReachesRoot (dagId : UipIpaddr) (s : RplNs) (addr : UipIpaddr) : Prop :=
  ∃ p root, s.rplNsGetNode dagId addr = some p ∧ s.rplNsGetNode dagId dagId = some root ∧
    Follows s.parentOf p root

/-- The list holds the allocated blocks, once each, and they are counted. -/
structure Listing (s : RplNs) : Prop where
  nodup : s.nodelist.Nodup
  listed : ∀ p, p ∈ s.nodelist ↔ s.Allocated p
  once : ∀ p, s.nodememb.count p ≤ 1
  numNodes : s.numNodes = s.nodelist.length

/-- The parents of listed nodes are listed. -/
structure Linked (s : RplNs) : Prop extends Listing s where
  parents : ∀ p ∈ s.nodelist, ∀ q, s.parentOf p = some q → q ∈ s.nodelist

/-! ### The pool -/

theorem Listing.subset_range (hlisting : s.Listing) : s.nodelist ⊆ range s.nodememb.num := by
  intro p hp
  exact mem_range.mpr ((hlisting.listed p).mp hp).1

theorem Listing.length_le (hlisting : s.Listing) : s.nodelist.length ≤ s.nodememb.num := by
  have hle := (hlisting.nodup.subperm hlisting.subset_range).length_le
  rwa [length_range] at hle

theorem Listing.length_lt (hlisting : s.Listing) (hp : p < s.nodememb.num)
    (hunlisted : p ∉ s.nodelist) : s.nodelist.length < s.nodememb.num := by
  have hsubset : p :: s.nodelist ⊆ range s.nodememb.num :=
    cons_subset.mpr ⟨mem_range.mpr hp, hlisting.subset_range⟩
  have hle := ((nodup_cons.mpr ⟨hunlisted, hlisting.nodup⟩).subperm hsubset).length_le
  rwa [length_range] at hle

/-- The state after a node was added in an unused block. -/
def enlist (s : RplNs) (p : ℕ) (n : RplNsNode) : RplNs where
  numNodes := s.numNodes + 1
  nodelist := s.nodelist ++ [p]
  nodememb :=
    { num := s.nodememb.num
      count := update s.nodememb.count p 1
      mem := update s.nodememb.mem p n }

theorem addNode_cases (hlisting : s.Listing) :
    s.addNode = none ∧ s.nodememb.num ≤ s.nodelist.length ∨
      ∃ p, s.addNode = some (p, s.enlist p { s.node p with parent := none }) ∧
        p < s.nodememb.num ∧ p ∉ s.nodelist ∧ s.nodelist.length < s.nodememb.num := by
  cases halloc : s.nodememb.alloc with
  | none =>
    left
    rw [addNode, halloc]
    refine ⟨rfl, ?_⟩
    have hall := alloc_eq_none.mp halloc
    have hsubset : range s.nodememb.num ⊆ s.nodelist := by
      intro p hp
      have hlt := mem_range.mp hp
      exact (hlisting.listed p).mpr ⟨hlt, hall p hlt⟩
    have hle := (nodup_range.subperm hsubset).length_le
    rwa [length_range] at hle
  | some found =>
    obtain ⟨p, memb⟩ := found
    obtain ⟨hlt, hzero, hnum, hmem, hcount⟩ := alloc_spec halloc
    have hunlisted : p ∉ s.nodelist := fun hp ↦ ((hlisting.listed p).mp hp).2 hzero
    right
    refine ⟨p, ?_, hlt, hunlisted, hlisting.length_lt hlt hunlisted⟩
    have hmemb : memb = ⟨s.nodememb.num, update s.nodememb.count p 1, s.nodememb.mem⟩ := by
      rw [← hnum, ← hmem, ← hcount]
    rw [addNode, halloc, map_some, enlist, ← listAdd_of_notMem hunlisted, hmemb]
    rfl

@[simp] theorem enlist_nodelist : (s.enlist p n).nodelist = s.nodelist ++ [p] := rfl

@[simp] theorem enlist_num : (s.enlist p n).nodememb.num = s.nodememb.num := rfl

theorem writeNode_parentOf : (s.writeNode p n).parentOf = update s.parentOf p n.parent := by
  funext q
  by_cases hq : q = p
  · simp [parentOf, node, writeNode, store, hq]
  · simp [parentOf, node, writeNode, store, hq]

theorem writeNode_linkIdentifier :
    (s.writeNode p n).linkIdentifier = update s.linkIdentifier p n.linkIdentifier := by
  funext q
  by_cases hq : q = p
  · simp [linkIdentifier, node, writeNode, store, hq]
  · simp [linkIdentifier, node, writeNode, store, hq]

theorem enlist_parentOf : (s.enlist p n).parentOf = update s.parentOf p n.parent :=
  writeNode_parentOf

theorem enlist_linkIdentifier :
    (s.enlist p n).linkIdentifier = update s.linkIdentifier p n.linkIdentifier :=
  writeNode_linkIdentifier

@[simp] theorem writeNode_node : (s.writeNode p n).node p = n := store_mem_self

theorem writeNode_writeNode (n' : RplNsNode) :
    (s.writeNode p n).writeNode p n' = s.writeNode p n' := by
  simp [writeNode, store]

theorem enlist_writeNode (n' : RplNsNode) : (s.enlist p n).writeNode p n' = s.enlist p n' := by
  simp [enlist, writeNode, store]

theorem Listing.writeNode (hlisting : s.Listing) : (s.writeNode p n).Listing :=
  ⟨hlisting.nodup, hlisting.listed, hlisting.once, hlisting.numNodes⟩

theorem Listing.enlist (hlisting : s.Listing) (hlt : p < s.nodememb.num)
    (hunlisted : p ∉ s.nodelist) : (s.enlist p n).Listing where
  nodup := nodup_append.mpr ⟨hlisting.nodup, nodup_singleton p, fun a ha b hb heq ↦
    hunlisted (mem_singleton.mp hb ▸ heq ▸ ha)⟩
  listed q := by
    rw [enlist_nodelist, mem_append, mem_singleton, hlisting.listed]
    by_cases hq : q = p
    · simp [Allocated, RplNs.enlist, hq, hlt]
    · simp [Allocated, RplNs.enlist, hq]
  once q := by
    by_cases hq : q = p
    · simp [RplNs.enlist, hq]
    · simpa [RplNs.enlist, hq] using hlisting.once q
  numNodes := by
    change s.numNodes + 1 = ((s.nodelist ++ [p]).length : ℤ)
    simp [hlisting.numNodes]

theorem Listing.removeNode (hlisting : s.Listing) (hp : p ∈ s.nodelist) :
    (s.removeNode p).Listing where
  nodup := nodup_listRemove hlisting.nodup
  listed q := by
    have hallocated := (hlisting.listed p).mp hp
    have hone := hlisting.once p
    change q ∈ listRemove s.nodelist p ↔ q < (s.nodememb.free p).num ∧ (s.nodememb.free p).count q ≠ 0
    rw [mem_listRemove hlisting.nodup, hlisting.listed, free_num]
    by_cases hq : q = p
    · rw [hq, free_count_self hallocated.1]
      constructor
      · exact fun hboth ↦ absurd rfl hboth.2
      · intro hboth
        omega
    · rw [free_count_of_ne hq]
      exact ⟨And.left, fun hboth ↦ ⟨hboth, hq⟩⟩
  once q := by
    change (s.nodememb.free p).count q ≤ 1
    have hone := hlisting.once q
    by_cases hq : q = p
    · subst hq
      rw [free_count_self ((hlisting.listed q).mp hp).1]
      omega
    · rwa [free_count_of_ne hq]
  numNodes := by
    change s.numNodes - 1 = ((s.nodelist.erase p).length : ℤ)
    have hpos := length_pos_of_mem hp
    rw [length_erase_of_mem hp, hlisting.numNodes]
    omega

theorem removeNode_parentOf (s : RplNs) (p : ℕ) : (s.removeNode p).parentOf = s.parentOf := by
  funext q
  simp [parentOf, node, removeNode]

theorem removeNode_node (s : RplNs) (p : ℕ) : (s.removeNode p).node = s.node := by
  funext q
  simp [node, removeNode]

theorem init_linked (linkNum : ℕ) : (init linkNum).Linked where
  nodup := nodup_nil
  listed p := by simp [init, Allocated, Memb.init]
  once _ := Nat.zero_le 1
  numNodes := rfl
  parents _ hp := by cases hp

theorem climb_none (rootNode : Option ℕ) (maxDepth : ℕ) :
    s.climb rootNode maxDepth none = none := by
  cases maxDepth with
  | zero => rfl
  | succ maxDepth => rfl

theorem climb_eq_root (maxDepth : ℕ) : s.climb (some root) maxDepth (some p) = some root ↔
      root ∈ chain s.parentOf (maxDepth + 1) p := by
  induction maxDepth generalizing p with
  | zero =>
    rw [climb, chain, mem_cons, some.injEq, eq_comm]
    cases s.parentOf p with
    | none => simp
    | some q => simp [chain]
  | succ maxDepth ih =>
    rw [climb, chain, mem_cons]
    by_cases hroot : p = root
    · simp [hroot]
    · rw [if_neg (by simpa using hroot), or_iff_right (Ne.symm hroot)]
      change s.climb (some root) maxDepth (s.parentOf p) = _ ↔ _
      cases s.parentOf p with
      | none => simp [climb_none]
      | some q => exact ih

theorem mem_of_rplNsGetNode (hget : s.rplNsGetNode dagId addr = some p) : p ∈ s.nodelist :=
  mem_of_find?_eq_some hget

theorem Linked.reachable_iff (hlinked : s.Linked) :
    s.rplNsIsAddrReachable dagId addr = true ↔ s.ReachesRoot dagId addr := by
  unfold rplNsIsAddrReachable ReachesRoot
  cases hget : s.rplNsGetNode dagId addr with
  | none => simp [climb_none]
  | some p =>
    cases hroot : s.rplNsGetNode dagId dagId with
    | none =>
      simp only [Bool.and_eq_true, isSome_iff_exists, beq_iff_eq]
      constructor
      · rintro ⟨⟨q, hsome⟩, hnone⟩
        cases hsome.symm.trans hnone
      · rintro ⟨_, _, -, hsome, -⟩
        cases hsome
    | some root =>
      simp only [Bool.and_eq_true, beq_iff_eq, some.injEq, exists_and_left, exists_eq_left']
      rw [climb_eq_root]
      constructor
      · rintro ⟨-, hmem⟩
        exact follows_of_mem_chain hmem
      · intro hfollows
        have hmem := hfollows.mem_chain hlinked.parents (mem_of_rplNsGetNode hget)
        obtain ⟨k, hk, hiterate⟩ := mem_chain_iff_iterate.mp hmem
        have hle := hlinked.length_le
        have hchain : root ∈ chain s.parentOf (s.nodememb.num + 1) p :=
          mem_chain_iff_iterate.mpr ⟨k, by omega, hiterate⟩
        exact ⟨by rw [(climb_eq_root s.nodememb.num).mpr hchain]; rfl, hchain⟩

/-! ### Updates -/

theorem Linked.writeNode (hlinked : s.Linked) (hparent : ∀ q ∈ n.parent, q ∈ s.nodelist) :
    (s.writeNode p n).Linked where
  toListing := hlinked.toListing.writeNode
  parents a ha q hq := by
    rw [writeNode_parentOf] at hq
    by_cases hap : a = p
    · rw [hap, update_self] at hq
      exact hparent q hq
    · rw [update_of_ne hap] at hq
      exact hlinked.parents a ha q hq

theorem Linked.enlist (hlinked : s.Linked) (hlt : p < s.nodememb.num) (hunlisted : p ∉ s.nodelist)
    (hparent : ∀ q ∈ n.parent, q ∈ s.nodelist) : (s.enlist p n).Linked where
  toListing := hlinked.toListing.enlist hlt hunlisted
  parents a ha q hq := by
    rw [enlist_parentOf] at hq
    rw [enlist_nodelist, mem_append] at ha ⊢
    left
    by_cases hap : a = p
    · rw [hap, update_self] at hq
      exact hparent q hq
    · rw [update_of_ne hap] at hq
      exact hlinked.parents a (ha.resolve_right (hap ∘ mem_singleton.mp)) q hq

theorem rplNsGetNode_congr (hlist : t.nodelist = s.nodelist)
    (hident : t.linkIdentifier = s.linkIdentifier) :
    t.rplNsGetNode dagId addr = s.rplNsGetNode dagId addr := by
  have hmatches : (fun l ↦ nodeMatchesAddress dagId (t.node l) addr) =
      fun l ↦ nodeMatchesAddress dagId (s.node l) addr := by
    funext l
    have hsame : (t.node l).linkIdentifier = (s.node l).linkIdentifier := congrFun hident l
    rw [nodeMatchesAddress, nodeMatchesAddress, hsame]
  rw [rplNsGetNode, rplNsGetNode, hlist, hmatches]

theorem linkIdentifier_of_getNode (hget : s.rplNsGetNode dagId addr = some p) :
    s.linkIdentifier p = addr.linkIdentifier := by
  have hmatches := find?_some hget
  simp only [nodeMatchesAddress, Bool.and_eq_true, beq_iff_eq] at hmatches
  exact hmatches.2.symm

theorem getNode_writeNode (hident : n.linkIdentifier = s.linkIdentifier p) :
    (s.writeNode p n).rplNsGetNode dagId addr = s.rplNsGetNode dagId addr := by
  apply rplNsGetNode_congr
  · rfl
  · rw [writeNode_linkIdentifier, hident, update_eq_self]

theorem getNode_enlist (hunlisted : p ∉ s.nodelist) (hget : s.rplNsGetNode dagId addr = some q) :
    (s.enlist p n).rplNsGetNode dagId addr = some q := by
  have hsame : (s.enlist p n).nodelist.find? (fun l ↦
        nodeMatchesAddress dagId ((s.enlist p n).node l) addr) =
      (s.nodelist.find? fun l ↦ nodeMatchesAddress dagId (s.node l) addr).or
        ([p].find? fun l ↦ nodeMatchesAddress dagId ((s.enlist p n).node l) addr) := by
    rw [enlist_nodelist, find?_append]
    congr 1
    apply find?_congr
    intro l hl
    have hne : l ≠ p := fun heq ↦ hunlisted (heq ▸ hl)
    simp [node, RplNs.enlist, hne]
  change _ = some q at hget
  rw [rplNsGetNode] at hget
  rw [rplNsGetNode, hsame, hget, some_or]

variable (dagId) in
/-- The end of an update writes one record: the parent is the new one or the old one. -/
theorem linkChild_eq (s : RplNs) (p : ℕ) (parentNode : Option ℕ) (child : UipIpaddr)
    (lifetime : BitVec 32) : ∃ parent, (parent = parentNode ∨ parent = s.parentOf p) ∧
      s.linkChild dagId p parentNode child lifetime =
        s.writeNode p ⟨lifetime, child.linkIdentifier, parent⟩ := by
  unfold linkChild setParent
  simp only [writeNode_node, writeNode_writeNode]
  split
  · split
    · exact ⟨parentNode, Or.inl rfl, rfl⟩
    · exact ⟨s.parentOf p, Or.inr rfl, rfl⟩
  · exact ⟨parentNode, Or.inl rfl, rfl⟩

variable (dagId child parentNode lifetime) in
/-- What a missing child gets: nothing when the pool is exhausted, else a node at the end. -/
theorem updateChild_none (hlisting : s.Listing) :
    s.updateChild dagId none parentNode child lifetime = (none, s) ∧
        s.nodememb.num ≤ s.nodelist.length ∨
      ∃ p parent, s.updateChild dagId none parentNode child lifetime =
          (some p, s.enlist p ⟨lifetime, child.linkIdentifier, parent⟩) ∧
        (parent = parentNode ∨ parent = none) ∧ p < s.nodememb.num ∧ p ∉ s.nodelist ∧
        s.nodelist.length < s.nodememb.num := by
  rcases addNode_cases hlisting with ⟨hnone, hfull⟩ | ⟨p, hsome, hlt, hunlisted, hroom⟩
  · left
    rw [updateChild, hnone]
    exact ⟨rfl, hfull⟩
  · right
    obtain ⟨parent, hparent, heq⟩ := linkChild_eq dagId
      (s.enlist p { s.node p with parent := none }) p parentNode child lifetime
    refine ⟨p, parent, ?_, ?_, hlt, hunlisted, hroom⟩
    · rw [updateChild, hsome]
      simp only [heq, enlist_writeNode]
    · rwa [enlist_parentOf, update_self] at hparent

variable (dagId) in
theorem updateChild_some (s : RplNs) (p : ℕ) (parentNode : Option ℕ) (child : UipIpaddr)
    (lifetime : BitVec 32) : ∃ parent, s.updateChild dagId (some p) parentNode child lifetime =
        (some p, s.writeNode p ⟨lifetime, child.linkIdentifier, parent⟩) ∧
      (parent = parentNode ∨ parent = s.parentOf p) := by
  obtain ⟨parent, hparent, heq⟩ := linkChild_eq dagId s p parentNode child lifetime
  exact ⟨parent, by rw [updateChild, heq], hparent⟩

variable (lifetime) in
/-- A node that reaches the root keeps reaching it: a parent that cuts it off is not kept. -/
theorem linkChild_follows (hlinked : s.Linked) (hget : s.rplNsGetNode dagId child = some p)
    (hroot : s.rplNsGetNode dagId dagId = some root)
    (hparent : ∀ q ∈ parentNode, q ∈ s.nodelist) (hfollows : Follows s.parentOf p root) :
    Follows (s.linkChild dagId p parentNode child lifetime).parentOf p root := by
  have hident := linkIdentifier_of_getNode hget
  have hmem := mem_of_rplNsGetNode hget
  let touched := s.writeNode p ⟨lifetime, child.linkIdentifier, s.parentOf p⟩
  have htouched : touched.parentOf = s.parentOf := by
    rw [writeNode_parentOf, update_eq_self]
  let updated := s.writeNode p ⟨lifetime, child.linkIdentifier, parentNode⟩
  have hold : touched.Linked := hlinked.writeNode fun q hq ↦ hlinked.parents p hmem q hq
  have hnew : updated.Linked := hlinked.writeNode hparent
  have hreach : touched.rplNsIsAddrReachable dagId child = true := by
    refine hold.reachable_iff.mpr ⟨p, root, ?_, ?_, by rwa [htouched]⟩
    · rwa [getNode_writeNode hident.symm]
    · rwa [getNode_writeNode hident.symm]
  have heq : s.linkChild dagId p parentNode child lifetime =
      if updated.rplNsIsAddrReachable dagId child then updated else touched := by
    have hreach' : (s.writeNode p { s.node p with
        lifetime := lifetime, linkIdentifier := child.linkIdentifier }).rplNsIsAddrReachable dagId
          child = true := hreach
    simp only [linkChild, setParent, writeNode_node, writeNode_writeNode, hreach', if_true]
    rfl
  rw [heq]
  split
  · rename_i hupdated
    obtain ⟨p', root', hget', hroot', hfollows'⟩ := hnew.reachable_iff.mp hupdated
    rw [getNode_writeNode hident.symm] at hget' hroot'
    rw [hget] at hget'
    rw [hroot] at hroot'
    cases hget'
    cases hroot'
    exact hfollows'
  · rwa [htouched]

/-- The parent that an update is given. -/
def Valid (s : RplNs) (parentNode : Option ℕ) : Prop := ∀ q ∈ parentNode, q ∈ s.nodelist

variable (dagId child parentNode lifetime) in
theorem Linked.updateChild_none (hlinked : s.Linked) (hparent : s.Valid parentNode) :
    (s.updateChild dagId none parentNode child lifetime).2.Linked := by
  rcases RplNs.updateChild_none dagId child parentNode lifetime hlinked.toListing with
    ⟨heq, -⟩ | ⟨p, parent, heq, hcases, hlt, hunlisted, -⟩
  · rwa [heq]
  · rw [heq]
    apply hlinked.enlist hlt hunlisted
    rcases hcases with rfl | rfl
    · exact hparent
    · exact fun q hq ↦ by cases hq

theorem Linked.updateChild_some (hlinked : s.Linked) (hp : p ∈ s.nodelist)
    (hparent : s.Valid parentNode) :
    (s.updateChild dagId (some p) parentNode child lifetime).2.Linked := by
  obtain ⟨parent, heq, hcases⟩ := RplNs.updateChild_some dagId s p parentNode child lifetime
  rw [heq]
  apply hlinked.writeNode
  rcases hcases with rfl | rfl
  · exact hparent
  · exact hlinked.parents p hp

variable (child parentNode lifetime) in
/-- A node that is added changes the way of no listed node. -/
theorem ReachesRoot.updateChild_none (hlinked : s.Linked) (hreaches : s.ReachesRoot dagId addr) :
    (s.updateChild dagId none parentNode child lifetime).2.ReachesRoot dagId addr := by
  rcases RplNs.updateChild_none dagId child parentNode lifetime hlinked.toListing with
    ⟨heq, -⟩ | ⟨p, parent, heq, -, hlt, hunlisted, -⟩
  · rwa [heq]
  · rw [heq]
    obtain ⟨q, root, hget, hroot, hfollows⟩ := hreaches
    refine ⟨q, root, getNode_enlist hunlisted hget, getNode_enlist hunlisted hroot, ?_⟩
    apply Follows.congr hlinked.parents _ (mem_of_rplNsGetNode hget) hfollows
    intro a ha
    rw [enlist_parentOf, update_of_ne]
    exact fun heq ↦ hunlisted (heq ▸ ha)

theorem ReachesRoot.updateChild_some (hlinked : s.Linked)
    (hchild : s.rplNsGetNode dagId child = some p) (hparent : s.Valid parentNode)
    (hreaches : s.ReachesRoot dagId addr) :
    (s.updateChild dagId (some p) parentNode child lifetime).2.ReachesRoot dagId addr := by
  obtain ⟨q, root, hget, hroot, hfollows⟩ := hreaches
  have hkeeps := linkChild_follows lifetime hlinked hchild hroot hparent
  obtain ⟨parent, heq, -⟩ := RplNs.updateChild_some dagId s p parentNode child lifetime
  have hlink : s.linkChild dagId p parentNode child lifetime =
      s.writeNode p ⟨lifetime, child.linkIdentifier, parent⟩ := congrArg Prod.snd heq
  have hident := linkIdentifier_of_getNode hchild
  rw [hlink, writeNode_parentOf] at hkeeps
  rw [heq]
  refine ⟨q, root, ?_, ?_, ?_⟩
  · rwa [getNode_writeNode hident.symm]
  · rwa [getNode_writeNode hident.symm]
  · rw [writeNode_parentOf]
    by_cases hself : Follows s.parentOf p root
    · exact (hkeeps hself).update hfollows
    · exact hfollows.update_of_not hself

/-- The identifiers of the listed nodes, in the order of the list. -/
def identifiers (s : RplNs) : List (BitVec 64) := s.nodelist.map s.linkIdentifier

def room (s : RplNs) : ℕ := s.nodememb.num - s.nodelist.length

theorem identifiers_writeNode (hident : n.linkIdentifier = s.linkIdentifier p) :
    (s.writeNode p n).identifiers = s.identifiers := by
  rw [identifiers, writeNode_linkIdentifier, hident, update_eq_self]
  rfl

theorem identifiers_enlist (hunlisted : p ∉ s.nodelist) :
    (s.enlist p n).identifiers = s.identifiers ++ [n.linkIdentifier] := by
  rw [identifiers, enlist_linkIdentifier, enlist_nodelist, map_append, map_singleton, update_self]
  congr 1
  apply map_congr_left
  intro a ha
  rw [update_of_ne]
  exact fun heq ↦ hunlisted (heq ▸ ha)

theorem identifiers_updateChild_none (hlisting : s.Listing) :
    (s.updateChild dagId none parentNode child lifetime).2.identifiers =
      s.identifiers ++ [child.linkIdentifier].take s.room := by
  rcases updateChild_none dagId child parentNode lifetime hlisting with
    ⟨heq, hfull⟩ | ⟨p, parent, heq, -, -, hunlisted, hroom⟩
  · rw [heq, room, Nat.sub_eq_zero_of_le hfull, take_zero, append_nil]
  · rw [heq, identifiers_enlist hunlisted, take_of_length_le]
    exact Nat.sub_pos_of_lt hroom

theorem identifiers_updateChild_some (hchild : s.linkIdentifier p = child.linkIdentifier) :
    (s.updateChild dagId (some p) parentNode child lifetime).2.identifiers = s.identifiers := by
  obtain ⟨parent, heq, -⟩ := updateChild_some dagId s p parentNode child lifetime
  rw [heq]
  exact identifiers_writeNode hchild.symm

/-- What the part about the parent leaves for the part about the child. -/
structure ParentFound (dagId : UipIpaddr) (s t : RplNs) (parentNode : Option ℕ) : Prop where
  linked : t.Linked
  valid : t.Valid parentNode
  found : ∀ addr p, s.rplNsGetNode dagId addr = some p → t.rplNsGetNode dagId addr = some p
  reaches : ∀ addr, s.ReachesRoot dagId addr → t.ReachesRoot dagId addr

/-- The identifiers of the addresses without a node. -/
def missing (dagId : UipIpaddr) (s : RplNs) (addrs : List UipIpaddr) : List (BitVec 64) :=
  (addrs.filter fun addr ↦ (s.rplNsGetNode dagId addr).isNone).map UipIpaddr.linkIdentifier

variable (dagId) in
theorem findParent_spec (hlinked : s.Linked) (parent : Option UipIpaddr) :
    s.findParent dagId parent = (none, s) ∧ s.room = 0 ∨
      ∃ parentNode t, s.findParent dagId parent = (some parentNode, t) ∧
        ParentFound dagId s t parentNode ∧
        t.identifiers = s.identifiers ++ missing dagId s parent.toList ∧
        s.room = t.room + (missing dagId s parent.toList).length := by
  cases parent with
  | none =>
    right
    refine ⟨none, s, rfl, ⟨hlinked, ?_, fun _ _ ↦ id, fun _ ↦ id⟩, ?_, rfl⟩
    · intro q hq
      cases hq
    · simp [missing]
  | some parent =>
    cases hget : s.rplNsGetNode dagId parent with
    | some p =>
      right
      refine ⟨some p, s, ?_, ⟨hlinked, ?_, fun _ _ ↦ id, fun _ ↦ id⟩, ?_, ?_⟩
      · simp only [findParent, hget]
      · intro q hq
        exact some.inj hq ▸ mem_of_rplNsGetNode hget
      · simp [missing, hget]
      · simp [missing, hget]
    | none =>
      rcases updateChild_none dagId parent none rplRouteInfiniteLifetime hlinked.toListing with
        ⟨heq, hfull⟩ | ⟨p, grandparent, heq, hcases, hlt, hunlisted, hroom⟩
      · left
        simp only [findParent, hget, heq, room, Nat.sub_eq_zero_of_le hfull, and_self]
      · right
        refine ⟨some p, _, by simp only [findParent, hget, heq]; rfl, ⟨?_, ?_, ?_, ?_⟩, ?_, ?_⟩
        · have hnext := hlinked.updateChild_none dagId parent none rplRouteInfiniteLifetime fun q hq ↦ by
            cases hq
          rwa [heq] at hnext
        · intro q hq
          rw [enlist_nodelist, mem_append, mem_singleton]
          exact Or.inr (some.inj hq).symm
        · exact fun _ _ ↦ getNode_enlist hunlisted
        · intro addr hreaches
          have hnext := hreaches.updateChild_none parent none rplRouteInfiniteLifetime hlinked
          rwa [heq] at hnext
        · rw [identifiers_enlist hunlisted]
          simp [missing, hget]
        · have hone : (missing dagId s (some parent).toList).length = 1 := by simp [missing, hget]
          rw [hone, room, room, enlist_nodelist, enlist_num, length_append, length_singleton]
          omega

def added (dagId : UipIpaddr) (s : RplNs) (child : UipIpaddr) (parent : Option UipIpaddr) :
    List (BitVec 64) :=
  (missing dagId s (parent.toList ++ [child])).take s.room

variable (dagId) in
/-- An update keeps the graph linked and what reaches the root, and it adds the missing nodes as
far as there is room. -/
theorem rplNsUpdateNode_spec (hlinked : s.Linked) (child : UipIpaddr) (parent : Option UipIpaddr)
    (lifetime : BitVec 32) :
    let t := (s.rplNsUpdateNode dagId child parent lifetime).2
    t.Linked ∧ (∀ addr, s.ReachesRoot dagId addr → t.ReachesRoot dagId addr) ∧
      t.identifiers = s.identifiers ++ s.added dagId child parent := by
  rcases findParent_spec dagId hlinked parent with
    ⟨heq, hfull⟩ | ⟨parentNode, t, heq, hfound, hidents, hroom⟩
  · simp only [rplNsUpdateNode, heq]
    refine ⟨hlinked, fun _ ↦ id, ?_⟩
    rw [added, hfull, take_zero, append_nil]
  · simp only [rplNsUpdateNode, heq]
    have hadded : s.added dagId child parent =
        missing dagId s parent.toList ++ (missing dagId s [child]).take t.room := by
      rw [added, missing, filter_append, map_append]
      change (missing dagId s parent.toList ++ missing dagId s [child]).take s.room = _
      rw [hroom, Nat.add_comm, take_length_add_append]
    rw [hadded, ← append_assoc, ← hidents]
    cases hget : s.rplNsGetNode dagId child with
    | some p =>
      have hchild := hfound.found child p hget
      refine ⟨hfound.linked.updateChild_some (mem_of_rplNsGetNode hchild) hfound.valid,
        fun addr hreaches ↦ ?_, ?_⟩
      · exact (hfound.reaches addr hreaches).updateChild_some hfound.linked hchild hfound.valid
      · rw [identifiers_updateChild_some (linkIdentifier_of_getNode hchild)]
        simp [missing, hget]
    | none =>
      refine ⟨hfound.linked.updateChild_none _ _ _ _ hfound.valid, fun addr hreaches ↦ ?_, ?_⟩
      · exact (hfound.reaches addr hreaches).updateChild_none _ _ _ hfound.linked
      · rw [identifiers_updateChild_none hfound.linked.toListing]
        simp [missing, hget]

variable (dagId) in
theorem rplNsExpireParent_spec (hlinked : s.Linked) (child addr : UipIpaddr) :
    (s.rplNsExpireParent dagId child addr).Linked ∧
      (s.rplNsExpireParent dagId child addr).identifiers = s.identifiers := by
  unfold rplNsExpireParent
  cases hget : s.rplNsGetNode dagId child with
  | none => exact ⟨hlinked, rfl⟩
  | some p =>
    dsimp only
    split
    · refine ⟨hlinked.writeNode ?_, identifiers_writeNode rfl⟩
      exact hlinked.parents p (mem_of_rplNsGetNode hget)
    · exact ⟨hlinked, rfl⟩

/-- Some of the listed nodes are removed, the others keep their parents and identifiers. -/
structure Shrinks (s t : RplNs) (kept : ℕ → Prop) : Prop where
  listing : t.Listing
  sublist : t.nodelist.Sublist s.nodelist
  mem : ∀ p, p ∈ t.nodelist ↔ p ∈ s.nodelist ∧ kept p
  parentOf : t.parentOf = s.parentOf
  linkIdentifier : t.linkIdentifier = s.linkIdentifier

variable {kept kept' : ℕ → Prop} {turns : List ℕ}

theorem Shrinks.identifiers (hshrinks : Shrinks s t kept) :
    t.identifiers.Sublist s.identifiers := by
  rw [RplNs.identifiers, RplNs.identifiers, hshrinks.linkIdentifier]
  exact hshrinks.sublist.map _

theorem Shrinks.linked_iff (hshrinks : Shrinks s t kept) (hlinked : s.Linked) :
    t.Linked ↔ ∀ p ∈ s.nodelist, kept p → ∀ q, s.parentOf p = some q → kept q := by
  constructor
  · intro hnext p hp hkept q hq
    have hparent := hnext.parents p ((hshrinks.mem p).mpr ⟨hp, hkept⟩) q
    rw [hshrinks.parentOf] at hparent
    exact ((hshrinks.mem q).mp (hparent hq)).2
  · intro hall
    refine ⟨hshrinks.listing, fun p hp q hq ↦ ?_⟩
    rw [hshrinks.parentOf] at hq
    obtain ⟨hlisted, hkept⟩ := (hshrinks.mem p).mp hp
    exact (hshrinks.mem q).mpr ⟨hlinked.parents p hlisted q hq, hall p hlisted hkept q hq⟩

theorem shrinks_removeNode (hlisting : s.Listing) (hp : p ∈ s.nodelist) :
    Shrinks s (s.removeNode p) fun q ↦ q ≠ p where
  listing := hlisting.removeNode hp
  sublist := erase_sublist
  mem _ := mem_listRemove hlisting.nodup
  parentOf := removeNode_parentOf s p
  linkIdentifier := by
    funext q
    rw [linkIdentifier, removeNode_node]
    rfl

theorem shrinks_of_same (hlisting : t.Listing) (hlist : t.nodelist = s.nodelist)
    (hparent : t.parentOf = s.parentOf) (hident : t.linkIdentifier = s.linkIdentifier) :
    Shrinks s t fun _ ↦ True :=
  ⟨hlisting, hlist ▸ List.Sublist.refl _, fun p ↦ by simp [hlist], hparent, hident⟩

theorem shrinks_writeNode (hlisting : s.Listing) (hparent : n.parent = s.parentOf p)
    (hident : n.linkIdentifier = s.linkIdentifier p) :
    Shrinks s (s.writeNode p n) fun _ ↦ True := by
  refine shrinks_of_same (t := s.writeNode p n) hlisting.writeNode rfl ?_ ?_
  · rw [writeNode_parentOf, hparent, update_eq_self]
  · rw [writeNode_linkIdentifier, hident, update_eq_self]

theorem Shrinks.trans {u : RplNs} (hfirst : Shrinks s t kept) (hsecond : Shrinks t u kept') :
    Shrinks s u fun p ↦ kept p ∧ kept' p where
  listing := hsecond.listing
  sublist := hsecond.sublist.trans hfirst.sublist
  mem p := by rw [hsecond.mem, hfirst.mem, and_assoc]
  parentOf := hsecond.parentOf.trans hfirst.parentOf
  linkIdentifier := hsecond.linkIdentifier.trans hfirst.linkIdentifier

theorem Shrinks.congr (hshrinks : Shrinks s t kept) (hsame : ∀ p ∈ s.nodelist, kept p ↔ kept' p) :
    Shrinks s t kept' where
  listing := hshrinks.listing
  sublist := hshrinks.sublist
  mem p := by
    rw [hshrinks.mem]
    exact and_congr_right (hsame p)
  parentOf := hshrinks.parentOf
  linkIdentifier := hshrinks.linkIdentifier

variable (seconds) in
/-- One turn of `rpl_ns_periodic` removes the node exactly if it has expired. -/
theorem shrinks_age (hlisting : s.Listing) (hp : p ∈ s.nodelist) :
    Shrinks s (age seconds s p) (fun q ↦ q = p → (s.node p).lifetime ≠ 0) ∧
      ∀ q, q ≠ p → (age seconds s p).node q = s.node q := by
  unfold age
  dsimp only
  split
  · rename_i hexpired
    refine ⟨(shrinks_removeNode hlisting hp).congr fun q _ ↦ ?_, fun q _ ↦ ?_⟩
    · simp [hexpired]
    · rw [removeNode_node]
  · rename_i halive
    have hkept : ∀ q ∈ s.nodelist, True ↔ (q = p → (s.node p).lifetime ≠ 0) :=
      fun q _ ↦ ⟨fun _ _ ↦ halive, fun _ ↦ trivial⟩
    split
    · have hsame := shrinks_writeNode (p := p) (n := { s.node p with
          lifetime := if seconds < (s.node p).lifetime then (s.node p).lifetime - seconds else 0 })
        hlisting rfl rfl
      exact ⟨hsame.congr hkept, fun q hq ↦ store_mem_of_ne hq⟩
    · exact ⟨(shrinks_of_same hlisting rfl rfl rfl).congr hkept, fun _ _ ↦ rfl⟩

theorem shrinks_foldl_age (hlisting : s.Listing) (hnodup : turns.Nodup)
    (hturns : turns ⊆ s.nodelist) :
    Shrinks s (turns.foldl (age seconds) s) fun q ↦ q ∈ turns → (s.node q).lifetime ≠ 0 := by
  induction turns generalizing s with
  | nil =>
    exact (shrinks_of_same hlisting rfl rfl rfl).congr fun _ _ ↦ by simp
  | cons p turns ih =>
    obtain ⟨hnew, hnodup'⟩ := nodup_cons.mp hnodup
    obtain ⟨hp, hrest⟩ := cons_subset.mp hturns
    obtain ⟨hfirst, hnodes⟩ := shrinks_age seconds hlisting hp
    have hother : ∀ q ∈ turns, q ≠ p := fun q hq heq ↦ hnew (heq ▸ hq)
    have hsubset : turns ⊆ (age seconds s p).nodelist := fun q hq ↦
      (hfirst.mem q).mpr ⟨hrest hq, fun heq ↦ absurd heq (hother q hq)⟩
    apply (hfirst.trans (ih hfirst.listing hnodup' hsubset)).congr
    intro q _
    rw [mem_cons]
    constructor
    · rintro ⟨hself, hlater⟩ (rfl | hq)
      · exact hself rfl
      · exact hnodes q (hother q hq) ▸ hlater hq
    · intro hall
      refine ⟨fun heq ↦ heq ▸ hall (Or.inl heq), fun hq ↦ ?_⟩
      rw [hnodes q (hother q hq)]
      exact hall (Or.inr hq)

variable (seconds) in
/-- `rpl_ns_periodic` removes the nodes that had expired before it, whoever points to them. -/
theorem shrinks_rplNsPeriodic (hlisting : s.Listing) :
    Shrinks s (s.rplNsPeriodic seconds) fun q ↦ (s.node q).lifetime ≠ 0 :=
  (shrinks_foldl_age hlisting hlisting.nodup (List.Subset.refl _)).congr fun _ hq ↦
    ⟨fun hall ↦ hall hq, fun halive _ ↦ halive⟩

theorem shrinks_foldl_removeNode (hlisting : s.Listing) (hnodup : turns.Nodup)
    (hturns : turns ⊆ s.nodelist) :
    Shrinks s (turns.foldl removeNode s) fun q ↦ q ∉ turns := by
  induction turns generalizing s with
  | nil => exact (shrinks_of_same hlisting rfl rfl rfl).congr fun _ _ ↦ by simp
  | cons p turns ih =>
    obtain ⟨hnew, hnodup'⟩ := nodup_cons.mp hnodup
    obtain ⟨hp, hrest⟩ := cons_subset.mp hturns
    have hfirst := shrinks_removeNode hlisting hp
    have hsubset : turns ⊆ (s.removeNode p).nodelist := fun q hq ↦
      (hfirst.mem q).mpr ⟨hrest hq, fun heq ↦ hnew (heq ▸ hq)⟩
    apply (hfirst.trans (ih hfirst.listing hnodup' hsubset)).congr
    intro q _
    rw [mem_cons, not_or]

theorem rplNsFreeAll_nodelist (hlisting : s.Listing) :
    s.rplNsFreeAll.nodelist = [] ∧ s.rplNsFreeAll.Listing := by
  have hshrinks := shrinks_foldl_removeNode hlisting hlisting.nodup (List.Subset.refl _)
  refine ⟨eq_nil_iff_forall_not_mem.mpr fun p hp ↦ ?_, hshrinks.listing⟩
  obtain ⟨hlisted, hkept⟩ := (hshrinks.mem p).mp hp
  exact hkept hlisted

structure LinkGraphSound (dagId : UipIpaddr) (s : RplNs) : Prop where
  parents : ∀ p ∈ s.nodelist, ∀ q, s.parentOf p = some q → q ∈ s.nodelist
  nodup : s.nodelist.Nodup
  listed : ∀ p, p ∈ s.nodelist ↔ s.Allocated p
  numNodes : s.numNodes = s.nodelist.length
  identifiers : s.identifiers.Nodup
  reachable : ∀ addr, s.rplNsIsAddrReachable dagId addr = true ↔ s.ReachesRoot dagId addr
  keeps : ∀ child parent lifetime addr, s.rplNsIsAddrReachable dagId addr = true →
    (s.rplNsUpdateNode dagId child parent lifetime).2.rplNsIsAddrReachable dagId addr = true

/-- An update adds nodes with new, different identifiers only, and no node that has expired before
a periodic call is the parent of one that has not. -/
def KeepsLinks (dagId : UipIpaddr) (s : RplNs) : Op → Prop
  | .updateNode child parent _ =>
    (s.added dagId child parent).Nodup ∧ ∀ i ∈ s.added dagId child parent, i ∉ s.identifiers
  | .periodic _ => ∀ p ∈ s.nodelist, (s.node p).lifetime ≠ 0 →
    ∀ q, s.parentOf p = some q → (s.node q).lifetime ≠ 0
  | _ => True

/-- What the allowed calls preserve. -/
def Sound (s : RplNs) : Prop := s.Linked ∧ s.identifiers.Nodup

theorem Sound.linkGraphSound (hsound : s.Sound) : LinkGraphSound dagId s where
  parents := hsound.1.parents
  nodup := hsound.1.nodup
  listed := hsound.1.listed
  numNodes := hsound.1.numNodes
  identifiers := hsound.2
  reachable _ := hsound.1.reachable_iff
  keeps child parent lifetime addr hreachable := by
    obtain ⟨hlinked, hreaches, -⟩ := rplNsUpdateNode_spec dagId hsound.1 child parent
      lifetime
    exact hlinked.reachable_iff.mpr (hreaches addr (hsound.1.reachable_iff.mp hreachable))

theorem LinkGraphSound.sound_iff (hlisting : s.Listing) : s.Sound ↔ LinkGraphSound dagId s :=
  ⟨Sound.linkGraphSound, fun hgraph ↦ ⟨⟨hlisting, hgraph.parents⟩, hgraph.identifiers⟩⟩

theorem sound_next_iff (op : Op) (hsound : s.Sound) (hnext : StepOf (next dagId) s op t) :
    t.Listing ∧ (t.Sound ↔ KeepsLinks dagId s op) := by
  obtain ⟨hlinked, hidents⟩ := hsound
  cases op with
  | updateNode child parent lifetime =>
    obtain rfl := some.inj hnext
    obtain ⟨hlinked', -, hadded⟩ := rplNsUpdateNode_spec dagId hlinked child parent
      lifetime
    refine ⟨hlinked'.toListing, ?_⟩
    rw [Sound, and_iff_right hlinked', hadded, nodup_append, and_iff_right hidents]
    refine and_congr_right fun _ ↦ ⟨fun hne i hi hlisted ↦ hne i hlisted i hi rfl, ?_⟩
    rintro hnew i hi _ hj rfl
    exact hnew i hj hi
  | expireParent child addr =>
    obtain rfl := some.inj hnext
    obtain ⟨hlinked', hsame⟩ := rplNsExpireParent_spec dagId hlinked child addr
    refine ⟨hlinked'.toListing, fun _ ↦ trivial, fun _ ↦ ⟨hlinked', ?_⟩⟩
    rwa [hsame]
  | periodic seconds =>
    obtain rfl := some.inj hnext
    have hshrinks := shrinks_rplNsPeriodic seconds hlinked.toListing
    refine ⟨hshrinks.listing, ?_⟩
    rw [Sound, and_iff_left (hidents.sublist hshrinks.identifiers), hshrinks.linked_iff hlinked]
    rfl
  | freeAll =>
    obtain rfl := some.inj hnext
    obtain ⟨hnil, hlisting⟩ := rplNsFreeAll_nodelist hlinked.toListing
    refine ⟨hlisting, fun _ ↦ trivial, fun _ ↦ ⟨⟨hlisting, fun p hp ↦ ?_⟩, ?_⟩⟩
    · rw [hnil] at hp
      cases hp
    · rw [identifiers, hnil]
      exact nodup_nil

/-- From `rpl_ns_init` on, the link graph is sound in every state of a run exactly if no call of
the run adds an identifier twice or frees the parent of a node that stays. -/
theorem linkGraphSound_iff (dagId : UipIpaddr) (linkNum : ℕ) (ops : List Op) (s : RplNs) :
    LinkGraphSound dagId (init linkNum) ∧
      (Run (KeepingStepOf (next dagId) (LinkGraphSound dagId)) (init linkNum) ops s ↔
        Run (GuardedStepOf (next dagId) (KeepsLinks dagId)) (init linkNum) ops s) := by
  have hinit : (init linkNum).Sound := ⟨init_linked linkNum, nodup_nil⟩
  refine ⟨hinit.linkGraphSound, ?_⟩
  apply Run.keeping_iff_guarded (I := Sound) fun _ hsound ↦ hsound.linkGraphSound
  · exact fun s op t hsound hstep ↦ ((sound_next_iff op hsound hstep.2).2).mpr hstep.1
  · intro s op t hsound hbad hstep hgraph
    obtain ⟨hlisting, hiff⟩ := sound_next_iff op hsound hstep
    exact hbad (hiff.mp ((LinkGraphSound.sound_iff hlisting).mpr hgraph))
  · exact hinit

/-- The address with this identifier in the prefix `0xfd00::`. -/
def nodeAddr (identifier : BitVec 64) : UipIpaddr := ⟨0xfd00000000000000, identifier⟩

/-- A node whose link lives no longer has a child whose link does. -/
def expiringOps : List Op :=
  [.updateNode (nodeAddr 2) (some (nodeAddr 1)) 0, .updateNode (nodeAddr 3) (some (nodeAddr 2)) 60,
    .periodic 60]

/-- The expired node is freed although its child points to it. -/
theorem not_linkGraphSound :
    ¬ ∀ dagId linkNum ops s, Run (StepOf (next dagId)) (init linkNum) ops s →
      LinkGraphSound dagId s := by
  intro hall
  obtain ⟨s, hrun, hlisted, hparent, hfreed⟩ : ∃ s, Run (StepOf (next (nodeAddr 1))) (init 16)
      expiringOps s ∧ 2 ∈ s.nodelist ∧ s.parentOf 2 = some 1 ∧ 1 ∉ s.nodelist :=
    exists_run (by decide +kernel)
  have hgraph := hall (nodeAddr 1) 16 _ s hrun
  exact hfreed (hgraph.parents 2 hlisted 1 hparent)

end ContikiMaster.Rpl.RplNs
