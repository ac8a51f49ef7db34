import ContikiMaster.Rpl.LinkGraphRuns

/-!
# What an update of the link graph installs

The entry that `rpl_ns_update_node` returns has the lifetime and the identifier it was
given, and the given parent, except where the node reaches the root with its old parent and
would not with the new one. Nothing is assumed of the parent pointers.
-/

namespace ContikiMaster.Rpl.RplNs

open Sys Function List Option

variable {dagId child parent addr : UipIpaddr} {s t : RplNs} {p q : ℕ} {n : RplNsNode}
  {lifetime : BitVec 32}

def oldParent (dagId : UipIpaddr) (s : RplNs) (child : UipIpaddr) : Option ℕ :=
  (s.rplNsGetNode dagId child).bind s.parentOf

/-- With its old parent the node reaches the root, with the new one it does not. -/
def cutOff (dagId : UipIpaddr) (s : RplNs) (child : UipIpaddr) (p : ℕ) (old new : Option ℕ) : Bool :=
  (s.setParent p old).rplNsIsAddrReachable dagId child &&
    !(s.setParent p new).rplNsIsAddrReachable dagId child

/-- From the graph `s` to the graph `t` the link from a child to a parent was installed, in the
entries `p` and `q`. -/
structure Installed (dagId : UipIpaddr) (s t : RplNs) (child parent : UipIpaddr)
    (lifetime : BitVec 32) (p q : ℕ) : Prop where
  listed : p ∈ t.nodelist
  identifier : t.linkIdentifier p = child.linkIdentifier
  newLifetime : (t.node p).lifetime = lifetime
  parentListed : q ∈ t.nodelist
  parentIdentifier : t.linkIdentifier q = parent.linkIdentifier
  newParent : t.parentOf p = if cutOff dagId t child p (oldParent dagId s child) (some q)
    then oldParent dagId s child else some q
  found : child.network = dagId.network → child.linkIdentifier ≠ parent.linkIdentifier →
    t.rplNsGetNode dagId child = some p

theorem setParent_writeNode (old : Option ℕ) :
    (s.writeNode p n).setParent p old = s.writeNode p { n with parent := old } := by
  rw [setParent, writeNode_writeNode, writeNode_node]

variable (dagId) in
/-- The end of an update, with the test for the new parent in terms of the graph it leaves. -/
theorem linkChild_cutOff (s : RplNs) (p : ℕ) (parentNode : Option ℕ) (child : UipIpaddr)
    (lifetime : BitVec 32) : ∃ parent, s.linkChild dagId p parentNode child lifetime =
        s.writeNode p ⟨lifetime, child.linkIdentifier, parent⟩ ∧
      parent = if cutOff dagId (s.writeNode p ⟨lifetime, child.linkIdentifier, parent⟩) child p
        (s.parentOf p) parentNode then s.parentOf p else parentNode := by
  have hold : s.writeNode p { s.node p with
      lifetime := lifetime, linkIdentifier := child.linkIdentifier } =
        s.writeNode p ⟨lifetime, child.linkIdentifier, s.parentOf p⟩ := rfl
  unfold linkChild cutOff
  simp only [setParent_writeNode, hold, writeNode_node]
  cases hbefore : (s.writeNode p
      ⟨lifetime, child.linkIdentifier, s.parentOf p⟩).rplNsIsAddrReachable dagId child with
  | false => exact ⟨parentNode, by simp, by simp⟩
  | true =>
    cases hafter : (s.writeNode p
        ⟨lifetime, child.linkIdentifier, parentNode⟩).rplNsIsAddrReachable dagId child with
    | false => exact ⟨s.parentOf p, by simp, by simp⟩
    | true => exact ⟨parentNode, by simp, by simp⟩

theorem getNode_enlist_self (hunlisted : p ∉ s.nodelist) (hget : s.rplNsGetNode dagId addr = none) :
    (s.enlist p n).rplNsGetNode dagId addr =
      if nodeMatchesAddress dagId n addr then some p else none := by
  have hrest : s.nodelist.find? (fun l ↦ nodeMatchesAddress dagId ((s.enlist p n).node l) addr) =
      none := by
    rw [rplNsGetNode, find?_eq_none] at hget
    rw [find?_eq_none]
    intro l hl
    have hne : l ≠ p := fun heq ↦ hunlisted (heq ▸ hl)
    simpa [node, RplNs.enlist, hne] using hget l hl
  have hself : (s.enlist p n).node p = n := update_self ..
  rw [rplNsGetNode, enlist_nodelist, find?_append, hrest, none_or]
  simp only [find?_cons, find?_nil, hself]
  split <;> rename_i hmatches <;> simp [hmatches]

/-- What the part about the parent leaves, whatever the parent pointers are. -/
structure ParentEntry (dagId : UipIpaddr) (s t : RplNs) (parent : UipIpaddr) (q : ℕ) : Prop where
  listing : t.Listing
  listed : q ∈ t.nodelist
  identifier : t.linkIdentifier q = parent.linkIdentifier
  keeps : ∀ p ∈ s.nodelist, t.parentOf p = s.parentOf p
  found : ∀ addr p, s.rplNsGetNode dagId addr = some p → t.rplNsGetNode dagId addr = some p
  missing : ∀ addr, addr.linkIdentifier ≠ parent.linkIdentifier →
    s.rplNsGetNode dagId addr = none → t.rplNsGetNode dagId addr = none

variable (dagId parent) in
theorem findParent_entry (hlisting : s.Listing) : s.findParent dagId (some parent) = (none, s) ∨
      ∃ q t, s.findParent dagId (some parent) = (some (some q), t) ∧
        ParentEntry dagId s t parent q := by
  cases hget : s.rplNsGetNode dagId parent with
  | some q =>
    right
    exact ⟨q, s, by simp only [findParent, hget], hlisting, mem_of_rplNsGetNode hget,
      linkIdentifier_of_getNode hget, fun _ _ ↦ rfl, fun _ _ ↦ id, fun _ _ ↦ id⟩
  | none =>
    rcases updateChild_none dagId parent none rplRouteInfiniteLifetime hlisting with
      ⟨heq, -⟩ | ⟨q, grandparent, heq, -, hlt, hunlisted, -⟩
    · left
      simp only [findParent, hget, heq]
    · right
      refine ⟨q, _, by simp only [findParent, hget, heq]; rfl, hlisting.enlist hlt hunlisted,
        ?_, ?_, ?_, ?_, ?_⟩
      · rw [enlist_nodelist]
        exact mem_append_right _ (mem_singleton_self q)
      · rw [enlist_linkIdentifier, update_self]
      · intro p hp
        rw [enlist_parentOf, update_of_ne]
        exact fun heq ↦ hunlisted (heq ▸ hp)
      · exact fun _ _ ↦ getNode_enlist hunlisted
      · intro addr hne hmissing
        rw [getNode_enlist_self hunlisted hmissing, if_neg]
        simp [nodeMatchesAddress, hne]

theorem linkChild_installed (hp : p ∈ t.nodelist) (hq : q ∈ t.nodelist)
    (hident : t.linkIdentifier q = parent.linkIdentifier)
    (hsame : p = q → child.linkIdentifier = parent.linkIdentifier)
    (hold : t.parentOf p = oldParent dagId s child)
    (hfound : child.network = dagId.network → child.linkIdentifier ≠ parent.linkIdentifier →
      ∀ n : RplNsNode, n.linkIdentifier = child.linkIdentifier →
        (t.writeNode p n).rplNsGetNode dagId child = some p) :
    Installed dagId s (t.linkChild dagId p (some q) child lifetime) child parent lifetime p q := by
  obtain ⟨parentNode, heq, hparent⟩ := linkChild_cutOff dagId t p (some q) child lifetime
  rw [heq]
  refine ⟨hp, ?_, ?_, hq, ?_, ?_, ?_⟩
  · rw [writeNode_linkIdentifier, update_self]
  · rw [writeNode_node]
  · rw [writeNode_linkIdentifier]
    by_cases hpq : q = p
    · rw [hpq, update_self]
      exact hsame hpq.symm
    · rwa [update_of_ne hpq]
  · rw [writeNode_parentOf, update_self, ← hold]
    exact hparent
  · intro hnetwork hne
    exact hfound hnetwork hne _ rfl

theorem rplNsUpdateNode_installed (hlisting : s.Listing)
    (hupdate : s.rplNsUpdateNode dagId child (some parent) lifetime = (some p, t)) :
    ∃ q, Installed dagId s t child parent lifetime p q := by
  rcases findParent_entry dagId parent hlisting with heq | ⟨q, u, heq, hentry⟩
  · simp only [rplNsUpdateNode, heq, Prod.mk.injEq, reduceCtorEq, false_and] at hupdate
  · refine ⟨q, ?_⟩
    simp only [rplNsUpdateNode, heq] at hupdate
    cases hget : s.rplNsGetNode dagId child with
    | some p' =>
      have hchild := hentry.found child p' hget
      have hident := linkIdentifier_of_getNode hchild
      rw [hget, updateChild, Prod.mk.injEq, some.injEq] at hupdate
      obtain ⟨rfl, rfl⟩ := hupdate
      apply linkChild_installed (mem_of_rplNsGetNode hchild) hentry.listed hentry.identifier
      · rintro rfl
        rw [← hident, hentry.identifier]
      · rw [oldParent, hget, bind_some]
        exact hentry.keeps p' (mem_of_rplNsGetNode hget)
      · intro _ _ n hn
        rwa [getNode_writeNode (hn.trans hident.symm)]
    | none =>
      rw [hget, updateChild] at hupdate
      rcases addNode_cases hentry.listing with ⟨hnone, -⟩ | ⟨p', hsome, hlt, hunlisted, -⟩
      · rw [hnone] at hupdate
        cases (Prod.mk.inj hupdate).1
      · rw [hsome] at hupdate
        dsimp only at hupdate
        rw [Prod.mk.injEq, some.injEq] at hupdate
        obtain ⟨rfl, rfl⟩ := hupdate
        have hne : q ≠ p' := fun heq ↦ hunlisted (heq ▸ hentry.listed)
        apply linkChild_installed
        · rw [enlist_nodelist]
          exact mem_append_right _ (mem_singleton_self p')
        · rw [enlist_nodelist]
          exact mem_append_left _ hentry.listed
        · rw [enlist_linkIdentifier, update_of_ne hne]
          exact hentry.identifier
        · exact fun heq ↦ absurd heq.symm hne
        · rw [enlist_parentOf, update_self, oldParent, hget, bind_none]
        · intro hnetwork hident n hn
          rw [enlist_writeNode, getNode_enlist_self hunlisted (hentry.missing child hident hget),
            if_pos]
          simp [nodeMatchesAddress, hnetwork, hn]

theorem Listing.rplNsUpdateNode (hlisting : s.Listing) (dagId child parent : UipIpaddr)
    (lifetime : BitVec 32) : (s.rplNsUpdateNode dagId child (some parent) lifetime).2.Listing := by
  rcases findParent_entry dagId parent hlisting with heq | ⟨q, u, heq, hentry⟩
  · simp only [RplNs.rplNsUpdateNode, heq]
    exact hlisting
  · simp only [RplNs.rplNsUpdateNode, heq]
    cases s.rplNsGetNode dagId child with
    | some p =>
      obtain ⟨parent, hupdate, -⟩ := updateChild_some dagId u p (some q) child lifetime
      rw [hupdate]
      exact hentry.listing.writeNode
    | none =>
      rcases updateChild_none dagId child (some q) lifetime hentry.listing with
        ⟨hupdate, -⟩ | ⟨p, parent, hupdate, -, hlt, hunlisted, -⟩
      · rw [hupdate]
        exact hentry.listing
      · rw [hupdate]
        exact hentry.listing.enlist hlt hunlisted

theorem Listing.rplNsExpireParent (hlisting : s.Listing) (dagId child parent : UipIpaddr) :
    (s.rplNsExpireParent dagId child parent).Listing := by
  unfold RplNs.rplNsExpireParent
  split
  · exact hlisting
  · split
    · exact hlisting.writeNode
    · exact hlisting

end ContikiMaster.Rpl.RplNs
