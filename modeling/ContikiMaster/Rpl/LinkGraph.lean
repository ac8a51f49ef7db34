import ContikiMaster.Lib.Chain
import ContikiMaster.Sys.Memb

/-!
# The link graph of the root

The non-storing graph of `rpl-ns.c`: a pool of nodes, the list of the known ones, and one
pointer to the parent each. A pointer to a node that was freed still reads what is left in
its block. The prefix and the identifier of the root are parameters, `dag_id`.
-/

namespace ContikiMaster.Rpl

open Sys

/-- `uip_ipaddr_t`, in its two halves of eight bytes. -/
structure UipIpaddr where
  network : BitVec 64
  linkIdentifier : BitVec 64
deriving DecidableEq

/-- `rpl_ns_node_t`; the list it is on is modelled by `nodelist`. -/
structure RplNsNode where
  lifetime : BitVec 32
  linkIdentifier : BitVec 64
  parent : Option ℕ
deriving DecidableEq

def rplRouteInfiniteLifetime : BitVec 32 := 0xFFFFFFFF

def rplNopathRemovalDelay : BitVec 32 := 60

/-- The static variables of the module. -/
structure RplNs where
  numNodes : ℤ
  nodelist : List ℕ
  nodememb : Memb RplNsNode

namespace RplNs

/-- `rpl_ns_init`, with `RPL_NS_LINK_NUM` blocks. -/
def init (linkNum : ℕ) : RplNs where
  numNodes := 0
  nodelist := []
  nodememb := Memb.init linkNum ⟨0, 0, none⟩

variable (dagId : UipIpaddr)

def node (s : RplNs) (p : ℕ) : RplNsNode := s.nodememb.mem p

def Allocated (s : RplNs) (p : ℕ) : Prop := p < s.nodememb.num ∧ s.nodememb.count p ≠ 0

def writeNode (s : RplNs) (p : ℕ) (n : RplNsNode) : RplNs :=
  { s with nodememb := s.nodememb.store p n }

def setParent (s : RplNs) (p : ℕ) (parent : Option ℕ) : RplNs :=
  s.writeNode p { s.node p with parent := parent }

/-- `node_matches_address`, for a node and an address that are there. -/
def nodeMatchesAddress (n : RplNsNode) (addr : UipIpaddr) : Bool :=
  addr.network == dagId.network && addr.linkIdentifier == n.linkIdentifier

def rplNsGetNode (s : RplNs) (addr : UipIpaddr) : Option ℕ :=
  s.nodelist.find? fun l ↦ nodeMatchesAddress dagId (s.node l) addr

/-- The loop of `rpl_ns_is_addr_reachable`. -/
def climb (s : RplNs) (rootNode : Option ℕ) : ℕ → Option ℕ → Option ℕ
  | 0, node => node
  | _ + 1, none => none
  | maxDepth + 1, some n =>
    if some n = rootNode then some n else s.climb rootNode maxDepth (s.node n).parent

/-- `rpl_ns_is_addr_reachable`; the pool has `RPL_NS_LINK_NUM` blocks. -/
def rplNsIsAddrReachable (s : RplNs) (addr : UipIpaddr) : Bool :=
  let rootNode := s.rplNsGetNode dagId dagId
  let node := s.climb rootNode s.nodememb.num (s.rplNsGetNode dagId addr)
  node.isSome && node == rootNode

def rplNsExpireParent (s : RplNs) (child parent : UipIpaddr) : RplNs :=
  match s.rplNsGetNode dagId child with
  | none => s
  | some l =>
    if (s.node l).parent.any fun p ↦ nodeMatchesAddress dagId (s.node p) parent then
      s.writeNode l { s.node l with lifetime := rplNopathRemovalDelay }
    else s

/-- The end of `rpl_ns_update_node`: the node of the child is initialised and its parent is set,
or left as it was where the new parent makes the node unreachable. -/
def linkChild (s : RplNs) (childNode : ℕ) (parentNode : Option ℕ) (child : UipIpaddr)
    (lifetime : BitVec 32) : RplNs :=
  let s := s.writeNode childNode
    { s.node childNode with lifetime := lifetime, linkIdentifier := child.linkIdentifier }
  if s.rplNsIsAddrReachable dagId child then
    let oldParentNode := (s.node childNode).parent
    let updated := s.setParent childNode parentNode
    if updated.rplNsIsAddrReachable dagId child then updated
    else updated.setParent childNode oldParentNode
  else s.setParent childNode parentNode

/-- `memb_alloc` and `list_add` of a node. -/
def addNode (s : RplNs) : Option (ℕ × RplNs) :=
  s.nodememb.alloc.map fun (p, memb) ↦
    (p, { numNodes := s.numNodes + 1
          nodelist := listAdd s.nodelist p
          nodememb := memb.store p { memb.mem p with parent := none } })

/-- `rpl_ns_update_node` once the nodes of the parent and of the child are looked up. -/
def updateChild (s : RplNs) (childNode parentNode : Option ℕ) (child : UipIpaddr)
    (lifetime : BitVec 32) : Option ℕ × RplNs :=
  match childNode with
  | some p => (some p, s.linkChild dagId p parentNode child lifetime)
  | none =>
    match s.addNode with
    | none => (none, s)
    | some (p, s) => (some p, s.linkChild dagId p parentNode child lifetime)

/-- The part of `rpl_ns_update_node` about the parent: its node, which is added with an infinite
lifetime where it is missing; no result when there is no space for it. -/
def findParent (s : RplNs) : Option UipIpaddr → Option (Option ℕ) × RplNs
  | none => (some none, s)
  | some parent =>
    match s.rplNsGetNode dagId parent with
    | some p => (some (some p), s)
    | none =>
      -- the recursive call, which is given no parent
      match s.updateChild dagId none none parent rplRouteInfiniteLifetime with
      | (none, s) => (none, s)
      | (some p, s) => (some (some p), s)

/-- `rpl_ns_update_node`. The node of the child is looked up before a missing parent is added. -/
def rplNsUpdateNode (s : RplNs) (child : UipIpaddr) (parent : Option UipIpaddr)
    (lifetime : BitVec 32) : Option ℕ × RplNs :=
  match s.findParent dagId parent with
  | (none, t) => (none, t)
  | (some parentNode, t) =>
    t.updateChild dagId (s.rplNsGetNode dagId child) parentNode child lifetime

/-- `list_remove` and `memb_free` of a node. -/
def removeNode (s : RplNs) (l : ℕ) : RplNs where
  numNodes := s.numNodes - 1
  nodelist := listRemove s.nodelist l
  nodememb := s.nodememb.free l

/-- One turn of `rpl_ns_periodic`. A node that expired is removed; the search for a child that
still points to it changes nothing. -/
def age (seconds : BitVec 32) (s : RplNs) (l : ℕ) : RplNs :=
  let n := s.node l
  if n.lifetime = 0 then s.removeNode l
  else if n.lifetime ≠ rplRouteInfiniteLifetime then
    s.writeNode l { n with lifetime := if seconds < n.lifetime then n.lifetime - seconds else 0 }
  else s

def rplNsPeriodic (s : RplNs) (seconds : BitVec 32) : RplNs := s.nodelist.foldl (age seconds) s

def rplNsFreeAll (s : RplNs) : RplNs := s.nodelist.foldl removeNode s

inductive Op where
  | updateNode (child : UipIpaddr) (parent : Option UipIpaddr) (lifetime : BitVec 32)
  | expireParent (child parent : UipIpaddr)
  | periodic (seconds : BitVec 32)
  | freeAll

def next (s : RplNs) : Op → Option RplNs
  | .updateNode child parent lifetime => some (s.rplNsUpdateNode dagId child parent lifetime).2
  | .expireParent child parent => some (s.rplNsExpireParent dagId child parent)
  | .periodic seconds => some (s.rplNsPeriodic seconds)
  | .freeAll => some s.rplNsFreeAll

end RplNs

end ContikiMaster.Rpl
