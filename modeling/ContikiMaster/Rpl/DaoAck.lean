import ContikiMaster.Lib.Run
import ContikiMaster.Rpl.Icmp6
import ContikiMaster.Rpl.LinkGraph

/-!
# DAOs at the root

`rpl_process_dao` of `rpl-dag.c`, and the acknowledgement that `rpl-timers.c` sends when a
timer without delay expires. There is one such timer, and one place for the address and the
sequence number. The instance is in use, as `dao_input` checks right before.
-/

namespace ContikiMaster.Rpl

/-- A `uip_ipaddr_t` from its bytes. -/
def UipIpaddr.ofBytes (b : AddressBytes) : UipIpaddr where
  network := .ofNat 64 (((List.ofFn b).take 8).foldl (fun n b ↦ n * 256 + b.toNat) 0)
  linkIdentifier := .ofNat 64 (((List.ofFn b).drop 8).foldl (fun n b ↦ n * 256 + b.toNat) 0)

def rplDaoKFlag : UInt8 := 0x80

def rplInfiniteLifetime : UInt8 := 0xFF

/-- `RPL_LIFETIME`, for the `lifetime_unit` of the instance. -/
def rplLifetime (unit : UInt16) (lifetime : UInt8) : BitVec 32 :=
  if lifetime = rplInfiniteLifetime then rplRouteInfiniteLifetime
  else .ofNat 32 (unit.toNat * lifetime.toNat)

/-- The DAO has `RPL_DAO_K_FLAG`. -/
def RplDao.wantsAck (dao : RplDao) : Bool := dao.flags &&& rplDaoKFlag != 0

def RplDao.parent (dao : RplDao) : UipIpaddr := .ofBytes dao.parentAddr

namespace DaoAck

/-- A DAO with the K flag that was accepted, and the link graph before and after. -/
structure Acceptance where
  source : UipIpaddr
  dao : RplDao
  before : RplNs
  after : RplNs

inductive Event where
  | accepted (e : Acceptance)
  | acked (target : UipIpaddr) (sequence : UInt8)

/-- The link graph, `dao_ack_target` and `dao_ack_sequence` while the timer is pending, and what
has happened so far. -/
structure State where
  ns : RplNs
  pending : Option (UipIpaddr × UInt16)
  log : List Event

variable (dagId : UipIpaddr) (unit : UInt16)

/-- `rpl_timers_schedule_dao_ack`: a pending acknowledgement is replaced. -/
def rplTimersScheduleDaoAck (s : State) (target : UipIpaddr) (sequence : UInt16) : State :=
  { s with pending := some (target, sequence) }

/-- The link graph behind a DAO, unless there is no space for the link. -/
def updateLink (ns : RplNs) (source : UipIpaddr) (dao : RplDao) : Option RplNs :=
  if dao.lifetime = 0 then some (ns.rplNsExpireParent dagId source dao.parent)
  else
    match ns.rplNsUpdateNode dagId source (some dao.parent) (rplLifetime unit dao.lifetime) with
    | (none, _) => none
    | (some _, ns) => some ns

/-- `rpl_process_dao`. What is left of an update that fails stays in the link graph. -/
def rplProcessDao (s : State) (source : UipIpaddr) (dao : RplDao) : State :=
  match updateLink dagId unit s.ns source dao with
  | none =>
    { s with ns := (s.ns.rplNsUpdateNode dagId source (some dao.parent)
        (rplLifetime unit dao.lifetime)).2 }
  | some ns =>
    if dao.wantsAck then
      rplTimersScheduleDaoAck
        { s with ns := ns, log := s.log ++ [.accepted ⟨source, dao, s.ns, ns⟩] } source dao.sequence
    else { s with ns := ns }

/-- `handle_dao_ack_timer`, when the timer is pending. -/
def handleDaoAckTimer (s : State) : Option State :=
  s.pending.map fun (target, sequence) ↦
    { s with pending := none, log := s.log ++ [.acked target sequence.toUInt8] }

inductive Op where
  | dao (source : UipIpaddr) (dao : RplDao)
  | ackTimer
  | periodic (seconds : BitVec 32)

def next (s : State) : Op → Option State
  | .dao source dao => some (rplProcessDao dagId unit s source dao)
  | .ackTimer => handleDaoAckTimer s
  | .periodic seconds => some { s with ns := s.ns.rplNsPeriodic seconds }

/-- The state after `rpl_ns_init`, with `RPL_NS_LINK_NUM` blocks. -/
def init (linkNum : ℕ) : State := ⟨.init linkNum, none, []⟩

end DaoAck

end ContikiMaster.Rpl
