import ContikiMaster.Routing.Network
import ContikiMaster.Routing.Send
import ContikiMaster.Tsch.ScheduleMoves

/-!
# The header of a packet and its configuration

The header of the packet in `mrp` carries a transmission window, the configuration tells
the MAC layer when to transmit. The senders of application packets write both; those of
advertisements and collected data write the header only, so that the window of the
configuration is the one left by the last application packet.
-/

namespace ContikiMaster.Routing

open Sys Tsch Lib Option

/-- The header and the configuration of an output agree. -/
structure NetworkOutput.Agrees (out : NetworkOutput) : Prop where
  ttlSlotNumber : out.configuration.ttlSlotNumber = out.mrp.ttlSlotNumber
  earliestTxSlot : out.configuration.earliestTxSlot = out.mrp.earliestTxSlot
  /-- The broadcast advertisement uses queue 0. -/
  flowNumber : out.dest ≠ tschBroadcastAddress →
    out.configuration.flowNumber = out.mrp.flowNumber

instance (out : NetworkOutput) : Decidable out.Agrees :=
  decidable_of_iff
    (out.configuration.ttlSlotNumber = out.mrp.ttlSlotNumber ∧
      out.configuration.earliestTxSlot = out.mrp.earliestTxSlot ∧
      (out.dest ≠ tschBroadcastAddress → out.configuration.flowNumber = out.mrp.flowNumber))
    ⟨fun hagrees ↦ ⟨hagrees.1, hagrees.2.1, hagrees.2.2⟩,
      fun hagrees ↦ ⟨hagrees.1, hagrees.2, hagrees.3⟩⟩

/-- The lengths that `master_routing_input` accepts. -/
def acceptedLength (len : ℕ) : Prop :=
  minimalRoutingPacketSize ≤ len ∧ len ≤ maximalRoutingPacketSize

instance (len : ℕ) : Decidable (acceptedLength len) := inferInstanceAs (Decidable (_ ∧ _))

section SlotNumber

variable {s t : Mac}

end SlotNumber

section Senders

variable {n m : Node} {env : OutputEnv}

variable {strength : ℚ} {out : Option NetworkOutput} {datalen len : ℕ} {result : InputResult}
  {adv : Advertisement}

end Senders

structure NodeConfig where
  nodeId : ℕ
  deploymentNodeCount : ℕ
  hashMapSize : ℕ
  quotient : ℕ → ℕ → ℚ
  mac : Mac

/-- A step, with the outputs so far. -/
def nextSending (config : NodeConfig) (x : Node × List NetworkOutput) (op : NodeOp) :
    Option (Node × List NetworkOutput) :=
  (x.1.next config.quotient op).map fun result ↦ (result.2, result.1.toList ++ x.2)

def NodeConfig.initial (config : NodeConfig) : Node × List NetworkOutput :=
  (Node.zero config.nodeId config.deploymentNodeCount config.hashMapSize config.mac, [])

def firstOfTwo : NodeConfig where
  nodeId := 1
  deploymentNodeCount := 2
  hashMapSize := 3
  quotient := fun received highest ↦ received / highest
  mac := (tschInit ⟨8, 4, 6, 4, 4, 4, true, .bits32⟩).toOption.getD (Mac.zero smallConfig)

def framedEnv : OutputEnv := ⟨some 21, some ⟨[1, 2, 3], 21⟩, true⟩

def oneFlow : GeneratedSchedule where
  scheduleLength := 10
  flows := [⟨1, 1, 2⟩]
  txWindows := [⟨0, 0, 3, 5⟩]
  nodePart := fun i ↦ if i = 1 then ⟨some (1, 2, 10), [⟨1, 1, 3, 0⟩], [(1, 2)], [(0, 2)], none⟩
    else ⟨none, [⟨1, 2, 3, 0⟩], [], [(0, 1)], some 1⟩
  beaconSlot := none
  maxSlotFrameUsed := 1
  availableSlotMatrix := List.replicate 15 0

end ContikiMaster.Routing
