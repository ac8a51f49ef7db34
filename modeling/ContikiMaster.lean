import ContikiMaster.Coap.BlockDelivery
import ContikiMaster.Csma.OutputRuns
import ContikiMaster.Ipv6.HeaderWalkBounds
import ContikiMaster.Net.PacketbufStrings
import ContikiMaster.Routing.BeaconStrengths
import ContikiMaster.Routing.Collect
import ContikiMaster.Routing.CollectionRounds
import ContikiMaster.Routing.DiscoveryTraffic
import ContikiMaster.Routing.SendWindows
import ContikiMaster.Routing.StrengthLog
import ContikiMaster.Routing.StrengthRefresh
import ContikiMaster.Routing.TtlRetransmissions
import ContikiMaster.Routing.WidestRoutes
import ContikiMaster.Rpl.DagTimersIntact
import ContikiMaster.Rpl.DaoAckRuns
import ContikiMaster.Rpl.ExtHeaderRemoval
import ContikiMaster.Rpl.Icmp6Bounds
import ContikiMaster.Rpl.ParentPointers
import ContikiMaster.Scheduler.CLlfTermination
import ContikiMaster.Scheduler.GridRoom
import ContikiMaster.Scheduler.HopOrder
import ContikiMaster.Scheduler.HyperPeriod
import ContikiMaster.Scheduler.Removal
import ContikiMaster.Scheduler.SameVerdict
import ContikiMaster.Scheduler.TimeSources
import ContikiMaster.Sixtop.ExchangeRuns
import ContikiMaster.Sixtop.FailedOutput
import ContikiMaster.Sixtop.TransactionCallback
import ContikiMaster.Sys.CtimerRuns
import ContikiMaster.Sys.HashMapRefinement
import ContikiMaster.Sys.ProcessRuns
import ContikiMaster.Sys.RingBufIndex
import ContikiMaster.Tsch.AsnArithmetic
import ContikiMaster.Tsch.BackoffWindows
import ContikiMaster.Tsch.CounterRuns
import ContikiMaster.Tsch.LinkDuplicates
import ContikiMaster.Tsch.PacketConservation
import ContikiMaster.Tsch.RejectedBeacons
import ContikiMaster.Tsch.TxStatus
import ContikiMaster.Rpl.Trickle
import ContikiMaster.Tsch.SlotTiming
import ContikiMaster.Storage.MicroLog
