import ContikiMaster.Lib.Cursor
import ContikiMaster.Lib.Loop
import Mathlib.Data.List.Range

/-!
# RPL control messages

`dio_input`, `dao_input` and `dao_ack_input` of `rpl-icmp6.c`. The memory starts at the
ICMPv6 payload and is not bounded. Every offset that is read is noted, and so is every
`memcpy` into the message structure; what one writes behind its field is not followed.
-/

namespace ContikiMaster.Rpl

open Lib List

/-- The bytes of a `uip_ipaddr_t`. -/
abbrev AddressBytes := Fin 16 → UInt8

structure RplPrefix where
  addr : AddressBytes
  lifetime : UInt32
  length : UInt8
  flags : UInt8

/-- The union `metric_object`, by the member that was written. -/
inductive MetricObject where
  | zero
  | energy (flags energyEst : UInt8)
  | etx (etx : UInt16)
deriving DecidableEq

structure RplMetricContainer where
  type : UInt8
  flags : UInt8
  aggr : UInt8
  prec : UInt8
  length : UInt8
  obj : MetricObject
deriving DecidableEq

structure RplDio where
  dagId : AddressBytes
  ocp : UInt16
  rank : UInt16
  grounded : UInt8
  mop : UInt8
  preference : UInt8
  version : UInt8
  instanceId : UInt8
  dtsn : UInt8
  dagIntdoubl : UInt8
  dagIntmin : UInt8
  dagRedund : UInt8
  defaultLifetime : UInt8
  lifetimeUnit : UInt16
  dagMaxRankinc : UInt16
  dagMinHoprankinc : UInt16
  destinationPrefix : RplPrefix
  prefixInfo : RplPrefix
  mc : RplMetricContainer

structure RplDao where
  parentAddr : AddressBytes
  prefixAddr : AddressBytes
  sequence : UInt16
  instanceId : UInt8
  lifetime : UInt8
  prefixlen : UInt8
  flags : UInt8

/-- The macros of `rpl-conf.h` that a DIO without a configuration option stands for. -/
structure DioConf where
  intervalDoublings : UInt8 := 8
  intervalMin : UInt8 := 12
  redundancy : UInt8 := 0
  minHoprankinc : UInt16 := 128
  maxRankinc : UInt16 := 8 * 128
  ofOcp : UInt16 := 1
  defaultLifetime : UInt8 := 30
  defaultLifetimeUnit : UInt16 := 60

/-- What the parsers read of `curr_instance`. -/
structure CurrInstance where
  used : Bool
  instanceId : UInt8
  defaultLifetime : UInt8
  dagId : AddressBytes

inductive RplOption where
  | pad1
  | padN
  | dagMetricContainer
  | routeInfo
  | dagConf
  | target
  | transit
  | solicitedInfo
  | prefixInfo
  | targetDesc
deriving DecidableEq

def RplOption.ofByte (b : UInt8) : Option RplOption :=
  if b = 0 then some .pad1
  else if b = 1 then some .padN
  else if b = 2 then some .dagMetricContainer
  else if b = 3 then some .routeInfo
  else if b = 4 then some .dagConf
  else if b = 5 then some .target
  else if b = 6 then some .transit
  else if b = 7 then some .solicitedInfo
  else if b = 8 then some .prefixInfo
  else if b = 9 then some .targetDesc
  else none

def rplDagMcNone : UInt8 := 0

def rplDagMcEnergy : UInt8 := 2

def rplDagMcEtx : UInt8 := 7

def rplDaoDFlag : UInt8 := 0x40

/-- A `memcpy` into the message structure: how many bytes of the structure there are from the
destination on, and how many bytes are written. -/
structure Copy where
  room : ℕ
  size : ℕ
deriving DecidableEq

/-- The message read so far, the index into the payload and what was touched. -/
structure Parsing (α : Type) where
  message : α
  i : ℕ
  touched : List ℕ
  copied : List Copy

/-- The outcome: the message, where it was passed on, and what was touched. -/
structure Handled (α : Type) where
  passed : Option α
  touched : List ℕ
  copied : List Copy

namespace Parsing

variable {α : Type} (st : Parsing α)

def touch (offsets : List ℕ) : Parsing α := { st with touched := st.touched ++ offsets }

def copy (c : Copy) : Parsing α := { st with copied := st.copied ++ [c] }

def withMessage (message : α) : Parsing α := { st with message := message }

/-- `i += len`. -/
def advance (len : ℕ) : Parsing α := { st with i := st.i + len }

/-- `goto discard`. -/
def discard : Handled α := ⟨none, st.touched, st.copied⟩

def pass : Handled α := ⟨some st.message, st.touched, st.copied⟩

end Parsing

variable (mem : ℕ → UInt8)

def get16 (pos : ℕ) : UInt16 := (mem pos).toUInt16 <<< 8 ||| (mem (pos + 1)).toUInt16

def get32 (pos : ℕ) : UInt32 :=
  (mem pos).toUInt32 <<< 24 ||| (mem (pos + 1)).toUInt32 <<< 16 |||
    (mem (pos + 2)).toUInt32 <<< 8 ||| (mem (pos + 3)).toUInt32

/-- An address whose first `size` bytes were copied from the payload. -/
def copyAddress (old : AddressBytes) (pos size : ℕ) : AddressBytes :=
  fun j ↦ if j.val < size then mem (pos + j.val) else old j

/-- `len` of the loops over the options. -/
def optionLength (i : ℕ) : ℕ := if mem i = 0 then 1 else 2 + (mem (i + 1)).toNat

def optionHeader (i : ℕ) : List ℕ := if mem i = 0 then [i] else [i, i + 1]

/-- `(length + 7) / 8`. -/
def prefixBytes (length : UInt8) : ℕ := (length.toNat + 7) / 8

def RplPrefix.zero : RplPrefix := ⟨fun _ ↦ 0, 0, 0, 0⟩

def RplMetricContainer.zero : RplMetricContainer := ⟨0, 0, 0, 0, 0, .zero⟩

/-- The structure behind the DIO base. -/
def dioBase (conf : DioConf) : RplDio where
  dagId := copyAddress mem (fun _ ↦ 0) 8 16
  ocp := conf.ofOcp
  rank := get16 mem 2
  grounded := mem 4 &&& 0x80
  mop := (mem 4 &&& 0x38) >>> 3
  preference := mem 4 &&& 0x07
  version := mem 1
  instanceId := mem 0
  dtsn := mem 5
  dagIntdoubl := conf.intervalDoublings
  dagIntmin := conf.intervalMin
  dagRedund := conf.redundancy
  defaultLifetime := conf.defaultLifetime
  lifetimeUnit := conf.defaultLifetimeUnit
  dagMaxRankinc := conf.maxRankinc
  dagMinHoprankinc := conf.minHoprankinc
  destinationPrefix := .zero
  prefixInfo := .zero
  mc := .zero

def dioStart (conf : DioConf) : Parsing RplDio where
  message := dioBase mem conf
  i := 24
  touched := [0, 1, 2, 3, 4, 5] ++ range' 8 16
  copied := [⟨16, 16⟩]

def metricContainer (i : ℕ) (obj : MetricObject) : RplMetricContainer where
  type := mem (i + 2)
  flags := mem (i + 3) <<< 1 ||| mem (i + 4) >>> 7
  aggr := (mem (i + 4) >>> 4) &&& 0x3
  prec := mem (i + 4) &&& 0xf
  length := mem (i + 5)
  obj := obj

def dioMetricContainer (len : ℕ) (st : Parsing RplDio) : Turn (Parsing RplDio) (Handled RplDio) :=
  let i := st.i
  let dio := st.message
  if len < 6 then .returns st.discard
  else
    let st := st.touch [i + 2, i + 3, i + 4, i + 5]
    let type := mem (i + 2)
    if type = rplDagMcNone then
      .goesOn (st.withMessage { dio with mc := metricContainer mem i dio.mc.obj })
    else if type = rplDagMcEtx then
      .goesOn ((st.touch [i + 6, i + 7]).withMessage
        { dio with mc := metricContainer mem i (.etx (get16 mem (i + 6))) })
    else if type = rplDagMcEnergy then
      .goesOn ((st.touch [i + 6, i + 7]).withMessage
        { dio with mc := metricContainer mem i (.energy (mem (i + 6)) (mem (i + 7))) })
    else .returns st.discard

def dioRouteInfo (len : ℕ) (st : Parsing RplDio) : Turn (Parsing RplDio) (Handled RplDio) :=
  let i := st.i
  let dio := st.message
  if len < 9 then .returns st.discard
  else
    let length := mem (i + 2)
    let size := prefixBytes length
    let st := st.touch ([i + 2, i + 3] ++ range' (i + 4) 4)
    if size + 8 ≤ len ∧ length.toNat ≤ 128 then
      .goesOn (((st.touch (range' (i + 8) size)).copy ⟨16, size⟩).withMessage
        { dio with destinationPrefix :=
          ⟨copyAddress mem dio.destinationPrefix.addr (i + 8) size, get32 mem (i + 4), length,
            mem (i + 3)⟩ })
    else .returns st.discard

def dioDagConf (len : ℕ) (st : Parsing RplDio) : Turn (Parsing RplDio) (Handled RplDio) :=
  let i := st.i
  if len ≠ 16 then .returns st.discard
  else
    .goesOn ((st.touch (range' (i + 3) 9 ++ range' (i + 13) 3)).withMessage
      { st.message with
        dagIntdoubl := mem (i + 3)
        dagIntmin := mem (i + 4)
        dagRedund := mem (i + 5)
        dagMaxRankinc := get16 mem (i + 6)
        dagMinHoprankinc := get16 mem (i + 8)
        ocp := get16 mem (i + 10)
        defaultLifetime := mem (i + 13)
        lifetimeUnit := get16 mem (i + 14) })

def dioPrefixInfo (len : ℕ) (st : Parsing RplDio) : Turn (Parsing RplDio) (Handled RplDio) :=
  let i := st.i
  let dio := st.message
  if len ≠ 32 then .returns st.discard
  else
    .goesOn (((st.touch ([i + 2, i + 3] ++ range' (i + 8) 4 ++ range' (i + 16) 16)).copy
      ⟨16, 16⟩).withMessage
      { dio with prefixInfo :=
        ⟨copyAddress mem dio.prefixInfo.addr (i + 16) 16, get32 mem (i + 8), mem (i + 2),
          mem (i + 3)⟩ })

/-- The `switch` over the options of a DIO; padding is not among them. -/
def dioOption (len : ℕ) (st : Parsing RplDio) : Turn (Parsing RplDio) (Handled RplDio) :=
  match RplOption.ofByte (mem st.i) with
  | some .dagMetricContainer => dioMetricContainer mem len st
  | some .routeInfo => dioRouteInfo mem len st
  | some .dagConf => dioDagConf mem len st
  | some .prefixInfo => dioPrefixInfo mem len st
  | _ => .returns st.discard

/-- The step of the loop, where the turn goes on. -/
def advanceTurn {α : Type} (len : ℕ) : Turn (Parsing α) (Handled α) → Turn (Parsing α) (Handled α)
  | .goesOn st => .goesOn (st.advance len)
  | .returns r => .returns r

def dioTurn (bufferLength : ℕ) (st : Parsing RplDio) : Turn (Parsing RplDio) (Handled RplDio) :=
  if st.i < bufferLength then
    let len := optionLength mem st.i
    let st := st.touch (optionHeader mem st.i)
    if bufferLength < len + st.i then .returns st.discard
    else advanceTurn len (dioOption mem len st)
  else .returns st.pass

/-- `dio_input`, for a payload of `n` bytes. No more turns are needed than the option bytes that
`buffer_length` counts. -/
def dioInput (conf : DioConf) (n : ℕ) : Option (Handled RplDio) :=
  let bufferLength := n % 256
  loop (dioTurn mem bufferLength) (bufferLength + 1) (dioStart mem conf)

/-- `RPL_OPTION_TARGET`: as many bytes as the prefix length says are copied; behind the start of the
prefix the structure has 22 bytes. -/
def daoTarget (st : Parsing RplDao) : Parsing RplDao :=
  let i := st.i
  let size := prefixBytes (mem (i + 3))
  ((st.touch ((i + 3) :: range' (i + 4) size)).copy ⟨22, size⟩).withMessage
    { st.message with
      prefixlen := mem (i + 3)
      prefixAddr := copyAddress mem (fun _ ↦ 0) (i + 4) size }

def daoTransit (len : ℕ) (st : Parsing RplDao) : Parsing RplDao :=
  let i := st.i
  let st := (st.touch [i + 5]).withMessage { st.message with lifetime := mem (i + 5) }
  if 20 ≤ len then
    ((st.touch (range' (i + 6) 16)).copy ⟨16, 16⟩).withMessage
      { st.message with parentAddr := copyAddress mem st.message.parentAddr (i + 6) 16 }
  else st

/-- The `switch` over the options of a DAO; others are passed over. -/
def daoOption (len : ℕ) (st : Parsing RplDao) : Parsing RplDao :=
  match RplOption.ofByte (mem st.i) with
  | some .target => daoTarget mem st
  | some .transit => daoTransit mem len st
  | _ => st

def daoTurn (bufferLength : ℕ) (st : Parsing RplDao) : Turn (Parsing RplDao) (Handled RplDao) :=
  if st.i < bufferLength then
    let len := optionLength mem st.i
    .goesOn ((daoOption mem len (st.touch (optionHeader mem st.i))).advance len)
  else .returns st.pass

def daoBase (inst : CurrInstance) : RplDao where
  parentAddr := fun _ ↦ 0
  prefixAddr := fun _ ↦ 0
  sequence := (mem 3).toUInt16
  instanceId := mem 0
  lifetime := inst.defaultLifetime
  prefixlen := 0
  flags := mem 1

def daoStart (inst : CurrInstance) : Parsing RplDao := ⟨daoBase mem inst, 4, [0, 1, 3], []⟩

/-- The instance is the one of the message. -/
def knownInstance (inst : CurrInstance) : Bool := inst.used && inst.instanceId == mem 0

def sameDagId (inst : CurrInstance) : Bool :=
  (finRange 16).all fun j ↦ inst.dagId j == mem (4 + j.val)

def hasDagId : Bool := mem 1 &&& rplDaoDFlag != 0

/-- `dao_input`, for a payload of `n` bytes. -/
def daoInput (inst : CurrInstance) (n : ℕ) : Option (Handled RplDao) :=
  let bufferLength := n % 256
  let st := daoStart mem inst
  if !knownInstance mem inst then some ⟨none, [0], []⟩
  else if hasDagId mem then
    let st := st.touch (range' 4 16)
    if !sameDagId mem inst then some st.discard
    else loop (daoTurn mem bufferLength) (bufferLength + 1) (st.advance 16)
  else loop (daoTurn mem bufferLength) (bufferLength + 1) st

/-- `dao_ack_input`: the sequence number and the status are passed on. -/
def daoAckInput (inst : CurrInstance) : Handled (UInt8 × UInt8) :=
  if !knownInstance mem inst then ⟨none, [0, 2, 3], []⟩
  else ⟨some (mem 2, mem 3), [0, 2, 3], []⟩

end ContikiMaster.Rpl
