import ContikiMaster.Coap.Parse
import ContikiMaster.Coap.Serialize
import ContikiMaster.Lib.Run
import ContikiMaster.Sys.Memb

/-!
# The CoAP engine

`coap-engine.c`, `coap-transactions.c` and the notifications of `coap-observe.c`. A pointer to a
transaction is the index of its block. What applications make of requests and notifications is
part of the input; the log of what happened to the blocks is never read.
-/

namespace ContikiMaster.Coap

open Lib Sys

/-- An IP address and a port. -/
structure Endpoint where
  addr : BitVec 128
  port : UInt16
deriving DecidableEq

/-- What a transaction was allocated for: the response to the n-th datagram, a request, or a
notification. -/
inductive Origin where
  | response (n : ℕ)
  | request
  | notification
deriving DecidableEq

structure Exchange where
  mid : UInt16
  peer : Endpoint
  origin : Origin
deriving DecidableEq

/-- Why a transaction is cleared: its message was sent and is not confirmable, a message with some
identifier came from some peer, the retransmissions are exhausted, or the n-th datagram ended with
a status other than `NO_ERROR`. -/
inductive Ending where
  | sent
  | answered (peer : Endpoint) (mid : UInt16)
  | exhausted
  | failed (n : ℕ)
deriving DecidableEq

/-- An entry of the log about a block; for one that is freed, whether it was in the list. -/
inductive Entry where
  | allocated (t : ℕ) (x : Exchange)
  | registered (t : ℕ)
  | freed (t : ℕ) (listed : Bool) (why : Ending)
  | invoked (t : ℕ)
deriving DecidableEq

/-- `coap_transaction_t`. A callback is referred to by a number, the request that it belongs to. -/
structure CoapTransaction where
  mid : UInt16
  retransCounter : ℕ
  peer : Endpoint
  callback : Option ℕ
  packetLen : ℕ
  packet : ℕ → UInt8

def CoapTransaction.zero : CoapTransaction := ⟨0, 0, ⟨0, 0⟩, none, 0, fun _ ↦ 0⟩

/-- The type in the first byte of the packet is `COAP_TYPE_CON`. -/
def CoapTransaction.confirmable (x : CoapTransaction) : Bool :=
  ((0x30 : UInt8) &&& x.packet 0) >>> 4 == 0

/-- `coap_observer_t`. -/
structure Observer where
  peer : Endpoint
  url : List UInt8
  token : ShortBytes
  lastMid : UInt16
  obsCounter : UInt32

/-- The configuration: the sizes of messages, `COAP_MAX_BLOCK_SIZE`, the number of transactions, and
the width of an unsigned integer. -/
structure EngineConf where
  sizes : CoapConf
  maxBlockSize : UInt16
  openTransactions : ℕ
  bits : ℕ

def coapMaxRetransmit : ℕ := 4

def coapObserveRefreshInterval : UInt32 := 20

/-- The static variables of the engine. `transaction` is the one of `coap_receive`; `delivered` is
what the callbacks were called with, and `outbox` the datagrams that were sent. -/
structure Engine where
  transactionsMemb : Memb CoapTransaction
  transactionsList : List ℕ
  transaction : Option ℕ
  currentMid : UInt16
  observersList : List Observer
  errorMessage : String
  received : ℕ
  delivered : List (ℕ × Option ParseState)
  outbox : List (Endpoint × List UInt8)
  log : List Entry

/-- What a resource makes of a notification: calls of setters, and the content of the packet. -/
abbrev GetHandler := Message → (ℕ → UInt8) → List Setter × (ℕ → UInt8)

/-- What an application notifies of: `coap_notify_observers_sub`, its url after it was cut to
`COAP_OBSERVER_URL_LEN`. -/
structure Notification where
  url : List UInt8
  hasSubResources : Bool
  getHandler : GetHandler

/-- What the service callback makes of a request: whether a resource was found, the calls of setters
for the response, the next offset, the content of the packet, `erbium_status_code` and the error
message, the observers, and what was notified of. -/
structure ServiceResult where
  found : Bool
  setters : List Setter
  newOffset : UInt32
  packet : ℕ → UInt8
  status : ℕ
  errorMessage : String
  observersList : List Observer
  notified : List Notification

/-- `service_callback_t`: from the request, the response so far, the packet, the preferred size and
the offset. -/
abbrev Service := ParseState → Message → (ℕ → UInt8) → UInt16 → UInt32 → ServiceResult

/-- A datagram in `uip_appdata`. -/
structure Datagram where
  source : Endpoint
  mem : ℕ → UInt8
  len : ℕ

/-- The codes of `coap_status_t` that the parser returns. -/
def ParseStatus.code : ParseStatus → ℕ
  | .noError => 0
  | .badRequest400 => 128
  | .badOption402 => 130
  | .proxyingNotSupported505 => 165

def manualResponse : ℕ := 194

def pingResponse : ℕ := 195

def textBytes (text : String) : List UInt8 := text.toList.map fun c ↦ UInt8.ofNat c.toNat

/-- A pointer into the payload of a message. -/
def PayloadPtr.add : PayloadPtr → ℕ → PayloadPtr
  | .own mem, k => .own fun i ↦ mem (k + i)
  | .inBuffer offset, k => .inBuffer (offset + k)

/-- The part of a request that `coap_receive` looks at: the number, the size and the offset of the
block that it asks for; the defaults where it asks for none. -/
structure BlockRequest where
  num : UInt32
  size : UInt16
  offset : UInt32

/-- The block option of a request; the size is cut to `COAP_MAX_BLOCK_SIZE`. -/
def requestedBlock (conf : EngineConf) (message : ParsedPacket) : BlockRequest :=
  if message.IsOption BlockOption.block2.number then
    let b := message.block .block2
    ⟨b.num, min b.size conf.maxBlockSize, b.offset⟩
  else ⟨0, conf.maxBlockSize, 0⟩

/-- The response before the service callback is called. -/
def initResponse (message : ParsedPacket) (mid : UInt16) : Message :=
  let response :=
    if message.type = .con then coapInitMessage .ack 69 message.mid else coapInitMessage .non 69 mid
  if message.token.1.length ≠ 0 then response.coapSetToken message.token.1 else response

/-- The block handling of `coap_receive` behind the service callback: the response, or no response
where Block1 is not implemented. -/
def handleBlocks (conf : EngineConf) (message : ParsedPacket) (b : BlockRequest) (newOffset : UInt32)
    (response : Message) : Option Message :=
  let len := response.payload.len
  if message.IsOption BlockOption.block1.number ∧ response.code < 128 ∧
      ¬ response.IsOption BlockOption.block1.number then none
  else if message.IsOption BlockOption.block2.number then
    if newOffset = b.offset then
      if len ≤ b.offset.toNat then
        let text : ℕ → UInt8 := fun i ↦ (textBytes "BlockOutOfScope").getD i 0
        some (Message.coapSetPayload conf.sizes { response with code := 130 } (.own text) 15)
      else
        let more := if b.size.toNat < len - b.offset.toNat then 1 else 0
        some ((response.coapSetHeaderBlock2 b.num more b.size).coapSetPayload conf.sizes
          (response.payload.ptr.add b.offset.toNat) (min (len - b.offset.toNat) b.size.toNat))
    else
      let more := if newOffset ≠ 0xFFFFFFFF ∨ b.size.toNat < len then 1 else 0
      let response := response.coapSetHeaderBlock2 b.num more b.size
      if b.size.toNat < len then
        some (response.coapSetPayload conf.sizes response.payload.ptr b.size.toNat)
      else some response
  else if newOffset ≠ 0 then
    let more := if newOffset ≠ 0xFFFFFFFF then 1 else 0
    some ((response.coapSetHeaderBlock2 0 more conf.maxBlockSize).coapSetPayload conf.sizes
      response.payload.ptr (min len conf.maxBlockSize.toNat))
  else some response

namespace Engine

def init (conf : EngineConf) (mid : UInt16) : Engine where
  transactionsMemb := Memb.init conf.openTransactions CoapTransaction.zero
  transactionsList := []
  transaction := none
  currentMid := mid
  observersList := []
  errorMessage := ""
  received := 0
  delivered := []
  outbox := []
  log := []

def get (s : Engine) (t : ℕ) : CoapTransaction := s.transactionsMemb.mem t

def store (s : Engine) (t : ℕ) (x : CoapTransaction) : Engine :=
  { s with transactionsMemb := s.transactionsMemb.store t x }

def note (s : Engine) (e : Entry) : Engine := { s with log := s.log ++ [e] }

def coapSendMessage (s : Engine) (peer : Endpoint) (data : List UInt8) : Engine :=
  { s with outbox := s.outbox ++ [(peer, data)] }

def coapGetMid (s : Engine) : UInt16 × Engine :=
  (s.currentMid + 1, { s with currentMid := s.currentMid + 1 })

/-- `coap_new_transaction`. The block is not cleared. -/
def coapNewTransaction (s : Engine) (mid : UInt16) (peer : Endpoint) (origin : Origin) :
    Option (ℕ × Engine) :=
  s.transactionsMemb.alloc.map fun (t, memb) ↦
    (t, ({ s with
      transactionsMemb := memb.store t { memb.mem t with mid := mid, retransCounter := 0, peer := peer }
      transactionsList := listAdd s.transactionsList t }).note (.allocated t ⟨mid, peer, origin⟩))

/-- `coap_clear_transaction`, of a pointer that is not null. -/
def coapClearTransaction (s : Engine) (t : ℕ) (why : Ending) : Engine :=
  ({ s with
    transactionsMemb := s.transactionsMemb.free t
    transactionsList := listRemove s.transactionsList t }).note
      (.freed t (decide (t ∈ s.transactionsList)) why)

def coapGetTransactionByMid (s : Engine) (mid : UInt16) : Option ℕ :=
  s.transactionsList.find? fun t ↦ (s.get t).mid == mid

/-- The call of the callback of a transaction that was just cleared, with a message or without one. -/
def invoke (s : Engine) (t : ℕ) (message : Option ParseState) : Engine :=
  match (s.get t).callback with
  | none => s
  | some callback =>
    { s with delivered := s.delivered ++ [(callback, message)] }.note (.invoked t)

/-- The first observer that satisfies a condition is removed; the walk along the list ends there, as
the removal resets the pointer to the next one. -/
def removeObserver (s : Engine) (gone : Observer → Bool) : Engine :=
  { s with observersList := s.observersList.eraseP gone }

def coapRemoveObserverByClient (s : Engine) (peer : Endpoint) : Engine :=
  s.removeObserver fun o ↦ o.peer == peer

def coapRemoveObserverByMid (s : Engine) (peer : Endpoint) (mid : UInt16) : Engine :=
  s.removeObserver fun o ↦ o.peer == peer && o.lastMid == mid

/-- `coap_send_transaction`. The timer that is restarted for a confirmable message is left to the
input of `coapCheckTransactions`. -/
def coapSendTransaction (s : Engine) (t : ℕ) : Engine :=
  let x := s.get t
  let s := s.coapSendMessage x.peer (slice x.packet 0 x.packetLen)
  if x.confirmable then
    if x.retransCounter < coapMaxRetransmit then s
    else ((s.coapRemoveObserverByClient x.peer).coapClearTransaction t .exhausted).invoke t none
  else s.coapClearTransaction t .sent

/-- The walk of `coap_check_transactions` along the list: it ends behind a transaction that was
cleared, as the removal resets the pointer to the next one. -/
def checkFrom (expired : ℕ → Bool) : List ℕ → Engine → Engine
  | [], s => s
  | t :: rest, s =>
    if expired t then
      let x := s.get t
      let s := (s.store t { x with retransCounter := x.retransCounter + 1 }).coapSendTransaction t
      if t ∈ s.transactionsList then checkFrom expired rest s else s
    else checkFrom expired rest s

/-- `coap_check_transactions`, with the timers that have expired. -/
def coapCheckTransactions (s : Engine) (expired : ℕ → Bool) : Engine :=
  checkFrom expired s.transactionsList s

def serializeInto (s : Engine) (conf : EngineConf) (t : ℕ) (m : Message) : Engine :=
  let x := s.get t
  let out := coapSerializeMessage conf.sizes m x.packet
  s.store t { x with packet := out.buffer, packetLen := out.length }

/-- The test of `coap_notify_observers_sub`: the url, or one below it. -/
def matchesUrl (url : List UInt8) (hasSubResources : Bool) (o : Observer) : Bool :=
  (o.url.length == url.length ||
    (url.length < o.url.length && hasSubResources && o.url.getD url.length 0 == 0x2f)) &&
    o.url.take url.length == url

/-- The body of the loop of `coap_notify_observers_sub`: the observer, the notification, and the
engine afterwards. -/
def notifyObserver (conf : EngineConf) (getHandler : GetHandler) (o : Observer)
    (notification : Message) (s : Engine) : Observer × Message × Engine :=
  let (mid, s) := s.coapGetMid
  match s.coapNewTransaction mid o.peer .notification with
  | none => (o, notification, s)
  | some (t, s) =>
    let type :=
      if o.obsCounter % coapObserveRefreshInterval = 0 then .con else notification.type
    let (setters, packet) :=
      getHandler { notification with type := type, mid := mid } (s.get t).packet
    let notification :=
      build conf.sizes { notification with type := type, mid := mid } setters
    let good := notification.code < 128
    let notification := if good then notification.coapSetHeaderObserve o.obsCounter else notification
    let counter := if good then (o.obsCounter + 1) &&& 0xffffff else o.obsCounter
    let notification := notification.coapSetToken o.token.1
    let s := s.store t { s.get t with packet := packet }
    let s := (s.serializeInto conf t notification).coapSendTransaction t
    ({ o with lastMid := mid, obsCounter := counter }, notification, s)

/-- The loop of `coap_notify_observers_sub` over the observers. -/
def notifyFrom (conf : EngineConf) (n : Notification) :
    List Observer → Message → Engine → List Observer × Engine
  | [], _, s => ([], s)
  | o :: rest, notification, s =>
    if matchesUrl n.url n.hasSubResources o then
      let (o, notification, s) := notifyObserver conf n.getHandler o notification s
      let (rest, s) := notifyFrom conf n rest notification s
      (o :: rest, s)
    else
      let (rest, s) := notifyFrom conf n rest notification s
      (o :: rest, s)

def coapNotifyObserversSub (s : Engine) (conf : EngineConf) (n : Notification) : Engine :=
  let (observers, s) := notifyFrom conf n s.observersList (coapInitMessage .non 69 0) s
  { s with observersList := observers }

/-- The error message of a datagram without a transaction, and the reply to it; the message is built
and serialized where the datagram was. -/
def replyError (s : Engine) (conf : EngineConf) (d : Datagram) (message : ParseState) (status : ℕ) :
    Engine :=
  let type := if status = pingResponse then .rst else .ack
  let code := if status = pingResponse then 0 else if 192 ≤ status then 160 else status
  let text := textBytes s.errorMessage
  let reply := (coapInitMessage type (UInt8.ofNat code) message.packet.mid).coapSetPayload conf.sizes
    (.own fun i ↦ text.getD i 0) text.length
  s.coapSendMessage d.source (coapSerializeMessage conf.sizes reply message.mem).datagram

/-- The end of `coap_receive` for the n-th datagram: the transaction that the static pointer
designates is sent, or cleared with or without a reply. -/
def finish (s : Engine) (conf : EngineConf) (n : ℕ) (transaction : Option ℕ) (d : Datagram)
    (message : ParseState) (status : ℕ) : Engine :=
  if status = 0 then
    match transaction with
    | none => s
    | some t => s.coapSendTransaction t
  else
    let s :=
      match transaction with
      | none => s
      | some t => s.coapClearTransaction t (.failed n)
    if status = manualResponse then s else s.replyError conf d message status

/-- The request branch of `coap_receive` once there is a transaction: the status, and the engine with
the response in the transaction. -/
def serve (s : Engine) (conf : EngineConf) (service : Option Service) (message : ParseState) (t : ℕ) :
    ℕ × Engine :=
  let (mid, s) := if message.packet.type = .con then (0, s) else s.coapGetMid
  let response := initResponse message.packet mid
  let b := requestedBlock conf message.packet
  match service with
  | none => (161, { s with errorMessage := "NoServiceCallbck" })
  | some service =>
    let result := service message response (s.get t).packet b.size b.offset
    let s := s.store t { s.get t with packet := result.packet }
    let s := { s with observersList := result.observersList, errorMessage := result.errorMessage }
    let s := result.notified.foldl (fun s n ↦ s.coapNotifyObserversSub conf n) s
    let response := build conf.sizes response result.setters
    if result.status ≠ 0 then (result.status, s)
    else
      let handled :=
        if result.found then handleBlocks conf message.packet b result.newOffset response
        else some response
      match handled with
      | none => (161, { s with errorMessage := "NoBlock1Support" })
      | some response =>
        let s := s.serializeInto conf t response
        if (s.get t).packetLen = 0 then (193, s) else (0, s)

/-- The request branch of `coap_receive`. -/
def receiveRequest (s : Engine) (conf : EngineConf) (service : Option Service) (d : Datagram)
    (message : ParseState) : Engine :=
  let n := s.received
  match s.coapNewTransaction message.packet.mid d.source (.response n) with
  | none =>
    { s with transaction := none, errorMessage := "NoFreeTraBuffer" }.finish conf n none d message 163
  | some (t, s) =>
    let (status, s) := { s with transaction := some t }.serve conf service message t
    s.finish conf n (some t) d message status

/-- The branch of `coap_receive` for responses and empty messages. -/
def receiveResponse (s : Engine) (conf : EngineConf) (d : Datagram) (message : ParseState) : Engine :=
  let mid := message.packet.mid
  let status := if message.packet.type = .con ∧ message.packet.code = 0 then pingResponse else 0
  let s := if message.packet.type = .rst then s.coapRemoveObserverByMid d.source mid else s
  let s :=
    match s.coapGetTransactionByMid mid with
    | none => s
    | some t => (s.coapClearTransaction t (.answered d.source mid)).invoke t (some message)
  { s with transaction := none }.finish conf s.received none d message status

/-- `coap_receive`, for a datagram that was parsed. -/
def receiveParsed (s : Engine) (conf : EngineConf) (service : Option Service) (d : Datagram)
    (r : Parsed) : Engine :=
  let s := { s with
    received := s.received + 1
    errorMessage := r.errorMessage.getD s.errorMessage }
  if r.status = .noError then
    if 1 ≤ r.state.packet.code ∧ r.state.packet.code ≤ 4 then
      s.receiveRequest conf service d r.state
    else s.receiveResponse conf d r.state
  else s.finish conf s.received s.transaction d r.state r.status.code

def coapReceive (s : Engine) (conf : EngineConf) (service : Option Service) (d : Datagram) :
    Option Engine :=
  (coapParseMessage conf.bits conf.sizes d.mem d.len).map (s.receiveParsed conf service d)

/-- One turn of the loop of `coap_blocking_request` up to `PT_YIELD_UNTIL`, of the request that is
referred to by a number: the transaction, if there is a block for it, the request, and the engine. -/
def requestBlock (s : Engine) (conf : EngineConf) (state : ℕ) (remote : Endpoint) (request : Message)
    (blockNum : UInt32) : Option ℕ × Message × Engine :=
  let (mid, s) := s.coapGetMid
  let request := { request with mid := mid }
  match s.coapNewTransaction mid remote .request with
  | none => (none, request, s)
  | some (t, s) =>
    let s := (s.store t { s.get t with callback := some state }).note (.registered t)
    let request :=
      if 0 < blockNum then
        request.coapSetHeaderBlock2 blockNum 0 (UInt16.ofNat conf.sizes.maxChunkSize)
      else request
    (some t, request, (s.serializeInto conf t request).coapSendTransaction t)

end Engine

/-- What happens to an engine: a datagram arrives, a blocking request goes on, an application
notifies of a resource, or the timer event is handled with the timers that have expired. -/
inductive EngineEvent where
  | receive (service : Option Service) (d : Datagram)
  | request (state : ℕ) (remote : Endpoint) (request : Message) (blockNum : UInt32)
  | notify (n : Notification)
  | check (expired : ℕ → Bool)

def engineStep (conf : EngineConf) (s : Engine) : EngineEvent → Option Engine
  | .receive service d => s.coapReceive conf service d
  | .request state remote request blockNum =>
    some (s.requestBlock conf state remote request blockNum).2.2
  | .notify n => some (s.coapNotifyObserversSub conf n)
  | .check expired => some (s.coapCheckTransactions expired)

end ContikiMaster.Coap
