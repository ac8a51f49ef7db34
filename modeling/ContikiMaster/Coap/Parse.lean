import ContikiMaster.Coap.Packet
import ContikiMaster.Lib.Loop

/-!
# Parsing a CoAP message

`coap_parse_message` of `coap.c`. The parser also writes: options of one kind that follow
each other are glued in place, and a zero is put behind the payload. The offsets that are
read or written are noted, and so are the option numbers. The unsigned integers have `bits`
bits, and pointers wrap around at the end of the address space; where the pointer behind an
option has wrapped around, it is not followed, and there is no result.
-/

namespace ContikiMaster.Coap

open Lib List

/-- A pointer into the datagram, and a length. -/
structure Span where
  start : ℕ
  len : ℕ
deriving DecidableEq

/-- The parsed message, whose strings and payload lie in the datagram. -/
abbrev ParsedPacket := CoapPacket Span Span

/-- What `coap_parse_message` returns. -/
inductive ParseStatus where
  | noError
  | badRequest400
  | badOption402
  | proxyingNotSupported505
deriving DecidableEq

structure ParseState where
  mem : ℕ → UInt8
  packet : ParsedPacket
  /-- `current_option - data`. -/
  current : ℕ
  /-- `option_number`. -/
  number : ℕ
  /-- The offsets that were read or written. -/
  touched : List ℕ
  /-- The values that `option_number` had. -/
  numbers : List ℕ

/-- The result: the status, the `coap_error_message` that was set, and the state. -/
structure Parsed where
  status : ParseStatus
  errorMessage : Option String
  state : ParseState

namespace ParseState

def touch (st : ParseState) (offsets : List ℕ) : ParseState :=
  { st with touched := st.touched ++ offsets }

def withPacket (st : ParseState) (p : ParsedPacket) : ParseState := { st with packet := p }

end ParseState

def coapParseIntOption (bytes : List UInt8) : UInt32 :=
  bytes.foldl (fun var b ↦ var <<< 8 ||| b.toUInt32) 0

/-- The value of a delta or a length, whose half byte may refer to further bytes: the value, the
pointer behind these bytes, and the offsets of them. -/
def readExtension (bits : ℕ) (mem : ℕ → UInt8) (nibble current : ℕ) : ℕ × ℕ × List ℕ :=
  if nibble = 13 then ((13 + (mem current).toNat) % 2 ^ bits, current + 1, [current])
  else if nibble = 14 then
    ((14 + 255 + (mem current).toNat <<< 8 + (mem (current + 1)).toNat) % 2 ^ bits, current + 2,
      [current, current + 1])
  else (nibble, current, [])

/-- `coap_merge_multi_option`: the memory and the string afterwards, and the offsets touched. -/
def coapMergeMultiOption (mem : ℕ → UInt8) (dst : Span) (option optionLen : ℕ) (separator : UInt8) :
    (ℕ → UInt8) × Span × List ℕ :=
  if 0 < dst.len then
    let gap := dst.start + dst.len
    let separated := writeAt mem gap [separator]
    (writeAt separated (gap + 1) (slice separated option optionLen),
      ⟨dst.start, dst.len + 1 + optionLen⟩,
      gap :: (range' option optionLen ++ range' (gap + 1) optionLen))
  else (mem, ⟨option, optionLen⟩, [])

/-- The fields of a block option from its value. -/
def parseBlock (value : UInt32) : Block where
  num := value >>> 4
  more := ((value &&& 0x08) >>> 3).toUInt8
  size := ((16 : UInt32) <<< (value &&& 0x07)).toUInt16
  offset := (value &&& 0xFFFFFFF0) <<< (value &&& 0x07)

/-- The text for a message with an option that the server does not process. -/
def constrainedServer : String := "This is a constrained server (Contiki)"

/-- The `switch` over the option number, for an option whose value has some length. -/
def parseOption (st : ParseState) (length : ℕ) : Turn ParseState Parsed :=
  let p := st.packet
  let value := slice st.mem st.current length
  let offsets := range' st.current length
  match CoapOption.ofNumber st.number with
  | some (.int o) =>
    .goesOn ((st.withPacket (p.setInt o (coapParseIntOption value))).touch offsets)
  | some (.byte o) => .goesOn ((st.withPacket (p.setByte o value)).touch (offsets.take 8))
  | some .ifNoneMatch => .goesOn (st.withPacket { p with ifNoneMatch := 1 })
  | some (.string .proxyUri) | some (.string .proxyScheme) =>
    .returns ⟨.proxyingNotSupported505, some constrainedServer, st⟩
  | some (.string .uriHost) => .goesOn (st.withPacket (p.setString .uriHost ⟨st.current, length⟩))
  | some (.string o) =>
    let (mem, dst, offsets) :=
      coapMergeMultiOption st.mem (p.string o) st.current length o.splitter
    .goesOn (({ st with mem := mem }.withPacket (p.setString o dst)).touch offsets)
  | some (.block o) =>
    .goesOn ((st.withPacket (p.setBlock o (parseBlock (coapParseIntOption value)))).touch offsets)
  | none =>
    if st.number % 2 = 1 then .returns ⟨.badOption402, some "Unsupported critical option", st⟩
    else .goesOn st

/-- The payload marker was met: the rest is payload, cut at the largest chunk and followed by a
zero. -/
def parsePayload (conf : CoapConf) (dataLen : ℕ) (st : ParseState) : Parsed :=
  let start := st.current + 1
  let len := min conf.maxChunkSize (dataLen - start)
  ⟨.noError, none,
    ({ st with mem := writeAt st.mem (start + len) [0], current := start }.withPacket
      { st.packet with payload := ⟨start, len⟩ }).touch [start + len]⟩

/-- `current_option += option_length` after the `switch`. From the limit on the pointer has wrapped
around. -/
def advance (limit length : ℕ) : Turn ParseState Parsed → Turn ParseState (Option Parsed)
  | .goesOn st =>
    if limit ≤ st.current + length then .returns none
    else .goesOn { st with current := st.current + length }
  | .returns r => .returns (some r)

/-- An option header: the delta, the length, the pointer behind the header, and the offsets of its
extension bytes. -/
structure OptionHeader where
  delta : ℕ
  length : ℕ
  content : ℕ
  offsets : List ℕ

def readHeader (bits : ℕ) (mem : ℕ → UInt8) (current : ℕ) : OptionHeader :=
  let first := (mem current).toNat
  let (delta, behind, deltaOffsets) := readExtension bits mem (first >>> 4) (current + 1)
  let (length, content, lengthOffsets) := readExtension bits mem (first &&& 0x0F) behind
  ⟨delta, length, content, deltaOffsets ++ lengthOffsets⟩

/-- The state behind an option header. -/
def enterValue (h : OptionHeader) (st : ParseState) : ParseState :=
  { st with current := h.content }.touch h.offsets

/-- The state once the option number is known. -/
def enterOption (number : ℕ) (st : ParseState) : ParseState :=
  { st with number := number, numbers := st.numbers ++ [number] }

/-- Where `current_option + option_length` points to, from the start of the datagram; 0 stands for
what is in front of it. -/
def wrapPointer (bits limit offset : ℕ) : ℕ := if offset < limit then offset else offset - 2 ^ bits

/-- An option whose header starts at the current pointer. -/
def parseOptionAt (bits limit dataLen : ℕ) (st : ParseState) : Turn ParseState (Option Parsed) :=
  let h := readHeader bits st.mem st.current
  let st := enterValue h st
  if dataLen < wrapPointer bits limit (h.content + h.length) then
    .returns (some ⟨.badRequest400, none, st⟩)
  else
    let number := (st.number + h.delta) % 2 ^ bits
    let st := enterOption number st
    if CoapOption.number (.int .size1) < number then .returns (some ⟨.badRequest400, none, st⟩)
    else advance limit h.length (parseOption (st.withPacket (st.packet.setOption number)) h.length)

def parseTurn (bits : ℕ) (conf : CoapConf) (dataLen : ℕ) (st : ParseState) :
    Turn ParseState (Option Parsed) :=
  if st.current < dataLen then
    let st := st.touch [st.current]
    if st.mem st.current &&& 0xF0 = 0xF0 then .returns (some (parsePayload conf dataLen st))
    else parseOptionAt bits (dataLen + conf.behind) dataLen st
  else .returns (some ⟨.noError, none, st⟩)

/-- The message with the fields of the first four bytes; the token is copied later. -/
def parseHeader (mem : ℕ → UInt8) : ParsedPacket :=
  { CoapPacket.zero ⟨0, 0⟩ ⟨0, 0⟩ with
    version := (0xC0 &&& mem 0) >>> 6
    type := MessageType.ofByte ((0x30 &&& mem 0) >>> 4)
    code := mem 1
    mid := (mem 2).toUInt16 <<< 8 ||| (mem 3).toUInt16 }

def parseStart (mem : ℕ → UInt8) (tokenLen : ℕ) : ParseState where
  mem := mem
  packet := { parseHeader mem with token := ShortBytes.cut (slice mem coapHeaderLen tokenLen) }
  current := coapHeaderLen + tokenLen
  number := 0
  touched := [0, 1, 2, 3] ++ range' coapHeaderLen tokenLen
  numbers := [0]

/-- `coap_parse_message`. No more turns are needed than the datagram has bytes, as long as no pointer
wraps around. -/
def coapParseMessage (bits : ℕ) (conf : CoapConf) (mem : ℕ → UInt8) (dataLen : ℕ) :
    Option Parsed :=
  let packet := parseHeader mem
  let tokenLen := ((0x0F &&& mem 0) >>> 0).toNat
  let st : ParseState := ⟨mem, packet, 0, 0, [0, 1, 2, 3], [0]⟩
  if packet.version ≠ 1 then some ⟨.badRequest400, some "CoAP version must be 1", st⟩
  else if 8 < tokenLen then
    some ⟨.badRequest400, some "Token Length must not be more than 8", st⟩
  else (loop (parseTurn bits conf dataLen) (dataLen + 1) (parseStart mem tokenLen)).join

end ContikiMaster.Coap
