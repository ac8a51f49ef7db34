import ContikiMaster.Lib.Memory
import Mathlib.Data.Finset.Insert

/-!
# CoAP messages

The message record of `coap.h` and the functions of `coap.c` that build one. Options of one
format are one family of fields. How strings and the payload are referred to is a parameter: a
message under construction has memory of its own, a parsed one lies in the datagram.
-/

namespace ContikiMaster.Coap

open Lib Function List

/-- The configured sizes, and how many addresses there are from the end of a received datagram on.
The fixed header has its place in the header, a packet fits the buffer of the IP stack, whose size
has 16 bits, and the pointer behind a datagram is an address. -/
structure CoapConf where
  maxHeaderSize : ℕ
  maxChunkSize : ℕ
  behind : ℕ
  header : 4 ≤ maxHeaderSize
  fits : maxHeaderSize + maxChunkSize < 2 ^ 16
  behind_pos : 0 < behind

def CoapConf.maxPacketSize (conf : CoapConf) : ℕ := conf.maxHeaderSize + conf.maxChunkSize

/-- The sizes that are configured where the application chooses none; the datagram ends in the middle
of an address space of 32 bits. -/
def CoapConf.default : CoapConf :=
  ⟨4 + 8 + 3 + 1 + 8 + 4 + 4 + 30, 64, 2 ^ 31, by decide, by decide, by decide⟩

def coapHeaderLen : ℕ := 4

inductive MessageType where
  | con
  | non
  | ack
  | rst
deriving DecidableEq

def MessageType.toByte : MessageType → UInt8
  | .con => 0
  | .non => 1
  | .ack => 2
  | .rst => 3

/-- The type in the two bits of a header byte. -/
def MessageType.ofByte (b : UInt8) : MessageType :=
  if b = 0 then .con else if b = 1 then .non else if b = 2 then .ack else .rst

/-- The options that are written by `COAP_SERIALIZE_INT_OPTION`. -/
inductive IntOption where
  | observe
  | uriPort
  | contentFormat
  | maxAge
  | accept
  | size2
  | size1
deriving DecidableEq

def IntOption.number : IntOption → ℕ
  | .observe => 6
  | .uriPort => 7
  | .contentFormat => 12
  | .maxAge => 14
  | .accept => 17
  | .size2 => 28
  | .size1 => 60

def IntOption.width : IntOption → ℕ
  | .uriPort | .contentFormat | .accept => 16
  | .observe | .maxAge | .size2 | .size1 => 32

/-- The options that are written by `COAP_SERIALIZE_BYTE_OPTION`. -/
inductive ByteOption where
  | ifMatch
  | etag
deriving DecidableEq

def ByteOption.number : ByteOption → ℕ
  | .ifMatch => 1
  | .etag => 4

/-- The options that are written by `COAP_SERIALIZE_STRING_OPTION`. -/
inductive StringOption where
  | uriHost
  | locationPath
  | uriPath
  | uriQuery
  | locationQuery
  | proxyUri
  | proxyScheme
deriving DecidableEq

def StringOption.number : StringOption → ℕ
  | .uriHost => 3
  | .locationPath => 8
  | .uriPath => 11
  | .uriQuery => 15
  | .locationQuery => 20
  | .proxyUri => 35
  | .proxyScheme => 39

/-- The character at which the string is split into options, 0 where it is one option. -/
def StringOption.splitter : StringOption → UInt8
  | .locationPath | .uriPath => 0x2f
  | .uriQuery | .locationQuery => 0x26
  | .uriHost | .proxyUri | .proxyScheme => 0

/-- The options that are written by `COAP_SERIALIZE_BLOCK_OPTION`. -/
inductive BlockOption where
  | block2
  | block1
deriving DecidableEq

def BlockOption.number : BlockOption → ℕ
  | .block2 => 23
  | .block1 => 27

inductive CoapOption where
  | int (o : IntOption)
  | byte (o : ByteOption)
  | string (o : StringOption)
  | block (o : BlockOption)
  | ifNoneMatch
deriving DecidableEq

def CoapOption.number : CoapOption → ℕ
  | .int o => o.number
  | .byte o => o.number
  | .string o => o.number
  | .block o => o.number
  | .ifNoneMatch => 5

/-- The options in the order in which `coap_serialize_message` writes them. -/
def serializeOrder : List CoapOption :=
  [.byte .ifMatch, .string .uriHost, .byte .etag, .ifNoneMatch, .int .observe, .int .uriPort,
    .string .locationPath, .string .uriPath, .int .contentFormat, .int .maxAge, .string .uriQuery,
    .int .accept, .string .locationQuery, .block .block2, .block .block1, .int .size2,
    .string .proxyUri, .string .proxyScheme, .int .size1]

def CoapOption.ofNumber (number : ℕ) : Option CoapOption :=
  serializeOrder.find? fun o ↦ o.number == number

theorem mem_serializeOrder (o : CoapOption) : o ∈ serializeOrder := by
  cases o with
  | int o => cases o <;> decide
  | byte o => cases o <;> decide
  | string o => cases o <;> decide
  | block o => cases o <;> decide
  | ifNoneMatch => decide

theorem CoapOption.number_injective : Injective CoapOption.number := by
  have hall : ∀ o ∈ serializeOrder, ∀ o' ∈ serializeOrder, o.number = o'.number → o = o' := by
    decide
  exact fun o o' ↦ hall o (mem_serializeOrder o) o' (mem_serializeOrder o')

theorem CoapOption.ofNumber_eq_some {number : ℕ} {o : CoapOption} :
    CoapOption.ofNumber number = some o ↔ number = o.number := by
  constructor
  · intro hfound
    have hsame := find?_some hfound
    simp only [beq_iff_eq] at hsame
    exact hsame.symm
  · rintro rfl
    have hall : ∀ o ∈ serializeOrder, CoapOption.ofNumber o.number = some o := by decide
    exact hall o (mem_serializeOrder o)

/-- `COAP_TOKEN_LEN` and `COAP_ETAG_LEN`: a field of up to eight bytes and its length. -/
def ShortBytes : Type := { bytes : List UInt8 // bytes.length ≤ 8 }

instance : DecidableEq ShortBytes :=
  inferInstanceAs (DecidableEq { bytes : List UInt8 // bytes.length ≤ 8 })

def ShortBytes.empty : ShortBytes := ⟨[], Nat.zero_le 8⟩

/-- `memcpy` of at most eight bytes. -/
def ShortBytes.cut (bytes : List UInt8) : ShortBytes :=
  ⟨bytes.take 8, length_take_le 8 bytes⟩

structure Block where
  num : UInt32
  more : UInt8
  size : UInt16
  offset : UInt32
deriving DecidableEq

/-- `coap_packet_t`, without the pointer to the buffer. Strings are referred to by a `σ`, the
payload by a `π`. -/
structure CoapPacket (σ π : Type) where
  version : UInt8
  type : MessageType
  code : UInt8
  mid : UInt16
  token : ShortBytes
  /-- The numbers of the set options. -/
  options : Finset ℕ
  int : IntOption → UInt32
  byte : ByteOption → ShortBytes
  string : StringOption → σ
  block : BlockOption → Block
  ifNoneMatch : UInt8
  payload : π

namespace CoapPacket

variable {σ π : Type}

/-- The message after `memset`, with the null string and the null payload. -/
def zero (string : σ) (payload : π) : CoapPacket σ π where
  version := 0
  type := .con
  code := 0
  mid := 0
  token := ShortBytes.empty
  options := ∅
  int _ := 0
  byte _ := ShortBytes.empty
  string _ := string
  block _ := ⟨0, 0, 0, 0⟩
  ifNoneMatch := 0
  payload := payload

def IsOption (p : CoapPacket σ π) (number : ℕ) : Prop := number ∈ p.options

instance (p : CoapPacket σ π) (number : ℕ) : Decidable (p.IsOption number) :=
  inferInstanceAs (Decidable (number ∈ p.options))

def setOption (p : CoapPacket σ π) (number : ℕ) : CoapPacket σ π :=
  { p with options := insert number p.options }

def setInt (p : CoapPacket σ π) (o : IntOption) (value : UInt32) : CoapPacket σ π :=
  { p with int := update p.int o (UInt32.ofNat (value.toNat % 2 ^ o.width)) }

def setByte (p : CoapPacket σ π) (o : ByteOption) (bytes : List UInt8) : CoapPacket σ π :=
  { p with byte := update p.byte o (ShortBytes.cut bytes) }

def setString (p : CoapPacket σ π) (o : StringOption) (s : σ) : CoapPacket σ π :=
  { p with string := update p.string o s }

def setBlock (p : CoapPacket σ π) (o : BlockOption) (b : Block) : CoapPacket σ π :=
  { p with block := update p.block o b }

end CoapPacket

/-- A pointer and a length: the memory from the pointer on, and how much of it is meant. -/
structure Text where
  mem : ℕ → UInt8
  len : ℕ

def Text.chars (t : Text) : List UInt8 := slice t.mem 0 t.len

/-- A C string: its characters, and what lies behind the terminating zero. -/
structure CString where
  chars : List UInt8
  nonzero : 0 ∉ chars
  behind : ℕ → UInt8

namespace CString

/-- The memory from the start of the string on. -/
def mem (s : CString) (i : ℕ) : UInt8 :=
  if i < s.chars.length then s.chars.getD i 0
  else if i = s.chars.length then 0
  else s.behind (i - s.chars.length - 1)

/-- The string and `strlen` of it. -/
def text (s : CString) : Text := ⟨s.mem, s.chars.length⟩

/-- `while(s[0] == c) ++s`. -/
def skip (s : CString) (c : UInt8) : CString where
  chars := s.chars.dropWhile (· == c)
  nonzero hzero := s.nonzero ((dropWhile_sublist _).mem hzero)
  behind := s.behind

/-- The string behind the first `c`. -/
def after (s : CString) (c : UInt8) : CString where
  chars := (s.chars.dropWhile (· != c)).tail
  nonzero hzero := s.nonzero ((dropWhile_sublist _).mem (mem_of_mem_tail hzero))
  behind := s.behind

/-- The part of the string before the first `c`, with the memory of the whole string. -/
def before (s : CString) (c : UInt8) : Text := ⟨s.mem, (s.chars.takeWhile (· != c)).length⟩

end CString

/-- Where the payload of a message under construction lies: in memory of its own, or in the buffer
that the message is serialized to, from an offset on. -/
inductive PayloadPtr where
  | own (mem : ℕ → UInt8)
  | inBuffer (offset : ℕ)

structure Payload where
  ptr : PayloadPtr
  len : ℕ

abbrev Message := CoapPacket Text Payload

def coapInitMessage (type : MessageType) (code : UInt8) (mid : UInt16) : Message :=
  { CoapPacket.zero ⟨fun _ ↦ 0, 0⟩ ⟨.own fun _ ↦ 0, 0⟩ with type := type, code := code, mid := mid }

namespace Message

def coapSetToken (p : Message) (token : List UInt8) : Message :=
  { p with token := ShortBytes.cut token }

def coapSetStatusCode (p : Message) (code : ℕ) : Message :=
  if code ≤ 0xFF then { p with code := UInt8.ofNat code } else p

def setHeaderInt (p : Message) (o : IntOption) (value : UInt32) : Message :=
  (p.setInt o value).setOption o.number

def coapSetHeaderContentFormat (p : Message) := p.setHeaderInt .contentFormat

def coapSetHeaderAccept (p : Message) := p.setHeaderInt .accept

def coapSetHeaderMaxAge (p : Message) := p.setHeaderInt .maxAge

def coapSetHeaderObserve (p : Message) := p.setHeaderInt .observe

def coapSetHeaderSize2 (p : Message) := p.setHeaderInt .size2

def coapSetHeaderSize1 (p : Message) := p.setHeaderInt .size1

/-- The field `uri_port`, which has no function that sets it. -/
def setUriPort (p : Message) := p.setHeaderInt .uriPort

def setHeaderByte (p : Message) (o : ByteOption) (bytes : List UInt8) : Message :=
  (p.setByte o bytes).setOption o.number

def coapSetHeaderEtag (p : Message) := p.setHeaderByte .etag

def coapSetHeaderIfMatch (p : Message) := p.setHeaderByte .ifMatch

def coapSetHeaderIfNoneMatch (p : Message) : Message := p.setOption CoapOption.ifNoneMatch.number

def setHeaderString (p : Message) (o : StringOption) (t : Text) : Message :=
  (p.setString o t).setOption o.number

def coapSetHeaderProxyUri (p : Message) (uri : CString) : Message :=
  p.setHeaderString .proxyUri uri.text

def coapSetHeaderProxyScheme (p : Message) (scheme : CString) : Message :=
  p.setHeaderString .proxyScheme scheme.text

def coapSetHeaderUriHost (p : Message) (host : CString) : Message :=
  p.setHeaderString .uriHost host.text

def coapSetHeaderUriPath (p : Message) (path : CString) : Message :=
  p.setHeaderString .uriPath (path.skip 0x2f).text

def coapSetHeaderUriQuery (p : Message) (query : CString) : Message :=
  p.setHeaderString .uriQuery (query.skip 0x3f).text

def coapSetHeaderLocationQuery (p : Message) (query : CString) : Message :=
  p.setHeaderString .locationQuery (query.skip 0x3f).text

/-- `coap_set_header_location_path`, which takes the query off the path. -/
def coapSetHeaderLocationPath (p : Message) (path : CString) : Message :=
  let path := path.skip 0x2f
  let p := if 0x3f ∈ path.chars then p.coapSetHeaderLocationQuery (path.after 0x3f) else p
  let location := if 0x3f ∈ path.chars then path.before 0x3f else path.text
  let p := p.setString .locationPath location
  if 0 < location.len then p.setOption StringOption.locationPath.number else p

/-- The checks of `coap_set_header_block1` and `coap_set_header_block2`. -/
def setHeaderBlock (p : Message) (o : BlockOption) (num : UInt32) (more : UInt8) (size : UInt16) :
    Message :=
  if size < 16 then p
  else if 2048 < size then p
  else if 0x0FFFFF < num then p
  else (p.setBlock o { p.block o with num := num, more := more, size := size }).setOption o.number

/-- `coap_set_header_block2`, which normalises the more flag. -/
def coapSetHeaderBlock2 (p : Message) (num : UInt32) (more : UInt8) (size : UInt16) : Message :=
  p.setHeaderBlock .block2 num (if more ≠ 0 then 1 else 0) size

/-- `coap_set_header_block1`, which does not. -/
def coapSetHeaderBlock1 (p : Message) (num : UInt32) (more : UInt8) (size : UInt16) : Message :=
  p.setHeaderBlock .block1 num more size

def coapSetPayload (conf : CoapConf) (p : Message) (payload : PayloadPtr) (length : ℕ) : Message :=
  { p with payload := ⟨payload, min conf.maxChunkSize length⟩ }

end Message

/-- The calls that build a message. -/
inductive Setter where
  | token (token : List UInt8)
  | statusCode (code : ℕ)
  | int (o : IntOption) (value : UInt32)
  | byte (o : ByteOption) (bytes : List UInt8)
  | ifNoneMatch
  | proxyUri (uri : CString)
  | proxyScheme (scheme : CString)
  | uriHost (host : CString)
  | uriPath (path : CString)
  | uriQuery (query : CString)
  | locationQuery (query : CString)
  | locationPath (path : CString)
  | block2 (num : UInt32) (more : UInt8) (size : UInt16)
  | block1 (num : UInt32) (more : UInt8) (size : UInt16)
  | payload (payload : PayloadPtr) (length : ℕ)

def setIntOption (p : Message) : IntOption → UInt32 → Message
  | .observe => p.coapSetHeaderObserve
  | .uriPort => p.setUriPort
  | .contentFormat => p.coapSetHeaderContentFormat
  | .maxAge => p.coapSetHeaderMaxAge
  | .accept => p.coapSetHeaderAccept
  | .size2 => p.coapSetHeaderSize2
  | .size1 => p.coapSetHeaderSize1

def setByteOption (p : Message) : ByteOption → List UInt8 → Message
  | .ifMatch => p.coapSetHeaderIfMatch
  | .etag => p.coapSetHeaderEtag

def applySetter (conf : CoapConf) (p : Message) : Setter → Message
  | .token token => p.coapSetToken token
  | .statusCode code => p.coapSetStatusCode code
  | .int o value => setIntOption p o value
  | .byte o bytes => setByteOption p o bytes
  | .ifNoneMatch => p.coapSetHeaderIfNoneMatch
  | .proxyUri uri => p.coapSetHeaderProxyUri uri
  | .proxyScheme scheme => p.coapSetHeaderProxyScheme scheme
  | .uriHost host => p.coapSetHeaderUriHost host
  | .uriPath path => p.coapSetHeaderUriPath path
  | .uriQuery query => p.coapSetHeaderUriQuery query
  | .locationQuery query => p.coapSetHeaderLocationQuery query
  | .locationPath path => p.coapSetHeaderLocationPath path
  | .block2 num more size => p.coapSetHeaderBlock2 num more size
  | .block1 num more size => p.coapSetHeaderBlock1 num more size
  | .payload payload length => p.coapSetPayload conf payload length

def build (conf : CoapConf) (p : Message) (setters : List Setter) : Message :=
  setters.foldl (applySetter conf) p

end ContikiMaster.Coap
