import ContikiMaster.Coap.Packet

/-!
# Serializing a CoAP message

`coap_serialize_message` of `coap.c`. The header is written without a gap, so what a
function writes is a list of bytes; beside it stands what it reads of the strings. The
strings are not in the buffer; the payload may be.
-/

namespace ContikiMaster.Coap

open Lib

/-- `coap_log_2`: the turns of its loop, which shift the value. -/
def coapLog2Turns : ℕ → ℕ → ℕ
  | 0, _ => 0
  | fuel + 1, value => if value >>> 1 = 0 then 1 else coapLog2Turns fuel (value >>> 1) + 1

/-- `coap_log_2` of a value of 16 bits. -/
def coapLog2 (value : UInt16) : ℕ := coapLog2Turns 16 value.toNat - 1

def coapOptionNibble (value : ℕ) : UInt8 :=
  if value < 13 then UInt8.ofNat value else if value ≤ 0xFF + 13 then 13 else 14

/-- The bytes of `coap_set_option_header` for a delta or a length. -/
def extension (value : ℕ) : List UInt8 :=
  if 268 < value then [UInt8.ofNat ((value - 269) >>> 8), UInt8.ofNat (value - 269)]
  else if 12 < value then [UInt8.ofNat (value - 13)]
  else []

def coapSetOptionHeader (delta length : ℕ) : List UInt8 :=
  (coapOptionNibble delta <<< 4 ||| coapOptionNibble length) :: (extension delta ++ extension length)

/-- What a function writes, and what it reads of a string: the offsets, each with the length that
the string is given. -/
structure Out where
  bytes : List UInt8
  reads : List (ℕ × ℕ)

instance : Append Out := ⟨fun a b ↦ ⟨a.bytes ++ b.bytes, a.reads ++ b.reads⟩⟩

/-- The value bytes of `coap_serialize_int_option`. -/
def intBytes (value : UInt32) : List UInt8 :=
  (if 0xFF000000 &&& value ≠ 0 then [(value >>> 24).toUInt8] else []) ++
  (if 0xFFFF0000 &&& value ≠ 0 then [(value >>> 16).toUInt8] else []) ++
  (if 0xFFFFFF00 &&& value ≠ 0 then [(value >>> 8).toUInt8] else []) ++
  (if 0xFFFFFFFF &&& value ≠ 0 then [value.toUInt8] else [])

def coapSerializeIntOption (number currentNumber : ℕ) (value : UInt32) : Out :=
  ⟨coapSetOptionHeader (number - currentNumber) (intBytes value).length ++ intBytes value, []⟩

/-- A part of a string that is copied behind an option header. -/
def copyPart (delta : ℕ) (array : Text) (start length : ℕ) : Out :=
  ⟨coapSetOptionHeader delta length ++ slice array.mem start length,
    (List.range' start length).map fun k ↦ (k, array.len)⟩

/-- The loop of `coap_serialize_array_option` over `j`, which visits at most `length + 2`
characters. -/
def splitLoop (number : ℕ) (array : Text) (splitChar : UInt8) : ℕ → ℕ → ℕ → ℕ → Out
  | 0, _, _, _ => ⟨[], []⟩
  | fuel + 1, currentNumber, partStart, j =>
    if j ≤ array.len + 1 then
      if array.mem j = splitChar ∨ j = array.len then
        ⟨[], [(j, array.len)]⟩ ++ copyPart (number - currentNumber) array partStart (j - partStart) ++
          splitLoop number array splitChar fuel number (j + 1) (j + 2)
      else ⟨[], [(j, array.len)]⟩ ++ splitLoop number array splitChar fuel currentNumber partStart (j + 1)
    else ⟨[], []⟩

def coapSerializeArrayOption (number currentNumber : ℕ) (array : Text) (splitChar : UInt8) : Out :=
  if splitChar ≠ 0 then splitLoop number array splitChar (array.len + 2) currentNumber 0 0
  else copyPart (number - currentNumber) array 0 array.len

/-- The memory of an array of up to eight bytes, which is not one of the strings. -/
def coapSerializeByteOption (number currentNumber : ℕ) (array : ShortBytes) : Out :=
  ⟨coapSetOptionHeader (number - currentNumber) array.1.length ++ array.1, []⟩

/-- The value that `COAP_SERIALIZE_BLOCK_OPTION` writes. -/
def encodeBlock (b : Block) : UInt32 :=
  let block := b.num <<< 4
  let block := if b.more ≠ 0 then block ||| 0x8 else block
  block ||| UInt32.ofNat (0xF &&& coapLog2 (b.size / 16))

/-- One of the `COAP_SERIALIZE_*_OPTION` macros, for an option that is set. -/
def serializeOption (p : Message) (currentNumber : ℕ) (o : CoapOption) : Out :=
  match o with
  | .int i => coapSerializeIntOption o.number currentNumber (p.int i)
  | .byte b => coapSerializeByteOption o.number currentNumber (p.byte b)
  | .string s => coapSerializeArrayOption o.number currentNumber (p.string s) s.splitter
  | .block b => coapSerializeIntOption o.number currentNumber (encodeBlock (p.block b))
  | .ifNoneMatch => coapSerializeIntOption o.number currentNumber 0

/-- The options from some option on, behind an option with the current number. -/
def serializeOptions (p : Message) : ℕ → List CoapOption → Out
  | _, [] => ⟨[], []⟩
  | currentNumber, o :: rest =>
    if p.IsOption o.number then
      serializeOption p currentNumber o ++ serializeOptions p o.number rest
    else serializeOptions p currentNumber rest

def fixedHeader (p : Message) : List UInt8 :=
  let version := (0xC0 : UInt8) &&& (1 : UInt8) <<< 6
  let type := (0x30 : UInt8) &&& p.type.toByte <<< 4
  let tokenLen := (0x0F : UInt8) &&& UInt8.ofNat p.token.1.length <<< 0
  [version ||| type ||| tokenLen, p.code, (p.mid >>> 8).toUInt8, p.mid.toUInt8]

/-- What is written up to the payload marker. -/
def serializedHeader (p : Message) : Out :=
  ⟨fixedHeader p ++ p.token.1, []⟩ ++ serializeOptions p 0 serializeOrder

/-- A byte of the payload, in the buffer as it is. -/
def Payload.read (payload : Payload) (buffer : ℕ → UInt8) (i : ℕ) : UInt8 :=
  match payload.ptr with
  | .own mem => mem i
  | .inBuffer offset => buffer (offset + i)

/-- The result of `coap_serialize_message`: what it returns, the buffer afterwards, how many of its
bytes were written, and what was read of the strings. -/
structure Serialized where
  length : ℕ
  buffer : ℕ → UInt8
  written : ℕ
  reads : List (ℕ × ℕ)

/-- `coap_serialize_message`. The size of the header is tested once the options are written. -/
def coapSerializeMessage (conf : CoapConf) (p : Message) (buffer : ℕ → UInt8) : Serialized :=
  if p.code = 0 then ⟨4, writeAt buffer 0 (fixedHeader p), 4, []⟩
  else
    let header := serializedHeader p
    if header.bytes.length ≤ conf.maxHeaderSize then
      let front := if p.payload.len ≠ 0 then header.bytes ++ [0xFF] else header.bytes
      let buffer := writeAt buffer 0 front
      -- memmove copies what the buffer holds once the marker is written
      let payload := slice (p.payload.read buffer) 0 p.payload.len
      ⟨front.length + p.payload.len, writeAt buffer front.length payload,
        front.length + p.payload.len, header.reads⟩
    else ⟨0, writeAt buffer 0 header.bytes, header.bytes.length, header.reads⟩

def Serialized.datagram (s : Serialized) : List UInt8 := slice s.buffer 0 s.length

end ContikiMaster.Coap
