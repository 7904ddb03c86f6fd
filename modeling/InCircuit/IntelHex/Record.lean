import InCircuit.Text.Digits

/-!
# Intel HEX records

A record is written as a colon and pairs of hexadecimal digits: the length of the data, a 16-bit
offset, the type, the data, and a checksum that makes the sum of all the bytes 0. `decode?`
accepts digits of either case, `encode` writes upper case.
-/
namespace InCircuit.IntelHex

inductive Record where
  | data (offset : UInt16) (bytes : List UInt8)
  | endOfFile
  /-- The records that follow are placed from 16 times this on. -/
  | segment (base : UInt16)
  | startSegment (segment pointer : UInt16)
  /-- The upper half of the addresses of the records that follow. -/
  | linear (upper : UInt16)
  | startLinear (high low : UInt16)
deriving DecidableEq

def splitWord (w : UInt16) : List UInt8 := [(w.toNat / 256).toUInt8, w.toNat.toUInt8]

def joinWord (high low : UInt8) : UInt16 := UInt16.ofNat (high.toNat * 256 + low.toNat)

def total (bytes : List UInt8) : UInt8 := bytes.foldl (· + ·) 0

namespace Record

def kind : Record → UInt8
  | data .. => 0
  | endOfFile => 1
  | segment _ => 2
  | startSegment .. => 3
  | linear _ => 4
  | startLinear .. => 5

def payload : Record → List UInt8
  | data _ bytes => bytes
  | endOfFile => []
  | segment base => splitWord base
  | startSegment s p => splitWord s ++ splitWord p
  | linear upper => splitWord upper
  | startLinear h l => splitWord h ++ splitWord l

/-- Only data has an offset; elsewhere the field is 0. -/
def offset : Record → UInt16
  | data offset _ => offset
  | _ => 0

def body (r : Record) : List UInt8 :=
  UInt8.ofNat r.payload.length :: splitWord r.offset ++ r.kind :: r.payload

def bytes (r : Record) : List UInt8 := r.body ++ [0 - total r.body]

/-- The record of a type with an offset and data, if the data have the length that the type
wants. The offset counts for data alone. -/
def ofFields? (kind : UInt8) (offset : UInt16) (payload : List UInt8) : Option Record :=
  match kind.toNat, payload with
  | 0, bytes => some (data offset bytes)
  | 1, [] => some endOfFile
  | 2, [h, l] => some (segment (joinWord h l))
  | 3, [a, b, c, d] => some (startSegment (joinWord a b) (joinWord c d))
  | 4, [h, l] => some (linear (joinWord h l))
  | 5, [a, b, c, d] => some (startLinear (joinWord a b) (joinWord c d))
  | _, _ => none

def ofBytes? (bytes : List UInt8) : Option Record :=
  match bytes with
  | length :: high :: low :: kind :: rest =>
    let payload := rest.dropLast
    if total bytes = 0 ∧ rest ≠ [] ∧ payload.length = length.toNat then
      ofFields? kind (joinWord high low) payload
    else none
  | _ => none

end Record

def byteDigits (b : UInt8) : List Char := (Text.hex 2 b.toNat).toList

def ofByteDigits? : List Char → Option (List UInt8)
  | [] => some []
  | [_] => none
  | a :: b :: rest => do
    let high ← Text.hexValue? a
    let low ← Text.hexValue? b
    let bytes ← ofByteDigits? rest
    return UInt8.ofNat (16 * high + low) :: bytes

namespace Record

def encode (r : Record) : List Char := ':' :: r.bytes.flatMap byteDigits

/-- The record that a line holds, which fills the line exactly. The five bytes around the data
and at most 256 bytes of data bound its length. -/
def decode? : List Char → Option Record
  | ':' :: digits =>
    if 10 ≤ digits.length ∧ digits.length ≤ 522 then (ofByteDigits? digits).bind ofBytes? else none
  | _ => none

end Record

end InCircuit.IntelHex
