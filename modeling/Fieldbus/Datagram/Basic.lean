import Fieldbus.Datagram.Header

/-!
# Datagrams

A datagram is read from the region of a frame that holds all its datagrams. The datagrams of a
region form a chain: each begins where the one before it ends, and the more flag says whether
another follows.
-/

namespace Fieldbus

structure Datagram where
  header : DatagramHeader
  payload : Bytes
  workCounter : UInt16
  /-- Where the datagram begins in its region. -/
  offset : Nat
  deriving DecidableEq, Repr

namespace Datagram

/-- A request as it leaves the master, with a work counter of zero. -/
def encode (command : Command) (index : UInt8) (address : Address) (payload : Bytes) : Bytes :=
  (DatagramHeader.request command index address (UInt16.ofNat payload.length)).encode ++
    payload ++ Bytes.encodeWord 0

/-- Writes a request to the start of a buffer and returns its length beside the buffer. -/
def encodeInto (buffer : Bytes) (command : Command) (index : UInt8) (address : Address)
    (payload : Bytes) : Except Error (Nat × Bytes) :=
  if payload.length > Layout.maxPayload then
    .error (.capacity payload.length Layout.maxPayload)
  else do
    let request := encode command index address payload
    return (request.length, ← Bytes.store buffer request)

def stop (d : Datagram) : Nat := d.offset + d.header.datagramLength

def address (d : Datagram) : Address := .ofLong d.header.command d.header.address

def parse? (region : Bytes) (offset : Nat) : Except Error Datagram :=
  if offset > region.length then .error (.malformed .datagramTruncated)
  else do
    let rest := region.drop offset
    let header ← DatagramHeader.decode? rest
    if rest.length < header.datagramLength then
      .error (.malformed .datagramTruncated)
    else
      let length := header.length.toNat
      match rest.drop (Layout.datagramHeader + length) with
      | c₀ :: c₁ :: _ => return {
          header
          payload := (rest.drop Layout.datagramHeader).take length
          workCounter := Bytes.decodeWord c₀ c₁
          offset }
      | _ => .error (.malformed .datagramTruncated)

end Datagram

/-- A place in the chain of datagrams of a region. -/
structure Chain where
  region : Bytes
  next : Option Nat
  deriving DecidableEq, Repr

namespace Chain

def start (region : Bytes) : Option Nat := if region.isEmpty then none else some 0

def ofRegion (region : Bytes) : Chain := ⟨region, start region⟩

def restart (c : Chain) : Chain := ofRegion c.region

def step? (c : Chain) : Option (Except Error Datagram × Chain) :=
  match c.next with
  | none => none
  | some offset =>
      match Datagram.parse? c.region offset with
      | .error e => some (.error e, { c with next := none })
      | .ok d => some (.ok d, { c with next := if d.header.more then some d.stop else none })

def take : Nat → Chain → List (Except Error Datagram)
  | 0, _ => []
  | fuel + 1, c =>
      match c.step? with
      | none => []
      | some (item, rest) => item :: take fuel rest

/-- Every item from the current place on. A datagram fills twelve bytes or more, so a chain has
fewer items than its region has bytes, except that the last item may be a failure. -/
def toList (c : Chain) : List (Except Error Datagram) := take (c.region.length + 1) c

def first? (region : Bytes) : Option (Except Error Datagram) :=
  if region.isEmpty then none else some (Datagram.parse? region 0)

def after? (region : Bytes) (d : Datagram) : Option (Except Error Datagram) :=
  if d.header.more then some (Datagram.parse? region d.stop) else none

/-- The datagrams from `item` on, each found from the one before it. -/
def follow (region : Bytes) : Nat → Option (Except Error Datagram) → List (Except Error Datagram)
  | 0, _ => []
  | _ + 1, none => []
  | _ + 1, some (.error e) => [.error e]
  | fuel + 1, some (.ok d) => .ok d :: follow region fuel (after? region d)

def links (region : Bytes) : List (Except Error Datagram) :=
  follow region (region.length + 1) (first? region)

end Chain

end Fieldbus
