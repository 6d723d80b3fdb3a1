import Fieldbus.Buffer.Pool
import Fieldbus.Config
import Fieldbus.Mailbox.Message
import Fieldbus.Mailbox.Queues
import Fieldbus.Mailbox.State

/-!
# The mailbox of a slave

All requests share the one slot that the slave reads. They wait in a queue for each protocol and are
written one at a time. A request is known by the index of its send buffer while it waits, and by a
ticket for ever; the outcome of a request is found under its ticket. What a turn of the mailbox
does is the subject of `Fieldbus.Mailbox.Turn`.
-/

namespace Fieldbus

inductive Reply where
  /-- The write was acknowledged and no reply was wanted. -/
  | written (workCounter : UInt16)
  /-- The slave answered the message that was written with this work counter. -/
  | response (workCounter : UInt16) (message : Message)
  deriving DecidableEq, Repr

namespace Reply

def workCounter : Reply → UInt16
  | .written counter => counter
  | .response counter _ => counter

def message? : Reply → Option Message
  | .written _ => none
  | .response _ message => some message

def toMessage : Reply → Except Error Message
  | .written _ => .error .empty
  | .response _ message => .ok message

end Reply

structure PendingRequest where
  ticket : Nat
  expectsResponse : Bool
  deadline : Nat
  deriving DecidableEq, Repr

/-- The request whose message is being written or has been. -/
structure InFlight where
  index : Nat
  request : PendingRequest
  abandoned : Bool
  /-- The work counter of the acknowledged write. -/
  workCounter : UInt16
  deriving DecidableEq, Repr

/-- What a caller holds while a request is open. -/
structure Handle where
  index : Nat
  ticket : Nat
  deadline : Nat
  deriving DecidableEq, Repr

inductive Fate where
  /-- Waits to be read by a caller. -/
  | queued
  | answered (ticket : Nat)
  | stale
  | unsupported
  deriving DecidableEq, Repr

inductive MailboxEvent where
  /-- A request was queued in the buffer of an index. -/
  | enqueued (index : Nat) (request : PendingRequest)
  /-- A wait for the request of `waiter` ran out and withdrew the request of `ticket`. -/
  | withdrawn (ticket waiter : Nat)
  /-- A request that was not written went back to its queue. -/
  | requeued (ticket : Nat)
  | resolved (ticket : Nat) (outcome : Except Error Reply)
  | stamped (ticket : Option Nat) (counter : UInt8)
  /-- The slave acknowledged the message of a request. -/
  | acknowledged (ticket : Option Nat) (counter : UInt8) (workCounter : UInt16)
  | fired (firing : Firing)
  | routed (message : Message) (fate : Fate)
  | garbled (bytes : Bytes)
  deriving Repr

structure Mailbox where
  slave : SlaveConfig
  config : Config
  sendPool : Pool
  receivePool : Pool
  handshake : Handshake
  slotState : SlotState
  counter : SequenceCounter
  /-- The reply to the counter stamped last has arrived or is no longer wanted. -/
  consumed : Bool
  sendQueues : ProtocolQueues
  receiveQueues : ProtocolQueues
  /-- The request that each send buffer carries. -/
  requests : Array (Option PendingRequest)
  inFlight : Option InFlight
  readScheduled : Bool
  nextPoll : Option Nat
  closed : Bool
  statistics : MailboxStatistics
  nextTicket : Nat
  journal : List MailboxEvent

namespace Mailbox

/-- Every buffer holds a message of either slot, and a header in any case. -/
def bufferSize (slave : SlaveConfig) : Nat :=
  max (max slave.writeSlot.length.toNat slave.readSlot.length.toNat) Layout.mailboxHeader

def create (slave : SlaveConfig) (config : Config) (sendId receiveId : Nat) : Mailbox where
  slave
  config
  sendPool := .openWith sendId config.mailboxPoolSize (bufferSize slave)
  receivePool := .openWith receiveId config.mailboxPoolSize (bufferSize slave)
  handshake := .idle
  slotState := .empty
  counter := {}
  consumed := true
  sendQueues := .empty config.mailboxPoolSize
  receiveQueues := .empty config.mailboxPoolSize
  requests := Array.replicate config.mailboxPoolSize none
  inFlight := none
  readScheduled := false
  nextPoll := none
  closed := false
  statistics := {}
  nextTicket := 0
  journal := []

/-! ## Records -/

def request? (m : Mailbox) (index : Nat) : Option PendingRequest := m.requests[index]?.join

def setRequest (m : Mailbox) (index : Nat) (request : Option PendingRequest) : Mailbox :=
  { m with requests := m.requests.setIfInBounds index request }

theorem request?_setRequest_self {m : Mailbox} {index : Nat} (request : Option PendingRequest)
    (h : index < m.requests.size) : (m.setRequest index request).request? index = request := by
  simp [request?, setRequest, h]

theorem request?_setRequest_ne {m : Mailbox} {index other : Nat}
    (request : Option PendingRequest) (h : other ≠ index) :
    (m.setRequest index request).request? other = m.request? other := by
  unfold request? setRequest
  rw [Array.getElem?_setIfInBounds_ne (Ne.symm h)]

def record (m : Mailbox) (event : MailboxEvent) : Mailbox :=
  { m with journal := m.journal ++ [event] }

def tally (m : Mailbox) (change : MailboxStatistics → MailboxStatistics) : Mailbox :=
  { m with statistics := change m.statistics }

def countTimeout (m : Mailbox) : Mailbox :=
  m.tally fun s => { s with timeouts := s.timeouts + 1 }

def putSend (m : Mailbox) (b : Buffer) : Mailbox := { m with sendPool := m.sendPool.put b }

def putReceive (m : Mailbox) (b : Buffer) : Mailbox := { m with receivePool := m.receivePool.put b }

def outcomeOf? (ticket : Nat) : MailboxEvent → Option (Except Error Reply)
  | .resolved t outcome => if t = ticket then some outcome else none
  | _ => none

def outcome? (m : Mailbox) (ticket : Nat) : Option (Except Error Reply) :=
  m.journal.findSome? (outcomeOf? ticket)

/-- Gives a request its outcome. The first outcome of a request stands. -/
def resolve (m : Mailbox) (ticket : Nat) (outcome : Except Error Reply) : Mailbox :=
  if (m.outcome? ticket).isSome then m else m.record (.resolved ticket outcome)

def firings (m : Mailbox) : List Firing :=
  m.journal.filterMap fun
    | .fired firing => some firing
    | _ => none

/-! ## Requests -/

def checkSupported (m : Mailbox) (p : Protocol) : Except Error Unit :=
  if m.slave.supported.supports p then .ok () else .error (.unsupported p.toByte)

def takeSendBuffer? (m : Mailbox) : Except Error (Buffer × Mailbox) :=
  if m.closed then .error .closed
  else match m.sendPool.take? with
    | .error _ => .error (.exhausted .mailboxBuffers)
    | .ok (b, sendPool) => .ok (b, { m with sendPool })

/-- Fills a buffer with a message that fits the slot of the slave. Nothing of what the buffer held
before remains. -/
def prepare (m : Mailbox) (b : Buffer) (p : Protocol) (address : UInt16) (payload : Bytes) :
    Except Error Buffer :=
  let required := Layout.mailboxHeader + payload.length
  if required > m.slave.writeSlot.length.toNat then
    .error (.capacity required m.slave.writeSlot.length.toNat)
  else do
    let (length, bytes) ←
      Message.encodeInto (Bytes.zeros b.capacity) (.plain p address 0) payload
    return { b with bytes }.withLength length

/-- Queues a prepared buffer at the end of a queue that `push` names. A buffer that is refused goes
back to the pool, unless it belongs elsewhere. -/
def enqueueWith (m : Mailbox)
    (push : ProtocolQueues → Protocol → Buffer → Option ProtocolQueues)
    (b : Buffer) (expectsResponse : Bool) (deadline : Nat) : Except Error Handle × Mailbox :=
  if m.sendPool.owns b then
    match MessageHeader.decode? b.bytes with
    | .error cause => (.error cause, m.putSend b)
    | .ok header =>
        match m.checkSupported header.protocol with
        | .error cause => (.error cause, m.putSend b)
        | .ok () =>
            if m.closed then (.error .closed, m.putSend b)
            else match push m.sendQueues header.protocol b with
              | none => (.error .foreign, m.putSend b)
              | some sendQueues =>
                  let request : PendingRequest := ⟨m.nextTicket, expectsResponse, deadline⟩
                  let m := { m with sendQueues, nextTicket := m.nextTicket + 1 }
                  (.ok ⟨b.index, request.ticket, deadline⟩,
                    (m.setRequest b.index (some request)).record (.enqueued b.index request))
  else
    (.error .foreign, m)

def enqueueBack (m : Mailbox) (b : Buffer) (expectsResponse : Bool) (deadline : Nat) :
    Except Error Handle × Mailbox :=
  m.enqueueWith ProtocolQueues.pushBack? b expectsResponse deadline

def enqueueFront (m : Mailbox) (b : Buffer) (expectsResponse : Bool) (deadline : Nat) :
    Except Error Handle × Mailbox :=
  m.enqueueWith ProtocolQueues.pushFront? b expectsResponse deadline

def submit (m : Mailbox) (p : Protocol) (address : UInt16) (payload : Bytes)
    (expectsResponse : Bool) (deadline : Nat) : Except Error Handle × Mailbox :=
  match m.checkSupported p with
  | .error cause => (.error cause, m)
  | .ok () =>
      match m.takeSendBuffer? with
      | .error cause => (.error cause, m)
      | .ok (b, m) =>
          match m.prepare b p address payload with
          | .error cause => (.error cause, m.putSend b)
          | .ok b => m.enqueueBack b expectsResponse deadline

/-- Counts a wait that ran out, and notes the request that it withdraws. -/
def giveUp (m : Mailbox) (h : Handle) (request : Option PendingRequest) : Mailbox :=
  match request with
  | none => m.countTimeout
  | some request => (m.record (.withdrawn request.ticket h.ticket)).countTimeout

/-- Gives up a request that has no outcome. One that still waits is withdrawn. One that is being
written is marked, so that nobody waits for its reply; if only the reply is outstanding, the
handshake ends. -/
def abandon (m : Mailbox) (h : Handle) : Mailbox :=
  match m.sendQueues.remove? h.index with
  | some (_, b, sendQueues) =>
      (({ m with sendQueues }.giveUp h (m.request? h.index)).setRequest h.index none).putSend b
  | none =>
      match m.inFlight with
      | none => m
      | some flight =>
          if flight.index = h.index then
            let m := { m with inFlight := some { flight with abandoned := true } }.giveUp h
              (some flight.request)
            if m.handshake = .awaitResponse then
              { m with inFlight := none, consumed := true, handshake := .timeout }
            else m
          else m

/-- Ends the wait for a request at its deadline: the outcome if there is one, else the request is
given up. -/
def settle (m : Mailbox) (h : Handle) : Except Error Reply × Mailbox :=
  match m.outcome? h.ticket with
  | some outcome => (outcome, m)
  | none => (.error .timeout, m.abandon h)

def attempt (m : Mailbox) (p : Protocol) (address : UInt16) (payload : Bytes)
    (expectsResponse : Bool) : Except Error Reply × Mailbox :=
  match m.submit p address payload expectsResponse 0 with
  | (.error cause, m) => (.error cause, m)
  | (.ok h, m) => m.settle h

def write (m : Mailbox) (p : Protocol) (address : UInt16) (payload : Bytes) :
    Except Error UInt16 × Mailbox :=
  let (result, m) := m.attempt p address payload false
  (result.map Reply.workCounter, m)

def transceive (m : Mailbox) (p : Protocol) (address : UInt16) (payload : Bytes) :
    Except Error Message × Mailbox :=
  let (result, m) := m.attempt p address payload true
  (result.bind Reply.toMessage, m)

/-! ## Received messages -/

def takeReceived? (m : Mailbox) (p : Protocol) : Option (Except Error Message × Mailbox) :=
  (m.receiveQueues.pop? p).map fun (b, receiveQueues) =>
    (Message.decode? b.contents, { m with receiveQueues }.putReceive b)

def tryRead (m : Mailbox) (p : Protocol) : Except Error Message × Mailbox :=
  (m.takeReceived? p).getD (.error .empty, m)

def scheduleRead (m : Mailbox) : Mailbox := { m with readScheduled := true }

/-- Takes the oldest received message of a protocol, or asks for a look at the read slot. -/
def requestRead (m : Mailbox) (p : Protocol) : Except Error (Option Message) × Mailbox :=
  if m.closed then (.error .closed, m)
  else match m.takeReceived? p with
    | some (result, m) => (result.map some, m)
    | none => (.ok none, m.scheduleRead)

def read (m : Mailbox) (p : Protocol) : Except Error Message × Mailbox :=
  match m.requestRead p with
  | (.error cause, m) => (.error cause, m)
  | (.ok (some message), m) => (.ok message, m)
  | (.ok none, m) => (.error .timeout, m.countTimeout)

/-! ## Closing -/

def closeRequest (m : Mailbox) (b : Buffer) : Mailbox :=
  match m.request? b.index with
  | none => m
  | some request => (m.setRequest b.index none).resolve request.ticket (.error .closed)

/-- Closes the mailbox: every open request ends, every queued buffer goes back, and the pools are
closed. Returns the number of buffers that are held elsewhere. -/
def close (m : Mailbox) : Nat × Mailbox :=
  if m.closed then (0, m)
  else
    let (queued, sendQueues) := m.sendQueues.drain
    let (received, receiveQueues) := m.receiveQueues.drain
    let m := { m with closed := true, sendQueues, receiveQueues }
    let m := queued.foldl (fun m entry => m.closeRequest entry.2) m
    let m := match m.inFlight with
      | none => m
      | some flight =>
          { m with inFlight := none }.resolve flight.request.ticket (.error .closed)
    let m := { m with handshake := .idle }
    let m := queued.foldl (fun m entry => m.putSend entry.2) m
    let m := received.foldl (fun m entry => m.putReceive entry.2) m
    let (sending, sendPool) := m.sendPool.close
    let (receiving, receivePool) := m.receivePool.close
    (sending + receiving, { m with sendPool, receivePool })

end Mailbox

end Fieldbus
