import Fieldbus.Mailbox.Basic

/-!
# One turn of a mailbox

A turn ends the wait for a reply that is overdue, then empties the read slot if a look at it is due,
then writes the next request if the channel is free. The slots are reached through a transport,
whose every call is a round trip on the bus; other callers may use the mailbox meanwhile, so a call
of the transport gets the mailbox and returns it.
-/

namespace Fieldbus

structure Transport (σ : Type) where
  slotState : SyncManager → Mailbox → σ → Except Error SlotState × Mailbox × σ
  /-- Writes a message and returns the work counter, zero if the slave did not take it. -/
  write : Bytes → Mailbox → σ → Except Error UInt16 × Mailbox × σ
  /-- Reads over the given bytes. The work counter is zero if there was nothing to read. -/
  read : Bytes → Mailbox → σ → (Except Error UInt16 × Bytes) × Mailbox × σ

/-- The slots of a slave that nobody else uses during a turn. -/
structure SlotDevice (σ : Type) where
  slotState : SlaveConfig → SyncManager → σ → Except Error SlotState × σ
  write : SlaveConfig → Bytes → σ → Except Error UInt16 × σ
  read : SlaveConfig → Bytes → σ → (Except Error UInt16 × Bytes) × σ

def SlotDevice.transport {σ : Type} (d : SlotDevice σ) : Transport σ where
  slotState sm m s :=
    let (state, s) := d.slotState m.slave sm s
    (state, m, s)
  write data m s :=
    let (counter, s) := d.write m.slave data s
    (counter, m, s)
  read bytes m s :=
    let (outcome, s) := d.read m.slave bytes s
    (outcome, m, s)

def SlotDevice.beside {σ : Type} (d : SlotDevice σ) (τ : Type) : SlotDevice (τ × σ) where
  slotState slave sm s :=
    let (state, rest) := d.slotState slave sm s.2
    (state, s.1, rest)
  write slave data s :=
    let (counter, rest) := d.write slave data s.2
    (counter, s.1, rest)
  read slave bytes s :=
    let (outcome, rest) := d.read slave bytes s.2
    (outcome, s.1, rest)

namespace Mailbox

/-! ## Overdue replies -/

def expire (m : Mailbox) (now : Nat) : Mailbox :=
  match m.inFlight with
  | none => m
  | some flight =>
      if m.handshake = .awaitResponse ∧ flight.request.deadline ≤ now then
        let m := { m with inFlight := none }.resolve flight.request.ticket (.error .timeout)
        { m with consumed := true, handshake := .timeout }.countTimeout
      else m

/-! ## Reading -/

def pushReceived (m : Mailbox) (p : Protocol) (b : Buffer) : Mailbox :=
  match m.receiveQueues.pushBack? p b with
  | none => m.putReceive b
  | some receiveQueues => { m with receiveQueues }

/-- Delivers a message of an announced protocol. Outside any sequence it is kept for callers. With
the counter stamped last, and only once, it is the reply to the request in flight, or is kept if
that request wanted none. All else is stale. -/
def deliver (m : Mailbox) (message : Message) (b : Buffer) : Mailbox :=
  let m := m.tally fun s => { s with messagesReceived := s.messagesReceived + 1 }
  let header := message.header
  if header.counter = SequenceCounter.unsequenced then
    (m.record (.routed message .queued)).pushReceived header.protocol b
  else if m.consumed || !m.counter.matchesLast header.counter then
    ((m.record (.routed message .stale)).tally
      fun s => { s with staleDropped := s.staleDropped + 1 }).putReceive b
  else
    let m := { m with consumed := true }
    match (if m.handshake = .awaitResponse then m.inFlight else none) with
    | some flight =>
        let ticket := flight.request.ticket
        let m := (m.record (.routed message (.answered ticket)))
        let m := { m with inFlight := none, handshake := .complete }
        (m.resolve ticket (.ok (.response flight.workCounter message))).putReceive b
    | none => (m.record (.routed message .queued)).pushReceived header.protocol b

def route (m : Mailbox) (b : Buffer) : Mailbox :=
  match Message.decode? b.contents with
  | .error _ =>
      ((m.record (.garbled b.contents)).tally
        fun s => { s with invalidDropped := s.invalidDropped + 1 }).putReceive b
  | .ok message =>
      if m.slave.supported.supports message.header.protocol then m.deliver message b
      else
        ((m.record (.routed message .unsupported)).tally
          fun s => { s with invalidDropped := s.invalidDropped + 1 }).putReceive b

variable {σ : Type}

/-- Reads one message if the read slot is full and a buffer is free. The answer says whether a
message was taken. Of what the transport reads, no more counts than was asked for. -/
def readOne (t : Transport σ) (m : Mailbox) (s : σ) : Except Error Bool × Mailbox × σ :=
  match t.slotState m.slave.readSlot m s with
  | (.error cause, m, s) => (.error cause, m, s)
  | (.ok state, m, s) =>
      let m := { m with slotState := state }
      match state with
      | .empty => (.ok false, m, s)
      | .full =>
        match m.receivePool.take? with
        | .error _ => (.ok false, m, s)
        | .ok (b, receivePool) =>
          let m := { m with receivePool }
          let length := m.slave.readSlot.length.toNat
          match t.read (b.bytes.take length) m s with
          | ((result, bytes), m, s) =>
            let b := { b with bytes := b.bytes.overwrite 0 (bytes.take length) }
            match result with
            | .error cause => (.error cause, m.putReceive b, s)
            | .ok counter =>
                if counter = 0 then (.ok false, m.putReceive b, s)
                else
                  (.ok true, { m with slotState := .empty }.route (b.withLength length), s)

def readMany (t : Transport σ) : Nat → Mailbox → σ → Except Error Unit × Mailbox × σ
  | 0, m, s => (.ok (), m, s)
  | fuel + 1, m, s =>
      match readOne t m s with
      | (.error cause, m, s) => (.error cause, m, s)
      | (.ok false, m, s) => (.ok (), m, s)
      | (.ok true, m, s) => readMany t fuel m s

def readIsDue (m : Mailbox) (now : Nat) : Bool :=
  m.readScheduled || m.handshake == .awaitResponse ||
    match m.nextPoll with
    | none => true
    | some next => next ≤ now

/-- Empties the read slot if that is due, as far as there are receive buffers. -/
def poll (t : Transport σ) (now : Nat) (m : Mailbox) (s : σ) :
    Except Error Unit × Mailbox × σ :=
  if m.readIsDue now then
    let m := { m with readScheduled := false, nextPoll := some (now + m.config.pollInterval) }
    readMany t m.receivePool.capacity m s
  else
    (.ok (), m, s)

/-! ## Writing -/

/-- Takes the next request by priority, looking at no more than `fuel`. Those that are overdue end
without being written. -/
def takeNextWithin (now : Nat) : Nat → Mailbox → Option (Protocol × Buffer) × Mailbox
  | 0, m => (none, m)
  | fuel + 1, m =>
      match m.sendQueues.next? m.config.priority with
      | none => (none, m)
      | some (p, b, sendQueues) =>
          let m := { m with sendQueues }
          match m.request? b.index with
          | none => takeNextWithin now fuel (m.putSend b)
          | some request =>
              let m := m.setRequest b.index none
              if request.deadline ≤ now then
                takeNextWithin now fuel
                  ((m.resolve request.ticket (.error .timeout)).countTimeout.putSend b)
              else
                (some (p, b), { m with
                  handshake := .sendPending
                  inFlight := some ⟨b.index, request, false, 0⟩ })

/-- Takes the next request, if the channel is free, and marks the channel as busy. -/
def takeNext (m : Mailbox) (now : Nat) : Option (Protocol × Buffer) × Mailbox :=
  if m.handshake.isReady then takeNextWithin now (m.sendQueues.totalLength + 1) m else (none, m)

/-- Puts a request that was not written back at the head of its queue, unless its caller has
given up. -/
def requeue (m : Mailbox) (p : Protocol) (b : Buffer) : Mailbox :=
  let flight := m.inFlight
  let m := { m with handshake := .idle, consumed := true, inFlight := none }
  match flight with
  | none => m.putSend b
  | some flight =>
      if flight.abandoned then m.putSend b
      else match m.sendQueues.pushFront? p b with
        | none => (m.resolve flight.request.ticket (.error .foreign)).putSend b
        | some sendQueues =>
            (({ m with sendQueues }.setRequest b.index (some flight.request)).record
              (.requeued flight.request.ticket)).tally
              fun s => { s with requeued := s.requeued + 1 }

def flightTicket (m : Mailbox) : Option Nat := m.inFlight.map (·.request.ticket)

def stamp (m : Mailbox) (b : Buffer) : Buffer × Mailbox :=
  let counter := m.counter.next
  let m := { m with
    counter
    consumed := false
    handshake := if m.handshake = Handshake.sendPending then .awaitEcho else m.handshake }
  ({ b with bytes := MessageHeader.stamp counter.last b.bytes },
    m.record (.stamped m.flightTicket counter.last))

structure Attempts where
  /-- The attempts that the slave did not acknowledge. -/
  failures : Nat
  /-- No work counter if every attempt failed. -/
  result : Except Error (Option UInt16)

/-- Writes a message until the slave acknowledges it, at most `attempts` times. -/
def writeRepeatedly (t : Transport σ) (data : Bytes) :
    Nat → Nat → Mailbox → σ → Attempts × Mailbox × σ
  | 0, failures, m, s => (⟨failures, .ok none⟩, m, s)
  | attempts + 1, failures, m, s =>
      match t.write data m s with
      | (.error cause, m, s) => (⟨failures, .error cause⟩, m, s)
      | (.ok counter, m, s) =>
          if counter = 0 then writeRepeatedly t data attempts (failures + 1) m s
          else (⟨failures, .ok (some counter)⟩, m, s)

/-- The slave has taken the message: the request is complete, or begins to wait for the reply. -/
def acknowledge (m : Mailbox) (b : Buffer) (counter : UInt16) : Mailbox :=
  let (firings, b) := b.fire
  let m := m.record (.acknowledged m.flightTicket m.counter.last counter)
  let m := { m with journal := m.journal ++ firings.map MailboxEvent.fired }
  let m := m.tally fun s => { s with messagesSent := s.messagesSent + 1 }
  let m := match m.inFlight with
    | none => { m with consumed := true }
    | some flight =>
        if flight.abandoned then
          { m with inFlight := none, consumed := true, handshake := .timeout }
        else if flight.request.expectsResponse then
          { m with
            inFlight := some { flight with workCounter := counter }
            handshake := .awaitResponse
            readScheduled := true }
        else
          { m with inFlight := none, handshake := .complete }.resolve flight.request.ticket
            (.ok (.written counter))
  m.putSend b

def writeMessage (t : Transport σ) (p : Protocol) (b : Buffer) (m : Mailbox) (s : σ) :
    Except Error Unit × Mailbox × σ :=
  let (b, m) := m.stamp b
  let attempts := max m.config.writeAttempts.toNat 1
  match writeRepeatedly t (b.bytes.take m.slave.writeSlot.length.toNat) attempts 0 m s with
  | (written, m, s) =>
      let m := m.tally fun s => { s with writeRetries := s.writeRetries + written.failures }
      match written.result with
      | .error cause => (.error cause, m.requeue p b, s)
      | .ok none => (.ok (), m.requeue p b, s)
      | .ok (some counter) => (.ok (), m.acknowledge b counter, s)

/-- Writes the next request if the channel and the slot are free. -/
def sendNext (t : Transport σ) (now : Nat) (m : Mailbox) (s : σ) :
    Except Error Unit × Mailbox × σ :=
  match m.takeNext now with
  | (none, m) => (.ok (), m, s)
  | (some (p, b), m) =>
      match t.slotState m.slave.writeSlot m s with
      | (.error cause, m, s) => (.error cause, m.requeue p b, s)
      | (.ok .full, m, s) => (.ok (), m.requeue p b, s)
      | (.ok .empty, m, s) => writeMessage t p b m s

def turn (t : Transport σ) (now : Nat) (m : Mailbox) (s : σ) :
    Except Error Unit × Mailbox × σ :=
  if m.closed then (.error .closed, m, s)
  else match poll t now (m.expire now) s with
    | (.error cause, m, s) => (.error cause, m, s)
    | (.ok (), m, s) => sendNext t now m s

end Mailbox

end Fieldbus
