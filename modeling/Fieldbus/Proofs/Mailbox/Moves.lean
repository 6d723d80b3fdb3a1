import Fieldbus.Mailbox.Turn
import Mathlib.Logic.Relation

/-!
# The moves of a turn

A turn on slots that nobody else uses is a sequence of moves. A move changes the mailbox in one
go and leaves it at rest: no request is on its way between a queue and the slot. Each answer that
a device can give decides for one move or another, so what every move keeps, every turn keeps.

A move may take several calls, of which it says nothing: a `Deed` is a move with its calls. Callers
do nothing in the course of it. Where they do, a turn is told by the finer steps `Beat` and
`Stride`, which end at every call.
-/

namespace Fieldbus

def Buffer.holding (b : Buffer) (data : Bytes) : Buffer :=
  { b with bytes := b.bytes.overwrite 0 data }

namespace Mailbox

/-- The mailbox at rest `m` chooses the request in `b` to be written at `now`, which makes it
`m₁`. -/
def Picks (now : Nat) (m : Mailbox) (p : Protocol) (b : Buffer) (m₁ : Mailbox) : Prop :=
  ∃ sendQueues request,
    m.handshake.isReady = true ∧
    m.sendQueues.next? m.config.priority = some (p, b, sendQueues) ∧
    m.request? b.index = some request ∧
    now < request.deadline ∧
    m₁ = { ({ m with sendQueues }).setRequest b.index none with
      handshake := .sendPending
      inFlight := some ⟨b.index, request, false, 0⟩ }

def retried (m : Mailbox) (failures : Nat) : Mailbox :=
  m.tally fun s => { s with writeRetries := s.writeRetries + failures }

inductive Move (now : Nat) : Mailbox → Mailbox → Prop
  | expire (m : Mailbox) : Move now m (m.expire now)
  | schedule (m : Mailbox) (nextPoll : Option Nat) :
      Move now m { m with readScheduled := false, nextPoll }
  | look (m : Mailbox) (slotState : SlotState) : Move now m { m with slotState }
  /-- A receive buffer goes back, since nothing was read into it. -/
  | spare {m : Mailbox} {b : Buffer} {receivePool : Pool} (data : Bytes) :
      m.receivePool.take? = .ok (b, receivePool) →
      data.length ≤ m.slave.readSlot.length.toNat →
      Move now m ({ m with receivePool }.putReceive (b.holding data))
  | receive {m : Mailbox} {b : Buffer} {receivePool : Pool} (data : Bytes) :
      m.receivePool.take? = .ok (b, receivePool) →
      data.length ≤ m.slave.readSlot.length.toNat →
      Move now m ({ m with receivePool, slotState := .empty }.route
        ((b.holding data).withLength m.slave.readSlot.length.toNat))
  | orphan {m : Mailbox} {p : Protocol} {b : Buffer} {sendQueues : ProtocolQueues} :
      m.handshake.isReady = true →
      m.sendQueues.next? m.config.priority = some (p, b, sendQueues) →
      m.request? b.index = none →
      Move now m ({ m with sendQueues }.putSend b)
  | overdue {m : Mailbox} {p : Protocol} {b : Buffer} {sendQueues : ProtocolQueues}
      {request : PendingRequest} :
      m.handshake.isReady = true →
      m.sendQueues.next? m.config.priority = some (p, b, sendQueues) →
      m.request? b.index = some request →
      request.deadline ≤ now →
      Move now m (((({ m with sendQueues }.setRequest b.index none).resolve request.ticket
        (.error .timeout)).countTimeout).putSend b)
  /-- The slot is full or cannot be looked at, so the chosen request goes back. -/
  | withhold {m m₁ : Mailbox} {p : Protocol} {b : Buffer} :
      m.Picks now p b m₁ → Move now m (m₁.requeue p b)
  /-- No attempt to write the chosen request is acknowledged, so it goes back. -/
  | refuse {m m₁ : Mailbox} {p : Protocol} {b : Buffer} (failures : Nat) :
      m.Picks now p b m₁ →
      Move now m (((m₁.stamp b).2.retried failures).requeue p (m₁.stamp b).1)
  | accept {m m₁ : Mailbox} {p : Protocol} {b : Buffer} (failures : Nat)
      {workCounter : UInt16} :
      m.Picks now p b m₁ → workCounter ≠ 0 →
      Move now m (((m₁.stamp b).2.retried failures).acknowledge (m₁.stamp b).1 workCounter)

abbrev Moves (now : Nat) : Mailbox → Mailbox → Prop := Relation.ReflTransGen (Move now)

end Mailbox

end Fieldbus
