import Fieldbus.Mailbox.Turn

/-!
# The calls of a turn

Every call of a transport can be written down beside what the transport works on, with the mailbox
as it was at the call. Writing down changes nothing about a turn.
-/

namespace Fieldbus

inductive SlotAccess where
  | look (slot : SyncManager) (result : Except Error SlotState)
  | write (data : Bytes) (result : Except Error UInt16)
  | read (before : Bytes) (result : Except Error UInt16) (after : Bytes)

/-- An access, with the mailbox as it was then. -/
structure Call where
  mailbox : Mailbox
  access : SlotAccess

inductive Exchange where
  /-- The slave took the message of a request. -/
  | took (ticket : Option Nat) (counter : UInt8) (workCounter : UInt16)
  | gave (message : Message)
  | noise (bytes : Bytes)
  deriving DecidableEq, Repr

def Exchange.taker? : Exchange → Option Nat
  | .took ticket _ _ => ticket
  | _ => none

def Exchange.ofRead (bytes : Bytes) : Exchange :=
  match Message.decode? bytes with
  | .ok message => .gave message
  | .error _ => .noise bytes

namespace Call

def isWrite (c : Call) : Bool :=
  match c.access with
  | .write .. => true
  | _ => false

/-- An access without a work counter exchanges nothing. -/
def exchange? (c : Call) : Option Exchange :=
  match c.access with
  | .write _ (.ok workCounter) =>
      if workCounter = 0 then none
      else some (.took c.mailbox.flightTicket c.mailbox.counter.last workCounter)
  | .read before (.ok workCounter) after =>
      if workCounter = 0 then none
      else some (.ofRead
        (before.overwrite 0 (after.take c.mailbox.slave.readSlot.length.toNat)))
  | _ => none

def taker? (c : Call) : Option Nat := c.exchange?.bind Exchange.taker?

def acknowledged (c : Call) : Bool :=
  match c.access with
  | .write _ (.ok workCounter) => workCounter != 0
  | _ => false

theorem taker?_of_read {c : Call} (read : c.isWrite = false) : c.taker? = none := by
  obtain ⟨mailbox, access⟩ := c
  cases access with
  | look => rfl
  | write => cases read
  | read before result after =>
      unfold taker? exchange?
      rcases result with cause | workCounter
      · rfl
      · dsimp only
        split
        · rfl
        · unfold Exchange.ofRead
          split <;> rfl

theorem taker?_of_acknowledged {c : Call} (acknowledged : c.acknowledged = true) :
    c.isWrite = true ∧ c.taker? = c.mailbox.flightTicket := by
  obtain ⟨mailbox, access⟩ := c
  cases access with
  | look => cases acknowledged
  | write data result =>
      rcases result with cause | workCounter
      · cases acknowledged
      · have counted : workCounter ≠ 0 := bne_iff_ne.mp acknowledged
        refine ⟨rfl, ?_⟩
        unfold taker? exchange?
        dsimp only
        rw [if_neg counted]
        rfl
  | read => cases acknowledged

end Call

def MailboxEvent.exchange? : MailboxEvent → Option Exchange
  | .acknowledged ticket counter workCounter => some (.took ticket counter workCounter)
  | .routed message _ => some (.gave message)
  | .garbled bytes => some (.noise bytes)
  | _ => none

def MailboxEvent.taker? (event : MailboxEvent) : Option Nat :=
  event.exchange?.bind Exchange.taker?

def Mailbox.exchanges (m : Mailbox) : List Exchange := m.journal.filterMap MailboxEvent.exchange?

theorem Mailbox.exchanges_append {m m' : Mailbox} {events : List MailboxEvent}
    (journal : m'.journal = m.journal ++ events) :
    m'.exchanges = m.exchanges ++ events.filterMap MailboxEvent.exchange? := by
  rw [exchanges, journal, List.filterMap_append, exchanges]

def Transport.noting {σ : Type} (t : Transport σ) : Transport (List Call × σ) where
  slotState slot m s :=
    let (result, m', s') := t.slotState slot m s.2
    (result, m', s.1 ++ [⟨m, .look slot result⟩], s')
  write data m s :=
    let (result, m', s') := t.write data m s.2
    (result, m', s.1 ++ [⟨m, .write data result⟩], s')
  read before m s :=
    let ((result, after), m', s') := t.read before m s.2
    ((result, after), m', s.1 ++ [⟨m, .read before result after⟩], s')

namespace Mailbox

variable {σ α : Type}

def calls (m : Mailbox) (d : SlotDevice σ) (now : Nat) (device : σ) : List Call :=
  (m.turn d.transport.noting now ([], device)).2.2.1

def forget (result : α × Mailbox × List Call × σ) : α × Mailbox × σ :=
  (result.1, result.2.1, result.2.2.2)

theorem noting_slotState {t : Transport σ} {slot : SyncManager} {m m' : Mailbox} {s s' : σ}
    {result : Except Error SlotState} (h : t.slotState slot m s = (result, m', s'))
    (log : List Call) :
    t.noting.slotState slot m (log, s) = (result, m', log ++ [⟨m, .look slot result⟩], s') := by
  simp only [Transport.noting, h]

theorem noting_write {t : Transport σ} {data : Bytes} {m m' : Mailbox} {s s' : σ}
    {result : Except Error UInt16} (h : t.write data m s = (result, m', s')) (log : List Call) :
    t.noting.write data m (log, s) = (result, m', log ++ [⟨m, .write data result⟩], s') := by
  simp only [Transport.noting, h]

theorem noting_read {t : Transport σ} {before after : Bytes} {m m' : Mailbox} {s s' : σ}
    {result : Except Error UInt16} (h : t.read before m s = ((result, after), m', s'))
    (log : List Call) :
    t.noting.read before m (log, s) =
      ((result, after), m', log ++ [⟨m, .read before result after⟩], s') := by
  simp only [Transport.noting, h]

theorem readOne_noting (t : Transport σ) (m : Mailbox) (log : List Call) (s : σ) :
    forget (readOne t.noting m (log, s)) = readOne t m s := by
  unfold readOne
  rcases look : t.slotState m.slave.readSlot m s with ⟨cause | state, m₁, s₁⟩
  · rw [noting_slotState look]
    rfl
  · rw [noting_slotState look]
    cases state with
    | empty => rfl
    | full =>
        rcases take : m₁.receivePool.take? with cause | ⟨b, receivePool⟩
        · simp only [take]
          rfl
        · rcases read : t.read (b.bytes.take m₁.slave.readSlot.length.toNat)
            { m₁ with slotState := .full, receivePool } s₁ with
            ⟨⟨cause | counter, after⟩, m₂, s₂⟩
          · simp only [take, noting_read read, read]
            rfl
          · simp only [take, noting_read read, read]
            split <;> rfl

theorem readMany_noting (t : Transport σ) (fuel : Nat) (m : Mailbox) (log : List Call) (s : σ) :
    forget (readMany t.noting fuel m (log, s)) = readMany t fuel m s := by
  induction fuel generalizing m log s with
  | zero => rfl
  | succ fuel ih =>
      have one := readOne_noting t m log s
      rw [readMany, readMany, ← one]
      rcases readOne t.noting m (log, s) with ⟨cause | taken, m₁, log₁, s₁⟩
      · rfl
      · cases taken with
        | false => rfl
        | true => exact ih m₁ log₁ s₁

theorem poll_noting (t : Transport σ) (now : Nat) (m : Mailbox) (log : List Call) (s : σ) :
    forget (poll t.noting now m (log, s)) = poll t now m s := by
  unfold poll
  split
  · exact readMany_noting t _ _ log s
  · rfl

theorem writeRepeatedly_noting (t : Transport σ) (data : Bytes) (attempts failures : Nat)
    (m : Mailbox) (log : List Call) (s : σ) :
    forget (writeRepeatedly t.noting data attempts failures m (log, s)) =
      writeRepeatedly t data attempts failures m s := by
  induction attempts generalizing failures m log s with
  | zero => rfl
  | succ attempts ih =>
      rw [writeRepeatedly, writeRepeatedly]
      rcases write : t.write data m s with ⟨cause | counter, m₁, s₁⟩
      · rw [noting_write write]
        rfl
      · rw [noting_write write]
        dsimp only
        split
        · exact ih (failures + 1) m₁ _ s₁
        · rfl

theorem writeMessage_noting (t : Transport σ) (p : Protocol) (b : Buffer) (m : Mailbox)
    (log : List Call) (s : σ) :
    forget (writeMessage t.noting p b m (log, s)) = writeMessage t p b m s := by
  unfold writeMessage
  dsimp only
  rw [← writeRepeatedly_noting t _ _ _ _ log s]
  rcases writeRepeatedly t.noting _ _ _ _ (log, s) with
    ⟨⟨failures, cause | _ | counter⟩, m₁, log₁, s₁⟩
  · rfl
  · rfl
  · rfl

theorem sendNext_noting (t : Transport σ) (now : Nat) (m : Mailbox) (log : List Call) (s : σ) :
    forget (sendNext t.noting now m (log, s)) = sendNext t now m s := by
  unfold sendNext
  rcases m.takeNext now with ⟨_ | ⟨p, b⟩, m₁⟩
  · rfl
  · dsimp only
    rcases look : t.slotState m₁.slave.writeSlot m₁ s with ⟨cause | state, m₂, s₂⟩
    · rw [noting_slotState look]
      rfl
    · rw [noting_slotState look]
      cases state with
      | full => rfl
      | empty => exact writeMessage_noting t p b m₂ _ s₂

theorem turn_noting (t : Transport σ) (now : Nat) (m : Mailbox) (log : List Call) (s : σ) :
    forget (m.turn t.noting now (log, s)) = m.turn t now s := by
  unfold turn
  split
  · rfl
  · rw [← poll_noting t now (m.expire now) log s]
    rcases poll t.noting now (m.expire now) (log, s) with ⟨cause | _, m₁, log₁, s₁⟩
    · rfl
    · exact sendNext_noting t now m₁ log₁ s₁

end Mailbox

end Fieldbus
