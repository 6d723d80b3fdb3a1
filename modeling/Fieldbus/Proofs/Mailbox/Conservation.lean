import Fieldbus.Proofs.Mailbox.Balance
import Fieldbus.Proofs.Mailbox.Session

/-!
# No buffer is lost

Callers and turns use one mailbox. While a turn waits for its transport callers go on, and other
turns may pass. Whatever they do, and whatever the transport answers, the stores stay balanced: a
send buffer is idle, queued or in a caller's hands when the turns are over, a receive buffer is idle
or queued.

To `Mailbox.Happens` a `Holding.Run` adds the send buffers that callers hold, and each call of a
transport may be a run of its own, with turns in it. Of the requests it says nothing.
-/

namespace Fieldbus

open BufferQueue (indices)

structure Holding where
  mailbox : Mailbox
  callers : List Buffer

namespace Holding

/-- What a caller does. It gives away only a buffer that it holds, and every handle will do. -/
inductive Act : Holding → Holding → Prop
  | take {m m' : Mailbox} {callers : List Buffer} {b : Buffer} :
      m.takeSendBuffer? = .ok (b, m') → Act ⟨m, callers⟩ ⟨m', b :: callers⟩
  | change {m : Mailbox} (left : List Buffer) {right : List Buffer} {b c : Buffer} :
      c.index = b.index → c.pool = b.pool →
      Act ⟨m, left ++ b :: right⟩ ⟨m, left ++ c :: right⟩
  | giveBack {m : Mailbox} (left : List Buffer) {right : List Buffer} {b : Buffer} :
      Act ⟨m, left ++ b :: right⟩ ⟨m.putSend b, left ++ right⟩
  | enqueue {m : Mailbox} (left : List Buffer) {right : List Buffer} {b : Buffer}
      (front expectsResponse : Bool) (deadline : Nat) :
      Act ⟨m, left ++ b :: right⟩
        ⟨(m.enqueue front b expectsResponse deadline).2, left ++ right⟩
  | enqueueForeign {m : Mailbox} {callers : List Buffer} {b : Buffer}
      (front expectsResponse : Bool) (deadline : Nat) :
      m.sendPool.owns b = false →
      Act ⟨m, callers⟩ ⟨(m.enqueue front b expectsResponse deadline).2, callers⟩
  | wait {m : Mailbox} {callers : List Buffer} (h : Handle) :
      Act ⟨m, callers⟩ ⟨(m.settle h).2, callers⟩
  | tryRead {m : Mailbox} {callers : List Buffer} (p : Protocol) :
      Act ⟨m, callers⟩ ⟨(m.tryRead p).2, callers⟩
  | requestRead {m : Mailbox} {callers : List Buffer} (p : Protocol) :
      Act ⟨m, callers⟩ ⟨(m.requestRead p).2, callers⟩
  | read {m : Mailbox} {callers : List Buffer} (p : Protocol) :
      Act ⟨m, callers⟩ ⟨(m.read p).2, callers⟩
  | scheduleRead {m : Mailbox} {callers : List Buffer} :
      Act ⟨m, callers⟩ ⟨m.scheduleRead, callers⟩
  | close {m : Mailbox} {callers : List Buffer} : Act ⟨m, callers⟩ ⟨m.close.2, callers⟩

/-- Callers act and turns pass. Each call of a turn's transport is a run of its own, and answers
what it likes. -/
inductive Run : Holding → Holding → Prop
  | refl (x : Holding) : Run x x
  | trans {x y z : Holding} : Run x y → Run y z → Run x z
  | act {x y : Holding} : Act x y → Run x y
  | turn {σ : Type} {t : Transport σ} (callers : σ → List Buffer) (now : Nat) (m : Mailbox)
      (s : σ) :
      (∀ slot m s, Run ⟨m, callers s⟩
        ⟨(t.slotState slot m s).2.1, callers (t.slotState slot m s).2.2⟩) →
      (∀ data m s, Run ⟨m, callers s⟩
        ⟨(t.write data m s).2.1, callers (t.write data m s).2.2⟩) →
      (∀ bytes m s, Run ⟨m, callers s⟩
        ⟨(t.read bytes m s).2.1, callers (t.read bytes m s).2.2⟩) →
      Run ⟨m, callers s⟩ ⟨(m.turn t now s).2.1, callers (m.turn t now s).2.2⟩

def Keeps (size : Nat) (x y : Holding) : Prop :=
  ∀ sending receiving, x.mailbox.Balances size (x.callers ++ sending) receiving →
    y.mailbox.Balances size (y.callers ++ sending) receiving

end Holding

namespace Mailbox.Balances

variable {σ : Type} {t : Transport σ} {size : Nat} {callers : σ → List Buffer} {m : Mailbox}
  {s : σ} {sending receiving : List Buffer}

/-! ## Reading -/

section Read

variable (slotState : ∀ slot m s, Holding.Keeps size ⟨m, callers s⟩
    ⟨(t.slotState slot m s).2.1, callers (t.slotState slot m s).2.2⟩)
  (read : ∀ bytes m s, Holding.Keeps size ⟨m, callers s⟩
    ⟨(t.read bytes m s).2.1, callers (t.read bytes m s).2.2⟩)

include slotState read

theorem readOne (h : m.Balances size (callers s ++ sending) receiving) :
    (readOne t m s).2.1.Balances size (callers (Mailbox.readOne t m s).2.2 ++ sending)
      receiving := by
  have looked := slotState m.slave.readSlot m s sending receiving h
  unfold Mailbox.readOne
  rcases answered : t.slotState m.slave.readSlot m s with ⟨cause | state, m₁, s₁⟩ <;>
    simp only [answered] at looked ⊢
  · exact looked
  · cases state with
    | empty => exact looked
    | full =>
        rcases taken : m₁.receivePool.take? with cause | ⟨b, receivePool⟩ <;> simp only
        · exact looked
        · have seen : { m₁ with slotState := .full }.Balances size (callers s₁ ++ sending)
              receiving := looked
          have called := read (b.bytes.take m₁.slave.readSlot.length.toNat)
            { m₁ with slotState := .full, receivePool } s₁ sending (b :: receiving)
            (seen.takeReceive taken)
          rcases answer : t.read (b.bytes.take m₁.slave.readSlot.length.toNat)
              { m₁ with slotState := .full, receivePool } s₁ with
            ⟨⟨cause | counter, bytes⟩, m₂, s₂⟩ <;> simp only [answer] at called ⊢
          · exact Balances.putReceive (called.fill rfl rfl)
          · split
            · exact Balances.putReceive (called.fill rfl rfl)
            · refine Balances.route ?_
              exact called.fill rfl rfl

theorem readMany (fuel : Nat) (h : m.Balances size (callers s ++ sending) receiving) :
    (readMany t fuel m s).2.1.Balances size
      (callers (Mailbox.readMany t fuel m s).2.2 ++ sending) receiving := by
  induction fuel generalizing m s with
  | zero => exact h
  | succ fuel ih =>
      have first := readOne slotState read h
      rw [Mailbox.readMany]
      rcases taken : Mailbox.readOne t m s with ⟨cause | more, m₁, s₁⟩ <;> rw [taken] at first
      · exact first
      · cases more with
        | false => exact first
        | true => exact ih first

theorem poll (now : Nat) (h : m.Balances size (callers s ++ sending) receiving) :
    (poll t now m s).2.1.Balances size (callers (Mailbox.poll t now m s).2.2 ++ sending)
      receiving := by
  unfold Mailbox.poll
  split
  · exact readMany slotState read _ h
  · exact h

end Read

/-! ## Writing -/

section Send

variable (slotState : ∀ slot m s, Holding.Keeps size ⟨m, callers s⟩
    ⟨(t.slotState slot m s).2.1, callers (t.slotState slot m s).2.2⟩)
  (write : ∀ data m s, Holding.Keeps size ⟨m, callers s⟩
    ⟨(t.write data m s).2.1, callers (t.write data m s).2.2⟩)

include write in
theorem writeRepeatedly (data : Bytes) (attempts failures : Nat)
    (h : m.Balances size (callers s ++ sending) receiving) :
    (writeRepeatedly t data attempts failures m s).2.1.Balances size
      (callers (Mailbox.writeRepeatedly t data attempts failures m s).2.2 ++ sending)
      receiving := by
  induction attempts generalizing failures m s with
  | zero => exact h
  | succ attempts ih =>
      have called := write data m s sending receiving h
      rw [Mailbox.writeRepeatedly]
      rcases written : t.write data m s with ⟨cause | counter, m₁, s₁⟩ <;> rw [written] at called
      · exact called
      · dsimp only
        split
        · exact ih _ called
        · exact called

include write in
theorem writeMessage {b : Buffer} (p : Protocol)
    (h : m.Balances size (callers s ++ b :: sending) receiving) :
    (writeMessage t p b m s).2.1.Balances size
      (callers (Mailbox.writeMessage t p b m s).2.2 ++ sending) receiving := by
  have stamped := (h.perm List.perm_middle.symm).stamp
  have written := writeRepeatedly write
    ((m.stamp b).1.bytes.take (m.stamp b).2.slave.writeSlot.length.toNat)
    (max (m.stamp b).2.config.writeAttempts.toNat 1) 0 (stamped.perm List.perm_middle)
  unfold Mailbox.writeMessage
  dsimp only
  generalize Mailbox.writeRepeatedly t _ _ 0 (m.stamp b).2 s = result at written ⊢
  obtain ⟨⟨failures, outcome⟩, m₁, s₁⟩ := result
  have counted : (m₁.retried failures).Balances size
      ((m.stamp b).1 :: (callers s₁ ++ sending)) receiving := written.perm List.perm_middle.symm
  rcases outcome with cause | _ | workCounter
  · exact counted.requeue p
  · exact counted.requeue p
  · exact counted.acknowledge workCounter

include slotState write in
theorem sendNext (now : Nat) (h : m.Balances size (callers s ++ sending) receiving) :
    (sendNext t now m s).2.1.Balances size (callers (Mailbox.sendNext t now m s).2.2 ++ sending)
      receiving := by
  have chosen := h.takeNext now
  unfold Mailbox.sendNext
  generalize m.takeNext now = next at chosen ⊢
  rcases next with ⟨_ | ⟨p, b⟩, m₁⟩
  · exact chosen
  · have called := slotState m₁.slave.writeSlot m₁ s (b :: sending) receiving
      (chosen.perm List.perm_middle)
    dsimp only at called ⊢
    generalize t.slotState m₁.slave.writeSlot m₁ s = answer at called ⊢
    rcases answer with ⟨cause | _ | _, m₂, s₂⟩
    · exact (called.perm List.perm_middle.symm).requeue p
    · exact called.writeMessage write p
    · exact (called.perm List.perm_middle.symm).requeue p

end Send

theorem turn (slotState : ∀ slot m s, Holding.Keeps size ⟨m, callers s⟩
      ⟨(t.slotState slot m s).2.1, callers (t.slotState slot m s).2.2⟩)
    (write : ∀ data m s, Holding.Keeps size ⟨m, callers s⟩
      ⟨(t.write data m s).2.1, callers (t.write data m s).2.2⟩)
    (read : ∀ bytes m s, Holding.Keeps size ⟨m, callers s⟩
      ⟨(t.read bytes m s).2.1, callers (t.read bytes m s).2.2⟩) (now : Nat)
    (h : m.Balances size (callers s ++ sending) receiving) :
    (m.turn t now s).2.1.Balances size (callers (m.turn t now s).2.2 ++ sending) receiving := by
  have polled := poll slotState read now (h.expire now)
  unfold Mailbox.turn
  split
  · exact h
  · generalize Mailbox.poll t now (m.expire now) s = result at polled ⊢
    rcases result with ⟨cause | _, m₁, s₁⟩
    · exact polled
    · exact polled.sendNext slotState write now

end Mailbox.Balances

namespace Holding

variable {size : Nat} {x y : Holding}

theorem Act.keeps (act : Act x y) : Keeps size x y := by
  intro sending receiving h
  have front (left right : List Buffer) (b : Buffer) :
      (b :: (left ++ right ++ sending)).Perm (left ++ b :: right ++ sending) :=
    (List.perm_middle.append_right sending).symm
  cases act with
  | take take => exact h.takeSendBuffer take
  | @change m left right b c index owner =>
      have here := h.perm (front left right b)
      have changed : m.Balances size (c :: (left ++ right ++ sending)) receiving :=
        here.send rfl rfl fun sent => sent.change index owner
      exact changed.perm (front left right c).symm
  | @giveBack m left right b => exact (h.perm (front left right b)).putSend
  | @enqueue m left right b front' expectsResponse deadline =>
      exact (h.perm (front left right b)).enqueue front' expectsResponse deadline
  | enqueueForeign front' expectsResponse deadline foreign =>
      rw [Mailbox.enqueue_foreign foreign]
      exact h
  | wait handle => exact h.settle handle
  | tryRead p => exact h.tryRead p
  | requestRead p => exact h.requestRead p
  | read p => exact h.read p
  | scheduleRead => exact h
  | close => exact .of_closed (Session.close_closed _)

theorem Run.keeps (run : Run x y) : Keeps size x y := by
  induction run with
  | refl x => exact fun _ _ h => h
  | trans _ _ first second => exact fun _ _ h => second _ _ (first _ _ h)
  | act act => exact act.keeps
  | turn callers now m s _ _ _ slotState write read =>
      exact fun _ _ h => h.turn slotState write read now

theorem balances_create (slave : SlaveConfig) (config : Config) (sendId receiveId : Nat) :
    (Mailbox.create slave config sendId receiveId).Balances config.mailboxPoolSize [] [] :=
  fun _ => ⟨⟨stock_openWith _ _ _, rfl⟩, ⟨stock_openWith _ _ _, rfl⟩⟩

/-- Submitting a request is to take a buffer, fill it and queue it, or to give it back. -/
theorem submit_run (m : Mailbox) (callers : List Buffer) (p : Protocol) (address : UInt16)
    (payload : Bytes) (expectsResponse : Bool) (deadline : Nat) :
    Run ⟨m, callers⟩ ⟨(m.submit p address payload expectsResponse deadline).2, callers⟩ := by
  unfold Mailbox.submit
  split
  · exact .refl _
  · split
    · exact .refl _
    case h_2 b m₁ taken =>
      refine .trans (.act (.take taken)) ?_
      split
      · exact .act (.giveBack [])
      case h_2 c prepared =>
        obtain ⟨index, owner⟩ := Session.prepare_place prepared
        refine .trans (.act (.change [] index owner)) (.act ?_)
        exact .enqueue [] false expectsResponse deadline

end Holding

namespace Mailbox

variable {m m' : Mailbox} {b : Buffer} {p : Protocol} {address : UInt16} {payload : Bytes}
  {expectsResponse : Bool} {deadline : Nat} {cause : Error}

theorem enqueue_refused (front : Bool) (owned : m.sendPool.owns b = true)
    (refused : m.enqueue front b expectsResponse deadline = (.error cause, m')) :
    m' = m.putSend b := by
  have queueing (push : ProtocolQueues → Protocol → Buffer → Option ProtocolQueues)
      (refused : m.enqueueWith push b expectsResponse deadline = (.error cause, m')) :
      m' = m.putSend b := by
    rcases m.enqueueWith_cases push owned expectsResponse deadline with
      ⟨cause, eq⟩ | ⟨p, sendQueues, -, eq⟩ <;> cases eq.symm.trans refused
    rfl
  cases front with
  | true => exact queueing ProtocolQueues.pushFront? refused
  | false => exact queueing ProtocolQueues.pushBack? refused

theorem submit_refused
    (refused : m.submit p address payload expectsResponse deadline = (.error cause, m')) :
    ∃ sendPool, m' = { m with sendPool } := by
  unfold submit at refused
  split at refused
  · cases refused
    exact ⟨m.sendPool, rfl⟩
  · split at refused
    · cases refused
      exact ⟨m.sendPool, rfl⟩
    case h_2 b m₁ taken =>
      obtain ⟨-, sendPool, -, rfl⟩ := takeSendBuffer?_eq_ok taken
      split at refused
      · cases refused
        exact ⟨_, rfl⟩
      case h_2 c prepared =>
        by_cases owned : sendPool.owns c = true
        · rw [enqueue_refused false owned refused]
          exact ⟨_, rfl⟩
        · have foreign := enqueue_foreign (m := { m with sendPool }) (b := c)
            (Bool.not_eq_true _ ▸ owned) false expectsResponse deadline
          cases foreign.symm.trans refused
          exact ⟨sendPool, rfl⟩

end Mailbox

namespace Holding

variable {x : Holding}

/-- Along every run, while the mailbox is open, the buffers of a pool are idle, queued or held by
callers, each in one place. A request that is refused leaves all but the send pool as it was, and
the pool has the buffer back. -/
theorem buffers_conserved {slave : SlaveConfig} {config : Config} {sendId receiveId : Nat}
    (run : Run ⟨.create slave config sendId receiveId, []⟩ x) :
    (x.mailbox.closed = false →
      (x.mailbox.sendPool.available + x.mailbox.sendQueues.totalLength + x.callers.length =
          config.mailboxPoolSize ∧
        x.mailbox.receivePool.available + x.mailbox.receiveQueues.totalLength =
          config.mailboxPoolSize) ∧
      (indices (x.mailbox.sendPool.idle ++ x.callers ++ x.mailbox.sendQueues.everything)).Perm
          (List.range config.mailboxPoolSize) ∧
        (indices (x.mailbox.receivePool.idle ++ x.mailbox.receiveQueues.everything)).Perm
          (List.range config.mailboxPoolSize)) ∧
    (∀ b front expectsResponse deadline cause m', x.mailbox.sendPool.owns b = true →
      x.mailbox.enqueue front b expectsResponse deadline = (.error cause, m') →
      m' = x.mailbox.putSend b ∧ (x.mailbox.closed = false → b ∈ x.callers →
        m'.sendPool.idle = x.mailbox.sendPool.idle ++ [b.retire])) ∧
    ∀ p address payload expectsResponse deadline cause m',
      x.mailbox.submit p address payload expectsResponse deadline = (.error cause, m') →
      ∃ sendPool, m' = { x.mailbox with sendPool } ∧ (x.mailbox.closed = false →
        sendPool.available = x.mailbox.sendPool.available) := by
  have kept {y : Holding} (run : Run ⟨.create slave config sendId receiveId, []⟩ y)
      (opened : y.mailbox.closed = false) :
      y.mailbox.sendStore.Balanced config.mailboxPoolSize y.callers ∧
        y.mailbox.receiveStore.Balanced config.mailboxPoolSize [] := by
    have balanced := run.keeps [] [] (balances_create slave config sendId receiveId) opened
    rwa [List.append_nil] at balanced
  refine ⟨fun opened => ?_, fun b front expectsResponse deadline cause m' owned refused => ?_,
    fun p address payload expectsResponse deadline cause m' refused => ?_⟩
  case refine_1 =>
    obtain ⟨sent, received⟩ := kept run opened
    refine ⟨⟨sent.sum, received.sum⟩, sent.places, ?_⟩
    have places := received.places
    rwa [List.append_nil] at places
  case refine_2 =>
    have back := Mailbox.enqueue_refused front owned refused
    subst back
    refine ⟨rfl, fun opened mem => ?_⟩
    obtain ⟨left, right, split⟩ := List.append_of_mem mem
    have sent := (kept run opened).1
    rw [split] at sent
    exact (sent.perm List.perm_middle.symm).idle_put
  case refine_3 =>
    obtain ⟨sendPool, rfl⟩ := Mailbox.submit_refused refused
    refine ⟨sendPool, rfl, fun opened => ?_⟩
    have submitted := submit_run x.mailbox x.callers p address payload expectsResponse deadline
    rw [refused] at submitted
    have before := (kept run opened).1.sum
    have after := (kept (run.trans submitted) opened).1.sum
    simp only [Mailbox.sendStore] at before after
    omega

/-- A slave that fails while the caller gives up. -/
def forsaken (h : Handle) : Transport Unit where
  slotState _ m s := (.ok .empty, m, s)
  write _ m s := (.error .timeout, (m.settle h).2, s)
  read bytes m s := ((.ok 0, bytes), m, s)

/-- The request was withdrawn while it was written, and its buffer is back. -/
theorem buffers_conserved_forsaken : ∃ m,
    Run ⟨Session.cramped, []⟩ ⟨m, []⟩ ∧ m.closed = false ∧ m.withdrawals = [(0, 0)] ∧
      m.sendQueues.totalLength = 0 ∧ m.sendPool.available = 1 := by
  let h : Handle := ⟨0, 0, 1000000⟩
  have submitted := submit_run Session.cramped [] .coe 0x1001 [1] true 1000000
  have run := submitted.trans (.turn (t := forsaken h) (fun _ => []) 0 _ ()
    (fun _ m _ => .refl ⟨m, []⟩)
    (fun _ m _ => (.act (.wait h) : Run ⟨m, []⟩ ⟨(m.settle h).2, []⟩))
    fun _ m _ => .refl ⟨m, []⟩)
  have opened : ((Session.cramped.submit .coe 0x1001 [1] true 1000000).2.turn
      (forsaken h) 0 ()).2.1.closed = false := by decide +kernel
  have withdrawn : ((Session.cramped.submit .coe 0x1001 [1] true 1000000).2.turn
      (forsaken h) 0 ()).2.1.withdrawals = [(0, 0)] := by decide +kernel
  have empty : ((Session.cramped.submit .coe 0x1001 [1] true 1000000).2.turn
      (forsaken h) 0 ()).2.1.sendQueues.totalLength = 0 := by decide +kernel
  have sum := ((buffers_conserved run).1 opened).1.1
  refine ⟨_, run, opened, withdrawn, empty, ?_⟩
  rw [empty, List.length_nil, Nat.add_zero] at sum
  exact sum

end Holding

end Fieldbus
