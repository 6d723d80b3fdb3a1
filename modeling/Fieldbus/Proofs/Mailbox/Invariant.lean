import Fieldbus.Proofs.Mailbox.Accounts

/-!
# The invariant of an open mailbox
-/

namespace Fieldbus.Mailbox

open BufferQueue (indices)

/-- An open mailbox between two moves, while callers hold the send buffers `held`. -/
structure Sound (m : Mailbox) (held : List Buffer) : Prop where
  custody : m.Custody held
  shelved : m.Shelved
  rest : m.Rest
  accounts : m.Accounts

variable {m m' : Mailbox} {held : List Buffer} {now : Nat}

/-! ## Moves -/

theorem pushReceived_eq {b : Buffer} (h : Stock m.receivePool m.receiveQueues [b])
    (p : Protocol) : ∃ receiveQueues, m.pushReceived p b = { m with receiveQueues } ∧
      m.receiveQueues.Becomes m.receivePool.capacity p (m.receiveQueues.entries p ++ [b])
        receiveQueues ∧ Shelved { m with receiveQueues } := by
  obtain ⟨queues, push, becomes, stock⟩ := h.pushBack? p
  exact ⟨queues, by rw [pushReceived, push], becomes, stock⟩

theorem route_shelved {b : Buffer} (h : Stock m.receivePool m.receiveQueues [b]) :
    (m.route b).Shelved := by
  rcases decoded : Message.decode? b.contents with cause | message
  · rw [route_garbled decoded]
    exact h.put
  · cases fate : m.fate message with
    | unsupported =>
        rw [route_unsupported decoded fate]
        exact h.put
    | stale =>
        rw [route_stale decoded fate]
        exact h.put
    | queued =>
        rw [route_queued decoded fate]
        obtain ⟨queues, eq, -, stock⟩ := pushReceived_eq (m := { m with
          consumed := m.consumed || (message.header.counter != SequenceCounter.unsequenced)
          journal := m.journal ++ [MailboxEvent.routed message .queued]
          statistics := { m.statistics with
            messagesReceived := m.statistics.messagesReceived + 1 } }) h message.header.protocol
        rw [eq]
        exact stock
    | answered ticket =>
        obtain ⟨flight, awaiting, flying, rfl, -, -⟩ := fate_answered fate
        obtain ⟨m₀, -, eq, -⟩ := route_answered decoded awaiting flying fate
        rw [eq]
        exact h.put

theorem expire_shelved (h : m.Shelved) (now : Nat) : (m.expire now).Shelved := by
  rcases m.expire_cases now with eq | ⟨flight, -, -, -, eq⟩ <;> rw [eq] <;> exact h

theorem requeue_shelved (h : m.Shelved) (p : Protocol) (b : Buffer) :
    (m.requeue p b).Shelved := by
  rcases m.requeue_cases p b with eq | ⟨flight, -, eq⟩ | ⟨flight, sendQueues, -, -, eq⟩ <;>
    rw [eq] <;> exact h

theorem acknowledge_shelved (h : m.Shelved) (b : Buffer) (workCounter : UInt16) :
    (m.acknowledge b workCounter).Shelved := by
  rcases m.acknowledge_cases b workCounter with
    ⟨handshake, eq⟩ | ⟨flight, -, eq⟩ | ⟨flight, -, eq⟩ <;> rw [eq] <;> exact h

theorem Picks.shelved {p : Protocol} {b : Buffer} (h : m.Shelved) (picks : m.Picks now p b m') :
    m'.Shelved := by
  obtain ⟨sendQueues, request, -, -, -, -, rfl⟩ := picks
  exact h

theorem Move.shelved (h : m.Shelved) (move : Move now m m') : m'.Shelved := by
  cases move with
  | expire => exact expire_shelved h now
  | schedule nextPoll => exact h
  | look slotState => exact h
  | @spare b receivePool data take short =>
      exact ((Stock.take h take).change (c := b.holding data) rfl rfl).put
  | receive data take short => exact route_shelved ((Stock.take h take).change rfl rfl)
  | orphan ready next none => exact h
  | overdue ready next found late =>
      rw [resolve_eq]
      exact h
  | withhold picks => exact requeue_shelved (picks.shelved h) _ _
  | @refuse m₁ p b failures picks =>
      have chosen : m₁.Shelved := picks.shelved h
      exact requeue_shelved (m := (m₁.stamp b).2.retried failures) chosen _ _
  | @accept m₁ p b failures workCounter picks counted =>
      have chosen : m₁.Shelved := picks.shelved h
      exact acknowledge_shelved (m := (m₁.stamp b).2.retried failures) chosen _ _

theorem Move.sound (h : m.Sound held) (move : Move now m m') : m'.Sound held := by
  obtain ⟨custody, effect, steady⟩ := move.effect h.custody
  exact ⟨custody, move.shelved h.shelved, effect.rest h.rest,
    effect.accounts h.accounts h.rest steady.nextTicket⟩

theorem Moves.sound (h : m.Sound held) (moves : Moves now m m') : m'.Sound held := by
  induction moves with
  | refl => exact h
  | tail _ move ih => exact move.sound ih

theorem Moves.steady (h : m.Sound held) (moves : Moves now m m') : m.Steady m' := by
  induction moves with
  | refl => exact ⟨rfl, rfl, rfl, rfl⟩
  | tail moves move ih =>
      have next := (move.effect (Moves.sound h moves).custody).2.2
      exact ⟨next.slave.trans ih.slave, next.config.trans ih.config,
        next.nextTicket.trans ih.nextTicket, next.closed.trans ih.closed⟩

theorem Effect.books (effect : Effect now m m') :
    m'.admissions = m.admissions ∧ m'.withdrawals = m.withdrawals := by
  have unmoved (h : m.Unmoved m') : m'.admissions = m.admissions ∧
      m'.withdrawals = m.withdrawals := ⟨h.admissions, h.withdrawals⟩
  have resolves {ticket : Nat} {outcome : Except Error Reply}
      (h : m.Resolves ticket outcome m') : m'.admissions = m.admissions ∧
      m'.withdrawals = m.withdrawals := ⟨h.admissions, h.withdrawals⟩
  cases effect with
  | idle events undisturbed consumed journal unanswering =>
      exact unmoved (.of_quiet journal fun event mem => (unanswering event mem).quiet)
  | kept message undisturbed wanted sequenced calm consumed journal =>
      refine unmoved (.of_quiet journal fun event mem => ?_)
      rw [List.mem_singleton.mp mem]
      exact MailboxEvent.quiet_routed _ _
  | ended flight outcome told awaiting flying cause same calm ready consumed counter journal =>
      exact resolves (cause.resolves journal)
  | overdue index request ready found late removes inFlight handshake consumed counter journal =>
      exact resolves (.of_verdict (.of_journal rfl) journal)
  | returned index request stamps ready found early same calm idle consumed journal stamping =>
      exact unmoved (unmoved_of_returned journal (stamping.imp And.left And.left))
  | sent index request workCounter ready found early removes acknowledges counter fresh expects
      counted flying awaiting => exact unmoved acknowledges.unmoved
  | written index request workCounter m₀ ready found early removes acknowledges counter fresh
      writing counted calm complete journal =>
      exact resolves (.of_verdict acknowledges.unmoved journal)

theorem Moves.books (h : m.Sound held) (moves : Moves now m m') :
    m'.admissions = m.admissions ∧ m'.withdrawals = m.withdrawals := by
  induction moves with
  | refl => exact ⟨rfl, rfl⟩
  | tail moves move ih =>
      have effect := (move.effect (Moves.sound h moves).custody).2.1
      exact ⟨effect.books.1.trans ih.1, effect.books.2.trans ih.2⟩

end Fieldbus.Mailbox
