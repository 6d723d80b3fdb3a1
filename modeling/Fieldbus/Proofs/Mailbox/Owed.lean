import Fieldbus.Proofs.Mailbox.Histories

/-!
# Replies that are owed

A request that was only written leaves a reply behind that nobody waits for. It is owed until it
arrives, another message is stamped or a request goes back to its queue. A message with a counter
that answers no request is kept for callers only if it is owed.
-/

namespace Fieldbus

theorem MailboxEvent.Ending.not_isStamp {event : MailboxEvent} (h : event.Ending) :
    event.isStamp = false := by
  cases h <;> rfl

namespace Mailbox

/-- The reply with this counter is outstanding, its request was only written, and no request went
back to its queue since. -/
def Owes (m : Mailbox) (counter : UInt8) : Prop :=
  ∃ after, m.WroteOnly counter after ∧ Outstanding counter after ∧ ¬Requeues after

/-- Where a reply is wanted and no request is in flight, the message stamped last was written and
asks for no reply. -/
def Owed (m : Mailbox) : Prop :=
  m.consumed = false → m.inFlight = none →
    ∃ after, m.WroteOnly m.counter.last after ∧ ∀ event ∈ after, event.isStamp = false

variable {m m' : Mailbox} {held : List Buffer} {now : Nat} {counter : UInt8}
  {events after : List MailboxEvent} {message : Message}

theorem WroteOnly.append (wrote : m.WroteOnly counter after)
    (journal : m'.journal = m.journal ++ events) : m'.WroteOnly counter (after ++ events) := by
  obtain ⟨before, ticket, workCounter, eq, writeOnly⟩ := wrote
  exact ⟨before, ticket, workCounter, by rw [journal, eq, List.append_assoc, List.cons_append],
    writeOnly⟩

theorem Owed.extend (h : m.Owed) (journal : m'.journal = m.journal ++ events)
    (unstamped : ∀ event ∈ events, event.isStamp = false) (counter : m'.counter = m.counter)
    (consumed : m'.consumed = false → m.consumed = false)
    (calm : m'.consumed = false → m'.inFlight = none → m.inFlight = none) : m'.Owed := by
  intro fresh idle
  obtain ⟨after, wrote, quiet⟩ := h (consumed fresh) (calm fresh idle)
  rw [counter]
  refine ⟨after ++ events, wrote.append journal, fun event mem => ?_⟩
  exact (List.mem_append.mp mem).elim (quiet event) (unstamped event)

theorem Owed.same (h : m.Owed) (untouched : m.Untouched m') : m'.Owed := by
  have journal : m'.journal = m.journal ++ [] := by rw [untouched.journal, List.append_nil]
  exact h.extend journal (List.forall_mem_nil _) untouched.counter
    (fun fresh => untouched.consumed ▸ fresh) fun _ idle => untouched.inFlight ▸ idle

theorem enqueued_of_admitted {index : Nat} {request : PendingRequest}
    (admitted : (index, request) ∈ m.admissions) : .enqueued index request ∈ m.journal := by
  obtain ⟨event, mem, eq⟩ := List.mem_filterMap.mp admitted
  cases event <;> cases eq
  exact mem

theorem Effect.owed (h : m.Owed) (accounts : m.Accounts) (effect : Effect now m m') : m'.Owed := by
  cases effect with
  | idle events undisturbed consumed journal unanswering =>
      refine h.extend journal (fun event mem => ?_) undisturbed.counter
        (fun fresh => consumed ▸ fresh) fun _ idle => undisturbed.inFlight ▸ idle
      cases unanswering event mem <;> rfl
  | kept message undisturbed wanted sequenced calm consumed journal =>
      intro fresh
      rw [consumed] at fresh
      cases fresh
  | ended flight outcome told awaiting flying cause same calm ready consumed counter journal =>
      intro fresh
      rw [consumed] at fresh
      cases fresh
  | overdue index request ready found late removes inFlight handshake consumed counter journal =>
      refine h.extend journal (fun event mem => ?_) counter (fun fresh => consumed ▸ fresh)
        fun _ idle => inFlight ▸ idle
      exact (verdict_ending _ _ _ event mem).not_isStamp
  | returned index request stamps ready found early same calm idle consumed journal stamping =>
      intro fresh
      rw [consumed] at fresh
      cases fresh
  | sent index request workCounter ready found early removes acknowledges counter fresh expects
      counted flying awaiting =>
      intro _ idle
      rw [flying] at idle
      cases idle
  | written index request workCounter m₀ ready found early removes acknowledges counter fresh
      writing counted calm complete journal =>
      obtain ⟨firings, acknowledged⟩ := acknowledges
      intro _ _
      rw [acknowledged, List.append_assoc, List.cons_append, List.cons_append,
        List.append_cons] at journal
      have admitted := (accounts.carried index request (.inl found)).1
      refine ⟨_, ⟨_, request.ticket, workCounter, counter ▸ journal, index, request.deadline, ?_⟩,
        fun event mem => ?_⟩
      · have enqueued := enqueued_of_admitted admitted
        rw [← writing]
        exact List.mem_append_left _ enqueued
      · rcases List.mem_append.mp mem with mem | mem
        · obtain ⟨firing, -, rfl⟩ := List.mem_map.mp mem
          rfl
        · exact (verdict_ending _ _ _ event mem).not_isStamp

theorem Moves.owed (h : m.Owed) (sound : m.Sound held) (moves : Moves now m m') : m'.Owed := by
  induction moves with
  | refl => exact h
  | tail moves move ih =>
      have between := Moves.sound sound moves
      exact (move.effect between.custody).2.1.owed ih between.accounts

theorem settle_calm (m : Mailbox) (h : Handle) : (m.settle h).2.consumed = true ∨
    (m.settle h).2.consumed = m.consumed ∧
      ((m.settle h).2.inFlight = none → m.inFlight = none) := by
  rcases m.settle_eq h with eq | ⟨-, eq⟩ <;> rw [eq]
  · exact .inr ⟨rfl, id⟩
  rcases m.abandon_cases h with
    eq | ⟨p, b, sendQueues, -, eq⟩ | ⟨flight, -, -, ⟨-, eq⟩ | ⟨-, eq⟩⟩ <;> rw [eq]
  · exact .inr ⟨rfl, id⟩
  · exact .inr ⟨rfl, id⟩
  · exact .inr ⟨rfl, nofun⟩
  · exact .inl rfl

end Mailbox

namespace Session

variable {s s' : Session}

theorem Step.owed (h : s.mailbox.Owed) (sound : s.Sound) (step : Step s s')
    (opened : s'.mailbox.closed = false) : s'.mailbox.Owed := by
  cases step with
  | take take => exact h.same (Mailbox.takeSendBuffer_untouched take)
  | change left => exact h
  | giveBack left => exact h.same (Mailbox.putSend_untouched _ _)
  | @enqueue m left right pending b front expectsResponse deadline =>
      have mailbox : m.Sound (b :: (left ++ right)) := sound.mailbox.perm List.perm_middle.symm
      rcases Mailbox.enqueue_cases mailbox.custody front expectsResponse deadline with
        ⟨cause, eq⟩ | ⟨p, bs, sendQueues, perm, becomes, eq⟩
      · rw [eq]
        exact h.same (m.putSend_untouched b)
      · rw [eq]
        exact h.extend rfl (by simp [MailboxEvent.isStamp]) rfl id fun _ => id
  | enqueueForeign front expectsResponse deadline foreign =>
      rw [Mailbox.enqueue_foreign foreign]
      exact h
  | @turn m held pending σ d device now =>
      exact (Mailbox.turn_moves d now m device).owed h sound.mailbox
  | @wait m held left right g =>
      rcases Mailbox.settle_cases sound.mailbox g with eq | ⟨r, -, -, withdraws, -⟩
      · rw [eq]
        exact h
      · refine h.extend withdraws.journal (by simp [MailboxEvent.isStamp]) withdraws.counter
          (fun fresh => ?_) fun fresh calm => ?_
        · rcases m.settle_calm g with used | ⟨same, -⟩
          · rw [used] at fresh
            cases fresh
          · exact same.symm.trans fresh
        · rcases m.settle_calm g with used | ⟨-, idle⟩
          · rw [used] at fresh
            cases fresh
          · exact idle calm
  | tryRead p => exact h.same (Mailbox.tryRead_untouched _ p)
  | requestRead p => exact h.same (Mailbox.requestRead_untouched _ p)
  | read p => exact h.same (Mailbox.read_untouched _ p)
  | scheduleRead => exact h.same (Mailbox.scheduleRead_untouched _)
  | close =>
      dsimp only at opened
      rw [close_closed] at opened
      cases opened

theorem Reachable.owed (reached : s.Reachable) (opened : s.mailbox.closed = false) :
    s.mailbox.Owed := by
  obtain ⟨slave, config, sendId, receiveId, run⟩ := reached
  induction run with
  | refl => nofun
  | tail run step ih =>
      have before := step.opened opened
      have sound : Session.Sound _ := Reachable.sound ⟨slave, config, sendId, receiveId, run⟩ before
      exact step.owed (ih before) sound opened

end Session

namespace Mailbox

variable {m m₀ : Mailbox} {now : Nat} {message : Message}

/-- A message that is supported is kept for callers just if it has no counter or is a reply that
is owed. -/
theorem Moves.queued_iff {s : Session} (reached : s.Reachable) (opened : s.mailbox.closed = false)
    (moves : Moves now s.mailbox m)
    (supported : m.slave.supported.supports message.header.protocol = true) :
    m.fate message = .queued ↔ message.header.counter = SequenceCounter.unsequenced ∨
      m.Owes message.header.counter := by
  have sound := (reached.sound opened).mailbox
  have replies := moves.lateReplies (reached.lateReplies opened) sound
  constructor
  · intro queued
    refine or_iff_not_imp_left.mpr fun sequenced => ?_
    have wanted := wanted_of_fate sequenced (.inl queued)
    have calm : m.inFlight = none :=
      (moves.sound sound).rest.awaited_eq.symm.trans (awaited_of_queued queued sequenced)
    have last := last_of_wanted wanted
    obtain ⟨after, wrote, quiet⟩ := moves.owed (reached.owed opened) sound wanted.1 calm
    have filtered := (moves.beats []).filtered reached.orderly reached.filtered
    rw [last]
    -- Nothing was stamped since, so an earlier reply would have used up this one.
    have outstanding : Outstanding m.counter.last after := by
      refine ⟨fun ticket other mem => ?_, fun reply fate mem same => ?_⟩
      · cases quiet _ mem
      · obtain ⟨before, ticket, workCounter, journal, -⟩ := wrote
        have awaiting := filtered.awaiting wanted.1
        rw [journal, List.append_cons] at awaiting
        have unanswered := List.countP_eq_zero.mp (awaiting.countP_eq_zero quiet) _ mem
        simpa [MailboxEvent.isReply, same, ← last, sequenced] using unanswered
    refine ⟨after, wrote, outstanding, fun requeues => ?_⟩
    have used := (replies _ _ wrote outstanding).consumed.mpr requeues
    rw [wanted.1] at used
    cases used
  · rintro (unsequenced | ⟨after, wrote, outstanding, untouched⟩)
    · exact fate_unsequenced supported unsequenced
    · exact (replies _ _ wrote outstanding).fate_queued supported rfl untouched

end Mailbox

end Fieldbus
