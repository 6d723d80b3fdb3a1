import Fieldbus.Proofs.Mailbox.Traces

/-!
# What the slave took

The journal tells of every message that the slave took. It takes the message of a request once at
most, the request in flight is one that it took, with the counter stamped last, and no request that
waits is. No request is given two outcomes.
-/

namespace Fieldbus

namespace MailboxEvent

theorem Unanswering.untaken {event : MailboxEvent} (h : event.Unanswering) :
    event.taker? = none := by
  cases h <;> rfl

theorem Ending.untaken {event : MailboxEvent} (h : event.Ending) : event.taker? = none := by
  cases h <;> rfl

end MailboxEvent

namespace Mailbox

open MailboxEvent (taker?)

def takers (m : Mailbox) : List Nat := m.journal.filterMap taker?

variable {m m' : Mailbox} {held : List Buffer} {now : Nat} {events : List MailboxEvent}

theorem takers_append (journal : m'.journal = m.journal ++ events) :
    m'.takers = m.takers ++ events.filterMap taker? := by
  rw [takers, journal, List.filterMap_append, takers]

theorem takers_of_untaken (journal : m'.journal = m.journal ++ events)
    (untaken : ∀ event ∈ events, event.taker? = none) : m'.takers = m.takers := by
  rw [takers_append journal, List.filterMap_eq_nil_iff.mpr untaken, List.append_nil]

theorem Tells.takers {calls : List Call} (h : m.Tells calls m') :
    m'.takers = m.takers ++ calls.filterMap Call.taker? := by
  obtain ⟨events, journal, told⟩ := h
  have same := congrArg (List.filterMap Exchange.taker?) told
  rw [List.filterMap_filterMap, List.filterMap_filterMap] at same
  exact (takers_append journal).trans (congrArg (m.takers ++ ·) same)

theorem verdict_untaken (m : Mailbox) (ticket : Nat) (outcome : Except Error Reply) :
    ∀ event ∈ m.verdict ticket outcome, event.taker? = none :=
  fun event mem => (verdict_ending m ticket outcome event mem).untaken

/-! ## What was acknowledged -/

structure Delivers (m : Mailbox) (index : Nat) (request : PendingRequest) (workCounter : UInt16)
    (m' : Mailbox) : Prop where
  waited : m.request? index = some request
  removes : m.Removes index m'
  counted : workCounter ≠ 0
  counter : m'.counter = m.counter.next
  journal : ∃ events, m'.journal = m.journal ++ [.stamped (some request.ticket)
      m.counter.next.last] ++ .acknowledged (some request.ticket) m.counter.next.last workCounter ::
      events ∧ ∀ event ∈ events, event.taker? = none
  flight : ∀ flight, m'.inFlight = some flight → flight = ⟨index, request, false, workCounter⟩

theorem Acknowledges.delivered {m₀ : Mailbox} {ticket : Nat} {workCounter : UInt16}
    (h : m.Acknowledges ticket workCounter m₀) (journal : m'.journal = m₀.journal ++ events)
    (untaken : ∀ event ∈ events, event.taker? = none) :
    ∃ events, m'.journal = m.journal ++ [.stamped (some ticket) m.counter.next.last] ++
        .acknowledged (some ticket) m.counter.next.last workCounter :: events ∧
      ∀ event ∈ events, event.taker? = none := by
  obtain ⟨firings, acknowledged⟩ := h
  refine ⟨firings.map MailboxEvent.fired ++ events, ?_, fun event mem => ?_⟩
  · simp [journal, acknowledged]
  · rcases List.mem_append.mp mem with mem | mem
    · obtain ⟨firing, -, rfl⟩ := List.mem_map.mp mem
      rfl
    · exact untaken event mem

theorem Delivers.takers {index : Nat} {request : PendingRequest} {workCounter : UInt16}
    (h : m.Delivers index request workCounter m') : m'.takers = m.takers ++ [request.ticket] := by
  obtain ⟨events, journal, untaken⟩ := h.journal
  rw [List.append_assoc] at journal
  rw [takers_append journal, List.singleton_append, List.filterMap_cons_none rfl,
    List.filterMap_cons, List.filterMap_eq_nil_iff.mpr untaken]
  rfl

/-- A move that is no delivery: the slave took nothing, and no request is in flight that was not
there before. -/
structure Holds (m m' : Mailbox) : Prop where
  takers : m'.takers = m.takers
  flight : ∀ flight, m'.inFlight = some flight →
    m.inFlight = some flight ∧ m'.counter = m.counter
  journal : ∃ events, m'.journal = m.journal ++ events

theorem Holds.of_untaken (journal : m'.journal = m.journal ++ events)
    (untaken : ∀ event ∈ events, event.taker? = none)
    (flight : ∀ flight, m'.inFlight = some flight →
      m.inFlight = some flight ∧ m'.counter = m.counter) : m.Holds m' :=
  ⟨takers_of_untaken journal untaken, flight, events, journal⟩

theorem Effect.holds_or_delivers (effect : Effect now m m') :
    m.Holds m' ∨ ∃ index request workCounter, m.Delivers index request workCounter m' := by
  have calm (none : m'.inFlight = none) (flight : InFlight) (flying : m'.inFlight = some flight) :
      m.inFlight = some flight ∧ m'.counter = m.counter := by
    rw [none] at flying
    cases flying
  cases effect with
  | idle events undisturbed consumed journal unanswering =>
      refine .inl (.of_untaken journal (fun event mem => (unanswering event mem).untaken) ?_)
      exact fun flight flying => ⟨undisturbed.inFlight ▸ flying, undisturbed.counter⟩
  | kept message undisturbed wanted sequenced calm consumed journal =>
      refine .inl (.of_untaken journal (by simp [MailboxEvent.taker?, MailboxEvent.exchange?,
        Exchange.taker?]) ?_)
      exact fun flight flying => ⟨undisturbed.inFlight ▸ flying, undisturbed.counter⟩
  | ended flight outcome told awaiting flying cause same none ready consumed counter journal =>
      rw [List.append_assoc] at journal
      exact .inl (.of_untaken journal (fun event mem => (cause.ending event mem).untaken)
        (calm none))
  | overdue index request ready found late removes inFlight handshake consumed counter journal =>
      refine .inl (.of_untaken journal (verdict_untaken m request.ticket _) ?_)
      exact fun flight flying => ⟨inFlight ▸ flying, counter⟩
  | returned index request stamps ready found early same none idle consumed journal stamping =>
      rw [List.append_assoc] at journal
      refine .inl (.of_untaken journal (fun event mem => ?_) (calm none))
      rcases stamping with ⟨rfl, -⟩ | ⟨rfl, -⟩
      · rw [List.mem_singleton.mp mem]
        rfl
      · rcases List.mem_pair.mp mem with rfl | rfl <;> rfl
  | sent index request workCounter ready found early removes acknowledges counter fresh expects
      counted flying awaiting =>
      have journal : m'.journal = m'.journal ++ [] := (List.append_nil _).symm
      refine .inr ⟨index, request, workCounter, found, removes, counted, counter,
        acknowledges.delivered journal (by simp), fun flight flies => ?_⟩
      rw [flying] at flies
      exact (Option.some.inj flies).symm
  | written index request workCounter m₀ ready found early removes acknowledges counter fresh
      writing counted none complete journal =>
      refine .inr ⟨index, request, workCounter, found, removes, counted, counter,
        acknowledges.delivered journal (verdict_untaken m₀ request.ticket _),
        fun flight flies => ?_⟩
      rw [none] at flies
      cases flies

theorem Effect.decided (h : m.Decided) (effect : Effect now m m') : m'.Decided := by
  cases effect with
  | idle events undisturbed consumed journal unanswering =>
      exact h.of_quiet journal fun event mem => (unanswering event mem).quiet
  | kept message undisturbed wanted sequenced calm consumed journal =>
      refine h.of_quiet journal fun event mem => ?_
      rw [List.mem_singleton.mp mem]
      exact MailboxEvent.quiet_routed message _
  | ended flight outcome told awaiting flying cause same none ready consumed counter journal =>
      exact h.of_verdict cause.quiet journal
  | overdue index request ready found late removes inFlight handshake consumed counter journal =>
      exact h.resolved journal
  | returned index request stamps ready found early same none idle consumed journal stamping =>
      rw [List.append_assoc] at journal
      exact h.of_quiet journal (quiet_of_returned (stamping.imp And.left And.left))
  | sent index request workCounter ready found early removes acknowledges counter fresh expects
      counted flying awaiting =>
      obtain ⟨events, journal, quiet⟩ := acknowledges.quiet
      exact h.of_quiet journal quiet
  | written index request workCounter m₀ ready found early removes acknowledges counter fresh
      writing counted none complete journal =>
      obtain ⟨events, before, quiet⟩ := acknowledges.quiet
      have acknowledged : m₀.Decided := h.of_quiet before quiet
      exact acknowledged.resolved journal

/-! ## The ledger -/

/-- No request is acknowledged or given an outcome twice, and a request that waits was not
acknowledged, while the one in flight was. -/
structure Ledger (m : Mailbox) : Prop where
  decided : m.Decided
  once : m.takers.Nodup
  known : ∀ ticket ∈ m.takers, ticket < m.nextTicket
  waiting : ∀ i r, m.request? i = some r → r.ticket ∉ m.takers
  flying : ∀ flight, m.inFlight = some flight →
    Exchange.took flight.request.ticket m.counter.last flight.workCounter ∈ m.exchanges

theorem Delivers.took {index : Nat} {request : PendingRequest} {workCounter : UInt16}
    (h : m.Delivers index request workCounter m') :
    Exchange.took request.ticket m.counter.next.last workCounter ∈ m'.exchanges := by
  obtain ⟨events, journal, -⟩ := h.journal
  rw [List.append_assoc] at journal
  rw [exchanges_append journal]
  exact List.mem_append_right _ (List.mem_cons_self ..)

theorem Ledger.carry (h : m.Ledger) (decided : m'.Decided) (holds : m.Holds m')
    (next : m'.nextTicket = m.nextTicket)
    (request : ∀ i r, m'.request? i = some r → m.request? i = some r) : m'.Ledger := by
  obtain ⟨takers, flight, events, journal⟩ := holds
  constructor
  case decided => exact decided
  case once => rw [takers]; exact h.once
  case known => rw [takers, next]; exact h.known
  case waiting =>
    intro i r found
    rw [takers]
    exact h.waiting i r (request i r found)
  case flying =>
    intro flying flies
    obtain ⟨old, same⟩ := flight flying flies
    rw [same, exchanges_append journal]
    exact List.mem_append_left _ (h.flying flying old)

theorem Effect.ledger (h : m.Ledger) (s : m.Sound held) (next : m'.nextTicket = m.nextTicket)
    (effect : Effect now m m') : m'.Ledger := by
  have decided := effect.decided h.decided
  rcases effect.holds_or_delivers with holds | ⟨index, request, workCounter, delivers⟩
  · exact h.carry decided holds next fun i r => effect.request
  · -- The request that was taken waited before, so it was not taken earlier.
    have waited := delivers.waited
    have takers := delivers.takers
    constructor
    case decided => exact decided
    case once =>
      rw [takers, List.nodup_append]
      refine ⟨h.once, by simp, ?_⟩
      rintro ticket mem _ last rfl
      rw [List.mem_singleton.mp last] at mem
      exact h.waiting index request waited mem
    case known =>
      intro ticket mem
      rw [next]
      rw [takers, List.mem_append, List.mem_singleton] at mem
      rcases mem with mem | rfl
      · exact h.known ticket mem
      · exact s.accounts.numbered _ (s.accounts.carried index request (.inl waited)).1
    case waiting =>
      intro i r found mem
      rw [delivers.removes] at found
      split at found
      · cases found
      case isFalse elsewhere =>
        rw [takers, List.mem_append, List.mem_singleton] at mem
        rcases mem with mem | same
        · exact h.waiting i r found mem
        · exact elsewhere (s.accounts.carries_unique (.inl waited) (.inl found) same.symm).1
    case flying =>
      intro flight flies
      rw [delivers.flight flight flies, delivers.counter]
      exact delivers.took

theorem Moves.ledger (h : m.Ledger) (s : m.Sound held) (moves : Moves now m m') : m'.Ledger := by
  induction moves with
  | refl => exact h
  | tail moves move ih =>
      have between := Moves.sound s moves
      obtain ⟨-, effect, steady⟩ := move.effect between.custody
      exact effect.ledger ih between steady.nextTicket

theorem Ledger.idles (h : m.Ledger) (idles : m.Idles m') : m'.Ledger := by
  rcases idles with untouched | ⟨g, r, withdraws⟩
  · have journal : m'.journal = m.journal ++ [] := by rw [untouched.journal, List.append_nil]
    refine h.carry (h.decided.append journal (by simp)) (.of_untaken journal (by simp) ?_)
      untouched.nextTicket fun i r found => untouched.request i ▸ found
    exact fun flight flies => ⟨untouched.inFlight ▸ flies, untouched.counter⟩
  · refine h.carry (h.decided.append withdraws.journal (by simp [outcomeOf?]))
      (.of_untaken withdraws.journal (by simp [taker?, MailboxEvent.exchange?]) ?_)
      withdraws.nextTicket fun i q found => ((withdraws.drops.request i q).mp found).1
    exact fun flight flies => ⟨((withdraws.drops.inFlight flight).mp flies).1, withdraws.counter⟩

theorem Ledger.dismisses (h : m.Ledger) (dismisses : m.Dismisses m') (shut : m'.Shut) :
    m'.Ledger := by
  obtain ⟨events, journal, dismissed⟩ := dismisses.journal
  refine h.carry (dismisses.decided h.decided)
    (.of_untaken journal (fun event mem => ?_) fun flight flies => ?_) dismisses.nextTicket
    dismisses.request
  · obtain ⟨i, r, -, rfl⟩ := dismissed event mem
    rfl
  · rw [shut.calm] at flies
    cases flies

theorem Ledger.lodge {b : Buffer} {sendQueues : ProtocolQueues} (h : m.Ledger)
    (s : m.Sound (b :: held)) (expectsResponse : Bool) (deadline : Nat) :
    (m.lodge sendQueues b expectsResponse deadline).Ledger := by
  have journal : (m.lodge sendQueues b expectsResponse deadline).journal = m.journal ++
      [.enqueued b.index ⟨m.nextTicket, expectsResponse, deadline⟩] := rfl
  have takers := takers_of_untaken journal (by simp [taker?, MailboxEvent.exchange?])
  constructor
  case decided => exact h.decided.append journal (by simp [outcomeOf?])
  case once => rw [takers]; exact h.once
  case known =>
    intro ticket mem
    rw [takers] at mem
    exact Nat.lt_succ_of_lt (h.known ticket mem)
  case waiting =>
    intro i r found mem
    rw [takers] at mem
    rw [request?_lodge s.custody.index_lt] at found
    split at found
    · cases found
      exact Nat.lt_irrefl _ (h.known _ mem)
    · exact h.waiting i r found mem
  case flying =>
    intro flight flies
    rw [exchanges_append journal]
    exact List.mem_append_left _ (h.flying flight flies)

theorem Undergoes.ledger {sight : Sight} (h : m.Ledger) (state : m.Sound held ∨ m.closed = true)
    (undergoes : m.Undergoes sight m') : m'.Ledger := by
  cases undergoes with
  | turn d device now =>
      rcases state with sound | closed
      · exact (turn_moves d now m device).ledger h sound
      · rwa [Mailbox.turn, if_pos closed]
  | queue expectsResponse deadline sound => exact h.lodge sound expectsResponse deadline
  | close dismisses shut => exact h.dismisses dismisses shut
  | aside idles => exact h.idles idles

theorem ledger_create (slave : SlaveConfig) (config : Config) (sendId receiveId : Nat) :
    (create slave config sendId receiveId).Ledger where
  decided ticket := Nat.zero_le 1
  once := List.nodup_nil
  known := List.forall_mem_nil _
  waiting i r _ := List.not_mem_nil
  flying flight flies := by cases flies

end Mailbox

theorem Session.Traced.ledger {s : Session} {trace : List Sight} (traced : Traced trace s) :
    s.mailbox.Ledger := by
  induction traced with
  | start slave config sendId receiveId =>
      exact Mailbox.ledger_create slave config sendId receiveId
  | step traced shown ih =>
      exact (shown.undergoes traced.reachable).ledger ih traced.reachable.sound_or_closed

theorem Session.Traced.takers {s : Session} {trace : List Sight} (traced : Traced trace s) :
    s.mailbox.takers = (callsOf trace).filterMap Call.taker? := by
  have same := congrArg (List.filterMap Exchange.taker?) traced.told
  rwa [Mailbox.exchanges, List.filterMap_filterMap, List.filterMap_filterMap] at same

end Fieldbus
