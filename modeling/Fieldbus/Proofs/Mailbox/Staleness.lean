import Fieldbus.Proofs.Mailbox.Reception
import Mathlib.Data.List.Induction

/-!
# Stale replies

A message with a counter is accepted only if that counter was stamped last and no such message was
accepted since. Every other one is dropped. So there is at most one reply between two stamps, and a
request is answered by no message but a reply.
-/

namespace Fieldbus

namespace MailboxEvent

def isStamp : MailboxEvent → Bool
  | .stamped .. => true
  | _ => false

/-- A message with a counter was accepted. -/
def isReply : MailboxEvent → Bool
  | .routed message fate =>
      fate.accepted && message.header.counter != SequenceCounter.unsequenced
  | _ => false

def kept? (p : Protocol) : MailboxEvent → Option Message
  | .routed message .queued => if message.header.protocol = p then some message else none
  | _ => none

def Inner : MailboxEvent → Prop
  | .stamped .. => False
  | .routed _ fate => fate.accepted = false
  | .resolved _ outcome => outcome.toOption.bind Reply.message? = none
  | _ => True

variable {event : MailboxEvent}

theorem Inner.not_isStamp (h : event.Inner) : event.isStamp = false := by
  cases event with
  | stamped ticket counter => exact h.elim
  | _ => rfl

theorem Inner.not_isReply (h : event.Inner) : event.isReply = false := by
  cases event with
  | routed message fate =>
      have refused : fate.accepted = false := h
      simp [isReply, refused]
  | _ => rfl

theorem Inner.not_kept (h : event.Inner) (p : Protocol) : event.kept? p = none := by
  cases event with
  | routed message fate =>
      cases fate with
      | queued => cases h
      | _ => rfl
  | _ => rfl

end MailboxEvent

open MailboxEvent (isStamp isReply kept?)

/-- The counter was stamped last, and since then no message with a counter was accepted. -/
def Awaiting (counter : UInt8) (events : List MailboxEvent) : Prop :=
  ∃ before ticket after, events = before ++ .stamped ticket counter :: after ∧
    ∀ event ∈ after, event.isStamp = false ∧ event.isReply = false

def Solicited (events : List MailboxEvent) : Prop :=
  ∀ before message fate after, events = before ++ .routed message fate :: after →
    isReply (.routed message fate) = true → Awaiting message.header.counter before

theorem Awaiting.append {counter : UInt8} {events more : List MailboxEvent}
    (h : Awaiting counter events)
    (silent : ∀ event ∈ more, event.isStamp = false ∧ event.isReply = false) :
    Awaiting counter (events ++ more) := by
  obtain ⟨before, ticket, after, rfl, quiet⟩ := h
  refine ⟨before, ticket, after ++ more, by simp, fun event mem => ?_⟩
  rcases List.mem_append.mp mem with old | new
  · exact quiet event old
  · exact silent event new

theorem Solicited.append {events more : List MailboxEvent} (h : Solicited events)
    (new : ∀ before message fate after, more = before ++ .routed message fate :: after →
      isReply (.routed message fate) = true →
      Awaiting message.header.counter (events ++ before)) : Solicited (events ++ more) := by
  intro before message fate after eq reply
  rcases List.append_eq_append_iff.mp eq with ⟨begun, rfl, split⟩ | ⟨between, split, rest⟩
  · exact new begun message fate after split reply
  · cases between with
    | nil =>
        rw [List.append_nil] at split
        have first := new [] message fate after rest.symm reply
        rwa [List.append_nil, split] at first
    | cons event between =>
        obtain ⟨rfl, -⟩ := List.cons_eq_cons.mp rest
        exact h before message fate between split reply

theorem Solicited.append_silent {events more : List MailboxEvent} (h : Solicited events)
    (silent : ∀ event ∈ more, event.isReply = false) : Solicited (events ++ more) := by
  refine h.append fun before message fate after eq reply => ?_
  rw [silent _ (by rw [eq]; simp)] at reply
  cases reply

theorem Solicited.append_reply {events more : List MailboxEvent} {message : Message} {fate : Fate}
    (h : Solicited events) (awaiting : Awaiting message.header.counter events)
    (silent : ∀ event ∈ more, event.isReply = false) :
    Solicited (events ++ .routed message fate :: more) := by
  have first : Solicited (events ++ [.routed message fate]) := by
    refine h.append fun before other fate' after eq _ => ?_
    obtain ⟨rfl, same⟩ | ⟨-, rest⟩ := List.singleton_eq_append_iff.mp eq
    · obtain ⟨⟨rfl, -⟩, -⟩ := by simpa using same
      rwa [List.append_nil]
    · cases rest
  rw [List.append_cons]
  exact first.append_silent silent

theorem Awaiting.countP_eq_zero {counter : UInt8} {before between : List MailboxEvent}
    (h : Awaiting counter (before ++ between))
    (unstamped : ∀ event ∈ between, event.isStamp = false) : between.countP isReply = 0 := by
  obtain ⟨start, ticket, rest, eq, silent⟩ := h
  have quiet : ∀ event ∈ between, event ∈ rest := by
    rcases List.append_eq_append_iff.mp eq with ⟨begun, -, split⟩ | ⟨more, -, split⟩
    · have stamped := unstamped (.stamped ticket counter) (by rw [split]; simp)
      cases stamped
    · cases more with
      | nil =>
          have same : .stamped ticket counter :: rest = between := split
          have stamped := unstamped (.stamped ticket counter) (by rw [← same]; simp)
          cases stamped
      | cons event more =>
          obtain ⟨-, rfl⟩ := List.cons_eq_cons.mp split
          exact fun event mem => List.mem_append_right _ mem
  rw [List.countP_eq_zero]
  intro event mem
  simp [(silent event (quiet event mem)).2]

theorem Solicited.once {before between after : List MailboxEvent}
    (h : Solicited (before ++ between ++ after))
    (unstamped : ∀ event ∈ between, event.isStamp = false) : between.countP isReply ≤ 1 := by
  induction between using List.reverseRecOn generalizing after with
  | nil => simp
  | append_singleton between event ih =>
      have earlier : ∀ event ∈ between, event.isStamp = false := fun event mem =>
        unstamped event (List.mem_append_left _ mem)
      have fewer : between.countP isReply ≤ 1 := by
        refine ih (?_ : Solicited (before ++ between ++ event :: after)) earlier
        simpa using h
      rw [List.countP_append]
      cases reply : event.isReply with
      | false => simpa [reply] using fewer
      | true =>
          cases event with
          | routed message fate =>
              have awaiting := h (before ++ between) message fate after (by simp) reply
              simp [awaiting.countP_eq_zero earlier, reply]
          | _ => cases reply

namespace Mailbox

variable {m m' : Mailbox} {held : List Buffer} {c : Buffer} {message : Message} {x y : Moment}

/-! ## What a beat records -/

/-- Nothing is stamped or accepted, a reply that was no longer wanted is not wanted again, and from
the receive queues callers at most took something. -/
structure Aside (m m' : Mailbox) : Prop where
  journal : ∃ events, m'.journal = m.journal ++ events ∧ ∀ event ∈ events, event.Inner
  counter : m'.counter = m.counter
  consumed : m.consumed = true → m'.consumed = true
  entries : ∀ p, m'.receiveQueues.entries p <:+ m.receiveQueues.entries p

theorem Aside.of_same (journal : m'.journal = m.journal) (counter : m'.counter = m.counter)
    (consumed : m.consumed = true → m'.consumed = true)
    (entries : ∀ p, m'.receiveQueues.entries p <:+ m.receiveQueues.entries p) : m.Aside m' :=
  ⟨⟨[], by rw [journal, List.append_nil], by simp⟩, counter, consumed, entries⟩

theorem Discards.aside {event : MailboxEvent} (discards : m.Discards c event m')
    (inner : event.Inner) : m.Aside m' := by
  obtain ⟨statistics, rfl⟩ := discards.rest
  refine ⟨⟨[event], rfl, ?_⟩, rfl, id, fun p => List.suffix_rfl⟩
  simpa using inner

/-- What a beat does, as far as it matters to replies. -/
inductive Records (m m' : Mailbox) : Prop
  | aside : m.Aside m' → Records m m'
  | stamps (b : Buffer) : m' = (m.stamp b).2 → Records m m'
  | queues (c : Buffer) (message : Message) : Message.decode? c.contents = .ok message →
      (message.header.counter ≠ SequenceCounter.unsequenced → m.Wanted message) →
      m.Queues c message m' → Records m m'
  | answers (c : Buffer) (message : Message) (flight : InFlight) :
      message.header.counter ≠ SequenceCounter.unsequenced → m.Wanted message →
      m.Answers c message flight m' → Records m m'

theorem route_records (orderly : Orderly ⟨m, c :: held⟩) : m.Records (m.route c) := by
  rcases decoded : Message.decode? c.contents with cause | message
  · exact .aside ((route_discards orderly.stocked decoded).aside trivial)
  · have treats := route_treats orderly.stocked orderly.undecided decoded
    generalize m.fate message = fate at treats
    cases treats with
    | dropped fate refused discards => exact .aside (discards.aside refused)
    | queued wanted queues => exact .queues c message decoded wanted queues
    | answered flight sequenced wanted answers =>
        exact .answers c message flight sequenced wanted answers

theorem Beat.records (orderly : Orderly x) (beat : Beat x y) : x.mailbox.Records y.mailbox := by
  cases beat with
  | shuffle held shuffles =>
      refine .aside (.of_same shuffles.journal shuffles.counter shuffles.consumed fun p => ?_)
      simp [shuffles.receiveQueues]
  | @note m held event remark =>
      refine .aside ⟨⟨[event], rfl, ?_⟩, rfl, id, fun p => List.suffix_rfl⟩
      cases remark <;> simp [MailboxEvent.Inner]
  | @finish m m₀ held place r outcome unanswered here shuffles gone =>
      rw [resolve_eq]
      refine .aside ⟨⟨m₀.verdict r.ticket outcome, congrArg (· ++ _) shuffles.journal, ?_⟩,
        shuffles.counter, shuffles.consumed, fun p => ?_⟩
      · unfold verdict
        split
        · simp
        · simpa [MailboxEvent.Inner] using unanswered
      · change m₀.receiveQueues.entries p <:+ m.receiveQueues.entries p
        simp [shuffles.receiveQueues]
  | lodge m held sendQueues b expectsResponse deadline =>
      exact .aside ⟨⟨_, rfl, by simp [MailboxEvent.Inner]⟩, rfl, id, fun p => List.suffix_rfl⟩
  | stamp m held b => exact .stamps b rfl
  | take held taken => exact .aside (.of_same rfl rfl id fun p => List.suffix_rfl)
  | fill m held index owner => exact .aside (.of_same rfl rfl id fun p => List.suffix_rfl)
  | spare m held b => exact .aside (.of_same rfl rfl id fun p => List.suffix_rfl)
  | route m held b => exact route_records orderly
  | @pop m held p b receiveQueues popped =>
      refine .aside (.of_same rfl rfl id fun q => ?_)
      change receiveQueues.entries q <:+ m.receiveQueues.entries q
      rw [(orderly.stocked.pop popped).1]
      by_cases other : q = p
      · subst other
        simp
      · simp [Function.update_of_ne other]
  | drain m held closed =>
      refine .aside (.of_same rfl rfl id fun p => ?_)
      change m.receiveQueues.drain.2.entries p <:+ m.receiveQueues.entries p
      rw [(orderly.stocked.drain closed).1 p]
      exact List.nil_suffix

/-! ## The messages that were accepted -/

/-- What waits for callers, oldest first. -/
def waiting (m : Mailbox) (p : Protocol) : List (Except Error Message) :=
  (m.receiveQueues.entries p).map fun b => Message.decode? b.contents

/-- The messages of a protocol that were put into its receive queue so far. -/
def kept (m : Mailbox) (p : Protocol) : List Message := m.journal.filterMap (kept? p)

/-- No stale reply was accepted so far, and nothing but replies answered requests. -/
structure Filtered (m : Mailbox) : Prop where
  solicited : Solicited m.journal
  awaiting : m.consumed = false → Awaiting m.counter.last m.journal
  sequenced : ∀ message ticket, .routed message (.answered ticket) ∈ m.journal →
    message.header.counter ≠ SequenceCounter.unsequenced
  responses : ∀ ticket workCounter message,
    .resolved ticket (.ok (.response workCounter message)) ∈ m.journal →
      .routed message (.answered ticket) ∈ m.journal
  waiting : ∀ p, m.waiting p <:+ (m.kept p).map .ok

theorem filtered_create (slave : SlaveConfig) (config : Config) (sendId receiveId : Nat) :
    (create slave config sendId receiveId).Filtered where
  solicited before message fate after eq := by simp [create] at eq
  awaiting fresh := by cases fresh
  sequenced _ _ mem := by cases mem
  responses _ _ _ mem := by cases mem
  waiting p := by
    rw [Mailbox.waiting, create, ProtocolQueues.entries_empty]
    exact List.nil_suffix

theorem kept_append {events : List MailboxEvent} (journal : m'.journal = m.journal ++ events)
    (p : Protocol) : m'.kept p = m.kept p ++ events.filterMap (kept? p) := by
  rw [kept, journal, List.filterMap_append, kept]

theorem Aside.filtered (h : m.Filtered) (aside : m.Aside m') : m'.Filtered := by
  obtain ⟨events, journal, inner⟩ := aside.journal
  constructor
  case solicited =>
    rw [journal]
    exact h.solicited.append_silent fun event mem => (inner event mem).not_isReply
  case awaiting =>
    intro fresh
    rw [journal, aside.counter]
    refine (h.awaiting ?_).append fun event mem =>
      ⟨(inner event mem).not_isStamp, (inner event mem).not_isReply⟩
    by_contra used
    rw [aside.consumed (by simpa using used)] at fresh
    cases fresh
  case sequenced =>
    intro message ticket mem
    rw [journal, List.mem_append] at mem
    rcases mem with old | new
    · exact h.sequenced message ticket old
    · cases inner _ new
  case responses =>
    intro ticket workCounter message mem
    rw [journal, List.mem_append] at mem ⊢
    rcases mem with old | new
    · exact .inl (h.responses ticket workCounter message old)
    · cases inner _ new
  case waiting =>
    intro p
    have none : events.filterMap (kept? p) = [] := by
      rw [List.filterMap_eq_nil_iff]
      exact fun event mem => (inner event mem).not_kept p
    rw [kept_append journal, none, List.append_nil]
    exact ((aside.entries p).map _).trans (h.waiting p)

theorem Filtered.stamp (h : m.Filtered) (b : Buffer) : (m.stamp b).2.Filtered := by
  have journal : (m.stamp b).2.journal =
    m.journal ++ [.stamped m.flightTicket m.counter.next.last] := rfl
  constructor
  case solicited =>
    rw [journal]
    exact h.solicited.append_silent (by simp [isReply])
  case awaiting => exact fun _ => ⟨m.journal, m.flightTicket, [], rfl, by simp⟩
  case sequenced =>
    intro message ticket mem
    exact h.sequenced message ticket (by simpa [journal] using mem)
  case responses =>
    intro ticket workCounter message mem
    have old := h.responses ticket workCounter message (by simpa [journal] using mem)
    simp [journal, old]
  case waiting =>
    intro p
    have same : (m.stamp b).2.kept p = m.kept p := by simp [kept_append journal, kept?]
    rw [same]
    exact h.waiting p

theorem Queues.filtered (h : m.Filtered) (decoded : Message.decode? c.contents = .ok message)
    (wanted : message.header.counter ≠ SequenceCounter.unsequenced → m.Wanted message)
    (queues : m.Queues c message m') : m'.Filtered := by
  obtain ⟨receiveQueues, statistics, rfl⟩ := queues.rest
  have entries : receiveQueues.entries = _ := queues.entries
  constructor
  case solicited =>
    by_cases sequenced : message.header.counter = SequenceCounter.unsequenced
    · exact h.solicited.append_silent (by simp [isReply, sequenced])
    · have awaiting := h.awaiting (wanted sequenced).1
      rw [← last_of_wanted (wanted sequenced)] at awaiting
      exact h.solicited.append_reply awaiting (by simp)
  case awaiting =>
    intro fresh
    simp only [Bool.or_eq_false_iff, bne_eq_false_iff_eq] at fresh
    exact (h.awaiting fresh.1).append (by simp [isStamp, isReply, fresh.2])
  case sequenced =>
    intro other ticket mem
    exact h.sequenced other ticket (by simpa using mem)
  case responses =>
    intro ticket workCounter other mem
    have old := h.responses ticket workCounter other (by simpa using mem)
    simp [old]
  case waiting =>
    intro p
    rw [kept_append rfl, List.map_append, waiting]
    dsimp only
    rw [entries]
    by_cases same : message.header.protocol = p
    · subst same
      obtain ⟨gone, split⟩ := h.waiting message.header.protocol
      exact ⟨gone, by simp [← split, waiting, kept?, decoded]⟩
    · rw [Function.update_of_ne (Ne.symm same)]
      simpa [kept?, same, waiting] using h.waiting p

theorem Answers.filtered {flight : InFlight} (h : m.Filtered)
    (sequenced : message.header.counter ≠ SequenceCounter.unsequenced) (wanted : m.Wanted message)
    (answers : m.Answers c message flight m') : m'.Filtered := by
  obtain ⟨statistics, rfl⟩ := answers.rest
  have awaiting := h.awaiting wanted.1
  rw [← last_of_wanted wanted] at awaiting
  constructor
  case solicited => exact h.solicited.append_reply awaiting (by simp [isReply])
  case awaiting => nofun
  case sequenced =>
    intro other ticket mem
    simp only [List.mem_append, List.mem_cons, List.not_mem_nil, or_false,
      MailboxEvent.routed.injEq, reduceCtorEq] at mem
    rcases mem with old | ⟨rfl, -⟩
    · exact h.sequenced other ticket old
    · exact sequenced
  case responses =>
    intro ticket workCounter other mem
    simp only [List.mem_append, List.mem_cons, List.not_mem_nil, or_false, false_or,
      MailboxEvent.resolved.injEq, reduceCtorEq, Except.ok.injEq, Reply.response.injEq] at mem
    rcases mem with old | ⟨rfl, -, rfl⟩
    · exact List.mem_append_left _ (h.responses ticket workCounter other old)
    · simp
  case waiting =>
    intro p
    have same : [MailboxEvent.routed message (.answered flight.request.ticket),
        .resolved flight.request.ticket (.ok (.response flight.workCounter message))].filterMap
        (kept? p) = [] := rfl
    rw [kept_append rfl, same, List.append_nil]
    exact h.waiting p

theorem Records.filtered (h : m.Filtered) (records : m.Records m') : m'.Filtered := by
  cases records with
  | aside aside => exact aside.filtered h
  | stamps b eq =>
      rw [eq]
      exact h.stamp b
  | queues c message decoded wanted queues => exact queues.filtered h decoded wanted
  | answers c message flight sequenced wanted answers =>
      exact answers.filtered h sequenced wanted

theorem Beats.filtered (orderly : Orderly x) (h : x.mailbox.Filtered) (beats : Beats x y) :
    y.mailbox.Filtered := by
  induction beats with
  | refl => exact h
  | tail before beat ih => exact (beat.records (Beats.orderly orderly before)).filtered ih

/-- No stale reply was ever accepted, between two stamps at most one reply was, and whatever a turn
takes out of the read slot answers the request in flight, waits for callers or leaves nothing
behind, also where callers act during the turn. -/
theorem replies_filtered {m₀ : Mailbox} (reached : m₀.Reached) : m₀.Filtered ∧
    (∀ before between after, m₀.journal = before ++ between ++ after →
      (∀ event ∈ between, event.isStamp = false) → between.countP isReply ≤ 1) ∧
    ∀ {σ : Type} {t : Transport σ} {now : Nat} {m : Mailbox} {s : σ}, t.Within Acts →
      m₀.Polling t now m s → (readOne t m s).1 = .ok true →
      ∃ m₁ c, t.inbound? m s = some (m₁, c) ∧
        (∀ cause, Message.decode? c.contents = .error cause →
          m₁.Discards c (.garbled c.contents) (readOne t m s).2.1) ∧
        ∀ message, Message.decode? c.contents = .ok message →
          m₁.Treats c message (readOne t m s).2.1 (m₁.fate message) := by
  obtain ⟨slave, config, sendId, receiveId, beats⟩ := reached.beats
  have created := orderly_create slave config sendId receiveId
  have filtered := beats.filtered created (filtered_create slave config sendId receiveId)
  refine ⟨filtered, fun before between after eq unstamped => ?_,
    fun {σ t now m s} within polling taken => ?_⟩
  · have solicited := filtered.solicited
    rw [eq] at solicited
    exact solicited.once unstamped
  · have led := within.mono fun _ _ => Acts.leads
    rcases readOne_cases led [] m s with ⟨-, empty, -⟩ | ⟨m₁, c, inbound, -, read, eq⟩
    · exact absurd taken empty
    · have orderly := Beats.orderly created ((beats.trans (polling.beats led)).trans read)
      rw [eq]
      exact ⟨m₁, c, inbound, fun cause => route_discards orderly.stocked,
        fun message => route_treats orderly.stocked orderly.undecided⟩

/-! ## A reply that comes too late -/

/-- A slave whose message is read while the caller gives up. -/
def deserted (h : Handle) (message : Message) : Transport Unit where
  slotState _ m s := (.ok .full, m, s)
  write _ m s := (.ok 0, m, s)
  read _ m s := ((.ok 1, message.encode), (m.settle h).2, s)

theorem deserted_within (h : Handle) (message : Message) : (deserted h message).Within Acts :=
  ⟨fun _ _ _ => .refl, fun _ _ _ => .refl, fun _ m _ => .single (.wait m h)⟩

def asking : Session :=
  ⟨((Session.cramped.submit .coe 0x1001 [1] true 1000000).2.turn Session.mute.transport 0 ()).2.1,
    [], [⟨0, 0, 1000000⟩]⟩

theorem reachable_asking : asking.Reachable := by
  have start : Session.Reachable ⟨Session.cramped, [], []⟩ := Session.reachable_start _ _ _ _
  have first := Session.submit_reachable start (by decide +kernel :
    (Session.cramped.submit .coe 0x1001 [1] true 1000000).1.toOption = some ⟨0, 0, 1000000⟩)
  exact first.run (.single (.turn Session.mute () 0))

/-- The reply bears the counter stamped last, and is stale since its request was given up. -/
theorem replies_filtered_asking : ∃ m₁ c,
    (deserted ⟨0, 0, 1000000⟩ Session.lateReply).inbound? (Session.polled asking 10000) () =
      some (m₁, c) ∧ m₁.counter.last = Session.lateReply.header.counter ∧
    m₁.Discards c (.routed Session.lateReply .stale) (readOne
      (deserted ⟨0, 0, 1000000⟩ Session.lateReply) (Session.polled asking 10000) ()).2.1 := by
  have polling : asking.mailbox.Polling (deserted ⟨0, 0, 1000000⟩ Session.lateReply) 10000
      (Session.polled asking 10000) () := .first () (by decide +kernel) (by decide +kernel)
  have seen : ((deserted ⟨0, 0, 1000000⟩ Session.lateReply).inbound?
      (Session.polled asking 10000) ()).map (fun x => ((Message.decode? x.2.contents).toOption,
        x.1.fate Session.lateReply, x.1.counter.last)) =
      some (some Session.lateReply, .stale, 1) := by decide +kernel
  obtain ⟨m₁, c, inbound, -, treats⟩ := (replies_filtered reachable_asking.reached).2.2
    (deserted_within _ _) polling (by rfl)
  rw [inbound] at seen
  simp only [Option.map_some, Option.some.injEq, Prod.mk.injEq] at seen
  obtain ⟨decoded, stale, last⟩ := seen
  have dropped := treats Session.lateReply (message_of_toOption decoded)
  rw [stale] at dropped
  cases dropped with
  | dropped _ _ discards => exact ⟨m₁, c, inbound, last, discards⟩

end Mailbox

end Fieldbus
