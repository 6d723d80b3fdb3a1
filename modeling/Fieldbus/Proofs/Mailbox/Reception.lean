import Fieldbus.Proofs.Mailbox.Delivery
import Fieldbus.Proofs.Mailbox.Interleaving

/-!
# Messages that are read at any moment

At every moment, also during a turn, the requests that the mailbox knows are undecided, and every
receive buffer is in its place. So a message that was read answers the request in flight, is put
into the receive queue of its protocol, or is dropped and leaves nothing behind.
-/

namespace Fieldbus.Mailbox

variable {m m' : Mailbox} {held : List Buffer} {b c : Buffer} {x y : Moment}

/-! ## Undecided requests -/

/-- No request that the mailbox knows has an outcome yet, and each is in one place. -/
structure Undecided (m : Mailbox) : Prop where
  fresh : ∀ ticket, m.nextTicket ≤ ticket → m.outcome? ticket = none
  pending : ∀ place r, m.tracked place = some r →
    r.ticket < m.nextTicket ∧ m.outcome? r.ticket = none
  apart : ∀ place other r q, m.tracked place = some r → m.tracked other = some q →
    r.ticket = q.ticket → place = other

namespace Undecided

theorem shuffle {places : Equiv.Perm (Option Nat)} (h : m.Undecided)
    (shuffles : m.Shuffles places m') : m'.Undecided := by
  have outcome (ticket : Nat) : m'.outcome? ticket = m.outcome? ticket := by
    rw [outcome?, shuffles.journal, outcome?]
  constructor
  case fresh =>
    intro ticket old
    rw [outcome]
    exact h.fresh ticket (shuffles.nextTicket ▸ old)
  case pending =>
    intro place r here
    rw [outcome, shuffles.nextTicket]
    exact h.pending _ r (shuffles.tracked place r here)
  case apart =>
    intro place other r q here there same
    have eq := h.apart _ _ r q (shuffles.tracked place r here) (shuffles.tracked other q there) same
    exact places.injective eq

theorem congr (h : m.Undecided) (tracked : m'.tracked = m.tracked)
    (outcome : ∀ ticket, m'.outcome? ticket = m.outcome? ticket)
    (next : m'.nextTicket = m.nextTicket) : m'.Undecided := by
  constructor
  case fresh => simpa only [outcome, next] using h.fresh
  case pending => simpa only [tracked, outcome, next] using h.pending
  case apart => simpa only [tracked] using h.apart

theorem ended {ticket : Nat} (h : m.Undecided) (known : ticket < m.nextTicket)
    (less : ∀ place r, m'.tracked place = some r →
      m.tracked place = some r ∧ r.ticket ≠ ticket)
    (others : ∀ other, other ≠ ticket → m'.outcome? other = m.outcome? other)
    (next : m'.nextTicket = m.nextTicket) : m'.Undecided := by
  constructor
  case fresh =>
    intro other old
    rw [next] at old
    rw [others other (by omega)]
    exact h.fresh other old
  case pending =>
    intro place r here
    obtain ⟨before, other⟩ := less place r here
    rw [others r.ticket other, next]
    exact h.pending place r before
  case apart =>
    intro place other r q here there
    exact h.apart place other r q (less place r here).1 (less other q there).1

theorem finish {m₀ : Mailbox} {place : Option Nat} {r : PendingRequest} (h : m.Undecided)
    (here : m.tracked place = some r) (shuffles : m.Shuffles (.refl _) m₀)
    (gone : m₀.tracked place = none) (outcome : Except Error Reply) :
    (m₀.resolve r.ticket outcome).Undecided := by
  rw [resolve_eq]
  have resolves : m.Resolves r.ticket outcome
      { m₀ with journal := m₀.journal ++ m₀.verdict r.ticket outcome } :=
    .of_verdict (.of_journal shuffles.journal) rfl
  refine h.ended (h.pending place r here).1 (fun other q there => ?_) resolves.others
    shuffles.nextTicket
  have before := shuffles.tracked other q there
  refine ⟨before, fun same => ?_⟩
  have eq : other = place := h.apart other place q r before here same
  rw [eq] at there
  exact absurd (gone.symm.trans there) (by simp)

theorem lodge (h : m.Undecided) (sendQueues : ProtocolQueues) (b : Buffer) (expectsResponse : Bool)
    (deadline : Nat) : (m.lodge sendQueues b expectsResponse deadline).Undecided := by
  have origin (place : Option Nat) (r : PendingRequest)
      (here : (m.lodge sendQueues b expectsResponse deadline).tracked place = some r) :
      place = some b.index ∧ r.ticket = m.nextTicket ∨ m.tracked place = some r := by
    cases place with
    | none => exact .inr here
    | some i =>
        rcases request?_setRequest_eq_some here with ⟨rfl, eq⟩ | ⟨-, waits⟩
        · cases eq
          exact .inl ⟨rfl, rfl⟩
        · exact .inr waits
  have next : (m.lodge sendQueues b expectsResponse deadline).nextTicket = m.nextTicket + 1 := rfl
  constructor
  case fresh =>
    intro ticket old
    rw [outcome?_lodge]
    exact h.fresh ticket (by omega)
  case pending =>
    intro place r here
    rw [outcome?_lodge, next]
    rcases origin place r here with ⟨-, new⟩ | old
    · exact ⟨by omega, h.fresh _ (by omega)⟩
    · exact ⟨by have := (h.pending place r old).1; omega, (h.pending place r old).2⟩
  case apart =>
    intro place other r q here there same
    rcases origin place r here with ⟨rfl, new⟩ | old <;>
      rcases origin other q there with ⟨rfl, new'⟩ | old'
    · rfl
    · have := (h.pending other q old').1
      omega
    · have := (h.pending place r old).1
      omega
    · exact h.apart place other r q old old' same

end Undecided

/-! ## Receive buffers -/

/-- Every receive buffer is in its place, `held` among them. A pool that was closed is one that was
open before. -/
def Stocked (m : Mailbox) (held : List Buffer) : Prop :=
  ∃ pool, Stock pool m.receiveQueues held ∧ (m.receivePool.closed = false → m.receivePool = pool)

namespace Stocked

theorem congr (h : m.Stocked held) (pool : m'.receivePool = m.receivePool)
    (queues : m'.receiveQueues = m.receiveQueues) : m'.Stocked held := by
  unfold Stocked
  rwa [pool, queues]

theorem take {receivePool : Pool} (h : m.Stocked held)
    (take : m.receivePool.take? = .ok (b, receivePool)) :
    { m with receivePool }.Stocked (b :: held) := by
  obtain ⟨pool, stock, same⟩ := h
  have opened : m.receivePool.closed = false := by
    by_contra closed
    rw [Pool.take?, if_pos (by simpa using closed)] at take
    cases take
  rw [same opened] at take
  exact ⟨receivePool, stock.take take, fun _ => rfl⟩

theorem fill (h : m.Stocked (b :: held)) (index : c.index = b.index) (owner : c.pool = b.pool) :
    m.Stocked (c :: held) := by
  obtain ⟨pool, stock, same⟩ := h
  exact ⟨pool, stock.change index owner, same⟩

theorem back (h : m.Stocked (b :: held)) (opened : m.receivePool.closed = false) :
    (m.receivePool.put b).idle = m.receivePool.idle ++ [b.retire] := by
  obtain ⟨pool, stock, same⟩ := h
  rw [same opened]
  have lends := stock.lends
  exact (lends.sound.put lends.opened (lends.owned b List.mem_cons_self) stock.bound
    stock.not_mem_idle).2.1

theorem put (h : m.Stocked (b :: held)) : (m.putReceive b).Stocked held := by
  obtain ⟨pool, stock, same⟩ := h
  refine ⟨pool.put b, stock.put, fun opened => ?_⟩
  cases closed : m.receivePool.closed with
  | true =>
      rw [putReceive, Pool.put_closed b closed, closed] at opened
      cases opened
  | false => rw [putReceive, same closed]

theorem pop {p : Protocol} {receiveQueues : ProtocolQueues} (h : m.Stocked held)
    (pop : m.receiveQueues.pop? p = some (b, receiveQueues)) :
    m.receiveQueues.entries = Function.update receiveQueues.entries p
        (b :: receiveQueues.entries p) ∧
      ({ m with receiveQueues }.putReceive b).Stocked held := by
  obtain ⟨pool, stock, same⟩ := h
  obtain ⟨rest, entries, becomes⟩ := stock.queued.pop? pop
  have front : m.receiveQueues.entries p = [] ++ b :: rest := entries
  have dequeued : Stock pool receiveQueues (b :: held) := stock.dequeue front becomes
  refine ⟨?_, put (m := { m with receiveQueues }) ⟨pool, dequeued, same⟩⟩
  rw [becomes.entries]
  simp [entries]

theorem push (h : m.Stocked (b :: held)) (p : Protocol) :
    ∃ receiveQueues, m.pushReceived p b = { m with receiveQueues } ∧
      receiveQueues.entries = Function.update m.receiveQueues.entries p
        (m.receiveQueues.entries p ++ [b]) ∧ { m with receiveQueues }.Stocked held := by
  obtain ⟨pool, stock, same⟩ := h
  obtain ⟨queues, push, becomes, stock⟩ := stock.pushBack? p
  exact ⟨queues, by rw [pushReceived, push], becomes.entries, pool, stock, same⟩

theorem drain {receivePool : Pool} (h : m.Stocked held) (closed : receivePool.closed = true) :
    (∀ p, m.receiveQueues.drain.2.entries p = []) ∧
      { m with receiveQueues := m.receiveQueues.drain.2, receivePool }.Stocked held := by
  obtain ⟨pool, stock, -⟩ := h
  obtain ⟨-, sound, emptied⟩ := stock.queued.drain
  have all : ∀ p, m.receiveQueues.drain.2.entries p = [] := fun p =>
    List.flatMap_eq_nil_iff.mp emptied p (Protocol.mem_all p)
  have drained : Stock pool m.receiveQueues.drain.2 (m.receiveQueues.everything ++ held) := by
    refine ⟨stock.opened, stock.sound, sound, fun b mem => ?_, ?_⟩
    · rw [emptied, List.append_nil, List.mem_append, or_comm, ← List.mem_append] at mem
      exact stock.owned b mem
    · rw [emptied, List.append_nil]
      refine .trans ?_ stock.once
      rw [List.append_assoc]
      exact (List.perm_append_comm.append_left _).map _
  obtain ⟨pool', returned⟩ := drained.returned
  refine ⟨all, pool', returned, fun opened => ?_⟩
  rw [closed] at opened
  cases opened

end Stocked

/-! ## Treatment -/

/-- The buffer goes back, and but for the journal and the statistics nothing else changes. -/
structure Discards (m : Mailbox) (c : Buffer) (event : MailboxEvent) (m' : Mailbox) : Prop where
  rest : ∃ statistics, m' = { m with
    receivePool := m.receivePool.put c
    journal := m.journal ++ [event]
    statistics }
  outcome : ∀ ticket, m'.outcome? ticket = m.outcome? ticket
  back : m.receivePool.closed = false → m'.receivePool.idle = m.receivePool.idle ++ [c.retire]

structure Queues (m : Mailbox) (c : Buffer) (message : Message) (m' : Mailbox) : Prop where
  rest : ∃ receiveQueues statistics, m' = { m with
    receiveQueues
    consumed := m.consumed || message.header.counter != SequenceCounter.unsequenced
    journal := m.journal ++ [.routed message .queued]
    statistics }
  entries : m'.receiveQueues.entries = Function.update m.receiveQueues.entries
    message.header.protocol (m.receiveQueues.entries message.header.protocol ++ [c])
  outcome : ∀ ticket, m'.outcome? ticket = m.outcome? ticket

structure Answers (m : Mailbox) (c : Buffer) (message : Message) (flight : InFlight)
    (m' : Mailbox) : Prop where
  awaiting : m.handshake = .awaitResponse
  flying : m.inFlight = some flight
  undecided : m.outcome? flight.request.ticket = none
  decided : m'.outcome? flight.request.ticket = some (.ok (.response flight.workCounter message))
  others : ∀ ticket, ticket ≠ flight.request.ticket → m'.outcome? ticket = m.outcome? ticket
  rest : ∃ statistics, m' = { m with
    inFlight := none
    handshake := .complete
    consumed := true
    receivePool := m.receivePool.put c
    journal := m.journal ++ [.routed message (.answered flight.request.ticket),
      .resolved flight.request.ticket (.ok (.response flight.workCounter message))]
    statistics }

/-- What becomes of a message in the buffer `c`, and what becomes of the mailbox with it. -/
inductive Treats (m : Mailbox) (c : Buffer) (message : Message) (m' : Mailbox) : Fate → Prop
  | dropped (fate : Fate) : fate.accepted = false → m.Discards c (.routed message fate) m' →
      Treats m c message m' fate
  | queued : (message.header.counter ≠ SequenceCounter.unsequenced → m.Wanted message) →
      m.Queues c message m' → Treats m c message m' .queued
  | answered (flight : InFlight) : message.header.counter ≠ SequenceCounter.unsequenced →
      m.Wanted message → m.Answers c message flight m' →
      Treats m c message m' (.answered flight.request.ticket)

theorem route_discards {cause : Error} (stocked : m.Stocked (c :: held))
    (decoded : Message.decode? c.contents = .error cause) :
    m.Discards c (.garbled c.contents) (m.route c) := by
  rw [route_garbled decoded]
  refine ⟨⟨_, rfl⟩, fun ticket => ?_, stocked.back⟩
  rw [outcome?_append rfl]
  exact Option.or_none

theorem route_treats {message : Message} (stocked : m.Stocked (c :: held)) (known : m.Undecided)
    (decoded : Message.decode? c.contents = .ok message) :
    m.Treats c message (m.route c) (m.fate message) := by
  have silent (m' : Mailbox) (fate : Fate)
      (journal : m'.journal = m.journal ++ [.routed message fate]) (ticket : Nat) :
      m'.outcome? ticket = m.outcome? ticket := by
    rw [outcome?_append journal]
    exact Option.or_none
  cases fate : m.fate message with
  | unsupported =>
      rw [route_unsupported decoded fate]
      exact .dropped .unsupported rfl ⟨⟨_, rfl⟩, silent _ _ rfl, stocked.back⟩
  | stale =>
      rw [route_stale decoded fate]
      exact .dropped .stale rfl ⟨⟨_, rfl⟩, silent _ _ rfl, stocked.back⟩
  | queued =>
      rw [route_queued decoded fate]
      obtain ⟨queues, eq, entries, -⟩ := Stocked.push (m := { m with
        consumed := m.consumed || (message.header.counter != SequenceCounter.unsequenced)
        journal := m.journal ++ [MailboxEvent.routed message .queued]
        statistics := { m.statistics with
          messagesReceived := m.statistics.messagesReceived + 1 } }) stocked message.header.protocol
      rw [eq]
      exact .queued (fun sequenced => wanted_of_fate sequenced (.inl fate))
        ⟨⟨queues, _, rfl⟩, entries, silent _ _ rfl⟩
  | answered ticket =>
      obtain ⟨flight, awaiting, flying, rfl, wanted, sequenced⟩ := fate_answered fate
      obtain ⟨m₀, unmoved, eq, journal⟩ := route_answered decoded awaiting flying fate
      have undecided : m.outcome? flight.request.ticket = none :=
        (known.pending none flight.request (by rw [tracked, flying]; rfl)).2
      have verdict : m₀.verdict flight.request.ticket
          (.ok (.response flight.workCounter message)) =
          [.resolved flight.request.ticket (.ok (.response flight.workCounter message))] := by
        rw [Mailbox.verdict, unmoved.outcome, undecided]
        rfl
      have resolves : m.Resolves flight.request.ticket
          (.ok (.response flight.workCounter message)) (m.route c) := by
        refine .of_verdict unmoved ?_
        rw [eq]
        rfl
      refine .answered flight sequenced wanted
        ⟨awaiting, flying, undecided, ?_, resolves.others,
          { m.statistics with messagesReceived := m.statistics.messagesReceived + 1 }, ?_⟩
      · rw [resolves.outcome, undecided]
        rfl
      · rw [eq, verdict, journal, List.append_assoc]
        rfl

/-! ## Along a run -/

theorem route_undecided (stocked : m.Stocked (c :: held)) (known : m.Undecided) :
    (m.route c).Undecided := by
  rcases decoded : Message.decode? c.contents with cause | message
  · have discards := route_discards stocked decoded
    obtain ⟨statistics, eq⟩ := discards.rest
    exact known.congr (by rw [eq]; rfl) discards.outcome (by rw [eq])
  · have treats := route_treats stocked known decoded
    generalize m.fate message = fate at treats
    cases treats with
    | dropped fate refused discards =>
        obtain ⟨statistics, eq⟩ := discards.rest
        exact known.congr (by rw [eq]; rfl) discards.outcome (by rw [eq])
    | queued wanted queues =>
        obtain ⟨receiveQueues, statistics, eq⟩ := queues.rest
        exact known.congr (by rw [eq]; rfl) queues.outcome (by rw [eq])
    | answered flight sequenced wanted answers =>
        obtain ⟨statistics, eq⟩ := answers.rest
        have flown : m.tracked none = some flight.request := by
          rw [tracked, answers.flying, Option.map_some]
        refine known.ended (known.pending none flight.request flown).1 (fun place r here => ?_)
          answers.others (by rw [eq])
        rw [eq] at here
        cases place with
        | none => cases here
        | some i =>
            refine ⟨here, fun same => ?_⟩
            cases known.apart (some i) none r flight.request here flown same

theorem route_stocked (stocked : m.Stocked (c :: held)) : (m.route c).Stocked held := by
  rcases decoded : Message.decode? c.contents with cause | message
  · rw [route_garbled decoded]
    exact stocked.put
  · cases fate : m.fate message with
    | unsupported =>
        rw [route_unsupported decoded fate]
        exact stocked.put
    | stale =>
        rw [route_stale decoded fate]
        exact stocked.put
    | queued =>
        rw [route_queued decoded fate]
        obtain ⟨queues, eq, -, stocked⟩ := Stocked.push (m := { m with
          consumed := m.consumed || (message.header.counter != SequenceCounter.unsequenced)
          journal := m.journal ++ [MailboxEvent.routed message .queued]
          statistics := { m.statistics with
            messagesReceived := m.statistics.messagesReceived + 1 } }) stocked
          message.header.protocol
        rw [eq]
        exact stocked
    | answered ticket =>
        obtain ⟨flight, awaiting, flying, rfl, -, -⟩ := fate_answered fate
        obtain ⟨m₀, -, eq, -⟩ := route_answered decoded awaiting flying fate
        rw [eq]
        exact stocked.put

structure Orderly (x : Moment) : Prop where
  undecided : x.mailbox.Undecided
  stocked : x.mailbox.Stocked x.held

theorem orderly_create (slave : SlaveConfig) (config : Config) (sendId receiveId : Nat) :
    Orderly ⟨.create slave config sendId receiveId, []⟩ := by
  have vacant (place : Option Nat) :
      (create slave config sendId receiveId).tracked place = none := by
    cases place with
    | none => rfl
    | some i => exact request?_create slave config sendId receiveId i
  refine ⟨⟨fun _ _ => rfl, fun place r here => ?_, fun place _ r _ here => ?_⟩,
    _, stock_openWith receiveId config.mailboxPoolSize (bufferSize slave), fun _ => rfl⟩
  all_goals rw [vacant] at here; cases here

theorem Beat.orderly (orderly : Orderly x) (beat : Beat x y) : Orderly y := by
  obtain ⟨known, stocked⟩ := orderly
  cases beat with
  | shuffle held shuffles =>
      exact ⟨known.shuffle shuffles, stocked.congr shuffles.receivePool shuffles.receiveQueues⟩
  | @note m event held remark =>
      refine ⟨known.congr rfl (fun ticket => ?_) rfl, stocked.congr rfl rfl⟩
      rw [outcome?_append rfl]
      cases remark <;> exact Option.or_none
  | finish held place outcome unanswered here shuffles gone =>
      refine ⟨known.finish here shuffles gone outcome, ?_⟩
      rw [resolve_eq]
      exact stocked.congr shuffles.receivePool shuffles.receiveQueues
  | lodge m held sendQueues b expectsResponse deadline =>
      exact ⟨known.lodge sendQueues b expectsResponse deadline, stocked.congr rfl rfl⟩
  | stamp m held b =>
      refine ⟨known.congr rfl (fun ticket => ?_) rfl, stocked.congr rfl rfl⟩
      rw [outcome?_append rfl]
      exact Option.or_none
  | take held taken => exact ⟨known.congr rfl (fun _ => rfl) rfl, stocked.take taken⟩
  | fill m held index owner => exact ⟨known, stocked.fill index owner⟩
  | spare m held b => exact ⟨known.congr rfl (fun _ => rfl) rfl, stocked.put⟩
  | route m held b => exact ⟨route_undecided stocked known, route_stocked stocked⟩
  | pop held popped => exact ⟨known.congr rfl (fun _ => rfl) rfl, (stocked.pop popped).2⟩
  | drain m held closed => exact ⟨known.congr rfl (fun _ => rfl) rfl, (stocked.drain closed).2⟩

theorem Beats.orderly (orderly : Orderly x) (beats : Beats x y) : Orderly y := by
  induction beats with
  | refl => exact orderly
  | tail _ beat ih => exact beat.orderly ih

end Fieldbus.Mailbox
