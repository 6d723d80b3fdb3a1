import Fieldbus.Proofs.Mailbox.Closing
import Mathlib.Logic.Equiv.Basic

/-!
# What happens in one go

A turn waits at every call of the transport, and what it does between two calls happens in one go,
as does whatever a caller does. `Beat` has these steps apart, as far as they matter to the requests
and to what is received.

A move is made of beats. Between the beats of a move the mailbox is not at rest, so a beat tells
which receive buffers the turn holds meanwhile, and a caller may act there. Who has the send
buffers, and in which order the beats of a turn follow each other, it does not tell; a `Stride`
does.
-/

namespace Fieldbus

namespace Mailbox

/-- What a caller does, with whatever buffer and handle. -/
inductive Act : Mailbox → Mailbox → Prop
  | take {m m' : Mailbox} {b : Buffer} : m.takeSendBuffer? = .ok (b, m') → Act m m'
  | giveBack (m : Mailbox) (b : Buffer) : Act m (m.putSend b)
  | enqueue (m : Mailbox) (front : Bool) (b : Buffer) (expectsResponse : Bool) (deadline : Nat) :
      Act m (m.enqueue front b expectsResponse deadline).2
  | wait (m : Mailbox) (h : Handle) : Act m (m.settle h).2
  | tryRead (m : Mailbox) (p : Protocol) : Act m (m.tryRead p).2
  | requestRead (m : Mailbox) (p : Protocol) : Act m (m.requestRead p).2
  | read (m : Mailbox) (p : Protocol) : Act m (m.read p).2
  | scheduleRead (m : Mailbox) : Act m m.scheduleRead
  | close (m : Mailbox) : Act m m.close.2

end Mailbox

/-- A mailbox at some moment, and the receive buffers that a turn holds then. -/
structure Moment where
  mailbox : Mailbox
  held : List Buffer

/-- An event that tells neither of a stamp nor of a message that was read nor of an outcome, nor
admits a request. -/
inductive MailboxEvent.Remark : MailboxEvent → Prop
  | withdrawn (ticket waiter : Nat) : Remark (.withdrawn ticket waiter)
  | requeued (ticket : Nat) : Remark (.requeued ticket)
  | acknowledged (ticket : Option Nat) (counter : UInt8) (workCounter : UInt16) :
      Remark (.acknowledged ticket counter workCounter)
  | fired (firing : Firing) : Remark (.fired firing)

namespace Mailbox

variable {m m' : Mailbox} {held : List Buffer} {now : Nat}

/-- The request at a place: it waits in the buffer of an index, or is in flight. -/
def tracked (m : Mailbox) : Option Nat → Option PendingRequest
  | some i => m.request? i
  | none => m.inFlight.map InFlight.request

structure Traffic where
  journal : List MailboxEvent
  counter : SequenceCounter
  nextTicket : Nat
  receivePool : Pool
  receiveQueues : ProtocolQueues

def traffic (m : Mailbox) : Traffic :=
  ⟨m.journal, m.counter, m.nextTicket, m.receivePool, m.receiveQueues⟩

/-- Requests change places or are forgotten. For the rest at most the reply is no longer wanted. -/
structure Shuffles (places : Equiv.Perm (Option Nat)) (m m' : Mailbox) : Prop where
  tracked : ∀ place r, m'.tracked place = some r → m.tracked (places place) = some r
  traffic : m'.traffic = m.traffic
  consumed : m.consumed = true → m'.consumed = true

section Shuffles

variable {places : Equiv.Perm (Option Nat)} (h : m.Shuffles places m')

include h

theorem Shuffles.journal : m'.journal = m.journal := congrArg Traffic.journal h.traffic

theorem Shuffles.counter : m'.counter = m.counter := congrArg Traffic.counter h.traffic

theorem Shuffles.nextTicket : m'.nextTicket = m.nextTicket := congrArg Traffic.nextTicket h.traffic

theorem Shuffles.receivePool : m'.receivePool = m.receivePool :=
  congrArg Traffic.receivePool h.traffic

theorem Shuffles.receiveQueues : m'.receiveQueues = m.receiveQueues :=
  congrArg Traffic.receiveQueues h.traffic

end Shuffles

/-- What happens in one go, as far as it matters to the requests and to what is received. The beats
of a turn may follow each other in any order here: what is said of all paths does not depend on
it. -/
inductive Beat : Moment → Moment → Prop
  | shuffle {m m' : Mailbox} {places : Equiv.Perm (Option Nat)} (held : List Buffer) :
      m.Shuffles places m' → Beat ⟨m, held⟩ ⟨m', held⟩
  | note (m : Mailbox) (held : List Buffer) {event : MailboxEvent} :
      event.Remark → Beat ⟨m, held⟩ ⟨m.record event, held⟩
  | finish {m m₀ : Mailbox} (held : List Buffer) (place : Option Nat) {r : PendingRequest}
      (outcome : Except Error Reply) : outcome.toOption.bind Reply.message? = none →
      m.tracked place = some r → m.Shuffles (.refl _) m₀ → m₀.tracked place = none →
      Beat ⟨m, held⟩ ⟨m₀.resolve r.ticket outcome, held⟩
  | lodge (m : Mailbox) (held : List Buffer) (sendQueues : ProtocolQueues) (b : Buffer)
      (expectsResponse : Bool) (deadline : Nat) :
      Beat ⟨m, held⟩ ⟨m.lodge sendQueues b expectsResponse deadline, held⟩
  | stamp (m : Mailbox) (held : List Buffer) (b : Buffer) : Beat ⟨m, held⟩ ⟨(m.stamp b).2, held⟩
  | take {m : Mailbox} (held : List Buffer) {b : Buffer} {receivePool : Pool} :
      m.receivePool.take? = .ok (b, receivePool) →
      Beat ⟨m, held⟩ ⟨{ m with receivePool }, b :: held⟩
  | fill (m : Mailbox) (held : List Buffer) {b c : Buffer} :
      c.index = b.index → c.pool = b.pool → Beat ⟨m, b :: held⟩ ⟨m, c :: held⟩
  | spare (m : Mailbox) (held : List Buffer) (b : Buffer) :
      Beat ⟨m, b :: held⟩ ⟨m.putReceive b, held⟩
  | route (m : Mailbox) (held : List Buffer) (b : Buffer) : Beat ⟨m, b :: held⟩ ⟨m.route b, held⟩
  | pop {m : Mailbox} (held : List Buffer) {p : Protocol} {b : Buffer}
      {receiveQueues : ProtocolQueues} : m.receiveQueues.pop? p = some (b, receiveQueues) →
      Beat ⟨m, held⟩ ⟨{ m with receiveQueues }.putReceive b, held⟩
  | drain (m : Mailbox) (held : List Buffer) {receivePool : Pool} : receivePool.closed = true →
      Beat ⟨m, held⟩ ⟨{ m with receiveQueues := m.receiveQueues.drain.2, receivePool }, held⟩

abbrev Beats : Moment → Moment → Prop := Relation.ReflTransGen Beat

/-! ## Changes without a record -/

theorem tracked_of (request : ∀ i r, m'.request? i = some r → m.request? i = some r)
    (inFlight : m'.inFlight.map InFlight.request = m.inFlight.map InFlight.request ∨
      m'.inFlight = none) (place : Option Nat) (r : PendingRequest)
    (here : m'.tracked place = some r) : m.tracked place = some r := by
  cases place with
  | some i => exact request i r here
  | none =>
      rcases inFlight with same | calm
      · exact same.symm.trans here
      · simp [tracked, calm] at here

theorem same_beats (requests : m'.requests = m.requests)
    (inFlight : m'.inFlight.map InFlight.request = m.inFlight.map InFlight.request)
    (traffic : m'.traffic = m.traffic) (consumed : m.consumed = true → m'.consumed = true) :
    Beats ⟨m, held⟩ ⟨m', held⟩ := by
  have same : m.Shuffles (.refl _) m' := by
    refine ⟨tracked_of (fun i r found => ?_) (.inl inFlight), traffic, consumed⟩
    rwa [request?, requests] at found
  exact .single (.shuffle held same)

theorem shuffles_of_calm (requests : m'.requests = m.requests) (calm : m'.inFlight = none)
    (traffic : m'.traffic = m.traffic) (consumed : m.consumed = true → m'.consumed = true) :
    m.Shuffles (.refl _) m' := by
  refine ⟨tracked_of (fun i r found => ?_) (.inr calm), traffic, consumed⟩
  rwa [request?, requests] at found

theorem land_beats {flight : InFlight} (flying : m.inFlight = some flight) (held : List Buffer)
    (outcome : Except Error Reply) (unanswered : outcome.toOption.bind Reply.message? = none) :
    Beats ⟨m, held⟩ ⟨{ m with inFlight := none }.resolve flight.request.ticket outcome, held⟩ := by
  refine .single (.finish held none outcome unanswered ?_
    (shuffles_of_calm rfl rfl rfl id) rfl)
  rw [tracked, flying, Option.map_some]

theorem request?_setRequest_eq_some {i j : Nat} {request : Option PendingRequest}
    {r : PendingRequest} (found : (m.setRequest i request).request? j = some r) :
    i = j ∧ request = some r ∨ i ≠ j ∧ m.request? j = some r := by
  by_cases same : i = j
  · subst same
    refine .inl ⟨rfl, ?_⟩
    rw [request?, setRequest, Array.getElem?_setIfInBounds_self] at found
    split at found
    · exact found
    · cases found
  · rw [request?_setRequest_ne request (Ne.symm same)] at found
    exact .inr ⟨same, found⟩

theorem shuffles_setRequest (m : Mailbox) (i : Nat) :
    m.Shuffles (.refl _) (m.setRequest i none) := by
  refine ⟨tracked_of (fun j r found => ?_) (.inl rfl), rfl, id⟩
  rcases request?_setRequest_eq_some found with ⟨-, none⟩ | ⟨-, same⟩
  · cases none
  · exact same

theorem notes_beats (m : Mailbox) (held : List Buffer) {events : List MailboxEvent}
    (remarks : ∀ event ∈ events, event.Remark) :
    Beats ⟨m, held⟩ ⟨{ m with journal := m.journal ++ events }, held⟩ := by
  induction events generalizing m with
  | nil => rw [List.append_nil]
  | cons event events ih =>
      have noted : Beats ⟨m, held⟩ ⟨m.record event, held⟩ :=
        .single (.note m held (remarks event List.mem_cons_self))
      have rest := ih (m.record event) fun event mem => remarks event (List.mem_cons_of_mem _ mem)
      have grown : m.journal ++ event :: events = m.journal ++ [event] ++ events := by simp
      rw [grown]
      exact noted.trans rest

/-! ## What callers do -/

theorem enqueueWith_beats (m : Mailbox) (held : List Buffer)
    (push : ProtocolQueues → Protocol → Buffer → Option ProtocolQueues) (b : Buffer)
    (expectsResponse : Bool) (deadline : Nat) :
    Beats ⟨m, held⟩ ⟨(m.enqueueWith push b expectsResponse deadline).2, held⟩ := by
  by_cases owned : m.sendPool.owns b = true
  · rcases m.enqueueWith_cases push owned expectsResponse deadline with
      ⟨cause, eq⟩ | ⟨p, sendQueues, -, eq⟩ <;> rw [eq]
    · exact same_beats rfl rfl rfl id
    · exact .single (.lodge m held sendQueues b expectsResponse deadline)
  · simp only [enqueueWith, owned]
    exact .refl

theorem abandon_beats (m : Mailbox) (held : List Buffer) (h : Handle) :
    Beats ⟨m, held⟩ ⟨m.abandon h, held⟩ := by
  rcases m.abandon_cases h with
    eq | ⟨p, b, sendQueues, -, eq⟩ | ⟨flight, flying, -, ⟨-, eq⟩ | ⟨-, eq⟩⟩ <;> rw [eq]
  · have remarks : ∀ event ∈ (m.request? h.index).toList.map fun (request : PendingRequest) =>
        MailboxEvent.withdrawn request.ticket h.ticket, event.Remark := by
      intro event mem
      obtain ⟨request, -, rfl⟩ := List.mem_map.mp mem
      exact .withdrawn ..
    have forgotten := (notes_beats m held remarks).tail
      (.shuffle held (shuffles_setRequest _ h.index))
    exact forgotten.trans (same_beats rfl rfl rfl id)
  · have noted : Beats ⟨m, held⟩ _ :=
      .single (.note m held (.withdrawn flight.request.ticket h.ticket))
    exact noted.trans (same_beats rfl (congrArg (Option.map InFlight.request) flying).symm rfl id)
  · have noted : Beats ⟨m, held⟩ _ :=
      .single (.note m held (.withdrawn flight.request.ticket h.ticket))
    exact noted.tail (.shuffle held (shuffles_of_calm rfl rfl rfl fun _ => rfl))

theorem takeReceived_beats {p : Protocol} {result : Except Error Message}
    (taken : m.takeReceived? p = some (result, m')) (held : List Buffer) :
    Beats ⟨m, held⟩ ⟨m', held⟩ := by
  obtain ⟨⟨b, receiveQueues⟩, pop, eq⟩ := Option.map_eq_some_iff.mp taken
  simp only [Prod.mk.injEq] at eq
  rw [← eq.2]
  exact .single (.pop held pop)

theorem Reads.beats {p : Protocol} {got : Option (Except Error Message)}
    (reads : m.Reads p got m') (held : List Buffer) : Beats ⟨m, held⟩ ⟨m', held⟩ := by
  cases reads with
  | got taken => exact takeReceived_beats taken held
  | missed => exact same_beats rfl rfl rfl id

theorem closeRequest_beats (m : Mailbox) (held : List Buffer) (b : Buffer) :
    Beats ⟨m, held⟩ ⟨m.closeRequest b, held⟩ := by
  unfold closeRequest
  cases found : m.request? b.index with
  | none => exact .refl
  | some request =>
      refine .single (.finish held (some b.index) _ rfl found (shuffles_setRequest m b.index) ?_)
      exact request?_setRequest_self none (lt_size_of_request? found)

theorem closeRequests_beats (queued : List (Protocol × Buffer)) (m : Mailbox)
    (held : List Buffer) :
    Beats ⟨m, held⟩ ⟨queued.foldl (fun m entry => m.closeRequest entry.2) m, held⟩ := by
  induction queued generalizing m with
  | nil => exact .refl
  | cons entry queued ih => exact (closeRequest_beats m held entry.2).trans (ih _)

theorem close_beats (m : Mailbox) (held : List Buffer) : Beats ⟨m, held⟩ ⟨m.close.2, held⟩ := by
  cases closed : m.closed with
  | true => rw [close, if_pos closed]
  | false =>
      obtain ⟨requests, journal, eq⟩ := closeRequests_eq m.sendQueues.drain.1 m
      have dismissed := closeRequests_beats m.sendQueues.drain.1 m held
      let receiving := (m.receiveQueues.drain.1.map Prod.snd).foldl Pool.put m.receivePool
      have shut : receiving.close.2.closed = true := rfl
      rw [close_eq closed rfl (rfl : receiving = _), dismissAll, dismissQueued,
        closeRequests_beside]
      rw [eq] at dismissed ⊢
      dsimp only
      cases flying : m.inFlight with
      | none =>
          have emptied := dismissed.tail (.drain _ held shut)
          exact emptied.trans (same_beats rfl (by rw [flying]) rfl id)
      | some flight =>
          have still : { m with requests, journal }.inFlight = some flight := flying
          have ended := dismissed.trans (land_beats still held (.error .closed) rfl)
          have emptied := ended.tail (.drain _ held shut)
          dsimp only
          rw [resolve_eq] at emptied ⊢
          exact emptied.trans (same_beats rfl rfl rfl id)

theorem Act.beats (act : Act m m') (held : List Buffer) : Beats ⟨m, held⟩ ⟨m', held⟩ := by
  cases act with
  | take take =>
      obtain ⟨-, sendPool, -, rfl⟩ := takeSendBuffer?_eq_ok take
      exact same_beats rfl rfl rfl id
  | giveBack b => exact same_beats rfl rfl rfl id
  | enqueue front b expectsResponse deadline =>
      cases front with
      | true => exact enqueueWith_beats m held _ b expectsResponse deadline
      | false => exact enqueueWith_beats m held _ b expectsResponse deadline
  | wait h =>
      rcases m.settle_eq h with eq | ⟨-, eq⟩ <;> rw [eq]
      exact abandon_beats m held h
  | tryRead p =>
      obtain ⟨_, reads, -⟩ := m.tryRead_reads p
      exact reads.beats held
  | requestRead p =>
      obtain ⟨_, reads, -⟩ := m.requestRead_reads p
      exact reads.beats held
  | read p =>
      obtain ⟨_, reads, -⟩ := m.read_reads p
      exact reads.beats held
  | scheduleRead => exact same_beats rfl rfl rfl id
  | close => exact close_beats m held

/-! ## What a turn does -/

theorem expire_beats (m : Mailbox) (held : List Buffer) (now : Nat) :
    Beats ⟨m, held⟩ ⟨m.expire now, held⟩ := by
  rcases m.expire_cases now with eq | ⟨flight, flying, -, -, eq⟩ <;> rw [eq]
  have ended := land_beats flying held (.error .timeout) rfl
  rw [resolve_eq] at ended
  exact ended.tail (.shuffle held (shuffles_of_calm rfl rfl rfl fun _ => rfl))

theorem overdue_beats {b : Buffer} {request : PendingRequest} (held : List Buffer)
    (sendQueues : ProtocolQueues) (found : m.request? b.index = some request) :
    Beats ⟨m, held⟩ ⟨((({ m with sendQueues }.setRequest b.index none).resolve request.ticket
      (.error .timeout)).countTimeout).putSend b, held⟩ := by
  have unqueued : Beats ⟨m, held⟩ ⟨{ m with sendQueues }, held⟩ :=
    same_beats rfl rfl rfl id
  have still : { m with sendQueues }.request? b.index = some request := found
  have ended := unqueued.tail (.finish held (some b.index) (.error .timeout) rfl still
    (shuffles_setRequest _ b.index) (request?_setRequest_self none (lt_size_of_request? still)))
  exact ended.trans (same_beats rfl rfl rfl id)

theorem tracked_swap {i : Nat} {request : Option PendingRequest}
    (requests : m'.requests = (m.setRequest i request).requests)
    (back : ∀ r, request = some r → m.inFlight.map InFlight.request = some r)
    (away : ∀ r, m'.inFlight.map InFlight.request = some r → m.request? i = some r)
    (place : Option Nat) (r : PendingRequest) (here : m'.tracked place = some r) :
    m.tracked (Equiv.swap none (some i) place) = some r := by
  cases place with
  | none =>
      rw [Equiv.swap_apply_left]
      exact away r here
  | some j =>
      have found : (m.setRequest i request).request? j = some r := by
        rw [request?, ← requests]
        exact here
      rcases request?_setRequest_eq_some found with ⟨rfl, waits⟩ | ⟨other, waits⟩
      · rw [Equiv.swap_apply_right]
        exact back r waits
      · rw [Equiv.swap_apply_of_ne_of_ne (by simp) (by simpa using Ne.symm other)]
        exact waits

theorem Picks.beats {m₁ : Mailbox} {p : Protocol} {b : Buffer} (picks : m.Picks now p b m₁)
    (held : List Buffer) : Beats ⟨m, held⟩ ⟨m₁, held⟩ := by
  obtain ⟨sendQueues, request, -, -, found, -, rfl⟩ := picks
  refine .single (.shuffle held ⟨tracked_swap rfl nofun fun r here => ?_, rfl, id⟩)
  rw [found]
  exact here

theorem requeue_beats (m : Mailbox) (held : List Buffer) (p : Protocol) (b : Buffer) :
    Beats ⟨m, held⟩ ⟨m.requeue p b, held⟩ := by
  rcases m.requeue_cases p b with
    eq | ⟨flight, flying, eq⟩ | ⟨flight, sendQueues, flying, -, eq⟩ <;> rw [eq]
  · exact .single (.shuffle held (shuffles_of_calm rfl rfl rfl fun _ => rfl))
  · have ended := land_beats flying held (.error .foreign) rfl
    rw [resolve_eq] at ended
    exact ended.tail (.shuffle held (shuffles_of_calm rfl rfl rfl fun _ => rfl))
  · have swapped : m.Shuffles (Equiv.swap none (some b.index))
        (Mailbox.setRequest
          { m with handshake := .idle, consumed := true, inFlight := none, sendQueues } b.index
          (some flight.request)) := by
      refine ⟨tracked_swap rfl (fun r same => ?_) nofun, rfl, fun _ => rfl⟩
      rw [flying, ← same]
      rfl
    have noted : Beats ⟨m, held⟩ _ :=
      .head (.shuffle held swapped) (.single (.note _ held (.requeued flight.request.ticket)))
    exact noted.trans (same_beats rfl rfl rfl id)

theorem acknowledge_beats (m : Mailbox) (held : List Buffer) (b : Buffer) (workCounter : UInt16) :
    Beats ⟨m, held⟩ ⟨m.acknowledge b workCounter, held⟩ := by
  have remarks : ∀ event ∈ MailboxEvent.acknowledged m.flightTicket m.counter.last workCounter ::
      b.fire.1.map MailboxEvent.fired, event.Remark := by
    intro event mem
    rcases List.mem_cons.mp mem with rfl | mem
    · exact .acknowledged ..
    · obtain ⟨firing, -, rfl⟩ := List.mem_map.mp mem
      exact .fired firing
  have noted : Beats ⟨m, held⟩ ⟨m.taken b workCounter, held⟩ := by
    have noted := notes_beats m held remarks
    rw [List.append_cons] at noted
    exact noted.trans (same_beats rfl rfl rfl id)
  rcases m.acknowledge_cases b workCounter with
    ⟨handshake, eq⟩ | ⟨flight, flying, eq⟩ | ⟨flight, flying, eq⟩ <;> rw [eq]
  · exact noted.tail (.shuffle held (shuffles_of_calm rfl rfl rfl fun _ => rfl))
  · exact noted.trans (same_beats rfl (congrArg (Option.map InFlight.request) flying).symm rfl id)
  · have ended := noted.trans (land_beats (m := m.taken b workCounter) flying held
      (.ok (.written workCounter)) rfl)
    rw [resolve_eq] at ended
    exact ended.trans (same_beats rfl rfl rfl id)

end Mailbox

end Fieldbus
