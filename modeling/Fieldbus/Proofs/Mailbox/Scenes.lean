import Fieldbus.Proofs.Mailbox.Interleaving

/-!
# A turn among callers

Callers take send buffers, queue requests in them and wait for the outcomes, also while a turn waits
for its transport. A stage is a moment of such a turn, and a stride is what happens there in one
go: an act of a caller, or a step of the turn between two calls of its transport.

A stride is a path of beats, and adds who has the send buffers: callers, who hold what they took, or
the turn, with the request that it took from its queue. The acts of callers are those of a session,
and callers also note what they queued and which of their waits have run out.
-/

namespace Fieldbus

/-- A request as it was queued, with the place and the bytes of its buffer. -/
structure Posting where
  index : Nat
  request : PendingRequest
  message : Bytes
  deriving DecidableEq, Repr

/-- What the callers of a mailbox have done with it. -/
structure Callers where
  /-- The send buffers that they hold. -/
  buffers : List Buffer
  posted : List Posting
  /-- The tickets of the requests for which a wait ran out. -/
  lapsed : List Nat

namespace Callers

/-- A buffer was handed over to be queued, and the mailbox has answered. -/
def post (c : Callers) (b : Buffer) (expectsResponse : Bool) : Except Error Handle → Callers
  | .ok h =>
      { c with posted := c.posted ++ [⟨b.index, ⟨h.ticket, expectsResponse, h.deadline⟩, b.bytes⟩] }
  | .error _ => c

def hear (c : Callers) (h : Handle) : Except Error Reply → Callers
  | .error .timeout => { c with lapsed := h.ticket :: c.lapsed }
  | _ => c

section Hear

variable (c : Callers) (h : Handle) (result : Except Error Reply)

theorem hear_cases : c.hear h result = c ∨
    result = .error .timeout ∧ c.hear h result = { c with lapsed := h.ticket :: c.lapsed } := by
  unfold hear
  split
  · exact .inr ⟨rfl, rfl⟩
  · exact .inl rfl

@[simp] theorem hear_buffers : (c.hear h result).buffers = c.buffers := by
  rcases c.hear_cases h result with eq | ⟨-, eq⟩ <;> rw [eq]

theorem hear_lapsed (posted : List Posting) (buffers : List Buffer) (lapsed : List Nat) :
    (Callers.mk buffers posted lapsed).hear h result =
      ⟨buffers, posted, (hear ⟨[], [], lapsed⟩ h result).lapsed⟩ := by
  unfold hear
  split <;> rfl

@[simp] theorem hear_posted : (c.hear h result).posted = c.posted := by
  rcases c.hear_cases h result with eq | ⟨-, eq⟩ <;> rw [eq]

end Hear

def Knows (c : Callers) (h : Handle) : Prop :=
  ∃ posting ∈ c.posted, posting.index = h.index ∧ posting.request.ticket = h.ticket

end Callers

structure Scene where
  mailbox : Mailbox
  callers : Callers

namespace Scene

/-- What a caller does. It gives away only a buffer that it holds and waits only with a handle that
it was given. -/
inductive Act : Scene → Scene → Prop
  | take {m m' : Mailbox} {c : Callers} {b : Buffer} : m.takeSendBuffer? = .ok (b, m') →
      Act ⟨m, c⟩ ⟨m', { c with buffers := b :: c.buffers }⟩
  | change {m : Mailbox} (left : List Buffer) {right : List Buffer} {posted : List Posting}
      {lapsed : List Nat} {b b' : Buffer} :
      b'.index = b.index → b'.pool = b.pool → b'.bytes.length = b.bytes.length →
      Act ⟨m, ⟨left ++ b :: right, posted, lapsed⟩⟩ ⟨m, ⟨left ++ b' :: right, posted, lapsed⟩⟩
  | giveBack {m : Mailbox} (left : List Buffer) {right : List Buffer} {posted : List Posting}
      {lapsed : List Nat} {b : Buffer} :
      Act ⟨m, ⟨left ++ b :: right, posted, lapsed⟩⟩ ⟨m.putSend b, ⟨left ++ right, posted, lapsed⟩⟩
  | enqueue {m : Mailbox} (left : List Buffer) {right : List Buffer} {posted : List Posting}
      {lapsed : List Nat} {b : Buffer} (front expectsResponse : Bool) (deadline : Nat) :
      Act ⟨m, ⟨left ++ b :: right, posted, lapsed⟩⟩
        ⟨(m.enqueue front b expectsResponse deadline).2,
          (Callers.mk (left ++ right) posted lapsed).post b expectsResponse
            (m.enqueue front b expectsResponse deadline).1⟩
  /-- A caller tries to queue a buffer of another pool. -/
  | enqueueForeign {m : Mailbox} {c : Callers} {b : Buffer} (front expectsResponse : Bool)
      (deadline : Nat) : m.sendPool.owns b = false →
      Act ⟨m, c⟩ ⟨(m.enqueue front b expectsResponse deadline).2, c⟩
  | wait {m : Mailbox} {c : Callers} {h : Handle} : c.Knows h →
      Act ⟨m, c⟩ ⟨(m.settle h).2, c.hear h (m.settle h).1⟩
  | tryRead {m : Mailbox} {c : Callers} (p : Protocol) : Act ⟨m, c⟩ ⟨(m.tryRead p).2, c⟩
  | requestRead {m : Mailbox} {c : Callers} (p : Protocol) : Act ⟨m, c⟩ ⟨(m.requestRead p).2, c⟩
  | read {m : Mailbox} {c : Callers} (p : Protocol) : Act ⟨m, c⟩ ⟨(m.read p).2, c⟩
  | scheduleRead {m : Mailbox} {c : Callers} : Act ⟨m, c⟩ ⟨m.scheduleRead, c⟩
  | close {m : Mailbox} {c : Callers} : Act ⟨m, c⟩ ⟨m.close.2, c⟩

abbrev Acts : Scene → Scene → Prop := Relation.ReflTransGen Act

end Scene

/-- Callers act during the calls of a transport, and nothing else happens to the mailbox then. The
state of the transport tells what they have done. -/
structure Transport.Hosts {σ : Type} (t : Transport σ) (view : σ → Callers) : Prop where
  slotState : ∀ slot m s, Scene.Acts ⟨m, view s⟩
    ⟨(t.slotState slot m s).2.1, view (t.slotState slot m s).2.2⟩
  write : ∀ data m s, Scene.Acts ⟨m, view s⟩
    ⟨(t.write data m s).2.1, view (t.write data m s).2.2⟩
  read : ∀ bytes m s, Scene.Acts ⟨m, view s⟩
    ⟨(t.read bytes m s).2.1, view (t.read bytes m s).2.2⟩

/-- Nothing happens during the calls of a device that nobody else uses. -/
theorem SlotDevice.transport_hosts {σ : Type} (d : SlotDevice σ) (c : Callers) :
    d.transport.Hosts fun _ => c :=
  ⟨fun _ _ _ => .refl, fun _ _ _ => .refl, fun _ _ _ => .refl⟩

namespace Scene

/-- A caller acts, or a turn passes among callers. -/
inductive Happens : Scene → Scene → Prop
  | act {x y : Scene} : Act x y → Happens x y
  | turn {σ : Type} {t : Transport σ} {view : σ → Callers} (now : Nat) (m : Mailbox) (s : σ) :
      t.Hosts view → Happens ⟨m, view s⟩ ⟨(m.turn t now s).2.1, view (m.turn t now s).2.2⟩

def Reached (x : Scene) : Prop :=
  ∃ slave config sendId receiveId,
    Relation.ReflTransGen Happens ⟨.create slave config sendId receiveId, ⟨[], [], []⟩⟩ x

theorem reached_cramped : Reached ⟨Session.cramped, ⟨[], [], []⟩⟩ := ⟨_, _, _, _, .refl⟩

theorem Reached.acts {x y : Scene} (reached : x.Reached) (acts : Acts x y) : y.Reached := by
  induction acts with
  | refl => exact reached
  | tail _ act ih =>
      obtain ⟨slave, config, sendId, receiveId, run⟩ := ih
      exact ⟨slave, config, sendId, receiveId, run.tail (.act act)⟩

theorem Reached.turn {σ : Type} {c : Callers} {d : SlotDevice σ} {m : Mailbox}
    (reached : Reached ⟨m, c⟩) (now : Nat) (device : σ) :
    Reached ⟨(m.turn d.transport now device).2.1, c⟩ := by
  obtain ⟨slave, config, sendId, receiveId, run⟩ := reached
  have turned : Happens ⟨m, c⟩ ⟨(m.turn d.transport now device).2.1, c⟩ :=
    .turn now m device (d.transport_hosts c)
  exact ⟨slave, config, sendId, receiveId, run.tail turned⟩

end Scene

/-- The request that a turn has taken from its queue, and its buffer. -/
structure Errand where
  protocol : Protocol
  buffer : Buffer
  request : PendingRequest

/-- A moment of a turn. -/
structure Stage where
  mailbox : Mailbox
  callers : Callers
  errand : Option Errand
  reading : List Buffer

namespace Mailbox

/-- Nothing about the requests that wait has changed, and the one in flight is still there or its
wait has ended. -/
structure Beside (m m' : Mailbox) : Prop where
  slave : m'.slave = m.slave
  closed : m'.closed = m.closed
  sendPool : m'.sendPool = m.sendPool
  sendQueues : m'.sendQueues = m.sendQueues
  requests : m'.requests = m.requests
  nextTicket : m'.nextTicket = m.nextTicket
  flight : m'.inFlight = m.inFlight ∧ m'.handshake = m.handshake ∨
    m.inFlight ≠ none ∧ m'.inFlight = none

end Mailbox

/-- What happens in one go during a turn at `now`. -/
inductive Stride (now : Nat) : Stage → Stage → Prop
  | act {m m' : Mailbox} {c c' : Callers} (errand : Option Errand) (reading : List Buffer) :
      Scene.Act ⟨m, c⟩ ⟨m', c'⟩ → Stride now ⟨m, c, errand, reading⟩ ⟨m', c', errand, reading⟩
  | aside {m m' : Mailbox} (c : Callers) {reading reading' : List Buffer} : m.Beside m' →
      Mailbox.Beats ⟨m, reading⟩ ⟨m', reading'⟩ →
      Stride now ⟨m, c, none, reading⟩ ⟨m', c, none, reading'⟩
  | orphan {m : Mailbox} (c : Callers) (reading : List Buffer) {p : Protocol} {b : Buffer}
      {sendQueues : ProtocolQueues} :
      m.sendQueues.next? m.config.priority = some (p, b, sendQueues) → m.request? b.index = none →
      Stride now ⟨m, c, none, reading⟩ ⟨{ m with sendQueues }.putSend b, c, none, reading⟩
  | overdue {m : Mailbox} (c : Callers) (reading : List Buffer) {p : Protocol} {b : Buffer}
      {sendQueues : ProtocolQueues} {request : PendingRequest} :
      m.sendQueues.next? m.config.priority = some (p, b, sendQueues) →
      m.request? b.index = some request → request.deadline ≤ now →
      Stride now ⟨m, c, none, reading⟩ ⟨((({ m with sendQueues }.setRequest b.index none).resolve
        request.ticket (.error .timeout)).countTimeout).putSend b, c, none, reading⟩
  | pick {m m' : Mailbox} (c : Callers) (reading : List Buffer) {p : Protocol} {b : Buffer}
      {request : PendingRequest} : m.Picks now p b m' → m.request? b.index = some request →
      Stride now ⟨m, c, none, reading⟩ ⟨m', c, some ⟨p, b, request⟩, reading⟩
  | stamp (m : Mailbox) (c : Callers) (reading : List Buffer) (errand : Errand) :
      Stride now ⟨m, c, some errand, reading⟩
        ⟨(m.stamp errand.buffer).2, c, some { errand with buffer := (m.stamp errand.buffer).1 },
          reading⟩
  | requeue (m : Mailbox) (c : Callers) (reading : List Buffer) (errand : Errand)
      (failures : Nat) :
      Stride now ⟨m, c, some errand, reading⟩
        ⟨(m.retried failures).requeue errand.protocol errand.buffer, c, none, reading⟩
  | acknowledge (m : Mailbox) (c : Callers) (reading : List Buffer) (errand : Errand)
      (failures : Nat) (workCounter : UInt16) :
      Stride now ⟨m, c, some errand, reading⟩
        ⟨(m.retried failures).acknowledge errand.buffer workCounter, c, none, reading⟩

abbrev Strides (now : Nat) : Stage → Stage → Prop := Relation.ReflTransGen (Stride now)

namespace Mailbox

variable {σ : Type}

/-- The turn at `now` takes the request in `b` from its queue, which leaves the mailbox `m` and the
transport at `s`. -/
def Takes (t : Transport σ) (now : Nat) (m₀ : Mailbox) (s₀ : σ) (p : Protocol) (b : Buffer)
    (m : Mailbox) (s : σ) : Prop :=
  m₀.closed = false ∧ ∃ m₁, poll t now (m₀.expire now) s₀ = (.ok (), m₁, s) ∧
    m₁.takeNext now = (some (p, b), m)

/-- The turn at `now` is about to write `data` for a request that it took from its queue when the
transport was at `taken`. It may write `left` more times if the slave does not take it. -/
inductive Writing (t : Transport σ) (now : Nat) (m₀ : Mailbox) (s₀ taken : σ) :
    PendingRequest → Bytes → Nat → Mailbox → σ → Prop
  | first {p : Protocol} {b : Buffer} {m m' : Mailbox} {s' : σ} {flight : InFlight} :
      m₀.Takes t now s₀ p b m taken → m.inFlight = some flight →
      t.slotState m.slave.writeSlot m taken = (.ok .empty, m', s') →
      Writing t now m₀ s₀ taken flight.request
        ((m'.stamp b).1.bytes.take (m'.stamp b).2.slave.writeSlot.length.toNat)
        (max (m'.stamp b).2.config.writeAttempts.toNat 1 - 1) (m'.stamp b).2 s'
  | again {request : PendingRequest} {data : Bytes} {left : Nat} {m m' : Mailbox} {s s' : σ} :
      Writing t now m₀ s₀ taken request data (left + 1) m s →
      t.write data m s = (.ok 0, m', s') →
      Writing t now m₀ s₀ taken request data left m' s'

variable {t : Transport σ} {view : σ → Callers} {m m' : Mailbox} {now : Nat}
  {reading : List Buffer} {errand : Option Errand}

theorem takes_of_some {s : σ} {p : Protocol} {b : Buffer} (now : Nat) (opened : m.closed = false)
    (polled : (poll t now (m.expire now) s).1.toOption = some ())
    (next : ((poll t now (m.expire now) s).2.1.takeNext now).1 = some (p, b)) :
    m.Takes t now s p b ((poll t now (m.expire now) s).2.1.takeNext now).2
      (poll t now (m.expire now) s).2.2 := by
  refine ⟨opened, _, Prod.ext ?_ rfl, Prod.ext next rfl⟩
  cases result : (poll t now (m.expire now) s).1 with
  | error cause => rw [result] at polled; cases polled
  | ok done => rfl

/-! ## Reading -/

theorem expire_beside (m : Mailbox) (now : Nat) : m.Beside (m.expire now) := by
  rcases m.expire_cases now with eq | ⟨flight, flying, -, -, eq⟩ <;> rw [eq]
  · exact ⟨rfl, rfl, rfl, rfl, rfl, rfl, .inl ⟨rfl, rfl⟩⟩
  · exact ⟨rfl, rfl, rfl, rfl, rfl, rfl, .inr ⟨by simp [flying], rfl⟩⟩

theorem route_beside (m : Mailbox) (b : Buffer) : m.Beside (m.route b) := by
  rcases decoded : Message.decode? b.contents with cause | message
  · rw [route_garbled decoded]
    exact ⟨rfl, rfl, rfl, rfl, rfl, rfl, .inl ⟨rfl, rfl⟩⟩
  · cases fate : m.fate message with
    | unsupported =>
        rw [route_unsupported decoded fate]
        exact ⟨rfl, rfl, rfl, rfl, rfl, rfl, .inl ⟨rfl, rfl⟩⟩
    | stale =>
        rw [route_stale decoded fate]
        exact ⟨rfl, rfl, rfl, rfl, rfl, rfl, .inl ⟨rfl, rfl⟩⟩
    | queued =>
        rw [route_queued decoded fate]
        obtain ⟨receivePool, receiveQueues, eq⟩ := pushReceived_fields { m with
          consumed := m.consumed || (message.header.counter != SequenceCounter.unsequenced)
          journal := m.journal ++ [MailboxEvent.routed message .queued]
          statistics := { m.statistics with
            messagesReceived := m.statistics.messagesReceived + 1 } } message.header.protocol b
        rw [eq]
        exact ⟨rfl, rfl, rfl, rfl, rfl, rfl, .inl ⟨rfl, rfl⟩⟩
    | answered ticket =>
        obtain ⟨flight, awaiting, flying, rfl, -, -⟩ := fate_answered fate
        obtain ⟨m₀, -, answered, -⟩ := route_answered decoded awaiting flying fate
        rw [answered]
        exact ⟨rfl, rfl, rfl, rfl, rfl, rfl, .inr ⟨by simp [flying], rfl⟩⟩

theorem acts_strides {c c' : Callers} (acts : Scene.Acts ⟨m, c⟩ ⟨m', c'⟩) :
    Strides now ⟨m, c, errand, reading⟩ ⟨m', c', errand, reading⟩ := by
  generalize start : Scene.mk m c = x at acts
  generalize finish : Scene.mk m' c' = y at acts
  induction acts generalizing m' c' with
  | refl =>
      cases start.trans finish.symm
      exact .refl
  | @tail y z _ act ih =>
      subst finish
      exact (ih rfl).tail (.act errand reading act)

theorem stride_received (m : Mailbox) (c : Callers) {reading' : List Buffer} (slotState : SlotState)
    (receivePool : Pool)
    (beats : Beats ⟨m, reading⟩ ⟨{ m with slotState, receivePool }, reading'⟩) :
    Stride now ⟨m, c, none, reading⟩ ⟨{ m with slotState, receivePool }, c, none, reading'⟩ :=
  .aside c ⟨rfl, rfl, rfl, rfl, rfl, rfl, .inl ⟨rfl, rfl⟩⟩ beats

theorem stride_look (m : Mailbox) (c : Callers) (reading : List Buffer) (slotState : SlotState) :
    Stride now ⟨m, c, none, reading⟩ ⟨{ m with slotState }, c, none, reading⟩ :=
  stride_received m c slotState m.receivePool (look_beats m reading slotState)

theorem stride_spare (m : Mailbox) (c : Callers) (reading : List Buffer) (b : Buffer)
    (data : Bytes) :
    Stride now ⟨m, c, none, b :: reading⟩ ⟨m.putReceive (b.holding data), c, none, reading⟩ :=
  stride_received m c m.slotState _
    (.head (.fill m reading (c := b.holding data) rfl rfl) (.single (.spare m reading _)))

theorem stride_route (m : Mailbox) (c : Callers) (reading : List Buffer) (b : Buffer)
    (bytes : Bytes) (length : Nat) :
    Stride now ⟨m, c, none, b :: reading⟩
      ⟨{ m with slotState := .empty }.route (b.received bytes length), c, none, reading⟩ := by
  have filled : Beats ⟨m, b :: reading⟩ ⟨m, b.received bytes length :: reading⟩ :=
    .single (.fill m reading rfl rfl)
  have emptied := filled.trans (look_beats m _ .empty)
  obtain ⟨slave, closed, sendPool, sendQueues, requests, nextTicket, flight⟩ :=
    route_beside { m with slotState := .empty } (b.received bytes length)
  exact .aside c ⟨slave, closed, sendPool, sendQueues, requests, nextTicket, flight⟩
    (emptied.tail (.route _ reading _))

section Hosts

variable (hosts : t.Hosts view)

include hosts

theorem readOne_strides (m : Mailbox) (s : σ) :
    Strides now ⟨m, view s, none, reading⟩
      ⟨(readOne t m s).2.1, view (readOne t m s).2.2, none, reading⟩ := by
  have looked : Strides now ⟨m, view s, none, reading⟩ ⟨_, _, none, reading⟩ :=
    acts_strides (hosts.slotState m.slave.readSlot m s)
  unfold readOne
  rcases answered : t.slotState m.slave.readSlot m s with ⟨cause | state, m₁, s₁⟩ <;>
    simp only [answered] at looked ⊢
  · exact looked
  · have seen := looked.tail (stride_look m₁ (view s₁) reading state)
    cases state with
    | empty => exact seen
    | full =>
        rcases taken : m₁.receivePool.take? with cause | ⟨b, receivePool⟩ <;> simp only
        · exact seen
        · have out := seen.tail (stride_received { m₁ with slotState := .full } (view s₁) .full
            receivePool (.single (.take (m := { m₁ with slotState := .full }) reading taken)))
          have called := out.trans (acts_strides (hosts.read
            (b.bytes.take m₁.slave.readSlot.length.toNat)
            { m₁ with slotState := .full, receivePool } s₁))
          rcases read : t.read (b.bytes.take m₁.slave.readSlot.length.toNat)
              { m₁ with slotState := .full, receivePool } s₁ with
            ⟨⟨cause | counter, bytes⟩, m₂, s₂⟩ <;> simp only [read] at called ⊢
          · exact called.tail (stride_spare m₂ (view s₂) reading b _)
          · split
            · exact called.tail (stride_spare m₂ (view s₂) reading b _)
            · exact called.tail (stride_route m₂ (view s₂) reading b bytes _)

theorem readMany_strides (fuel : Nat) (m : Mailbox) (s : σ) :
    Strides now ⟨m, view s, none, reading⟩
      ⟨(readMany t fuel m s).2.1, view (readMany t fuel m s).2.2, none, reading⟩ := by
  induction fuel generalizing m s with
  | zero => exact .refl
  | succ fuel ih =>
      have first : Strides now ⟨m, view s, none, reading⟩ _ := readOne_strides hosts m s
      rw [readMany]
      rcases read : readOne t m s with ⟨cause | taken, m₁, s₁⟩ <;> rw [read] at first
      · exact first
      · cases taken with
        | false => exact first
        | true => exact first.trans (ih m₁ s₁)

theorem poll_strides (m : Mailbox) (s : σ) :
    Strides now ⟨m, view s, none, reading⟩
      ⟨(poll t now m s).2.1, view (poll t now m s).2.2, none, reading⟩ := by
  unfold poll
  split
  · have scheduled : Stride now ⟨m, view s, none, reading⟩ ⟨{ m with
        readScheduled := false
        nextPoll := some (now + m.config.pollInterval) }, view s, none, reading⟩ :=
      .aside _ ⟨rfl, rfl, rfl, rfl, rfl, rfl, .inl ⟨rfl, rfl⟩⟩ (schedule_beats m reading _)
    exact .head scheduled (readMany_strides hosts _ _ s)
  · exact .refl

end Hosts

/-! ## Writing -/

def Chooses (now : Nat) (m : Mailbox) (c : Callers) (reading : List Buffer) (m' : Mailbox) :
    Option (Protocol × Buffer) → Prop
  | none => Strides now ⟨m, c, none, reading⟩ ⟨m', c, none, reading⟩
  | some (p, b) => ∃ request, m'.inFlight = some ⟨b.index, request, false, 0⟩ ∧
      now < request.deadline ∧
      Strides now ⟨m, c, none, reading⟩ ⟨m', c, some ⟨p, b, request⟩, reading⟩

theorem Chooses.head {m₁ : Mailbox} {c : Callers} {picked : Option (Protocol × Buffer)}
    (first : Stride now ⟨m, c, none, reading⟩ ⟨m₁, c, none, reading⟩)
    (later : Chooses now m₁ c reading m' picked) : Chooses now m c reading m' picked := by
  cases picked with
  | none => exact Relation.ReflTransGen.head first later
  | some _ =>
      obtain ⟨request, flying, timely, path⟩ := later
      exact ⟨request, flying, timely, path.head first⟩

theorem takeNextWithin_chooses (now fuel : Nat) (m : Mailbox) (c : Callers) (reading : List Buffer)
    (ready : m.handshake.isReady = true) :
    Chooses now m c reading (takeNextWithin now fuel m).2 (takeNextWithin now fuel m).1 := by
  induction fuel generalizing m with
  | zero => exact .refl
  | succ fuel ih =>
      rw [takeNextWithin]
      rcases next : m.sendQueues.next? m.config.priority with _ | ⟨p, b, sendQueues⟩
      · exact .refl
      · rcases found : m.request? b.index with _ | request
        · have same : ({ m with sendQueues }).request? b.index = none := found
          simp only [same]
          exact .head (.orphan c reading next found) (ih _ ready)
        · have same : ({ m with sendQueues }).request? b.index = some request := found
          simp only [same]
          split
          case isTrue late =>
            refine .head (.overdue c reading next found late) (ih _ ?_)
            rw [resolve_eq]
            exact ready
          case isFalse timely =>
            have picks : m.Picks now p b _ :=
              ⟨sendQueues, request, ready, next, found, Nat.lt_of_not_le timely, rfl⟩
            exact ⟨request, rfl, Nat.lt_of_not_le timely, .single (.pick c reading picks found)⟩

theorem takeNext_chooses (now : Nat) (m : Mailbox) (c : Callers) (reading : List Buffer) :
    Chooses now m c reading (m.takeNext now).2 (m.takeNext now).1 := by
  unfold takeNext
  split
  case isTrue ready => exact takeNextWithin_chooses now _ m c reading ready
  case isFalse => exact .refl

section Writes

variable (write : Bytes → Mailbox → σ → Except Error UInt16 × Mailbox × σ)

theorem readMany_write (fuel : Nat) (m : Mailbox) (s : σ) :
    readMany { t with write } fuel m s = readMany t fuel m s := by
  induction fuel generalizing m s with
  | zero => rfl
  | succ fuel ih =>
      have first : readOne { t with write } m s = readOne t m s := rfl
      simp only [readMany, first, ih]

theorem poll_write (m : Mailbox) (s : σ) : poll { t with write } now m s = poll t now m s := by
  simp only [poll, readMany_write]

variable {m₀ : Mailbox} {s₀ taken : σ} {request : PendingRequest} {data : Bytes}

theorem writeRepeatedly_write {attempts failures : Nat} {m : Mailbox} {s : σ}
    (same : ∀ left m' s', m₀.Writing t now s₀ taken request data left m' s' →
      write data m' s' = t.write data m' s')
    (writing : m₀.Writing t now s₀ taken request data attempts m s) :
    writeRepeatedly { t with write } data (attempts + 1) failures m s =
      writeRepeatedly t data (attempts + 1) failures m s := by
  induction attempts generalizing failures m s with
  | zero => simp only [writeRepeatedly, same 0 m s writing]
  | succ attempts ih =>
      rw [writeRepeatedly, writeRepeatedly.eq_2 t]
      dsimp only
      rw [same _ m s writing]
      rcases written : t.write data m s with ⟨cause | counter, m₁, s₁⟩
      · rfl
      · by_cases refused : counter = 0
        · rw [refused] at written
          simp only [refused, if_true]
          exact ih (.again writing written)
        · simp only [refused, if_false]

/-- A turn writes nothing but what `Writing` tells. -/
theorem turn_write (m : Mailbox) (s : σ)
    (same : ∀ taken request data left m' s', m.Writing t now s taken request data left m' s' →
      write data m' s' = t.write data m' s') :
    m.turn { t with write } now s = m.turn t now s := by
  unfold turn
  split
  · rfl
  case isFalse opened =>
    rw [poll_write]
    rcases polled : poll t now (m.expire now) s with ⟨cause | done, m₁, s₁⟩
    · rfl
    · have chosen := takeNext_chooses now m₁ ⟨[], [], []⟩ []
      dsimp only
      unfold sendNext
      rcases next : m₁.takeNext now with ⟨_ | ⟨p, b⟩, m₂⟩
      · rfl
      · rw [next] at chosen
        obtain ⟨request, flying, -, -⟩ := chosen
        dsimp only
        rcases looked : t.slotState m₂.slave.writeSlot m₂ s₁ with ⟨cause | _ | _, m₃, s₂⟩
        · rfl
        · have takes : m.Takes t now s p b m₂ s₁ := ⟨by simpa using opened, m₁, polled, next⟩
          have first := Writing.first takes flying looked
          have attempts : max (m₃.stamp b).2.config.writeAttempts.toNat 1 =
              max (m₃.stamp b).2.config.writeAttempts.toNat 1 - 1 + 1 := by omega
          dsimp only [writeMessage]
          rw [attempts, writeRepeatedly_write write (same s₁ request _) first]
        · rfl

end Writes

section Hosts

variable (hosts : t.Hosts view)

include hosts

theorem writeRepeatedly_strides (data : Bytes) (attempts failures : Nat) (m : Mailbox) (s : σ) :
    Strides now ⟨m, view s, errand, reading⟩
      ⟨(writeRepeatedly t data attempts failures m s).2.1,
        view (writeRepeatedly t data attempts failures m s).2.2, errand, reading⟩ := by
  induction attempts generalizing failures m s with
  | zero => exact .refl
  | succ attempts ih =>
      have called : Strides now ⟨m, view s, errand, reading⟩ ⟨_, _, errand, reading⟩ :=
        acts_strides (hosts.write data m s)
      rw [writeRepeatedly]
      rcases written : t.write data m s with ⟨cause | counter, m₁, s₁⟩ <;> rw [written] at called
      · exact called
      · dsimp only
        split
        · exact called.trans (ih _ m₁ s₁)
        · exact called

theorem writeMessage_strides (p : Protocol) (b : Buffer) (request : PendingRequest) (m : Mailbox)
    (s : σ) :
    Strides now ⟨m, view s, some ⟨p, b, request⟩, reading⟩
      ⟨(writeMessage t p b m s).2.1, view (writeMessage t p b m s).2.2, none, reading⟩ := by
  unfold writeMessage
  dsimp only
  have stamped : Stride now ⟨m, view s, some ⟨p, b, request⟩, reading⟩ _ :=
    .stamp m (view s) reading ⟨p, b, request⟩
  have written := Relation.ReflTransGen.head stamped
    (writeRepeatedly_strides hosts
      ((m.stamp b).1.bytes.take (m.stamp b).2.slave.writeSlot.length.toNat)
      (max (m.stamp b).2.config.writeAttempts.toNat 1) 0 (m.stamp b).2 s)
  generalize writeRepeatedly t _ _ 0 (m.stamp b).2 s = result at written ⊢
  rcases result with ⟨⟨failures, cause | _ | workCounter⟩, m₁, s₁⟩
  · exact written.tail (.requeue m₁ _ reading _ failures)
  · exact written.tail (.requeue m₁ _ reading _ failures)
  · exact written.tail (.acknowledge m₁ _ reading _ failures workCounter)

theorem sendNext_strides (m : Mailbox) (s : σ) :
    Strides now ⟨m, view s, none, reading⟩
      ⟨(sendNext t now m s).2.1, view (sendNext t now m s).2.2, none, reading⟩ := by
  have chosen := takeNext_chooses now m (view s) reading
  unfold sendNext
  generalize m.takeNext now = next at chosen ⊢
  rcases next with ⟨_ | ⟨p, b⟩, m₁⟩
  · exact chosen
  · obtain ⟨request, -, -, path⟩ := chosen
    have called := path.trans (acts_strides (hosts.slotState m₁.slave.writeSlot m₁ s))
    dsimp only at called ⊢
    generalize t.slotState m₁.slave.writeSlot m₁ s = answer at called ⊢
    rcases answer with ⟨cause | _ | _, m₂, s₂⟩
    · exact called.tail (.requeue m₂ _ reading _ 0)
    · exact called.trans (writeMessage_strides hosts p b request m₂ s₂)
    · exact called.tail (.requeue m₂ _ reading _ 0)

/-- Once the wait for an overdue reply has ended, a turn is a path of strides. -/
theorem turn_strides (m : Mailbox) (s : σ) (opened : m.closed = false) :
    Strides now ⟨m.expire now, view s, none, reading⟩
      ⟨(m.turn t now s).2.1, view (m.turn t now s).2.2, none, reading⟩ := by
  have polled : Strides now ⟨m.expire now, view s, none, reading⟩ _ :=
    poll_strides hosts (m.expire now) s
  rw [turn, if_neg (by simp [opened])]
  generalize poll t now (m.expire now) s = result at polled ⊢
  rcases result with ⟨cause | _, m₁, s₁⟩
  · exact polled
  · exact polled.trans (sendNext_strides hosts m₁ s₁)

theorem Takes.strides {m₀ : Mailbox} {s₀ s : σ} {p : Protocol} {b : Buffer}
    (takes : m₀.Takes t now s₀ p b m s) (reading : List Buffer) :
    ∃ request, m.inFlight = some ⟨b.index, request, false, 0⟩ ∧ now < request.deadline ∧
      Strides now ⟨m₀.expire now, view s₀, none, reading⟩
        ⟨m, view s, some ⟨p, b, request⟩, reading⟩ := by
  obtain ⟨-, m₁, polled, next⟩ := takes
  have path : Strides now ⟨m₀.expire now, view s₀, none, reading⟩ _ :=
    poll_strides hosts (m₀.expire now) s₀
  have chosen := takeNext_chooses now m₁ (view s) reading
  rw [polled] at path
  rw [next] at chosen
  obtain ⟨request, flying, timely, rest⟩ := chosen
  exact ⟨request, flying, timely, path.trans rest⟩

theorem Writing.strides {m₀ : Mailbox} {s₀ taken s : σ} {request : PendingRequest} {data : Bytes}
    {left : Nat} (writing : m₀.Writing t now s₀ taken request data left m s) :
    ∃ p b m₁, m₀.Takes t now s₀ p b m₁ taken ∧ m₁.inFlight = some ⟨b.index, request, false, 0⟩ ∧
      now < request.deadline ∧ ∃ m₂ s₂, Scene.Acts ⟨m₁, view taken⟩ ⟨m₂, view s₂⟩ ∧
        Scene.Acts ⟨(m₂.stamp b).2, view s₂⟩ ⟨m, view s⟩ ∧
        data = (m₂.stamp b).1.bytes.take m₂.slave.writeSlot.length.toNat := by
  induction writing with
  | @first p b m₁ m₂ s₂ flight takes flying looked =>
      obtain ⟨request, same, timely, -⟩ := takes.strides hosts []
      have called := hosts.slotState m₁.slave.writeSlot m₁ taken
      rw [looked] at called
      cases flying.symm.trans same
      exact ⟨p, b, m₁, takes, same, timely, m₂, s₂, called, .refl, rfl⟩
  | @again request data left m₃ m₄ s₃ s₄ _ written ih =>
      obtain ⟨p, b, m₁, takes, flying, timely, m₂, s₂, before, after, eq⟩ := ih
      have called := hosts.write data m₃ s₃
      rw [written] at called
      exact ⟨p, b, m₁, takes, flying, timely, m₂, s₂, before, after.trans called, eq⟩

end Hosts

end Mailbox

/-! ## Beats -/

theorem Scene.Act.mailbox {x y : Scene} (act : Act x y) :
    y.mailbox = x.mailbox ∨ Mailbox.Act x.mailbox y.mailbox := by
  cases act with
  | take take => exact .inr (.take take)
  | change left index owner length => exact .inl rfl
  | giveBack left => exact .inr (.giveBack _ _)
  | enqueue left front expectsResponse deadline => exact .inr (.enqueue ..)
  | enqueueForeign front expectsResponse deadline foreign => exact .inr (.enqueue ..)
  | wait known => exact .inr (.wait _ _)
  | tryRead p => exact .inr (.tryRead _ p)
  | requestRead p => exact .inr (.requestRead _ p)
  | read p => exact .inr (.read _ p)
  | scheduleRead => exact .inr (.scheduleRead _)
  | close => exact .inr (.close _)

theorem Scene.Act.beats {x y : Scene} (act : Act x y) (held : List Buffer) :
    Mailbox.Beats ⟨x.mailbox, held⟩ ⟨y.mailbox, held⟩ := by
  rcases act.mailbox with same | act
  · rw [same]
  · exact act.beats held

theorem Stride.beats {now : Nat} {x y : Stage} (stride : Stride now x y) :
    Mailbox.Beats ⟨x.mailbox, x.reading⟩ ⟨y.mailbox, y.reading⟩ := by
  cases stride with
  | act errand reading act => exact act.beats reading
  | aside c beside beats => exact beats
  | orphan c reading next vacant => exact Mailbox.same_beats rfl rfl rfl id
  | overdue c reading next found late => exact Mailbox.overdue_beats reading _ found
  | pick c reading picks found => exact picks.beats reading
  | stamp m c reading errand => exact .single (.stamp m reading errand.buffer)
  | requeue m c reading errand failures =>
      exact (Mailbox.retry_beats m reading failures).trans (Mailbox.requeue_beats _ reading _ _)
  | acknowledge m c reading errand failures workCounter =>
      exact (Mailbox.retry_beats m reading failures).trans
        (Mailbox.acknowledge_beats _ reading _ workCounter)

/-! ## Submitting -/

/-- A message with zeros behind it, up to a size. -/
def MessageHeader.padded (header : MessageHeader) (payload : Bytes) (size : Nat) : Bytes :=
  header.encode ++ payload ++ Bytes.zeros (size - (Layout.mailboxHeader + payload.length))

theorem MessageHeader.length_padded (header : MessageHeader) {payload : Bytes} {size : Nat}
    (wide : Layout.mailboxHeader + payload.length ≤ size) :
    (header.padded payload size).length = size := by
  simp only [padded, Layout.mailboxHeader, List.length_append, length_encode,
    Bytes.length_zeros] at wide ⊢
  omega

theorem MessageHeader.overwrite_zeros (header : MessageHeader) (payload : Bytes) (size : Nat) :
    (Bytes.zeros size).overwrite 0 (header.encode ++ payload) = header.padded payload size := by
  rw [Bytes.overwrite_zero]
  simp [Bytes.zeros, padded, Layout.mailboxHeader]

theorem Message.encodeInto_zeros (header : MessageHeader) {payload : Bytes} (size : Nat)
    (short : payload.length ≤ maxPayload) : encodeInto (Bytes.zeros size) header payload =
      if Layout.mailboxHeader + payload.length ≤ size then
        .ok (Layout.mailboxHeader + payload.length,
          { header with length := .ofNat payload.length }.padded payload size)
      else .error (.capacity (Layout.mailboxHeader + payload.length) size) := by
  have length : (encode ⟨{ header with length := .ofNat payload.length }, payload⟩).length =
      Layout.mailboxHeader + payload.length := by simp [encode, Layout.mailboxHeader]
  unfold encodeInto
  dsimp only
  rw [if_neg (Nat.not_lt_of_le short), Bytes.store, length, Bytes.length_zeros]
  split
  case isTrue narrow =>
    rw [if_neg (Nat.not_le_of_lt narrow)]
    rfl
  case isFalse wide =>
    rw [if_pos (Nat.le_of_not_lt wide), encode, MessageHeader.overwrite_zeros]
    rfl

theorem Mailbox.prepare_eq_ok_iff {m : Mailbox} {b c : Buffer} {p : Protocol} {address : UInt16}
    {payload : Bytes} : m.prepare b p address payload = .ok c ↔
      Layout.mailboxHeader + payload.length ≤ m.slave.writeSlot.length.toNat ∧
        Layout.mailboxHeader + payload.length ≤ b.bytes.length ∧
        c = { b with
          bytes := MessageHeader.padded ⟨.ofNat payload.length, address, 0, 0, p, 0⟩ payload
            b.bytes.length
          length := Layout.mailboxHeader + payload.length } := by
  have bound := m.slave.writeSlot.length.toNat_lt
  unfold prepare
  dsimp only
  split
  case isTrue long =>
    simp only [reduceCtorEq, false_iff]
    omega
  case isFalse fits =>
    have short : payload.length ≤ Message.maxPayload := by
      simp only [Message.maxPayload]
      omega
    rw [Message.encodeInto_zeros _ _ short, Buffer.capacity]
    split
    case isFalse narrow => exact iff_of_false nofun fun all => narrow all.2.1
    case isTrue wide =>
      have size := MessageHeader.length_padded ⟨.ofNat payload.length, address, 0, 0, p, 0⟩ wide
      change Except.ok (Buffer.withLength { b with
        bytes := MessageHeader.padded ⟨.ofNat payload.length, address, 0, 0, p, 0⟩ payload
          b.bytes.length } _) = _ ↔ _
      rw [Buffer.withLength, Buffer.capacity, size, Nat.min_eq_left wide, Except.ok.injEq, eq_comm]
      exact ⟨fun eq => ⟨Nat.le_of_not_lt fits, wide, eq⟩, fun all => all.2.2⟩

theorem Mailbox.index_of_enqueueBack {m : Mailbox} {b : Buffer} {expectsResponse : Bool}
    {deadline : Nat} {h : Handle} (queued : (m.enqueueBack b expectsResponse deadline).1 = .ok h) :
    h.index = b.index := by
  by_cases owned : m.sendPool.owns b = true
  · rcases m.enqueueWith_cases ProtocolQueues.pushBack? owned expectsResponse deadline with
      ⟨cause, eq⟩ | ⟨p, sendQueues, -, eq⟩ <;> rw [enqueueBack, eq] at queued <;> cases queued
    rfl
  · simp [enqueueBack, enqueueWith, owned] at queued

/-- Whoever submits a request takes a buffer, fills it and queues it. -/
theorem Scene.submit_acts {m : Mailbox} {c : Callers} {p : Protocol} {address : UInt16}
    {payload : Bytes} {expectsResponse : Bool} {deadline : Nat} {h : Handle}
    (submitted : (m.submit p address payload expectsResponse deadline).1.toOption = some h) :
    ∃ b b' m₁, m.takeSendBuffer? = .ok (b, m₁) ∧ m₁.prepare b p address payload = .ok b' ∧
      Acts ⟨m, c⟩ ⟨(m.submit p address payload expectsResponse deadline).2, { c with posted :=
        c.posted ++ [⟨h.index, ⟨h.ticket, expectsResponse, h.deadline⟩, b'.bytes⟩] }⟩ := by
  unfold Mailbox.submit at submitted ⊢
  split at submitted
  · cases submitted
  · split at submitted
    · cases submitted
    case h_2 b m₁ taken =>
      split at submitted
      · cases submitted
      case h_2 b' prepared =>
        obtain ⟨-, wide, eq⟩ := Mailbox.prepare_eq_ok_iff.mp prepared
        have length : b'.bytes.length = b.bytes.length := by
          rw [eq]
          exact MessageHeader.length_padded _ wide
        have queued : (m₁.enqueueBack b' expectsResponse deadline).1 = .ok h := by
          cases result : (m₁.enqueueBack b' expectsResponse deadline).1 with
          | error cause => rw [result] at submitted; cases submitted
          | ok other => rw [result] at submitted; cases submitted; rfl
        simp only [taken]
        refine ⟨b, b', m₁, rfl, prepared, ?_⟩
        have filled : Act ⟨m₁, ⟨[] ++ b :: c.buffers, c.posted, c.lapsed⟩⟩
            ⟨m₁, ⟨[] ++ b' :: c.buffers, c.posted, c.lapsed⟩⟩ :=
          .change [] (by rw [eq]) (by rw [eq]) length
        have posted : Act ⟨m₁, ⟨[] ++ b' :: c.buffers, c.posted, c.lapsed⟩⟩ _ :=
          .enqueue [] false expectsResponse deadline
        have same : m₁.enqueue false b' expectsResponse deadline =
          m₁.enqueueBack b' expectsResponse deadline := rfl
        rw [same, queued, Callers.post, ← Mailbox.index_of_enqueueBack queued] at posted
        exact .head (.take taken) (.head filled (.single posted))

end Fieldbus
