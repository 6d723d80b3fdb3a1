import Fieldbus.Proofs.Mailbox.Messages
import Fieldbus.Proofs.Mailbox.Scenes

/-!
# Where the send buffers are at every moment

While the mailbox is open its send buffers are idle, queued, in the hands of callers or of a turn,
and all have the size that the slave asks for. A closed mailbox carries nothing, even if a turn goes
on with the request that it had taken before. Every stride keeps this.
-/

namespace Fieldbus

open BufferQueue (indices)

@[simp] theorem MessageHeader.length_stamp (counter : UInt8) (bytes : Bytes) :
    (stamp counter bytes).length = bytes.length := by
  match bytes with
  | b₀ :: b₁ :: b₂ :: b₃ :: b₄ :: kind :: rest => rfl
  | [] | [_] | [_, _] | [_, _, _] | [_, _, _, _] | [_, _, _, _, _] => rfl

theorem Buffer.fire_bytes (b : Buffer) : b.fire.2.bytes = b.bytes := by
  unfold fire
  split <;> rfl

theorem Buffer.fire_place (b : Buffer) : b.fire.2.index = b.index ∧ b.fire.2.pool = b.pool := by
  unfold fire
  split <;> exact ⟨rfl, rfl⟩

namespace Mailbox

/-- The send buffers of an open mailbox, of which `held` are in somebody's hands. All have one
size. -/
structure Stores (size : Nat) (m : Mailbox) (held : List Buffer) : Prop where
  custody : m.Custody held
  sized : ∀ b ∈ m.sendPool.idle ++ held ++ m.sendQueues.everything, b.bytes.length = size

/-- What the mailbox has of its send buffers, open or closed. -/
structure Kept (slave : SlaveConfig) (m : Mailbox) (held : List Buffer) : Prop where
  served : m.slave = slave
  sized : ∀ b ∈ held, b.bytes.length = bufferSize slave
  state : m.closed = false ∧ m.Stores (bufferSize slave) held ∨ m.Shut

variable {m m' : Mailbox} {held : List Buffer} {b c : Buffer} {size now : Nat}
  {slave : SlaveConfig}

/-! ## An open mailbox -/

namespace Stores

theorem perm {held' : List Buffer} (h : m.Stores size held) (perm : held'.Perm held) :
    m.Stores size held' := by
  refine ⟨⟨h.custody.stock.regrip (perm.map _) fun b mem => ?_, h.custody.size,
    h.custody.recorded⟩, fun b mem => h.sized b ?_⟩
  · exact h.custody.stock.owned b (List.mem_append_left _ (perm.mem_iff.mp mem))
  · exact ((perm.append_left _).append_right _).mem_iff.mp mem

theorem congr (h : m.Stores size held) (pool : m'.sendPool = m.sendPool)
    (queues : m'.sendQueues = m.sendQueues) (requests : m'.requests = m.requests) :
    m'.Stores size held :=
  ⟨h.custody.congr pool queues requests, by rw [pool, queues]; exact h.sized⟩

theorem change (h : m.Stores size (b :: held)) (index : c.index = b.index) (owner : c.pool = b.pool)
    (length : c.bytes.length = b.bytes.length) : m.Stores size (c :: held) := by
  refine ⟨h.custody.change index owner, fun d mem => ?_⟩
  rw [List.append_assoc, List.mem_append, List.cons_append, List.mem_cons] at mem
  rcases mem with idle | rfl | other
  · exact h.sized d (by simp [idle])
  · exact length.trans (h.sized b (by simp))
  · refine h.sized d ?_
    rw [List.append_assoc, List.mem_append, List.cons_append, List.mem_cons]
    exact .inr (.inr other)

theorem take {sendPool : Pool} (h : m.Stores size held)
    (take : m.sendPool.take? = .ok (b, sendPool)) :
    { m with sendPool }.Stores size (b :: held) := by
  refine ⟨h.custody.take take, fun c mem => h.sized c ?_⟩
  obtain ⟨-, idle, -⟩ := h.custody.stock.sound.take? take
  rw [idle]
  exact (List.perm_middle.append_right m.sendQueues.everything).mem_iff.mp mem

theorem put (h : m.Stores size (b :: held)) : (m.putSend b).Stores size held := by
  refine ⟨h.custody.put, fun c mem => ?_⟩
  have stock := h.custody.stock
  obtain ⟨-, idle, -⟩ := stock.sound.put stock.opened (stock.owned b (by simp)) stock.bound
    stock.not_mem_idle
  have mem : c ∈ (m.sendPool.put b).idle ++ held ++ m.sendQueues.everything := mem
  rw [idle] at mem
  simp only [List.append_assoc, List.mem_append, List.mem_singleton] at mem
  rcases mem with mem | rfl | mem | mem
  · exact h.sized c (by simp [mem])
  · exact h.sized b (by simp)
  · exact h.sized c (by simp [mem])
  · exact h.sized c (by simp [mem])

theorem dequeue {p : Protocol} {before after : List Buffer} {sendQueues : ProtocolQueues}
    (h : m.Stores size held) (entries : m.sendQueues.entries p = before ++ b :: after)
    (becomes : m.sendQueues.Becomes m.sendPool.capacity p (before ++ after) sendQueues) :
    ({ m with sendQueues }.setRequest b.index none).Stores size (b :: held) := by
  have queued : b ∈ m.sendQueues.everything :=
    ProtocolQueues.mem_everything.mpr ⟨p, by simp [entries]⟩
  have left (c : Buffer) (mem : c ∈ sendQueues.everything) : c ∈ m.sendQueues.everything := by
    obtain ⟨q, mem⟩ := ProtocolQueues.mem_everything.mp mem
    exact ProtocolQueues.mem_everything.mpr
      ⟨q, ((h.custody.stock.mem_dequeue entries becomes q c).mp mem).1⟩
  refine ⟨h.custody.dequeue entries becomes, fun c mem => h.sized c ?_⟩
  have mem : c ∈ m.sendPool.idle ++ b :: held ++ sendQueues.everything := mem
  simp only [List.append_assoc, List.cons_append, List.mem_append, List.mem_cons] at mem ⊢
  rcases mem with mem | rfl | mem | mem
  · exact .inl mem
  · exact .inr (.inr queued)
  · exact .inr (.inl mem)
  · exact .inr (.inr (left c mem))

theorem enqueue {p : Protocol} {bs : List Buffer} {sendQueues : ProtocolQueues}
    (h : m.Stores size (b :: held)) (perm : bs.Perm (b :: m.sendQueues.entries p))
    (becomes : m.sendQueues.Becomes m.sendPool.capacity p bs sendQueues)
    (request : PendingRequest) :
    ({ m with sendQueues }.setRequest b.index (some request)).Stores size held := by
  refine ⟨h.custody.enqueue perm becomes request, fun c mem => h.sized c ?_⟩
  have mem : c ∈ m.sendPool.idle ++ held ++ sendQueues.everything := mem
  simp only [List.append_assoc, List.cons_append, List.mem_append, List.mem_cons] at mem ⊢
  rcases mem with mem | mem | mem
  · exact .inl mem
  · exact .inr (.inr (.inl mem))
  · rcases becomes.mem_everything mem with mem | mem
    · rcases List.mem_cons.mp (perm.mem_iff.mp mem) with rfl | mem
      · exact .inr (.inl rfl)
      · exact .inr (.inr (.inr (ProtocolQueues.mem_everything.mpr ⟨p, mem⟩)))
    · exact .inr (.inr (.inr mem))

theorem next {p : Protocol} {sendQueues : ProtocolQueues} {order : List Protocol}
    (h : m.Stores size held) (next : m.sendQueues.next? order = some (p, b, sendQueues)) :
    ({ m with sendQueues }.setRequest b.index none).Stores size (b :: held) := by
  obtain ⟨rest, entries, becomes⟩ := h.custody.stock.queued.next? next
  exact h.dequeue (show _ = [] ++ b :: rest from entries) becomes

end Stores

/-! ## Open or closed -/

theorem Shut.next? (shut : m.Shut) (order : List Protocol) : m.sendQueues.next? order = none := by
  cases next : m.sendQueues.next? order with
  | none => rfl
  | some found =>
      obtain ⟨capacity, sound⟩ := shut.queued
      obtain ⟨rest, entries, -⟩ := sound.next? next
      have queued : found.2.1 ∈ m.sendQueues.everything :=
        ProtocolQueues.mem_everything.mpr ⟨found.1, by simp [entries]⟩
      rw [shut.emptied] at queued
      cases queued

theorem Reads.beside {p : Protocol} {got : Option (Except Error Message)}
    (reads : m.Reads p got m') : m.Beside m' := by
  cases reads with
  | got taken =>
      obtain ⟨⟨b, receiveQueues⟩, -, eq⟩ := Option.map_eq_some_iff.mp taken
      obtain ⟨-, rfl⟩ := Prod.mk.inj eq
      exact ⟨rfl, rfl, rfl, rfl, rfl, rfl, .inl ⟨rfl, rfl⟩⟩
  | missed => exact ⟨rfl, rfl, rfl, rfl, rfl, rfl, .inl ⟨rfl, rfl⟩⟩

theorem acknowledge_calm {workCounter : UInt16} (calm : m.inFlight = none) :
    m.acknowledge b workCounter =
      { m.taken b workCounter with consumed := true }.putSend b.fire.2 := by
  simp only [acknowledge, tally, record, calm]
  simp only [taken, calm]

theorem enqueue_fixed (m : Mailbox) (front : Bool) (b : Buffer) (expectsResponse : Bool)
    (deadline : Nat) : (m.enqueue front b expectsResponse deadline).2.slave = m.slave ∧
      (m.enqueue front b expectsResponse deadline).2.counter = m.counter := by
  by_cases owned : m.sendPool.owns b = true
  · have queueing (push : ProtocolQueues → Protocol → Buffer → Option ProtocolQueues) :
        (m.enqueueWith push b expectsResponse deadline).2.slave = m.slave ∧
          (m.enqueueWith push b expectsResponse deadline).2.counter = m.counter := by
      rcases m.enqueueWith_cases push owned expectsResponse deadline with
        ⟨cause, eq⟩ | ⟨p, sendQueues, -, eq⟩ <;> rw [eq] <;> exact ⟨rfl, rfl⟩
    cases front with
    | true => exact queueing _
    | false => exact queueing _
  · rw [enqueue_foreign (by simpa using owned)]
    exact ⟨rfl, rfl⟩

theorem close_fixed (m : Mailbox) : m.close.2.slave = m.slave ∧ m.close.2.counter = m.counter := by
  cases closed : m.closed with
  | true =>
      rw [close, if_pos closed]
      exact ⟨rfl, rfl⟩
  | false =>
      obtain ⟨requests, journal, eq⟩ := m.dismissQueued_eq
      rw [close_eq closed rfl rfl, dismissAll, eq]
      dsimp only
      split
      · exact ⟨rfl, rfl⟩
      · rw [resolve_eq]
        exact ⟨rfl, rfl⟩

namespace Kept

variable (h : m.Kept slave held)

include h

theorem perm {held' : List Buffer} (perm : held'.Perm held) : m.Kept slave held' where
  served := h.served
  sized b mem := h.sized b (perm.mem_iff.mp mem)
  state := h.state.imp (And.imp_right (·.perm perm)) id

theorem congr (same : m'.slave = m.slave) (closed : m'.closed = m.closed)
    (pool : m'.sendPool = m.sendPool) (queues : m'.sendQueues = m.sendQueues)
    (requests : m'.requests = m.requests)
    (shut : m.Shut → m'.handshake = .idle ∧ m'.inFlight = none) : m'.Kept slave held where
  served := same.trans h.served
  sized := h.sized
  state := by
    rcases h.state with ⟨opened, stores⟩ | still
    · exact .inl ⟨closed.trans opened, stores.congr pool queues requests⟩
    · obtain ⟨idle, calm⟩ := shut still
      refine .inr ⟨closed.trans still.closed, idle, calm, fun i => ?_, ?_, ?_⟩
      · rw [request?, requests]
        exact still.vacant i
      · rw [queues]
        exact still.queued
      · rw [queues]
        exact still.emptied

theorem beside (beside : m.Beside m') : m'.Kept slave held := by
  refine h.congr beside.slave beside.closed beside.sendPool beside.sendQueues beside.requests
    fun shut => ?_
  rcases beside.flight with ⟨flight, handshake⟩ | ⟨flying, -⟩
  · exact ⟨handshake.trans shut.idle, flight.trans shut.calm⟩
  · exact absurd shut.calm flying

theorem take {sendPool : Pool} (take : m.sendPool.take? = .ok (b, sendPool))
    (opened : m.closed = false) : { m with sendPool }.Kept slave (b :: held) := by
  rcases h.state with ⟨-, stores⟩ | shut
  · have taken := stores.take take
    refine ⟨h.served, fun c mem => taken.sized c ?_, .inl ⟨opened, taken⟩⟩
    exact List.mem_append_left _ (List.mem_append_right _ mem)
  · rw [shut.closed] at opened
    cases opened

theorem settle (handle : Handle) : (m.settle handle).2.Kept slave held := by
  rcases h.state with ⟨opened, stores⟩ | shut
  · have open' : ¬m.Shut := fun shut => by simp [shut.closed] at opened
    rcases m.settle_eq handle with eq | ⟨-, eq⟩ <;> rw [eq]
    · exact h
    rcases m.abandon_cases handle with
      eq | ⟨p, b, sendQueues, removed, eq⟩ | ⟨flight, -, -, ⟨-, eq⟩ | ⟨-, eq⟩⟩ <;> rw [eq]
    · exact h
    · obtain ⟨before, after, entries, index, becomes⟩ :=
        stores.custody.stock.queued.remove? removed
      have out := stores.dequeue entries becomes
      rw [index] at out
      exact ⟨h.served, h.sized, .inl ⟨opened, Stores.put (out.congr rfl rfl rfl)⟩⟩
    · exact h.congr rfl rfl rfl rfl rfl fun shut => absurd shut open'
    · exact h.congr rfl rfl rfl rfl rfl fun shut => absurd shut open'
  · rw [shut.settle]
    exact h

theorem close : m.close.2.Kept slave held := by
  refine ⟨m.close_fixed.1.trans h.served, h.sized, ?_⟩
  rcases h.state with ⟨opened, stores⟩ | shut
  · exact .inr (stores.custody.close opened).2
  · rw [Mailbox.close, if_pos shut.closed]
    exact .inr shut

theorem retried (failures : Nat) : (m.retried failures).Kept slave held :=
  h.congr rfl rfl rfl rfl rfl fun shut => ⟨shut.idle, shut.calm⟩

theorem stamp (b : Buffer) : (m.stamp b).2.Kept slave held := by
  refine h.congr rfl rfl rfl rfl rfl fun shut => ⟨?_, shut.calm⟩
  have waiting : m.handshake ≠ .sendPending := by rw [shut.idle]; decide
  exact (if_neg waiting).trans shut.idle

end Kept

theorem Kept.front (h : m.Kept slave (held ++ [b])) : m.Kept slave (b :: held) :=
  h.perm (List.perm_append_singleton b held).symm

section Hands

variable (h : m.Kept slave (b :: held))

include h

theorem Kept.change (index : c.index = b.index) (owner : c.pool = b.pool)
    (length : c.bytes.length = b.bytes.length) : m.Kept slave (c :: held) := by
  refine ⟨h.served, fun d mem => ?_,
    h.state.imp (And.imp_right (·.change index owner length)) id⟩
  rcases List.mem_cons.mp mem with rfl | mem
  · exact length.trans (h.sized b List.mem_cons_self)
  · exact h.sized d (List.mem_cons_of_mem b mem)

theorem Kept.put : (m.putSend b).Kept slave held where
  served := h.served
  sized c mem := h.sized c (List.mem_cons_of_mem b mem)
  state := h.state.imp (And.imp_right Stores.put) (m.putSend_untouched b).shut

theorem Kept.enqueue (front expectsResponse : Bool) (deadline : Nat) :
    (∃ cause, (m.enqueue front b expectsResponse deadline).1 = .error cause) ∧
        m.Untouched (m.enqueue front b expectsResponse deadline).2 ∧
        (m.enqueue front b expectsResponse deadline).2.Kept slave held ∨
      ∃ p bs sendQueues, bs.Perm (b :: m.sendQueues.entries p) ∧
        m.sendQueues.Becomes m.sendPool.capacity p bs sendQueues ∧ m.Custody (b :: held) ∧
        m.enqueue front b expectsResponse deadline =
          (.ok ⟨b.index, m.nextTicket, deadline⟩, m.lodge sendQueues b expectsResponse deadline) ∧
        (m.lodge sendQueues b expectsResponse deadline).Kept slave held := by
  rcases h.state with ⟨opened, stores⟩ | shut
  · rcases enqueue_cases stores.custody front expectsResponse deadline with
      ⟨cause, eq⟩ | ⟨p, bs, sendQueues, perm, becomes, eq⟩
    · rw [eq]
      exact .inl ⟨⟨cause, rfl⟩, m.putSend_untouched b, h.put⟩
    · refine .inr ⟨p, bs, sendQueues, perm, becomes, stores.custody, eq, h.served,
        fun c mem => h.sized c (List.mem_cons_of_mem b mem), .inl ⟨opened, ?_⟩⟩
      exact (stores.enqueue perm becomes _).congr rfl rfl rfl
  · obtain ⟨refused, untouched⟩ := enqueue_shut shut.closed front b expectsResponse deadline
    refine .inl ⟨refused, untouched, ?_, fun c mem => h.sized c (List.mem_cons_of_mem b mem),
      .inr (untouched.shut shut)⟩
    exact (enqueue_fixed m front b expectsResponse deadline).1.trans h.served

theorem Kept.requeue (p : Protocol) : (m.requeue p b).Kept slave held := by
  rcases m.requeue_cases p b with
    eq | ⟨flight, flying, eq⟩ | ⟨flight, sendQueues, flying, push, eq⟩ <;> rw [eq]
  · exact Kept.put (h.congr rfl rfl rfl rfl rfl fun _ => ⟨rfl, rfl⟩)
  · exact Kept.put (h.congr rfl rfl rfl rfl rfl fun _ => ⟨rfl, rfl⟩)
  · rcases h.state with ⟨opened, stores⟩ | shut
    · obtain ⟨queues, again, becomes, -⟩ := stores.custody.stock.pushFront? p
      rw [push] at again
      cases again
      have back := stores.enqueue (.refl _) becomes flight.request
      exact ⟨h.served, fun c mem => h.sized c (List.mem_cons_of_mem b mem),
        .inl ⟨opened, back.congr rfl rfl rfl⟩⟩
    · rw [shut.calm] at flying
      cases flying

theorem Kept.acknowledge (workCounter : UInt16) :
    (m.acknowledge b workCounter).Kept slave held := by
  obtain ⟨index, owner⟩ := b.fire_place
  have fired := h.change index owner (congrArg List.length b.fire_bytes)
  rcases h.state with ⟨opened, -⟩ | shut
  · have open' : ¬m.Shut := fun shut => by simp [shut.closed] at opened
    rcases m.acknowledge_cases b workCounter with
      ⟨handshake, eq⟩ | ⟨flight, flying, eq⟩ | ⟨flight, flying, eq⟩ <;> rw [eq] <;>
      exact Kept.put (fired.congr rfl rfl rfl rfl rfl fun shut => absurd shut open')
  · rw [acknowledge_calm shut.calm]
    exact Kept.put (fired.congr rfl rfl rfl rfl rfl fun shut => ⟨shut.idle, shut.calm⟩)

end Hands

section Next

variable {p : Protocol} {sendQueues : ProtocolQueues} {order : List Protocol}

theorem Kept.next (h : m.Kept slave held)
    (next : m.sendQueues.next? order = some (p, b, sendQueues)) :
    m.closed = false ∧ ({ m with sendQueues }.setRequest b.index none).Stores (bufferSize slave)
      (b :: held) ∧ ∃ request, m.request? b.index = some request := by
  rcases h.state with ⟨opened, stores⟩ | shut
  · exact ⟨opened, stores.next next, (stores.custody.next next).2⟩
  · rw [shut.next?] at next
    cases next

theorem Kept.occupied (h : m.Kept slave held)
    (next : m.sendQueues.next? order = some (p, b, sendQueues)) : m.request? b.index ≠ none := by
  obtain ⟨-, -, request, found⟩ := h.next next
  simp [found]

theorem Kept.overdue (h : m.Kept slave held) {request : PendingRequest}
    (next : m.sendQueues.next? order = some (p, b, sendQueues)) :
    (((({ m with sendQueues }.setRequest b.index none).resolve request.ticket
      (.error .timeout)).countTimeout).putSend b).Kept slave held := by
  obtain ⟨opened, out, -⟩ := h.next next
  rw [resolve_eq]
  exact ⟨h.served, h.sized, .inl ⟨opened, Stores.put (out.congr rfl rfl rfl)⟩⟩

theorem Kept.pick (h : m.Kept slave held) (picks : m.Picks now p b m') :
    m'.Kept slave (b :: held) := by
  obtain ⟨sendQueues, request, -, next, -, -, rfl⟩ := picks
  obtain ⟨opened, out, -⟩ := h.next next
  have taken : { ({ m with sendQueues }).setRequest b.index none with
      handshake := .sendPending
      inFlight := some ⟨b.index, request, false, 0⟩ }.Stores (bufferSize slave) (b :: held) :=
    out.congr rfl rfl rfl
  refine ⟨h.served, fun c mem => taken.sized c ?_, .inl ⟨opened, taken⟩⟩
  exact List.mem_append_left _ (List.mem_append_right _ mem)

end Next

/-! ## Requests that are lost -/

/-- Some requests are no longer carried, and the others are carried as before. The caller of the one
in flight may have given up. -/
structure Forgets (m m' : Mailbox) : Prop where
  nextTicket : m'.nextTicket = m.nextTicket
  entries : ∀ p b, b ∈ m'.sendQueues.entries p → b ∈ m.sendQueues.entries p
  request : ∀ i r, m'.request? i = some r → m.request? i = some r
  flight : m'.inFlight = none ∨ m'.handshake = m.handshake ∧
    ∃ flight abandoned, m.inFlight = some flight ∧
      m'.inFlight = some { flight with abandoned := flight.abandoned || abandoned }

theorem flight_of_same (same : m'.inFlight = m.inFlight) (handshake : m'.handshake = m.handshake) :
    m'.inFlight = none ∨ m'.handshake = m.handshake ∧
      ∃ flight abandoned, m.inFlight = some flight ∧
        m'.inFlight = some { flight with abandoned := flight.abandoned || abandoned } := by
  cases flying : m.inFlight with
  | none => exact .inl (same.trans flying)
  | some flight => exact .inr ⟨handshake, flight, false, rfl, by simp [same, flying]⟩

theorem Forgets.of_same (nextTicket : m'.nextTicket = m.nextTicket)
    (sendQueues : m'.sendQueues = m.sendQueues) (requests : m'.requests = m.requests)
    (flight : m'.inFlight = m.inFlight ∧ m'.handshake = m.handshake ∨ m'.inFlight = none) :
    m.Forgets m' where
  nextTicket := nextTicket
  entries p b mem := sendQueues ▸ mem
  request i r found := by rwa [request?, requests] at found
  flight := by
    rcases flight with ⟨same, handshake⟩ | calm
    · exact flight_of_same same handshake
    · exact .inl calm

theorem Untouched.forgets (h : m.Untouched m') : m.Forgets m' :=
  .of_same h.nextTicket h.sendQueues h.requests (.inl ⟨h.inFlight, h.handshake⟩)

theorem Beside.forgets (h : m.Beside m') : m.Forgets m' :=
  .of_same h.nextTicket h.sendQueues h.requests (h.flight.imp id And.right)

theorem retried_forgets (m : Mailbox) (failures : Nat) : m.Forgets (m.retried failures) :=
  .of_same rfl rfl rfl (.inl ⟨rfl, rfl⟩)

theorem Stores.forgets {p : Protocol} {before after : List Buffer} {sendQueues : ProtocolQueues}
    (h : m.Stores size held) (entries : m.sendQueues.entries p = before ++ b :: after)
    (becomes : m.sendQueues.Becomes m.sendPool.capacity p (before ++ after) sendQueues)
    (queues : m'.sendQueues = sendQueues)
    (requests : m'.requests = (m.setRequest b.index none).requests)
    (nextTicket : m'.nextTicket = m.nextTicket) (flight : m'.inFlight = m.inFlight)
    (handshake : m'.handshake = m.handshake) : m.Forgets m' where
  nextTicket := nextTicket
  entries q c mem := by
    rw [queues] at mem
    exact ((h.custody.stock.mem_dequeue entries becomes q c).mp mem).1
  request i r found := by
    rw [request?, requests] at found
    rcases request?_setRequest_eq_some found with ⟨-, none⟩ | ⟨-, same⟩
    · cases none
    · exact same
  flight := flight_of_same flight handshake

theorem Kept.settle_forgets (h : m.Kept slave held) (handle : Handle) :
    m.Forgets (m.settle handle).2 := by
  rcases h.state with ⟨-, stores⟩ | shut
  · rcases m.settle_eq handle with eq | ⟨-, eq⟩ <;> rw [eq]
    · exact (Untouched.refl m).forgets
    rcases m.abandon_cases handle with
      eq | ⟨p, b, sendQueues, removed, eq⟩ | ⟨flight, flying, -, ⟨-, eq⟩ | ⟨-, eq⟩⟩ <;> rw [eq]
    · exact (Untouched.refl m).forgets
    · obtain ⟨before, after, entries, index, becomes⟩ :=
        stores.custody.stock.queued.remove? removed
      exact stores.forgets entries becomes rfl (by rw [index]; rfl) rfl rfl rfl
    · exact ⟨rfl, fun _ _ mem => mem, fun _ _ found => found,
        .inr ⟨rfl, flight, true, flying, by simp⟩⟩
    · exact .of_same rfl rfl rfl (.inr rfl)
  · rw [shut.settle]
    exact (Untouched.refl m).forgets

theorem Kept.overdue_forgets (h : m.Kept slave held) {p : Protocol} {sendQueues : ProtocolQueues}
    {order : List Protocol} {request : PendingRequest}
    (next : m.sendQueues.next? order = some (p, b, sendQueues)) :
    m.Forgets (((({ m with sendQueues }.setRequest b.index none).resolve request.ticket
      (.error .timeout)).countTimeout).putSend b) := by
  rcases h.state with ⟨-, stores⟩ | shut
  · obtain ⟨rest, entries, becomes⟩ := stores.custody.stock.queued.next? next
    rw [resolve_eq]
    exact stores.forgets (show _ = [] ++ b :: rest from entries) becomes rfl rfl rfl rfl rfl
  · rw [shut.next?] at next
    cases next

theorem Kept.close_forgets (h : m.Kept slave held) : m.Forgets m.close.2 := by
  rcases h.state with ⟨opened, stores⟩ | shut
  · obtain ⟨dismisses, closed⟩ := stores.custody.close opened
    refine ⟨dismisses.nextTicket, fun p b mem => ?_, dismisses.request, .inl closed.calm⟩
    have queued := ProtocolQueues.mem_everything.mpr ⟨p, mem⟩
    rw [closed.emptied] at queued
    cases queued
  · rw [Mailbox.close, if_pos shut.closed]
    exact (Untouched.refl m).forgets

end Mailbox

/-! ## Along a turn -/

namespace Stage

def inHand (x : Stage) : List Buffer := x.callers.buffers ++ (x.errand.map Errand.buffer).toList

end Stage

namespace Scene

variable {m m' : Mailbox} {c c' : Callers} {slave : SlaveConfig} {sending : List Buffer}

/-- What an act makes of the requests. -/
inductive Alters (m : Mailbox) (c : Callers) (sending : List Buffer) : Mailbox → Callers → Prop
  /-- Nothing new is queued. -/
  | forgets {m' : Mailbox} {c' : Callers} : m.Forgets m' → c'.posted = c.posted →
      (c'.lapsed = c.lapsed ∨ ∃ h, c.Knows h ∧ (m.settle h).1 = .error .timeout ∧
        m' = (m.settle h).2 ∧ c'.lapsed = h.ticket :: c.lapsed) →
      Alters m c sending m' c'
  | lodges {b : Buffer} {buffers : List Buffer} {p : Protocol} {bs : List Buffer}
      {sendQueues : ProtocolQueues} (expectsResponse : Bool) (deadline : Nat) :
      m.Custody (b :: (buffers ++ sending)) → bs.Perm (b :: m.sendQueues.entries p) →
      m.sendQueues.Becomes m.sendPool.capacity p bs sendQueues →
      Alters m c sending (m.lodge sendQueues b expectsResponse deadline)
        ⟨buffers, c.posted ++ [⟨b.index, ⟨m.nextTicket, expectsResponse, deadline⟩, b.bytes⟩],
          c.lapsed⟩

theorem Act.alters (h : m.Kept slave (c.buffers ++ sending)) (act : Act ⟨m, c⟩ ⟨m', c'⟩) :
    Alters m c sending m' c' ∧ m'.Kept slave (c'.buffers ++ sending) := by
  have front (left right : List Buffer) (b : Buffer) :
      (b :: (left ++ right ++ sending)).Perm (left ++ b :: right ++ sending) :=
    (List.perm_middle.append_right sending).symm
  cases act with
  | take take =>
      obtain ⟨opened, sendPool, taken, rfl⟩ := Mailbox.takeSendBuffer?_eq_ok take
      exact ⟨.forgets (Mailbox.takeSendBuffer_untouched take).forgets rfl (.inl rfl),
        h.take taken opened⟩
  | @change _ left right posted lapsed b b' index owner length =>
      exact ⟨.forgets (Mailbox.Untouched.refl m).forgets rfl (.inl rfl),
        ((h.perm (front left right b)).change index owner length).perm (front left right b').symm⟩
  | @giveBack _ left right posted lapsed b =>
      exact ⟨.forgets (m.putSend_untouched b).forgets rfl (.inl rfl),
        (h.perm (front left right b)).put⟩
  | @enqueue _ left right posted lapsed b front' expectsResponse deadline =>
      rcases (h.perm (front left right b)).enqueue front' expectsResponse deadline with
        ⟨⟨cause, refused⟩, untouched, kept⟩ | ⟨p, bs, sendQueues, perm, becomes, custody, eq, kept⟩
      · rw [refused]
        exact ⟨.forgets untouched.forgets rfl (.inl rfl), kept⟩
      · rw [eq]
        exact ⟨.lodges expectsResponse deadline custody perm becomes, kept⟩
  | enqueueForeign front' expectsResponse deadline foreign =>
      rw [Mailbox.enqueue_foreign foreign]
      exact ⟨.forgets (Mailbox.Untouched.refl m).forgets rfl (.inl rfl), h⟩
  | @wait _ _ handle known =>
      have kept := h.settle handle
      refine ⟨.forgets (h.settle_forgets handle) (c.hear_posted ..) ?_, by rwa [c.hear_buffers]⟩
      rcases c.hear_cases handle (m.settle handle).1 with eq | ⟨late, eq⟩
      · exact .inl (congrArg Callers.lapsed eq)
      · exact .inr ⟨handle, known, late, rfl, congrArg Callers.lapsed eq⟩
  | tryRead p =>
      obtain ⟨_, reads, -⟩ := m.tryRead_reads p
      exact ⟨.forgets reads.beside.forgets rfl (.inl rfl), h.beside reads.beside⟩
  | requestRead p =>
      obtain ⟨_, reads, -⟩ := m.requestRead_reads p
      exact ⟨.forgets reads.beside.forgets rfl (.inl rfl), h.beside reads.beside⟩
  | read p =>
      obtain ⟨_, reads, -⟩ := m.read_reads p
      exact ⟨.forgets reads.beside.forgets rfl (.inl rfl), h.beside reads.beside⟩
  | scheduleRead =>
      exact ⟨.forgets (Mailbox.Untouched.forgets ⟨rfl, rfl, rfl, rfl, rfl, rfl, rfl, rfl, rfl⟩) rfl
        (.inl rfl), h.congr rfl rfl rfl rfl rfl fun shut => ⟨shut.idle, shut.calm⟩⟩
  | close => exact ⟨.forgets h.close_forgets rfl (.inl rfl), h.close⟩

end Scene

namespace Stride

variable {now : Nat} {x y : Stage} {slave : SlaveConfig}

theorem kept (h : x.mailbox.Kept slave x.inHand) (stride : Stride now x y) :
    y.mailbox.Kept slave y.inHand := by
  cases stride with
  | act errand reading act => exact (act.alters h).2
  | aside c beside beats => exact h.beside beside
  | orphan c reading next vacant => exact (h.occupied next vacant).elim
  | overdue c reading next found late => exact h.overdue next
  | pick c reading picks found => exact (h.pick picks).perm (by simp [Stage.inHand])
  | stamp m c reading errand =>
      have stamped : m.Kept slave ((m.stamp errand.buffer).1 :: c.buffers) :=
        h.front.change rfl rfl (MessageHeader.length_stamp ..)
      exact (stamped.stamp errand.buffer).perm (List.perm_append_singleton _ _)
  | requeue m c reading errand failures =>
      exact ((h.front.retried failures).requeue errand.protocol).perm (.of_eq (List.append_nil _))
  | acknowledge m c reading errand failures workCounter =>
      exact ((h.front.retried failures).acknowledge workCounter).perm
        (.of_eq (List.append_nil _))

end Stride

end Fieldbus
