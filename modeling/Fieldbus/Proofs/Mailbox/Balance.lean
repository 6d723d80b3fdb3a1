import Fieldbus.Proofs.Mailbox.Callers

/-!
# The balance of the buffers

A mailbox has two stores of buffers, each a pool with the queues for its buffers. A store is
balanced if the buffers in the pool, in the queues and in somebody's hands are all the buffers that
there are. Whatever is done in one go moves a buffer at a time, and so keeps the balance.
-/

namespace Fieldbus

open BufferQueue (indices)

theorem ProtocolQueues.Sound.totalLength {q : ProtocolQueues} {capacity : Nat}
    (h : q.Sound capacity) : q.totalLength = q.everything.length := by
  have length (p : Protocol) : q.length p = (q.entries p).length := (h.holds p).length
  simp [ProtocolQueues.totalLength, everything, Protocol.all, length, Nat.add_assoc]

structure Store where
  pool : Pool
  queues : ProtocolQueues

namespace Store

/-- All `size` buffers are in their places, those of `out` in somebody's hands. -/
structure Balanced (size : Nat) (s : Store) (out : List Buffer) : Prop where
  stock : Stock s.pool s.queues out
  size : s.pool.capacity = size

namespace Balanced

variable {size : Nat} {s : Store} {out out' : List Buffer} {b c : Buffer}

theorem sum (h : s.Balanced size out) :
    s.pool.available + s.queues.totalLength + out.length = size := by
  have total := h.stock.lends.available
  rw [List.length_append] at total
  rw [h.stock.queued.totalLength, ← h.size]
  omega

theorem places (h : s.Balanced size out) :
    (indices (s.pool.idle ++ out ++ s.queues.everything)).Perm (List.range size) :=
  h.size ▸ h.stock.once

theorem perm (h : s.Balanced size out) (same : out'.Perm out) : s.Balanced size out' :=
  ⟨h.stock.regrip (same.map Buffer.index) fun b mem =>
    h.stock.owned b (List.mem_append_left _ (same.subset mem)), h.size⟩

theorem change (h : s.Balanced size (b :: out)) (index : c.index = b.index)
    (owner : c.pool = b.pool) : s.Balanced size (c :: out) :=
  ⟨h.stock.change index owner, h.size⟩

theorem take {pool : Pool} (h : s.Balanced size out) (take : s.pool.take? = .ok (b, pool)) :
    { s with pool }.Balanced size (b :: out) := by
  obtain ⟨-, -, -, capacity, -⟩ := h.stock.sound.take? take
  exact ⟨h.stock.take take, capacity.trans h.size⟩

theorem idle_put (h : s.Balanced size (b :: out)) :
    (s.pool.put b).idle = s.pool.idle ++ [b.retire] :=
  (h.stock.sound.put h.stock.opened (h.stock.owned b List.mem_cons_self) h.stock.bound
    h.stock.not_mem_idle).2.1

theorem put (h : s.Balanced size (b :: out)) :
    { s with pool := s.pool.put b }.Balanced size out := by
  obtain ⟨-, -, -, capacity, -⟩ := h.stock.sound.put h.stock.opened
    (h.stock.owned b List.mem_cons_self) h.stock.bound h.stock.not_mem_idle
  exact ⟨h.stock.put, capacity.trans h.size⟩

theorem pop {p : Protocol} {queues : ProtocolQueues} (h : s.Balanced size out)
    (pop : s.queues.pop? p = some (b, queues)) : { s with queues }.Balanced size (b :: out) := by
  obtain ⟨rest, entries, becomes⟩ := h.stock.queued.pop? pop
  exact ⟨h.stock.dequeue (show _ = [] ++ b :: rest from entries) becomes, h.size⟩

theorem next {p : Protocol} {order : List Protocol} {queues : ProtocolQueues}
    (h : s.Balanced size out) (next : s.queues.next? order = some (p, b, queues)) :
    { s with queues }.Balanced size (b :: out) := by
  obtain ⟨rest, entries, becomes⟩ := h.stock.queued.next? next
  exact ⟨h.stock.dequeue (show _ = [] ++ b :: rest from entries) becomes, h.size⟩

theorem remove {i : Nat} {p : Protocol} {queues : ProtocolQueues} (h : s.Balanced size out)
    (remove : s.queues.remove? i = some (p, b, queues)) :
    { s with queues }.Balanced size (b :: out) := by
  obtain ⟨before, after, entries, -, becomes⟩ := h.stock.queued.remove? remove
  exact ⟨h.stock.dequeue entries becomes, h.size⟩

theorem pushBack {p : Protocol} {queues : ProtocolQueues} (h : s.Balanced size (b :: out))
    (push : s.queues.pushBack? p b = some queues) : { s with queues }.Balanced size out := by
  obtain ⟨queues', again, -, stock⟩ := h.stock.pushBack? p
  cases push.symm.trans again
  exact ⟨stock, h.size⟩

theorem pushFront {p : Protocol} {queues : ProtocolQueues} (h : s.Balanced size (b :: out))
    (push : s.queues.pushFront? p b = some queues) : { s with queues }.Balanced size out := by
  obtain ⟨queues', again, -, stock⟩ := h.stock.pushFront? p
  cases push.symm.trans again
  exact ⟨stock, h.size⟩

end Balanced

end Store

namespace Mailbox

def sendStore (m : Mailbox) : Store := ⟨m.sendPool, m.sendQueues⟩

def receiveStore (m : Mailbox) : Store := ⟨m.receivePool, m.receiveQueues⟩

/-- While the mailbox is open both stores are balanced, with `sending` and `receiving` out. -/
def Balances (size : Nat) (m : Mailbox) (sending receiving : List Buffer) : Prop :=
  m.closed = false → m.sendStore.Balanced size sending ∧ m.receiveStore.Balanced size receiving

namespace Balances

variable {size : Nat} {m m' : Mailbox} {sending sending' receiving receiving' : List Buffer}
  {b c : Buffer}

theorem send (h : m.Balances size sending receiving) (closed : m'.closed = m.closed)
    (receiveStore : m'.receiveStore = m.receiveStore)
    (step : m.sendStore.Balanced size sending → m'.sendStore.Balanced size sending') :
    m'.Balances size sending' receiving := fun opened => by
  obtain ⟨sent, received⟩ := h (closed.symm.trans opened)
  exact ⟨step sent, receiveStore ▸ received⟩

theorem receive (h : m.Balances size sending receiving) (closed : m'.closed = m.closed)
    (sendStore : m'.sendStore = m.sendStore)
    (step : m.receiveStore.Balanced size receiving →
      m'.receiveStore.Balanced size receiving') :
    m'.Balances size sending receiving' := fun opened => by
  obtain ⟨sent, received⟩ := h (closed.symm.trans opened)
  exact ⟨sendStore ▸ sent, step received⟩

theorem congr (h : m.Balances size sending receiving) (closed : m'.closed = m.closed)
    (sendStore : m'.sendStore = m.sendStore) (receiveStore : m'.receiveStore = m.receiveStore) :
    m'.Balances size sending receiving :=
  h.send closed receiveStore fun sent => sendStore ▸ sent

theorem of_closed (closed : m.closed = true) : m.Balances size sending receiving := fun opened =>
  absurd (opened.symm.trans closed) Bool.false_ne_true

theorem perm (h : m.Balances size sending receiving) (same : sending'.Perm sending) :
    m.Balances size sending' receiving :=
  h.send rfl rfl fun sent => sent.perm same

theorem putSend (h : m.Balances size (b :: sending) receiving) :
    (m.putSend b).Balances size sending receiving :=
  h.send rfl rfl Store.Balanced.put

theorem putReceive (h : m.Balances size sending (b :: receiving)) :
    (m.putReceive b).Balances size sending receiving :=
  h.receive rfl rfl Store.Balanced.put

/-! ## What callers do -/

theorem takeSendBuffer (h : m.Balances size sending receiving)
    (take : m.takeSendBuffer? = .ok (b, m')) : m'.Balances size (b :: sending) receiving := by
  obtain ⟨-, sendPool, taken, rfl⟩ := takeSendBuffer?_eq_ok take
  exact h.send rfl rfl fun sent => sent.take taken

theorem enqueueWith (h : m.Balances size (b :: sending) receiving)
    (push : ProtocolQueues → Protocol → Buffer → Option ProtocolQueues)
    (pushes : ∀ p sendQueues, push m.sendQueues p b = some sendQueues →
      m.sendStore.Balanced size (b :: sending) →
      Store.Balanced size ⟨m.sendPool, sendQueues⟩ sending)
    (expectsResponse : Bool) (deadline : Nat) (owned : m.sendPool.owns b = true) :
    (m.enqueueWith push b expectsResponse deadline).2.Balances size sending receiving := by
  rcases m.enqueueWith_cases push owned expectsResponse deadline with
    ⟨cause, eq⟩ | ⟨p, sendQueues, pushed, eq⟩ <;> rw [eq]
  · exact h.putSend
  · exact h.send rfl rfl (pushes p sendQueues pushed)

theorem enqueue (h : m.Balances size (b :: sending) receiving) (front expectsResponse : Bool)
    (deadline : Nat) :
    (m.enqueue front b expectsResponse deadline).2.Balances size sending receiving := by
  intro opened
  have before := (m.enqueue_closed front b expectsResponse deadline).symm.trans opened
  have owned : m.sendPool.owns b = true :=
    beq_iff_eq.mpr ((h before).1.stock.owned b List.mem_cons_self)
  cases front with
  | true =>
      exact h.enqueueWith ProtocolQueues.pushFront? (fun _ _ pushed sent => sent.pushFront pushed)
        expectsResponse deadline owned opened
  | false =>
      exact h.enqueueWith ProtocolQueues.pushBack? (fun _ _ pushed sent => sent.pushBack pushed)
        expectsResponse deadline owned opened

theorem abandon (h : m.Balances size sending receiving) (handle : Handle) :
    (m.abandon handle).Balances size sending receiving := by
  rcases m.abandon_cases handle with
    eq | ⟨p, b, sendQueues, removed, eq⟩ | ⟨flight, -, -, ⟨-, eq⟩ | ⟨-, eq⟩⟩ <;> rw [eq]
  · exact h
  · have unqueued : { m with sendQueues }.Balances size (b :: sending) receiving :=
      h.send rfl rfl fun sent => sent.remove removed
    exact Balances.putSend (unqueued.congr rfl rfl rfl)
  · exact h
  · exact h

theorem settle (h : m.Balances size sending receiving) (handle : Handle) :
    (m.settle handle).2.Balances size sending receiving := by
  rcases m.settle_eq handle with eq | ⟨-, eq⟩ <;> rw [eq]
  · exact h
  · exact h.abandon handle

theorem takeReceived {p : Protocol} {result : Except Error Message}
    (h : m.Balances size sending receiving) (taken : m.takeReceived? p = some (result, m')) :
    m'.Balances size sending receiving := by
  obtain ⟨⟨b, receiveQueues⟩, popped, eq⟩ := Option.map_eq_some_iff.mp taken
  simp only [Prod.mk.injEq] at eq
  obtain ⟨-, rfl⟩ := eq
  exact h.receive rfl rfl fun received => (received.pop popped).put

theorem reads {p : Protocol} {got : Option (Except Error Message)}
    (h : m.Balances size sending receiving) (reads : m.Reads p got m') :
    m'.Balances size sending receiving := by
  cases reads with
  | got taken => exact h.takeReceived taken
  | missed => exact h

theorem tryRead (h : m.Balances size sending receiving) (p : Protocol) :
    (m.tryRead p).2.Balances size sending receiving :=
  let ⟨_, reads, _⟩ := m.tryRead_reads p
  h.reads reads

theorem requestRead (h : m.Balances size sending receiving) (p : Protocol) :
    (m.requestRead p).2.Balances size sending receiving :=
  let ⟨_, reads, _⟩ := m.requestRead_reads p
  h.reads reads

theorem read (h : m.Balances size sending receiving) (p : Protocol) :
    (m.read p).2.Balances size sending receiving :=
  let ⟨_, reads, _⟩ := m.read_reads p
  h.reads reads

/-! ## What a turn does -/

theorem expire (h : m.Balances size sending receiving) (now : Nat) :
    (m.expire now).Balances size sending receiving := by
  rcases m.expire_cases now with eq | ⟨flight, -, -, -, eq⟩ <;> rw [eq] <;> exact h

theorem takeReceive {receivePool : Pool} (h : m.Balances size sending receiving)
    (take : m.receivePool.take? = .ok (b, receivePool)) :
    { m with receivePool }.Balances size sending (b :: receiving) :=
  h.receive rfl rfl fun received => received.take take

theorem fill (h : m.Balances size sending (b :: receiving)) (index : c.index = b.index)
    (owner : c.pool = b.pool) : m.Balances size sending (c :: receiving) :=
  h.receive rfl rfl fun received => received.change index owner

theorem pushReceived (h : m.Balances size sending (b :: receiving)) (p : Protocol) :
    (m.pushReceived p b).Balances size sending receiving := by
  unfold Mailbox.pushReceived
  split
  · exact h.putReceive
  case h_2 receiveQueues pushed =>
    exact h.receive rfl rfl fun received => received.pushBack pushed

theorem route (h : m.Balances size sending (b :: receiving)) :
    (m.route b).Balances size sending receiving := by
  rcases decoded : Message.decode? b.contents with cause | message
  · rw [route_garbled decoded]
    exact Balances.putReceive h
  · cases fate : m.fate message with
    | unsupported =>
        rw [route_unsupported decoded fate]
        exact Balances.putReceive h
    | stale =>
        rw [route_stale decoded fate]
        exact Balances.putReceive h
    | queued =>
        rw [route_queued decoded fate]
        refine Balances.pushReceived ?_ message.header.protocol
        exact h.congr rfl rfl rfl
    | answered ticket =>
        obtain ⟨flight, awaiting, flying, rfl, -, -⟩ := fate_answered fate
        obtain ⟨m₀, -, eq, -⟩ := route_answered decoded awaiting flying fate
        rw [eq]
        exact Balances.putReceive h

/-- The buffer of the chosen request is in the turn's hands, and those of requests that ended are
back in the pool. -/
theorem takeNextWithin (now fuel : Nat) (h : m.Balances size sending receiving) :
    (m.takeNextWithin now fuel).2.Balances size
      (((m.takeNextWithin now fuel).1.map Prod.snd).toList ++ sending) receiving := by
  induction fuel generalizing m with
  | zero => exact h
  | succ fuel ih =>
      rw [Mailbox.takeNextWithin]
      split
      · exact h
      case h_2 p b sendQueues next =>
        have chosen : { m with sendQueues }.Balances size (b :: sending) receiving :=
          h.send rfl rfl fun sent => sent.next next
        dsimp only
        split
        · exact ih chosen.putSend
        case h_2 request _ =>
          have untracked : ({ m with sendQueues }.setRequest b.index none).Balances size
              (b :: sending) receiving := chosen
          split
          · rw [resolve_eq]
            exact ih (Balances.putSend (untracked.congr rfl rfl rfl))
          · exact untracked

theorem takeNext (h : m.Balances size sending receiving) (now : Nat) :
    (m.takeNext now).2.Balances size
      (((m.takeNext now).1.map Prod.snd).toList ++ sending) receiving := by
  unfold Mailbox.takeNext
  split
  · exact h.takeNextWithin now _
  · exact h

theorem stamp (h : m.Balances size (b :: sending) receiving) :
    (m.stamp b).2.Balances size ((m.stamp b).1 :: sending) receiving :=
  h.send rfl rfl fun sent => sent.change rfl rfl

theorem requeue (h : m.Balances size (b :: sending) receiving) (p : Protocol) :
    (m.requeue p b).Balances size sending receiving := by
  rcases m.requeue_cases p b with
    eq | ⟨flight, -, eq⟩ | ⟨flight, sendQueues, -, pushed, eq⟩ <;> rw [eq]
  · exact Balances.putSend (h.congr rfl rfl rfl)
  · exact Balances.putSend (h.congr rfl rfl rfl)
  · exact h.send rfl rfl fun sent => sent.pushFront pushed

theorem acknowledge (h : m.Balances size (b :: sending) receiving) (counter : UInt16) :
    (m.acknowledge b counter).Balances size sending receiving := by
  have fired : m.Balances size (b.fire.2 :: sending) receiving :=
    h.send rfl rfl fun sent => sent.change (fire_place b).1 (fire_place b).2
  rcases m.acknowledge_cases b counter with
    ⟨handshake, eq⟩ | ⟨flight, -, eq⟩ | ⟨flight, -, eq⟩ <;> rw [eq] <;>
    exact Balances.putSend (fired.congr rfl rfl rfl)

end Balances

end Mailbox

end Fieldbus
