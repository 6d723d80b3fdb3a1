import Fieldbus.Proofs.Mailbox.Branches
import Fieldbus.Proofs.Mailbox.Moves
import Fieldbus.Proofs.Mailbox.Stock

/-!
# Where the buffers of a mailbox are

A queued send buffer carries a request and no other buffer does. Every move keeps the send buffers
in their places or takes them to others, and no receive buffer stays in somebody's hands.
-/

namespace Fieldbus.Mailbox

open BufferQueue (indices)

/-- The send buffers of an open mailbox of which `held` are in somebody's hands. -/
structure Custody (m : Mailbox) (held : List Buffer) : Prop where
  stock : Stock m.sendPool m.sendQueues held
  size : m.requests.size = m.sendPool.capacity
  recorded : ∀ i, (m.request? i).isSome ↔ i ∈ indices m.sendQueues.everything

def Shelved (m : Mailbox) : Prop := Stock m.receivePool m.receiveQueues []

variable {m : Mailbox} {held : List Buffer}

theorem Custody.congr {m' : Mailbox} (h : m.Custody held) (pool : m'.sendPool = m.sendPool)
    (queues : m'.sendQueues = m.sendQueues) (requests : m'.requests = m.requests) :
    m'.Custody held := by
  constructor
  case stock => rw [pool, queues]; exact h.stock
  case size => rw [pool, requests]; exact h.size
  case recorded =>
    intro i
    rw [queues, ← h.recorded i, request?, request?, requests]

theorem Custody.change {b c : Buffer} (h : m.Custody (b :: held)) (index : c.index = b.index)
    (owner : c.pool = b.pool) : m.Custody (c :: held) :=
  ⟨h.stock.change index owner, h.size, h.recorded⟩

theorem request?_setRequest {i : Nat} (hi : i < m.requests.size)
    (request : Option PendingRequest) (j : Nat) :
    (m.setRequest i request).request? j = if i = j then request else m.request? j := by
  by_cases same : i = j
  · subst same
    rw [if_pos rfl, request?_setRequest_self request hi]
  · rw [if_neg same, request?_setRequest_ne request (Ne.symm same)]

theorem lt_size_of_request? {i : Nat} {request : PendingRequest}
    (found : m.request? i = some request) : i < m.requests.size := by
  by_contra outside
  rw [request?, Array.getElem?_eq_none (Nat.le_of_not_lt outside)] at found
  cases found

/-! ## Transfers -/

theorem Custody.take {b : Buffer} {sendPool : Pool} (h : m.Custody held)
    (take : m.sendPool.take? = .ok (b, sendPool)) : { m with sendPool }.Custody (b :: held) := by
  obtain ⟨-, -, -, capacity, -⟩ := h.stock.sound.take? take
  exact ⟨h.stock.take take, h.size.trans capacity.symm, h.recorded⟩

theorem Custody.index_lt {b : Buffer} (h : m.Custody (b :: held)) : b.index < m.requests.size :=
  h.size ▸ h.stock.bound

theorem Custody.put {b : Buffer} (h : m.Custody (b :: held)) : (m.putSend b).Custody held := by
  obtain ⟨-, -, -, capacity, -⟩ := h.stock.sound.put h.stock.opened
    (h.stock.owned b (by simp)) h.stock.bound h.stock.not_mem_idle
  exact ⟨h.stock.put, h.size.trans capacity.symm, h.recorded⟩

theorem Custody.dequeue {p : Protocol} {before after : List Buffer} {b : Buffer}
    {sendQueues : ProtocolQueues} (h : m.Custody held)
    (entries : m.sendQueues.entries p = before ++ b :: after)
    (becomes : m.sendQueues.Becomes m.sendPool.capacity p (before ++ after) sendQueues) :
    ({ m with sendQueues }.setRequest b.index none).Custody (b :: held) := by
  have stock := h.stock.dequeue entries becomes
  refine ⟨stock, by simpa [setRequest] using h.size, fun i => ?_⟩
  have more := Stock.count_dequeue entries becomes i
  rw [request?_setRequest (by simpa [h.size] using stock.bound)]
  change _ ↔ i ∈ indices sendQueues.everything
  split
  case isTrue same =>
    subst same
    simpa using stock.not_mem_everything
  case isFalse other =>
    refine (h.recorded i).trans ?_
    rw [← List.count_pos_iff, ← List.count_pos_iff, more, if_neg other, Nat.add_zero]

theorem Custody.enqueue {p : Protocol} {b : Buffer} {bs : List Buffer}
    {sendQueues : ProtocolQueues} (h : m.Custody (b :: held))
    (perm : bs.Perm (b :: m.sendQueues.entries p))
    (becomes : m.sendQueues.Becomes m.sendPool.capacity p bs sendQueues)
    (request : PendingRequest) :
    ({ m with sendQueues }.setRequest b.index (some request)).Custody held := by
  refine ⟨h.stock.enqueue perm becomes, by simpa [setRequest] using h.size, fun i => ?_⟩
  have more := Stock.count_enqueue perm becomes i
  rw [request?_setRequest (by simpa [h.size] using h.stock.bound)]
  change _ ↔ i ∈ indices sendQueues.everything
  rw [← List.count_pos_iff, more]
  split
  case isTrue same => exact iff_of_true rfl (Nat.succ_pos _)
  case isFalse other =>
    refine (h.recorded i).trans ?_
    rw [← List.count_pos_iff, Nat.add_zero]

/-! ## Choosing a request and giving it back -/

theorem Custody.next {p : Protocol} {b : Buffer} {sendQueues : ProtocolQueues}
    {order : List Protocol} (h : m.Custody held)
    (next : m.sendQueues.next? order = some (p, b, sendQueues)) :
    ({ m with sendQueues }.setRequest b.index none).Custody (b :: held) ∧
      ∃ request, m.request? b.index = some request := by
  obtain ⟨rest, entries, becomes⟩ := h.stock.queued.next? next
  refine ⟨h.dequeue (show _ = [] ++ b :: rest from entries) becomes, Option.isSome_iff_exists.mp ?_⟩
  rw [h.recorded, ProtocolQueues.mem_indices_everything]
  exact ⟨p, by simp [entries]⟩

theorem Custody.picks {now : Nat} {m₁ : Mailbox} {p : Protocol} {b : Buffer}
    (h : m.Custody held) (picks : m.Picks now p b m₁) : m₁.Custody (b :: held) := by
  obtain ⟨sendQueues, request, -, next, -, -, rfl⟩ := picks
  exact (h.next next).1.congr rfl rfl rfl

theorem Custody.requeue {m₁ : Mailbox} {now : Nat} {p : Protocol} {b : Buffer}
    (h : m.Custody held) (m₂ : Mailbox) (c : Buffer) (picks : m.Picks now p b m₁)
    (index : c.index = b.index) (owner : c.pool = b.pool) (pool : m₂.sendPool = m₁.sendPool)
    (queues : m₂.sendQueues = m₁.sendQueues) (requests : m₂.requests = m₁.requests)
    (flying : m₂.inFlight = m₁.inFlight) :
    ∃ request sendQueues, m.request? b.index = some request ∧
      m₂.requeue p c = { ({ m₂ with sendQueues }).setRequest b.index (some request) with
        handshake := .idle
        consumed := true
        inFlight := none
        journal := m₂.journal ++ [MailboxEvent.requeued request.ticket]
        statistics := { m₂.statistics with requeued := m₂.statistics.requeued + 1 } } ∧
      (m₂.requeue p c).Custody held ∧ ∀ i, (m₂.requeue p c).request? i = m.request? i := by
  have custody := ((h.picks picks).congr pool queues requests).change index owner
  obtain ⟨sendQueues, request, -, -, found, -, rfl⟩ := picks
  obtain ⟨back, push, becomes, -⟩ := custody.stock.pushFront? p
  have eq := requeue_eq flying rfl push
  have bound := lt_size_of_request? found
  refine ⟨request, back, found, ?_, ?_, fun i => ?_⟩
  · rw [eq, index]
  · rw [eq]
    exact (custody.enqueue (.refl _) becomes request).congr rfl rfl rfl
  · rw [eq, index]
    simp only [request?, setRequest, requests, Array.setIfInBounds_setIfInBounds]
    rw [Array.getElem?_setIfInBounds]
    split
    case isTrue same =>
      subst same
      simp only [request?] at found
      rw [found]
      rfl
    case isFalse => rfl

end Fieldbus.Mailbox
