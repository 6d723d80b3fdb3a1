import Fieldbus.Proofs.Mailbox.Counters
import Fieldbus.Proofs.Mailbox.Postings

/-!
# What is on the wire

A request that a caller filled in is written with its header, its payload and zeros up to the end of
the write slot, and only the counter differs from one attempt to the next. Nothing is left of what
its buffer had in it before.
-/

namespace Fieldbus

open Mailbox (SameMessage)

namespace MessageHeader

variable (header : MessageHeader) (payload : Bytes)

theorem stamp_encode (counter : UInt8) (rest : Bytes) :
    stamp counter (header.encode ++ rest) = { header with counter }.encode ++ rest := by
  have protocol : header.protocol.toByte.toNat < 16 := by
    cases header.protocol <;> decide
  have kind : (UInt8.ofNat (header.protocol.toByte.toNat + 16 * (header.counter.toNat % 8))).toNat =
      header.protocol.toByte.toNat + 16 * (header.counter.toNat % 8) := by
    rw [UInt8.toNat_ofNat']
    omega
  have low : (header.protocol.toByte.toNat + 16 * (header.counter.toNat % 8)) % 16 =
      header.protocol.toByte.toNat := by omega
  have high : (header.protocol.toByte.toNat + 16 * (header.counter.toNat % 8)) / 128 = 0 := by omega
  simp only [encode, Bytes.encodeWord, List.cons_append, List.nil_append, stamp, kind, low, high,
    Nat.mul_zero, Nat.add_zero]

theorem stamp_padded (counter : UInt8) (size : Nat) :
    stamp counter (header.padded payload size) = { header with counter }.padded payload size := by
  rw [padded, List.append_assoc, stamp_encode, padded, List.append_assoc]

theorem take_padded {size limit : Nat} (wide : Layout.mailboxHeader + payload.length ≤ limit)
    (within : limit ≤ size) :
    (header.padded payload size).take limit = header.padded payload limit := by
  have message : (header.encode ++ payload).length = Layout.mailboxHeader + payload.length := by
    simp [Layout.mailboxHeader]
  rw [padded, List.take_append, message, List.take_of_length_le (by omega), padded, Bytes.zeros,
    Bytes.zeros, List.take_replicate, Nat.min_eq_left (by omega)]

end MessageHeader

namespace Mailbox

variable {m m' : Mailbox} {b : Buffer} {p : Protocol} {address : UInt16} {payload : Bytes}

theorem writeSlot_le_bufferSize (slave : SlaveConfig) :
    slave.writeSlot.length.toNat ≤ bufferSize slave := by
  unfold bufferSize
  omega

theorem prepare_refuses_iff (wide : m.slave.writeSlot.length.toNat ≤ b.bytes.length) :
    (∃ cause, m.prepare b p address payload = .error cause) ↔
      m.slave.writeSlot.length.toNat < Layout.mailboxHeader + payload.length := by
  cases prepared : m.prepare b p address payload with
  | ok c =>
      obtain ⟨fits, -⟩ := prepare_eq_ok_iff.mp prepared
      refine iff_of_false (fun ⟨cause, refused⟩ => nomatch refused) ?_
      omega
  | error cause =>
      refine iff_of_true ⟨cause, rfl⟩ (Nat.lt_of_not_le fun fits => ?_)
      cases prepared.symm.trans (prepare_eq_ok_iff.mpr ⟨fits, Nat.le_trans fits wide, rfl⟩)

theorem Reads.counter {got : Option (Except Error Message)} (reads : m.Reads p got m') :
    m'.counter = m.counter := by
  cases reads with
  | got taken =>
      obtain ⟨⟨b, receiveQueues⟩, -, eq⟩ := Option.map_eq_some_iff.mp taken
      obtain ⟨-, rfl⟩ := Prod.mk.inj eq
      rfl
  | missed => rfl

theorem Act.counter (act : Act m m') : m'.counter = m.counter := by
  cases act with
  | take take =>
      obtain ⟨-, sendPool, -, rfl⟩ := takeSendBuffer?_eq_ok take
      rfl
  | giveBack b => rfl
  | enqueue front b expectsResponse deadline =>
      exact (enqueue_fixed m front b expectsResponse deadline).2
  | wait h =>
      rcases m.settle_eq h with eq | ⟨-, eq⟩ <;> rw [eq]
      rcases m.abandon_cases h with
        eq | ⟨p, b, sendQueues, -, eq⟩ | ⟨flight, -, -, ⟨-, eq⟩ | ⟨-, eq⟩⟩ <;> rw [eq]
      rfl
  | tryRead p =>
      obtain ⟨_, reads, -⟩ := m.tryRead_reads p
      exact reads.counter
  | requestRead p =>
      obtain ⟨_, reads, -⟩ := m.requestRead_reads p
      exact reads.counter
  | read p =>
      obtain ⟨_, reads, -⟩ := m.read_reads p
      exact reads.counter
  | scheduleRead => rfl
  | close => exact (close_fixed m).2

end Mailbox

theorem Scene.Acts.counter {x y : Scene} (acts : Acts x y) :
    y.mailbox.counter = x.mailbox.counter := by
  induction acts with
  | refl => rfl
  | tail _ act ih =>
      rcases act.mailbox with same | act
      · rw [same, ih]
      · rw [act.counter, ih]

/-- The buffer was filled in for the slave before it was queued, whatever it had in it. -/
def Posting.Filled (posting : Posting) (slave : SlaveConfig) (p : Protocol) (address : UInt16)
    (payload : Bytes) : Prop :=
  ∃ (m : Mailbox) (b c : Buffer), m.slave = slave ∧ m.prepare b p address payload = .ok c ∧
    posting.message = c.bytes

namespace Scene

variable {σ : Type} {t : Transport σ} {view : σ → Callers} {m : Mailbox} {s : σ} {now : Nat}

/-- Where a write comes from: the message that was queued with the request, stamped for the turn
and cut to the write slot. -/
theorem Reached.wire (reached : Reached ⟨m, view s⟩) (hosts : t.Hosts view) {taken s' : σ}
    {request : PendingRequest} {data : Bytes} {left : Nat} {m' : Mailbox}
    (writing : m.Writing t now s taken request data left m' s') :
    ∃ posting ∈ (view taken).posted, posting.request = request ∧
      (∀ other ∈ (view taken).posted, other.request.ticket = request.ticket → other = posting) ∧
      posting.message.length = Mailbox.bufferSize m.slave ∧
      data = (MessageHeader.stamp m'.counter.last posting.message).take
        m.slave.writeSlot.length.toNat := by
  obtain ⟨p, b, m₁, takes, flying, -, m₂, s₂, before, after, rfl⟩ := writing.strides hosts
  obtain ⟨request', same, way⟩ := reached.takes hosts takes
  cases flying.symm.trans same
  have sound := Strides.sound reached.sound way
  have looked : Strides now ⟨m₁, view taken, some ⟨p, b, request⟩, []⟩ ⟨m₂, view s₂, _, _⟩ :=
    Mailbox.acts_strides before
  have served := (Strides.sound sound looked).kept.served
  obtain ⟨⟨posting, mem, -, own, message⟩, -⟩ := sound.booked.busy _ rfl
  have stamped : m'.counter = m₂.counter.next := after.counter
  refine ⟨posting, mem, own, fun other mem' ticket => ?_, ?_, ?_⟩
  · exact sound.booked.unique mem' mem (by rw [own, ticket])
  · have length := congrArg List.length (message 0)
    rw [MessageHeader.length_stamp, MessageHeader.length_stamp] at length
    rw [← length]
    exact sound.kept.sized b (by simp [Stage.inHand])
  · rw [stamped, ← message, served]
    rfl

/-- Whatever a turn writes fills the write slot and belongs to a request that was queued. If its
buffer was filled in then, the bytes are the header with the counter that was stamped last, the
payload, and zeros. At every moment of the turn a caller can fill in the buffers that it holds, with
any message that fits the write slot and with no other. -/
theorem writes_exact (reached : Reached ⟨m, view s⟩) (hosts : t.Hosts view) (now : Nat) :
    (∀ taken request data left m' s', m.Writing t now s taken request data left m' s' →
      data.length = m.slave.writeSlot.length.toNat ∧
      ∃ posting ∈ (view taken).posted, posting.request = request ∧
        (∀ other ∈ (view taken).posted, other.request.ticket = request.ticket →
          other = posting) ∧
        ∀ p address payload, posting.Filled m.slave p address payload →
          (UInt16.ofNat payload.length).toNat = payload.length ∧
          data = MessageHeader.padded
            ⟨.ofNat payload.length, address, 0, 0, p, m'.counter.last⟩ payload
            m.slave.writeSlot.length.toNat) ∧
    ∀ y, Strides now (atRest ⟨m, view s⟩ []) y → ∀ b ∈ y.callers.buffers,
      ∀ p address payload,
        (∃ cause, y.mailbox.prepare b p address payload = .error cause) ↔
          m.slave.writeSlot.length.toNat < Layout.mailboxHeader + payload.length := by
  have wide := Mailbox.writeSlot_le_bufferSize m.slave
  refine ⟨fun taken request data left m' s' writing => ?_, fun y path b mem p address payload => ?_⟩
  case refine_1 =>
    obtain ⟨posting, mem, own, unique, length, rfl⟩ := reached.wire hosts writing
    refine ⟨by simp [length, wide], posting, mem, own, unique, fun p address payload filled => ?_⟩
    obtain ⟨filler, b, c, served, prepared, message⟩ := filled
    obtain ⟨fits, room, rfl⟩ := Mailbox.prepare_eq_ok_iff.mp prepared
    rw [served] at fits
    have same : b.bytes.length = Mailbox.bufferSize m.slave := by
      rw [← length, message, MessageHeader.length_padded _ room]
    have bound := m.slave.writeSlot.length.toNat_lt
    refine ⟨?_, ?_⟩
    · rw [UInt16.toNat_ofNat']
      exact Nat.mod_eq_of_lt (by omega)
    · rw [message, MessageHeader.stamp_padded,
        MessageHeader.take_padded _ _ fits (same ▸ wide)]
  case refine_2 =>
    have kept := (Strides.sound reached.sound path).kept
    have size := kept.sized b (List.mem_append_left _ mem)
    have served : y.mailbox.slave = m.slave := kept.served
    rw [← served]
    refine Mailbox.prepare_refuses_iff ?_
    rw [size, served]
    exact wide

/-! ## A buffer that is used again -/

/-- The only buffer carried a longer message before, and the slave did not take the one that is in
it now when it was written first. -/
def recycled : Mailbox :=
  ((((Session.cramped.submit .coe 0x1001 [9, 9, 9, 9] false 100).2.turn Session.mute.transport 0
    ()).2.1.submit .coe 0x1001 [2] false 100).2.turn Session.deaf.transport 1 ()).2.1

/-- The message is written again, with nothing but zeros behind its payload. -/
theorem writes_exact_recycled : ∃ c, Reached ⟨recycled, c⟩ ∧
    ∃ posting ∈ c.posted, posting.Filled recycled.slave .coe 0x1001 [2] ∧
      ∃ taken left m' s', recycled.Writing Session.mute.transport 2 () taken posting.request
        (MessageHeader.padded ⟨1, 0x1001, 0, 0, .coe, 3⟩ [2] 16) left m' s' := by
  obtain ⟨b₁, b₁', -, -, -, first⟩ := submit_acts (c := ⟨[], [], []⟩) (by decide +kernel :
    (Session.cramped.submit .coe 0x1001 [9, 9, 9, 9] false 100).1.toOption = some ⟨0, 0, 100⟩)
  have written := (reached_cramped.acts first).turn (d := Session.mute) 0 ()
  obtain ⟨b₂, b₂', m₁, taken, prepared, second⟩ := submit_acts (by decide +kernel :
    (((Session.cramped.submit .coe 0x1001 [9, 9, 9, 9] false 100).2.turn Session.mute.transport 0
      ()).2.1.submit .coe 0x1001 [2] false 100).1.toOption = some ⟨0, 1, 100⟩)
  have reached := (written.acts second).turn (d := Session.deaf) 1 ()
  generalize listed : Callers.mk _ (_ ++ [_]) _ = c at reached
  have reached : Reached ⟨recycled, c⟩ := reached
  have filled : Posting.Filled ⟨0, ⟨1, false, 100⟩, b₂'.bytes⟩ recycled.slave .coe 0x1001 [2] := by
    refine ⟨m₁, b₂, b₂', ?_, prepared, rfl⟩
    obtain ⟨-, sendPool, -, rfl⟩ := Mailbox.takeSendBuffer?_eq_ok taken
    exact (by decide +kernel : ((Session.cramped.submit .coe 0x1001 [9, 9, 9, 9] false 100).2.turn
      Session.mute.transport 0 ()).2.1.slave = recycled.slave)
  have mem : (⟨0, ⟨1, false, 100⟩, b₂'.bytes⟩ : Posting) ∈ c.posted := by simp [← listed]
  have hosts := Session.mute.transport_hosts c
  obtain ⟨writes, -⟩ := writes_exact (s := ()) reached hosts 2
  let next := (Mailbox.poll Session.mute.transport 2 (recycled.expire 2) ()).2.1.takeNext 2
  have chosen : next.1.isSome = true := by decide +kernel
  have takes := Mailbox.takes_of_some (t := Session.mute.transport) (s := ())
    (m := recycled) 2 (by decide +kernel) (by decide +kernel) (Option.some_get chosen).symm
  obtain ⟨request, flying, -, -⟩ := takes.strides hosts []
  have own : next.2.inFlight.map InFlight.request = some ⟨1, false, 100⟩ := by decide +kernel
  obtain rfl : request = ⟨1, false, 100⟩ := by
    rw [flying] at own
    exact Option.some.inj own
  have stamped : next.2.counter.next.last = 3 := by decide +kernel
  obtain ⟨taken, data, left, m', writing, counter⟩ : ∃ taken data left m',
      recycled.Writing Session.mute.transport 2 () taken ⟨1, false, 100⟩ data left m' () ∧
        m'.counter = next.2.counter.next := ⟨_, _, _, _, .first takes flying rfl, rfl⟩
  obtain ⟨-, posting, -, -, unique, bytes⟩ := writes _ _ _ _ _ _ writing
  obtain rfl := unique _ mem rfl
  obtain ⟨-, data⟩ := bytes _ _ _ filled
  have size : recycled.slave.writeSlot.length.toNat = 16 := by decide +kernel
  rw [counter, stamped, size] at data
  subst data
  exact ⟨c, reached, _, mem, filled, taken, left, m', (), writing⟩

end Scene

end Fieldbus
