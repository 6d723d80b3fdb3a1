import Fieldbus.Proofs.Mailbox.Traces

/-!
# Whose message is written

A queued buffer keeps the message of its request but for the counter, which every attempt to write
it stamps anew. So whatever a turn writes is the message of the request that it is about.
-/

namespace Fieldbus

namespace MessageHeader

theorem stamp_stamp (c c' : UInt8) (bytes : Bytes) :
    stamp c (stamp c' bytes) = stamp c bytes := by
  match bytes with
  | b₀ :: b₁ :: b₂ :: b₃ :: b₄ :: kind :: rest =>
      have below := kind.toNat_lt
      have kept : (UInt8.ofNat (kind.toNat % 16 + 16 * (c'.toNat % 8) +
          128 * (kind.toNat / 128))).toNat =
            kind.toNat % 16 + 16 * (c'.toNat % 8) + 128 * (kind.toNat / 128) := by
        rw [UInt8.toNat_ofNat']
        omega
      have low : (kind.toNat % 16 + 16 * (c'.toNat % 8) + 128 * (kind.toNat / 128)) % 16 =
          kind.toNat % 16 := by omega
      have high : (kind.toNat % 16 + 16 * (c'.toNat % 8) + 128 * (kind.toNat / 128)) / 128 =
          kind.toNat / 128 := by omega
      simp only [stamp, List.cons_append, List.nil_append, kept, low, high]
  | [] | [_] | [_, _] | [_, _, _] | [_, _, _, _] | [_, _, _, _, _] => rfl

theorem decode?_stamp {c : UInt8} {bytes : Bytes} {header : MessageHeader}
    (decoded : decode? bytes = .ok header) (small : c.toNat < 8) :
    decode? (stamp c bytes) = .ok { header with counter := c } := by
  match bytes with
  | b₀ :: b₁ :: b₂ :: b₃ :: b₄ :: kind :: rest =>
      have below := kind.toNat_lt
      have kept : (UInt8.ofNat (kind.toNat % 16 + 16 * (c.toNat % 8) +
          128 * (kind.toNat / 128))).toNat =
            kind.toNat % 16 + 16 * (c.toNat % 8) + 128 * (kind.toNat / 128) := by
        rw [UInt8.toNat_ofNat']
        omega
      have low : (kind.toNat % 16 + 16 * (c.toNat % 8) + 128 * (kind.toNat / 128)) % 16 =
          kind.toNat % 16 := by omega
      have counter : (kind.toNat % 16 + 16 * (c.toNat % 8) + 128 * (kind.toNat / 128)) / 16 % 8 =
          c.toNat := by omega
      simp only [stamp, List.cons_append, List.nil_append, decode?, kept, low, counter,
        UInt8.ofNat_toNat] at decoded ⊢
      rcases protocol : Protocol.ofByte? (UInt8.ofNat (kind.toNat % 16)) with cause | p
      · rw [protocol] at decoded
        cases decoded
      · rw [protocol] at decoded
        cases decoded
        rfl
  | [] | [_] | [_, _] | [_, _, _] | [_, _, _, _] | [_, _, _, _, _] => cases decoded

theorem decode?_take (bytes : Bytes) {n : Nat} (whole : 6 ≤ n) :
    decode? (bytes.take n) = decode? bytes := by
  obtain ⟨k, rfl⟩ := Nat.exists_eq_add_of_le' whole
  match bytes with
  | b₀ :: b₁ :: b₂ :: b₃ :: b₄ :: kind :: rest => rfl
  | [] | [_] | [_, _] | [_, _, _] | [_, _, _, _] | [_, _, _, _, _] => rfl

end MessageHeader

structure Call.Sends (c : Call) (request : PendingRequest) (message : Bytes) : Prop where
  own : c.mailbox.flightTicket = some request.ticket
  access : ∃ result, c.access = .write ((MessageHeader.stamp c.mailbox.counter.last message).take
    c.mailbox.slave.writeSlot.length.toNat) result

namespace Mailbox

/-- Only the counter of a message may differ. -/
def SameMessage (bytes message : Bytes) : Prop :=
  ∀ counter, MessageHeader.stamp counter bytes = MessageHeader.stamp counter message

/-- What is queued now was queued before, in a buffer of the same place and message. -/
def Retains (m m' : Mailbox) : Prop :=
  ∀ p c, c ∈ m'.sendQueues.entries p →
    ∃ b ∈ m.sendQueues.entries p, c.index = b.index ∧ SameMessage c.bytes b.bytes

variable {m m' m'' : Mailbox} {held : List Buffer} {now : Nat}

theorem SameMessage.refl (bytes : Bytes) : SameMessage bytes bytes := fun _ => rfl

theorem SameMessage.trans {a b c : Bytes} (h : SameMessage a b) (h' : SameMessage b c) :
    SameMessage a c :=
  fun counter => (h counter).trans (h' counter)

theorem Retains.of_subset
    (subset : ∀ p c, c ∈ m'.sendQueues.entries p → c ∈ m.sendQueues.entries p) : m.Retains m' :=
  fun p c mem => ⟨c, subset p c mem, rfl, .refl c.bytes⟩

theorem Retains.of_same (same : m'.sendQueues = m.sendQueues) : m.Retains m' :=
  .of_subset fun _ _ mem => same ▸ mem

/-! ## Moves -/

theorem expire_sendQueues (m : Mailbox) (now : Nat) :
    (m.expire now).sendQueues = m.sendQueues := by
  rcases m.expire_cases now with eq | ⟨flight, -, -, -, eq⟩ <;> rw [eq]

theorem route_sendQueues (m : Mailbox) (b : Buffer) : (m.route b).sendQueues = m.sendQueues := by
  obtain ⟨_, _, _, _, _, _, _, eq⟩ := m.route_fields b
  rw [eq]

theorem acknowledge_sendQueues (m : Mailbox) (b : Buffer) (workCounter : UInt16) :
    (m.acknowledge b workCounter).sendQueues = m.sendQueues := by
  rcases m.acknowledge_cases b workCounter with
    ⟨handshake, eq⟩ | ⟨flight, -, eq⟩ | ⟨flight, -, eq⟩ <;> rw [eq] <;> rfl

theorem Picks.head {m₁ : Mailbox} {p : Protocol} {b : Buffer} (custody : m.Custody held)
    (picks : m.Picks now p b m₁) :
    ∃ rest, m.sendQueues.entries p = b :: rest ∧
      m₁.sendQueues.entries = Function.update m.sendQueues.entries p rest := by
  obtain ⟨sendQueues, request, -, next, -, -, rfl⟩ := picks
  obtain ⟨rest, entries, becomes⟩ := custody.stock.queued.next? next
  exact ⟨rest, entries, becomes.entries⟩

theorem Picks.retains {m₁ : Mailbox} {p : Protocol} {b : Buffer} (custody : m.Custody held)
    (picks : m.Picks now p b m₁) : m.Retains m₁ := by
  obtain ⟨rest, entries, taken⟩ := picks.head custody
  refine .of_subset fun q c mem => ?_
  rw [taken, Function.update_apply] at mem
  split at mem
  case isTrue here =>
    rw [here, entries]
    exact List.mem_cons_of_mem b mem
  case isFalse => exact mem

theorem Picks.requeue_retains {m₁ m₂ : Mailbox} {p : Protocol} {b c : Buffer}
    (custody : m.Custody held) (picks : m.Picks now p b m₁) (index : c.index = b.index)
    (owner : c.pool = b.pool) (same : SameMessage c.bytes b.bytes)
    (pool : m₂.sendPool = m₁.sendPool) (queues : m₂.sendQueues = m₁.sendQueues)
    (requests : m₂.requests = m₁.requests) (flying : m₂.inFlight = m₁.inFlight) :
    m.Retains (m₂.requeue p c) := by
  have back := ((custody.picks picks).congr pool queues requests).change index owner
  obtain ⟨sendQueues, push, becomes, -⟩ := back.stock.pushFront? p
  obtain ⟨rest, entries, -⟩ := picks.head custody
  have retains := picks.retains custody
  obtain ⟨_, request, -, -, -, -, rfl⟩ := picks
  rw [requeue_eq flying rfl push]
  intro q d mem
  have mem : d ∈ sendQueues.entries q := mem
  rw [becomes.entries, Function.update_apply] at mem
  split at mem
  case isTrue here =>
    rcases List.mem_cons.mp mem with rfl | mem
    · exact ⟨b, by rw [here, entries]; exact List.mem_cons_self .., index, same⟩
    · rw [← here, queues] at mem
      exact retains q d mem
  case isFalse =>
    rw [queues] at mem
    exact retains q d mem

theorem Move.retains (custody : m.Custody held) (move : Move now m m') : m.Retains m' := by
  cases move with
  | expire => exact .of_same (expire_sendQueues m now)
  | schedule nextPoll => exact .of_same rfl
  | look slotState => exact .of_same rfl
  | spare data take short => exact .of_same rfl
  | receive data take short => exact .of_same (route_sendQueues ..)
  | orphan ready next none => exact (orphan_absurd custody next none).elim
  | @overdue p b sendQueues request ready next found late =>
      obtain ⟨rest, entries, becomes⟩ := custody.stock.queued.next? next
      refine .of_subset fun q c mem => ?_
      rw [resolve_eq] at mem
      have mem : c ∈ sendQueues.entries q := mem
      rw [becomes.entries, Function.update_apply] at mem
      split at mem
      case isTrue here =>
        rw [here, entries]
        exact List.mem_cons_of_mem b mem
      case isFalse => exact mem
  | withhold picks =>
      exact picks.requeue_retains custody rfl rfl (.refl _) rfl rfl rfl rfl
  | refuse failures picks =>
      refine picks.requeue_retains custody rfl rfl (fun counter => ?_) rfl rfl rfl rfl
      exact MessageHeader.stamp_stamp ..
  | @accept m₁ p b failures workCounter picks counted =>
      have same := acknowledge_sendQueues ((m₁.stamp b).2.retried failures) (m₁.stamp b).1
        workCounter
      have retains := picks.retains custody
      intro q c mem
      rw [same] at mem
      exact retains q c mem

/-! ## Messages of requests -/

def Keeps (queued : List (PendingRequest × Bytes)) (m : Mailbox) : Prop :=
  ∀ p b r, b ∈ m.sendQueues.entries p → m.request? b.index = some r →
    ∃ message, (r, message) ∈ queued ∧ SameMessage b.bytes message

variable {queued : List (PendingRequest × Bytes)}

theorem Keeps.retained (h : Keeps queued m) (retains : m.Retains m')
    (request : ∀ i r, m'.request? i = some r → m.request? i = some r) : Keeps queued m' := by
  intro p c r mem found
  obtain ⟨b, before, index, same⟩ := retains p c mem
  obtain ⟨message, known, first⟩ := h p b r before (index ▸ request _ r found)
  exact ⟨message, known, same.trans first⟩

theorem Keeps.moves (h : Keeps queued m) (s : m.Sound held) (moves : Moves now m m') :
    Keeps queued m' := by
  induction moves with
  | refl => exact h
  | tail moves move ih =>
      have custody := (Moves.sound s moves).custody
      exact ih.retained (move.retains custody) fun i r => (move.effect custody).2.1.request

theorem Keeps.idles (h : Keeps queued m) (idles : m.Idles m') : Keeps queued m' := by
  rcases idles with untouched | ⟨g, r, withdraws⟩
  · refine h.retained (.of_same untouched.sendQueues) fun i r found => ?_
    rwa [untouched.request] at found
  · refine h.retained (.of_subset fun p b mem => ((withdraws.entries p b).mp mem).1) ?_
    exact fun i q found => ((withdraws.drops.request i q).mp found).1

theorem Keeps.lodge {p : Protocol} {b : Buffer} {bs : List Buffer} {sendQueues : ProtocolQueues}
    (h : Keeps queued m) (s : m.Sound (b :: held))
    (perm : bs.Perm (b :: m.sendQueues.entries p))
    (becomes : m.sendQueues.Becomes m.sendPool.capacity p bs sendQueues) (expectsResponse : Bool)
    (deadline : Nat) :
    Keeps (queued ++ [(⟨m.nextTicket, expectsResponse, deadline⟩, b.bytes)])
      (m.lodge sendQueues b expectsResponse deadline) := by
  have request (i : Nat) :
      (m.lodge sendQueues b expectsResponse deadline).request? i = _ :=
    request?_lodge s.custody.index_lt i
  intro q c r mem found
  have old (mem : c ∈ m.sendQueues.entries q) : ∃ message,
      (r, message) ∈ queued ++ [(⟨m.nextTicket, expectsResponse, deadline⟩, b.bytes)] ∧
        SameMessage c.bytes message := by
    have other : b.index ≠ c.index := by
      intro same
      have absent := s.custody.stock.fresh q
      rw [same] at absent
      exact absent (List.mem_map_of_mem mem)
    rw [request, if_neg other] at found
    obtain ⟨message, known, same⟩ := h q c r mem found
    exact ⟨message, List.mem_append_left _ known, same⟩
  have mem : c ∈ sendQueues.entries q := mem
  rw [becomes.entries, Function.update_apply] at mem
  split at mem
  case isTrue here =>
    rcases List.mem_cons.mp (perm.mem_iff.mp mem) with rfl | mem
    · rw [request, if_pos rfl] at found
      cases found
      exact ⟨c.bytes, by simp, .refl c.bytes⟩
    · exact old (here ▸ mem)
  case isFalse => exact old mem

theorem Undergoes.keeps {sight : Sight} (h : Keeps queued m)
    (state : m.Sound held ∨ m.closed = true) (undergoes : m.Undergoes sight m') :
    Keeps (queued ++ queuedIn [sight]) m' := by
  have same (none : queuedIn [sight] = []) (kept : Keeps queued m') :
      Keeps (queued ++ queuedIn [sight]) m' := by
    rwa [none, List.append_nil]
  cases undergoes with
  | turn d device now =>
      refine same rfl ?_
      rcases state with sound | closed
      · exact h.moves sound (turn_moves d now m device)
      · rwa [Mailbox.turn, if_pos closed]
  | queue expectsResponse deadline sound perm becomes =>
      exact h.lodge sound perm becomes expectsResponse deadline
  | close dismisses shut =>
      refine same rfl fun p b r mem => ?_
      have queued := ProtocolQueues.mem_everything.mpr ⟨p, mem⟩
      rw [shut.emptied] at queued
      cases queued
  | aside idles => exact same rfl (h.idles idles)

theorem Undergoes.decoded {sight : Sight} (undergoes : m.Undergoes sight m')
    {request : PendingRequest} {message : Bytes} (mem : (request, message) ∈ queuedIn [sight]) :
    ∃ header, MessageHeader.decode? message = .ok header := by
  cases undergoes with
  | turn => cases mem
  | queue expectsResponse deadline sound perm becomes decoded =>
      rw [(Prod.mk.inj (List.mem_singleton.mp mem)).2]
      exact decoded
  | close => cases mem
  | aside => cases mem

theorem WritesPicked.sends {call : Call} (h : Keeps queued m) (custody : m.Custody held)
    (writes : m.WritesPicked now call) :
    ∃ request message, (request, message) ∈ queued ∧ call.Sends request message := by
  obtain ⟨p, b, m₁, result, picks, mailbox, access⟩ := writes
  obtain ⟨rest, entries, -⟩ := picks.head custody
  obtain ⟨sendQueues, request, -, found, -, bytes, stamped⟩ := picks.stamp
  obtain ⟨message, known, same⟩ := h p b request (by simp [entries]) found
  rw [stamped] at mailbox
  refine ⟨request, message, known, ?_, result, ?_⟩
  · rw [mailbox]
    rfl
  · rw [access, bytes, mailbox, same]
    rfl

end Mailbox

namespace Session

variable {s : Session} {trace : List Sight}

theorem Traced.keeps (traced : Traced trace s) : Mailbox.Keeps (queuedIn trace) s.mailbox := by
  induction traced with
  | start slave config sendId receiveId =>
      intro p b r mem
      have mem : b ∈ (ProtocolQueues.empty config.mailboxPoolSize).entries p := mem
      simp at mem
  | step traced shown ih =>
      rw [queuedIn_append]
      exact (shown.undergoes traced.reachable).keeps ih traced.reachable.sound_or_closed

theorem Traced.decoded (traced : Traced trace s) {request : PendingRequest} {message : Bytes}
    (mem : (request, message) ∈ queuedIn trace) :
    ∃ header, MessageHeader.decode? message = .ok header := by
  induction traced with
  | start => cases mem
  | step traced shown ih =>
      rw [queuedIn_append] at mem
      rcases List.mem_append.mp mem with mem | mem
      · exact ih mem
      · exact (shown.undergoes traced.reachable).decoded mem

/-- Every write of a run sends the message of a request that was queued before. -/
theorem Traced.sends (traced : Traced trace s) {call : Call} (mem : call ∈ callsOf trace)
    (written : call.isWrite = true) :
    ∃ request message, (request, message) ∈ queuedIn trace ∧ call.Sends request message := by
  induction traced with
  | start => cases mem
  | @step trace s₁ s₂ sight traced shown ih =>
      rw [callsOf_append] at mem
      rw [queuedIn_append]
      have longer (h : ∃ request message, (request, message) ∈ queuedIn trace ∧
          call.Sends request message) :
          ∃ request message, (request, message) ∈ queuedIn trace ++ queuedIn [sight] ∧
            call.Sends request message := by
        obtain ⟨request, message, known, sends⟩ := h
        exact ⟨request, message, List.mem_append_left _ known, sends⟩
      rcases List.mem_append.mp mem with mem | mem
      · exact longer (ih mem)
      · refine longer ?_
        cases shown with
        | turn d device now =>
            rw [callsOf, List.flatMap_singleton] at mem
            obtain ⟨polled, m₀, path, -, writes⟩ := Mailbox.turn_writes d device mem written
            rcases traced.reachable.sound_or_shut with ⟨-, sound⟩ | shut
            · have between := Mailbox.Moves.sound sound.mailbox path.moves
              exact writes.sends (traced.keeps.moves sound.mailbox path.moves) between.custody
            · rw [Mailbox.calls_closed shut.closed] at mem
              cases mem
        | queue => cases mem
        | close => cases mem
        | aside => cases mem

end Session

end Fieldbus
