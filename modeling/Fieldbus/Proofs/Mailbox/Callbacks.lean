import Fieldbus.Proofs.Mailbox.Outcomes
import Fieldbus.Proofs.Mailbox.SendOrder

/-!
# When callbacks run

The callback of a buffer travels with it through queues and turns, and runs when the slave takes the
message of the request that was queued in the buffer. A buffer that goes back to its pool leaves its
callback behind, so none that is taken from there carries one.
-/

namespace Fieldbus

/-! ## Pools hand out bare buffers -/

namespace BufferQueue

def Bare (q : BufferQueue) : Prop := ∀ i node, q.node? i = some node → node.buffer.callback = none

variable {q q' : BufferQueue} {b : Buffer}

theorem Bare.insertBetween? {previous next : Option Nat} (h : q.Bare) (bare : b.callback = none)
    (inserted : q.insertBetween? previous next b = some q') : q'.Bare := by
  unfold BufferQueue.insertBetween? at inserted
  split at inserted
  case isTrue accepts =>
    cases inserted
    intro i node found
    have bound : b.index < q.capacity := by
      rw [BufferQueue.accepts, Bool.and_eq_true, decide_eq_true_iff] at accepts
      exact accepts.1
    obtain ⟨n, here, rfl⟩ := Option.map_eq_some_iff.mp
      ((node?_relink q bound (some ⟨b, previous, next⟩) previous next (some b.index) (some b.index)
        i).symm.trans found)
    split at here
    · cases here
      exact bare
    · exact h i n here
  case isFalse => cases inserted

theorem Bare.remove? {i : Nat} (h : q.Bare) (removed : q.remove? i = some (b, q')) :
    b.callback = none ∧ q'.Bare := by
  unfold BufferQueue.remove? at removed
  split at removed
  · cases removed
  case h_2 node found =>
    cases removed
    refine ⟨h i node found, fun j other there => ?_⟩
    obtain ⟨n, here, rfl⟩ := Option.map_eq_some_iff.mp
      ((node?_relink q (lt_capacity_of_node? found) none node.previous node.next node.next
        node.previous j).symm.trans there)
    split at here
    · cases here
    · exact h j n here

theorem Bare.popFront? (h : q.Bare) (popped : q.popFront? = some (b, q')) :
    b.callback = none ∧ q'.Bare := by
  obtain ⟨i, -, removed⟩ := Option.bind_eq_some_iff.mp popped
  exact h.remove? removed

theorem Bare.popMany (h : q.Bare) (fuel : Nat) : (popMany fuel q).2.Bare := by
  induction fuel generalizing q with
  | zero => exact h
  | succ fuel ih =>
      rw [BufferQueue.popMany]
      split
      · exact h
      case h_2 b rest popped => exact ih (h.popFront? popped).2

theorem bare_empty (capacity : Nat) : (empty capacity).Bare := by
  intro i node found
  rw [node?, empty, Array.getElem?_replicate] at found
  split at found <;> cases found

end BufferQueue

namespace Pool

def Bare (p : Pool) : Prop := p.free.Bare

variable {p p' : Pool} {b : Buffer}

theorem Bare.take? (h : p.Bare) (take : p.take? = .ok (b, p')) :
    b.callback = none ∧ p'.Bare := by
  unfold Pool.take? at take
  split at take
  · cases take
  · split at take
    · cases take
    case h_2 popped =>
      cases take
      exact BufferQueue.Bare.popFront? h popped

theorem Bare.put (h : p.Bare) (b : Buffer) : (p.put b).Bare := by
  unfold Pool.put offer giveBack
  split
  · split
    · exact h
    · split
      · exact h
      case h_2 pushed => exact BufferQueue.Bare.insertBetween? h rfl pushed
  · exact h

theorem Bare.close (h : p.Bare) : p.close.2.Bare := BufferQueue.Bare.popMany h _

theorem bare_openWith (id capacity bufferSize : Nat) : (openWith id capacity bufferSize).Bare := by
  have stocked (indices : List Nat) (q : BufferQueue) (h : q.Bare) : (indices.foldl
      (fun q index => (q.pushBack? (Buffer.fresh id index bufferSize)).getD q) q).Bare := by
    induction indices generalizing q with
    | nil => exact h
    | cons index indices ih =>
        refine ih _ ?_
        dsimp only
        cases pushed : q.pushBack? (Buffer.fresh id index bufferSize) with
        | none => exact h
        | some q' => exact h.insertBetween? rfl pushed
  exact stocked _ _ (BufferQueue.bare_empty capacity)

end Pool

namespace Mailbox

variable {m m' : Mailbox} {held : List Buffer} {now : Nat}

def Returns (m m' : Mailbox) : Prop :=
  ∃ bs : List Buffer, m'.sendPool = bs.foldl Pool.put m.sendPool

theorem Returns.of_same (same : m'.sendPool = m.sendPool) : m.Returns m' := ⟨[], same⟩

theorem Returns.of_put {b : Buffer} (put : m'.sendPool = m.sendPool.put b) : m.Returns m' :=
  ⟨[b], put⟩

theorem Returns.bare (h : m.Returns m') (bare : m.sendPool.Bare) : m'.sendPool.Bare := by
  obtain ⟨bs, returned⟩ := h
  rw [returned]
  clear returned
  induction bs generalizing m with
  | nil => exact bare
  | cons b bs ih => exact ih (m := { m with sendPool := m.sendPool.put b }) (bare.put b)

theorem Returns.trans {m'' : Mailbox} (h : m.Returns m') (h' : m'.Returns m'') :
    m.Returns m'' := by
  obtain ⟨bs, returned⟩ := h
  obtain ⟨cs, returned'⟩ := h'
  exact ⟨bs ++ cs, by rw [returned', returned, List.foldl_append]⟩

theorem requeue_returns (m : Mailbox) (p : Protocol) (b : Buffer) :
    m.Returns (m.requeue p b) := by
  rcases m.requeue_cases p b with eq | ⟨flight, -, eq⟩ | ⟨flight, sendQueues, -, -, eq⟩ <;> rw [eq]
  · exact .of_put rfl
  · exact .of_put rfl
  · exact .of_same rfl

theorem acknowledge_returns (m : Mailbox) (b : Buffer) (workCounter : UInt16) :
    m.Returns (m.acknowledge b workCounter) := by
  rcases m.acknowledge_cases b workCounter with
    ⟨handshake, eq⟩ | ⟨flight, -, eq⟩ | ⟨flight, -, eq⟩ <;> rw [eq] <;>
    exact .of_put rfl

theorem Move.returns (move : Move now m m') : m.Returns m' := by
  cases move with
  | expire =>
      rcases m.expire_cases now with eq | ⟨flight, -, -, -, eq⟩ <;> rw [eq] <;> exact .of_same rfl
  | schedule => exact .of_same rfl
  | look => exact .of_same rfl
  | spare => exact .of_same rfl
  | @receive b receivePool data =>
      obtain ⟨_, _, _, _, _, _, _, eq⟩ := route_fields { m with receivePool, slotState := .empty }
        ((b.holding data).withLength m.slave.readSlot.length.toNat)
      rw [eq]
      exact .of_same rfl
  | orphan => exact .of_put rfl
  | overdue =>
      rw [resolve_eq]
      exact .of_put rfl
  | withhold picks =>
      obtain ⟨sendQueues, request, -, -, -, -, rfl⟩ := picks
      exact requeue_returns ..
  | refuse failures picks =>
      obtain ⟨sendQueues, request, -, -, -, -, rfl⟩ := picks
      exact requeue_returns ..
  | accept failures picks =>
      obtain ⟨sendQueues, request, -, -, -, -, rfl⟩ := picks
      exact acknowledge_returns ..

theorem Moves.returns (moves : Moves now m m') : m.Returns m' := by
  induction moves with
  | refl => exact .of_same rfl
  | tail _ move ih => exact ih.trans (Move.returns move)

theorem enqueue_returns (m : Mailbox) (front : Bool) (b : Buffer) (expectsResponse : Bool)
    (deadline : Nat) : m.Returns (m.enqueue front b expectsResponse deadline).2 := by
  have queueing (push : ProtocolQueues → Protocol → Buffer → Option ProtocolQueues) :
      m.Returns (m.enqueueWith push b expectsResponse deadline).2 := by
    by_cases owned : m.sendPool.owns b = true
    · rcases m.enqueueWith_cases push owned expectsResponse deadline with
        ⟨cause, eq⟩ | ⟨p, sendQueues, -, eq⟩ <;> rw [eq]
      · exact .of_put rfl
      · exact .of_same rfl
    · rw [enqueueWith, if_neg owned]
      exact .of_same rfl
  cases front with
  | true => exact queueing _
  | false => exact queueing _

theorem settle_returns (m : Mailbox) (h : Handle) : m.Returns (m.settle h).2 := by
  rcases m.settle_eq h with eq | ⟨-, eq⟩ <;> rw [eq]
  · exact .of_same rfl
  rcases m.abandon_cases h with
    eq | ⟨p, b, sendQueues, -, eq⟩ | ⟨flight, -, -, ⟨-, eq⟩ | ⟨-, eq⟩⟩ <;> rw [eq]
  · exact .of_same rfl
  · exact .of_put rfl
  · exact .of_same rfl
  · exact .of_same rfl

theorem Reads.returns {p : Protocol} {got : Option (Except Error Message)}
    (reads : m.Reads p got m') : m.Returns m' := by
  cases reads with
  | got taken =>
      obtain ⟨⟨b, receiveQueues⟩, -, eq⟩ := Option.map_eq_some_iff.mp taken
      cases eq
      exact .of_same rfl
  | missed => exact .of_same rfl

end Mailbox

theorem Session.Step.bare {s s' : Session} (step : Step s s') (bare : s.mailbox.sendPool.Bare) :
    s'.mailbox.sendPool.Bare := by
  cases step with
  | take take =>
      obtain ⟨-, sendPool, taken, rfl⟩ := Mailbox.takeSendBuffer?_eq_ok take
      exact (bare.take? taken).2
  | change left => exact bare
  | giveBack left => exact bare.put _
  | enqueue left front expectsResponse deadline => exact (Mailbox.enqueue_returns ..).bare bare
  | enqueueForeign front expectsResponse deadline foreign =>
      exact (Mailbox.enqueue_returns ..).bare bare
  | turn d device now =>
      exact (Mailbox.turn_moves d now _ device).returns.bare bare
  | wait left => exact (Mailbox.settle_returns ..).bare bare
  | tryRead p =>
      obtain ⟨_, reads, -⟩ := Mailbox.tryRead_reads _ p
      exact reads.returns.bare bare
  | requestRead p =>
      obtain ⟨_, reads, -⟩ := Mailbox.requestRead_reads _ p
      exact reads.returns.bare bare
  | read p =>
      obtain ⟨_, reads, -⟩ := Mailbox.read_reads _ p
      exact reads.returns.bare bare
  | scheduleRead => exact bare
  | @close m held pending =>
      dsimp only
      by_cases closed : m.closed = true
      · rw [Mailbox.close, if_pos closed]
        exact bare
      · rw [Mailbox.close_eq (by simpa using closed) rfl rfl]
        have returns : m.Returns { m with sendPool :=
            (m.sendQueues.drain.1.map Prod.snd).foldl Pool.put m.sendPool } := ⟨_, rfl⟩
        exact (returns.bare bare).close

theorem Session.Reachable.bare {s : Session} (reached : s.Reachable) :
    s.mailbox.sendPool.Bare := by
  obtain ⟨slave, config, sendId, receiveId, run⟩ := reached
  induction run with
  | refl => exact Pool.bare_openWith _ _ _
  | tail _ step ih => exact step.bare ih

/-! ## What runs when a message is taken -/

def lodgedAs (lodged : List (PendingRequest × Buffer)) (ticket : Nat) :
    Option (PendingRequest × Buffer) :=
  lodged.find? fun entry => entry.1.ticket = ticket

/-- If the slave took the message of a request, the callback of its buffer runs and finds the
message there as it was stamped. -/
def Exchange.fires (lodged : List (PendingRequest × Buffer)) : Exchange → List Firing
  | .took (some ticket) counter _ =>
      (lodgedAs lodged ticket).elim [] fun entry => (entry.2.stamped counter).fire.1
  | _ => []

theorem Call.exchange?_of_acknowledged {call : Call} (acknowledged : call.acknowledged = true) :
    ∃ workCounter, call.exchange? =
      some (.took call.mailbox.flightTicket call.mailbox.counter.last workCounter) := by
  obtain ⟨mailbox, access⟩ := call
  cases access with
  | look => cases acknowledged
  | read => cases acknowledged
  | write data result =>
      rcases result with cause | workCounter
      · cases acknowledged
      · have counted : workCounter ≠ 0 := bne_iff_ne.mp acknowledged
        exact ⟨workCounter, if_neg counted⟩

/-- What runs when a call succeeds. -/
def Call.fires (lodged : List (PendingRequest × Buffer)) (call : Call) : List Firing :=
  call.exchange?.elim [] (Exchange.fires lodged)

theorem flatMap_fires (calls : List Call) (lodged : List (PendingRequest × Buffer)) :
    (calls.filterMap Call.exchange?).flatMap (Exchange.fires lodged) =
      calls.flatMap (Call.fires lodged) := by
  induction calls with
  | nil => rfl
  | cons call calls ih =>
      rw [List.flatMap_cons, ← ih, Call.fires]
      cases passed : call.exchange? with
      | none => rw [List.filterMap_cons_none passed, Option.elim_none, List.nil_append]
      | some exchange => rw [List.filterMap_cons_some passed, List.flatMap_cons, Option.elim_some]

theorem lodgedAs_of_mem {lodged : List (PendingRequest × Buffer)}
    {entry : PendingRequest × Buffer} (distinct : (lodged.map fun entry => entry.1.ticket).Nodup)
    (mem : entry ∈ lodged) : lodgedAs lodged entry.1.ticket = some entry := by
  have some : (lodgedAs lodged entry.1.ticket).isSome :=
    List.find?_isSome.mpr ⟨entry, mem, by simp⟩
  obtain ⟨other, found⟩ := Option.isSome_iff_exists.mp some
  have same : other.1.ticket = entry.1.ticket := by simpa using List.find?_some found
  rw [found, List.inj_on_of_nodup_map distinct (List.mem_of_find?_eq_some found) mem same]

theorem lodgedAs_append {lodged : List (PendingRequest × Buffer)}
    {entry known : PendingRequest × Buffer} {ticket : Nat}
    (found : lodgedAs lodged ticket = some known) :
    lodgedAs (lodged ++ [entry]) ticket = some known := by
  rw [lodgedAs, List.find?_append, ← lodgedAs, found, Option.some_or]

theorem Exchange.fires_of_untaken {exchange : Exchange} (untaken : exchange.taker? = none)
    (lodged : List (PendingRequest × Buffer)) : exchange.fires lodged = [] := by
  cases exchange with
  | took ticket counter workCounter =>
      obtain rfl : ticket = none := untaken
      rfl
  | gave => rfl
  | noise => rfl

theorem Exchange.fires_append {exchange : Exchange} {lodged : List (PendingRequest × Buffer)}
    {entry : PendingRequest × Buffer} (other : exchange.taker? ≠ some entry.1.ticket) :
    exchange.fires (lodged ++ [entry]) = exchange.fires lodged := by
  cases exchange with
  | took ticket counter workCounter =>
      cases ticket with
      | none => rfl
      | some ticket =>
          have different : ¬entry.1.ticket = ticket := fun same => other (congrArg some same.symm)
          rw [fires, fires, lodgedAs, List.find?_append, List.find?_singleton,
            if_neg (by simpa using different), Option.or_none, ← lodgedAs]
  | gave => rfl
  | noise => rfl

namespace Mailbox

variable {m m' : Mailbox} {held : List Buffer} {now : Nat}
  {lodged : List (PendingRequest × Buffer)}

theorem firings_append {events : List MailboxEvent} (journal : m'.journal = m.journal ++ events) :
    m'.firings = m.firings ++ events.filterMap MailboxEvent.firing? := by
  rw [firings_eq, journal, List.filterMap_append, firings_eq]

/-- Every request in line was queued with its buffer, on which only the counter was changed since,
and what ran is what had to run. -/
structure Vouched (lodged : List (PendingRequest × Buffer)) (m : Mailbox) : Prop where
  bounded : ∀ entry ∈ lodged, entry.1.ticket < m.nextTicket
  lined : ∀ p, ∀ entry ∈ m.lineup p, ∃ b, lodgedAs lodged entry.1.ticket = some (entry.1, b) ∧
    ∀ counter, entry.2.stamped counter = b.stamped counter
  fired : m.firings = m.exchanges.flatMap (Exchange.fires lodged)

theorem fires_of_unsent {events : List MailboxEvent} (unsent : ∀ event ∈ events, event.Unsent)
    (lodged : List (PendingRequest × Buffer)) :
    (events.filterMap MailboxEvent.exchange?).flatMap (Exchange.fires lodged) = [] := by
  refine List.flatMap_eq_nil_iff.mpr fun exchange mem => ?_
  obtain ⟨event, mem, passed⟩ := List.mem_filterMap.mp mem
  refine Exchange.fires_of_untaken ?_ lodged
  have untaken := (unsent event mem).taker
  rwa [MailboxEvent.taker?, passed] at untaken

theorem Unsent.fires (h : m.Unsent m') (lodged : List (PendingRequest × Buffer)) :
    m'.exchanges.flatMap (Exchange.fires lodged) =
      m.exchanges.flatMap (Exchange.fires lodged) := by
  obtain ⟨events, journal, unsent⟩ := h
  rw [exchanges_append journal, List.flatMap_append, fires_of_unsent unsent, List.append_nil]

theorem Vouched.fewer (h : m.Vouched lodged) (next : m'.nextTicket = m.nextTicket)
    (unsent : m.Unsent m') (fewer : ∀ p, (m'.lineup p).Sublist (m.lineup p)) :
    m'.Vouched lodged where
  bounded := by rw [next]; exact h.bounded
  lined p entry mem := h.lined p entry ((fewer p).subset mem)
  fired := by rw [unsent.firings, unsent.fires, h.fired]

theorem Vouched.shift (h : m.Vouched lodged) (next : m'.nextTicket = m.nextTicket)
    (shift : Shift now m m') : m'.Vouched lodged := by
  cases shift with
  | still same unsent => exact h.fewer next unsent fun p => by rw [same]
  | overdue front late left ended unsent => exact h.fewer next unsent (front.leaves left)
  | @stamped p r b rest front timely stays counter unsent =>
      refine ⟨by rw [next]; exact h.bounded, fun q entry mem => ?_,
        by rw [unsent.firings, unsent.fires, h.fired]⟩
      rw [stays, Function.update_apply] at mem
      split at mem
      case isTrue same =>
        subst same
        have lined (entry : PendingRequest × Buffer) (mem : entry ∈ (r, b) :: rest) :=
          h.lined q entry (front.lineup ▸ mem)
        rcases List.mem_cons.mp mem with rfl | mem
        · obtain ⟨c, known, same⟩ := lined (r, b) (List.mem_cons_self ..)
          refine ⟨c, known, fun counter => ?_⟩
          rw [Buffer.stamped_stamped]
          exact same counter
        · exact lined entry (List.mem_cons_of_mem _ mem)
      case isFalse => exact h.lined q entry mem
  | @taken p r b rest events workCounter front timely left counter journal unsent =>
      refine ⟨by rw [next]; exact h.bounded,
        fun q entry mem => h.lined q entry ((front.leaves left q).subset mem), ?_⟩
      obtain ⟨c, known, same⟩ := h.lined p (r, b) (by simp [front.lineup])
      let firings := (b.stamped m.counter.next.last).fire.1
      -- What follows the acknowledgement tells of no other one.
      have silent : ((firings.map MailboxEvent.fired ++ events).filterMap
          MailboxEvent.exchange?).flatMap (Exchange.fires lodged) = [] := by
        have none : firings.filterMap (MailboxEvent.exchange? ∘ MailboxEvent.fired) = [] :=
          List.filterMap_eq_nil_iff.mpr fun _ _ => rfl
        rw [List.filterMap_append, List.flatMap_append, fires_of_unsent unsent, List.append_nil,
          List.filterMap_map, none, List.flatMap_nil]
      have ran : (firings.map MailboxEvent.fired ++ events).filterMap MailboxEvent.firing? =
          firings := by
        rw [List.filterMap_append,
          List.filterMap_eq_nil_iff.mpr fun event mem => (unsent event mem).firing,
          List.append_nil, List.filterMap_map]
        exact List.filterMap_some
      have first : (MailboxEvent.acknowledged (some r.ticket) m.counter.next.last
          workCounter).exchange? = some (.took (some r.ticket) m.counter.next.last workCounter) :=
        rfl
      have due : Exchange.fires lodged (.took (some r.ticket) m.counter.next.last workCounter) =
          firings := by
        rw [Exchange.fires, known, Option.elim_some, ← same]
      rw [firings_append journal, exchanges_append journal, List.flatMap_append, h.fired,
        List.filterMap_cons_none rfl, List.filterMap_cons_none rfl, ran,
        List.filterMap_cons_none rfl, List.filterMap_cons_some first, List.flatMap_cons, due,
        silent, List.append_nil]

theorem Vouched.moves (h : m.Vouched lodged) (sound : m.Sound held) (moves : Moves now m m') :
    m'.Vouched lodged := by
  induction moves with
  | refl => exact h
  | tail moves move ih =>
      have between := Moves.sound sound moves
      exact ih.shift (Moves.steady between (.single move)).nextTicket (Move.shift between move)

theorem Passage.vouched {occurrence : Occurrence} (passage : m.Passage m' occurrence)
    (ledger : m.Ledger) (h : m.Vouched lodged) :
    m'.Vouched (lodged ++ lodgedIn [occurrence]) := by
  have alone (none : occurrence.lodged? = none) (h : m'.Vouched lodged) :
      m'.Vouched (lodged ++ lodgedIn [occurrence]) := by
    simpa [lodgedIn, none] using h
  cases passage with
  | moved sound moves => exact alone rfl (h.moves sound moves)
  | left none next unsent fewer => exact alone none (h.fewer next unsent fewer)
  | @joined p front r b own next unsent lineup =>
      change m'.Vouched (lodged ++ [(r, b)])
      have old (q : Protocol) (entry : PendingRequest × Buffer) (mem : entry ∈ m.lineup q) :
          ∃ c, lodgedAs (lodged ++ [(r, b)]) entry.1.ticket = some (entry.1, c) ∧
            ∀ counter, entry.2.stamped counter = c.stamped counter := by
        obtain ⟨c, known, same⟩ := h.lined q entry mem
        exact ⟨c, lodgedAs_append known, same⟩
      have fresh : lodgedAs lodged r.ticket = none := by
        refine List.find?_eq_none.mpr fun entry mem => ?_
        rw [own]
        simpa using Nat.ne_of_lt (h.bounded entry mem)
      have new : lodgedAs (lodged ++ [(r, b)]) r.ticket = some (r, b) := by
        rw [lodgedAs, List.find?_append, ← lodgedAs, fresh, Option.none_or]
        simp
      constructor
      case bounded =>
        intro entry mem
        rw [next]
        rcases List.mem_append.mp mem with mem | mem
        · exact Nat.lt_succ_of_lt (h.bounded entry mem)
        · rw [List.mem_singleton.mp mem, own]
          exact Nat.lt_succ_self _
      case lined =>
        intro q entry mem
        rw [lineup, Function.update_apply] at mem
        split at mem
        case isTrue same =>
          rcases mem_joined.mp mem with rfl | mem
          · exact ⟨b, new, fun _ => rfl⟩
          · exact old p entry mem
        case isFalse => exact old q entry mem
      case fired =>
        rw [unsent.firings, unsent.fires, h.fired]
        refine List.flatMap_congr fun exchange mem => (Exchange.fires_append fun taker => ?_).symm
        have known : r.ticket ∈ m.takers := by
          obtain ⟨event, mem, passed⟩ := List.mem_filterMap.mp mem
          refine List.mem_filterMap.mpr ⟨event, mem, ?_⟩
          rw [MailboxEvent.taker?, passed]
          exact taker
        exact Nat.lt_irrefl _ (own ▸ ledger.known _ known)

/-! ## Who has left is never acknowledged again -/

structure Gone (ticket : Nat) (m : Mailbox) : Prop where
  given : ticket < m.nextTicket
  absent : ∀ p, ticket ∉ m.tickets p

theorem Gone.moves {ticket : Nat} (h : m.Gone ticket) (sound : m.Sound held)
    (moves : Moves now m m') :
    m'.Gone ticket ∧ ∃ takers, m'.takers = m.takers ++ takers ∧ ticket ∉ takers := by
  induction moves with
  | refl => exact ⟨h, [], (List.append_nil _).symm, List.not_mem_nil⟩
  | tail moves move ih =>
      obtain ⟨gone, takers, known, other⟩ := ih
      have between := Moves.sound sound moves
      have next := (Moves.steady between (.single move)).nextTicket
      rcases (Move.shift between move).tickets with ⟨same, fewer⟩ | ⟨p, t, takes, first, others⟩
      · exact ⟨⟨next ▸ gone.given, fun q mem => gone.absent q ((fewer q).subset mem)⟩, takers,
          same.trans known, other⟩
      · refine ⟨⟨next ▸ gone.given, fun q mem => gone.absent q ?_⟩, takers ++ [t], ?_, ?_⟩
        · by_cases same : q = p
          · rw [same, first]
            exact List.mem_cons_of_mem _ (same ▸ mem)
          · rwa [others q same] at mem
        · rw [takes, known, List.append_assoc]
        · rw [List.mem_append, not_or, List.mem_singleton]
          refine ⟨other, fun same => gone.absent p ?_⟩
          rw [first, same]
          exact List.mem_cons_self ..

theorem Passage.gone {occurrence : Occurrence} {ticket : Nat} (passage : m.Passage m' occurrence)
    (h : m.Gone ticket) :
    m'.Gone ticket ∧ ∃ takers, m'.takers = m.takers ++ takers ∧ ticket ∉ takers := by
  cases passage with
  | moved sound moves => exact h.moves sound moves
  | @joined p front r b own next unsent lineup =>
      refine ⟨⟨next ▸ Nat.lt_succ_of_lt h.given, fun q mem => ?_⟩, [], ?_, List.not_mem_nil⟩
      · have other : ticket ≠ r.ticket := own ▸ Nat.ne_of_lt h.given
        rw [tickets_update lineup] at mem
        split at mem
        · obtain ⟨entry, joined, rfl⟩ := List.mem_map.mp mem
          rcases mem_joined.mp joined with rfl | waits
          · exact other rfl
          · exact h.absent p (List.mem_map_of_mem waits)
        · exact h.absent q mem
      · rw [unsent.takers, List.append_nil]
  | left none next unsent fewer =>
      refine ⟨⟨next ▸ h.given, fun q mem => h.absent q (((fewer q).map _).subset mem)⟩, [], ?_,
        List.not_mem_nil⟩
      rw [unsent.takers, List.append_nil]

theorem Sound.gone {ticket : Nat} (sound : m.Sound held)
    (ended : (m.outcome? ticket).isSome ∨ ∃ waiter, (ticket, waiter) ∈ m.withdrawals) :
    m.Gone ticket := by
  constructor
  case given =>
    rcases ended with decided | ⟨waiter, withdrawn⟩
    · exact sound.accounts.known ticket decided
    · obtain ⟨index, request, -, admitted, rfl, -⟩ := sound.accounts.shared ticket waiter withdrawn
      exact sound.accounts.numbered _ admitted
  case absent =>
    intro p mem
    obtain ⟨⟨r, b⟩, here, rfl⟩ := List.mem_map.mp mem
    obtain ⟨-, undecided, kept⟩ :=
      sound.accounts.carried b.index r (.inl (mem_line.mp here).2)
    rcases ended with decided | ⟨waiter, withdrawn⟩
    · rw [undecided] at decided
      cases decided
    · exact kept waiter withdrawn

end Mailbox

namespace Session

variable {s s' : Session} {occurrence : Occurrence} {history more : List Occurrence}

theorem Recorded.vouched (recorded : Recorded history s) :
    s.mailbox.Vouched (lodgedIn history) := by
  induction recorded with
  | start slave config sendId receiveId =>
      refine ⟨List.forall_mem_nil _, fun p entry mem => ?_, rfl⟩
      have mem : entry ∈ (Mailbox.create slave config sendId receiveId).lineup p := mem
      rw [Mailbox.lineup_create] at mem
      cases mem
  | step recorded occurs ih =>
      rw [lodgedIn_append]
      exact (occurs.passage recorded.reachable).vouched recorded.traced.ledger ih

theorem Recorded.firings (recorded : Recorded history s) :
    s.mailbox.firings = (callsIn history).flatMap (Call.fires (lodgedIn history)) := by
  rw [← flatMap_fires, ← recorded.told]
  exact recorded.vouched.fired

theorem Course.gone {ticket : Nat} (recorded : Recorded history s) (course : Course s more s')
    (gone : s.mailbox.Gone ticket) : s'.mailbox.Gone ticket ∧
      ticket ∉ (callsIn more).filterMap Call.taker? := by
  induction course with
  | refl => exact ⟨gone, List.not_mem_nil⟩
  | @step more s₁ s₂ occurrence course occurs ih =>
      have before := recorded.trans course
      obtain ⟨gone', takers, known, other⟩ := (occurs.passage before.reachable).gone ih.1
      -- The calls of this step took the tickets that the mailbox has since.
      have taken := (before.step occurs).takers
      rw [known, before.takers, callsIn_append (history ++ more), List.filterMap_append] at taken
      rw [callsIn_append, List.filterMap_append, ← List.append_cancel_left taken]
      exact ⟨gone', fun mem => (List.mem_append.mp mem).elim ih.2 other⟩

theorem Course.calls_closed (course : Course s more s') (closed : s.mailbox.closed = true) :
    s'.mailbox.closed = true ∧ callsIn more = [] := by
  induction course with
  | refl => exact ⟨closed, rfl⟩
  | step _ occurs ih =>
      refine ⟨occurs.shows.step.closed ih.1, ?_⟩
      rw [callsIn_append, ih.2]
      cases occurs with
      | turn d device now => simp [callsIn, Occurrence.calls, Mailbox.calls_closed ih.1]
      | _ => rfl

theorem Recorded.fires (recorded : Recorded history s) {call : Call} (mem : call ∈ callsIn history)
    (acknowledged : call.acknowledged = true) :
    ∃ request b, (request, b) ∈ lodgedIn history ∧ call.taker? = some request.ticket ∧
      (∃ result, call.access = .write ((b.stamped call.mailbox.counter.last).bytes.take
        call.mailbox.slave.writeSlot.length.toNat) result) ∧
      call.fires (lodgedIn history) = (b.stamped call.mailbox.counter.last).fire.1 := by
  obtain ⟨written, taker⟩ := Call.taker?_of_acknowledged acknowledged
  rw [← callsOf_sights] at mem
  obtain ⟨request, message, known, own, result, access⟩ := recorded.traced.sends mem written
  rw [queuedIn_sights] at known
  obtain ⟨⟨request, b⟩, lodged, eq⟩ := List.mem_map.mp known
  cases eq
  refine ⟨request, b, lodged, taker.trans own, ⟨result, access⟩, ?_⟩
  have distinct := recorded.traced.distinct
  rw [queuedIn_sights, List.map_map] at distinct
  obtain ⟨workCounter, passed⟩ := Call.exchange?_of_acknowledged acknowledged
  rw [Call.fires, passed, own, Option.elim_some, Exchange.fires, lodgedAs_of_mem distinct lodged,
    Option.elim_some]

/-- A callback runs when the slave takes the message of the request in its buffer, once and in that
turn, and finds the message there as it was written. It has not run while the request waits, never
runs once it ended, and no buffer that is taken from the pool carries one. -/
theorem callbacks_fire (recorded : Recorded history s) :
    s.mailbox.firings = (callsIn history).flatMap (Call.fires (lodgedIn history)) ∧
    (∀ call ∈ callsIn history, call.acknowledged = true →
      ∃ request b, (request, b) ∈ lodgedIn history ∧ call.taker? = some request.ticket ∧
        (∃ result, call.access = .write ((b.stamped call.mailbox.counter.last).bytes.take
          call.mailbox.slave.writeSlot.length.toNat) result) ∧
        call.fires (lodgedIn history) = (b.stamped call.mailbox.counter.last).fire.1) ∧
    ((callsIn history).filterMap Call.taker?).Nodup ∧
    (∀ occurrence s', Occurs s occurrence s' → s'.mailbox.firings =
      s.mailbox.firings ++ occurrence.calls.flatMap (Call.fires (lodgedIn history))) ∧
    (∀ p, ∀ ticket ∈ s.mailbox.tickets p, ticket ∉ (callsIn history).filterMap Call.taker?) ∧
    (∀ ticket more s', Course s more s' →
      ((s.mailbox.outcome? ticket).isSome ∨ ∃ waiter, (ticket, waiter) ∈ s.mailbox.withdrawals) →
        ticket ∉ (callsIn more).filterMap Call.taker?) ∧
    ∀ b m, s.mailbox.takeSendBuffer? = .ok (b, m) → b.callback = none := by
  refine ⟨recorded.firings, fun call mem => recorded.fires mem, ?_, fun occurrence s' occurs => ?_,
    fun p ticket waits => ?_, fun ticket more s' course ended => ?_, fun b m take => ?_⟩
  · rw [← recorded.takers]
    exact recorded.traced.ledger.once
  · cases lodges : occurrence.lodged? with
    | none =>
        have later := (recorded.step occurs).firings
        rw [callsIn_append, lodgedIn_append, lodgedIn, lodgedIn, List.filterMap_cons_none lodges,
          List.filterMap_nil, List.append_nil, List.flatMap_append, ← lodgedIn,
          ← recorded.firings] at later
        rw [later, callsIn, List.flatMap_singleton]
    | some entry =>
        -- Where a request joins its line nothing is called, and nothing runs.
        cases occurs.passage recorded.reachable with
        | moved => cases lodges
        | joined own next unsent lineup =>
            rw [unsent.firings]
            exact (List.append_nil _).symm
        | left none =>
            rw [none] at lodges
            cases lodges
  · obtain ⟨⟨r, b⟩, mem, rfl⟩ := List.mem_map.mp waits
    rw [← recorded.takers]
    exact recorded.traced.ledger.waiting b.index r (Mailbox.mem_line.mp mem).2
  · rcases recorded.reachable.sound_or_shut with ⟨-, sound⟩ | shut
    · exact (course.gone recorded (sound.mailbox.gone ended)).2
    · rw [(course.calls_closed shut.closed).2]
      exact List.not_mem_nil
  · obtain ⟨-, sendPool, taken, rfl⟩ := Mailbox.takeSendBuffer?_eq_ok take
    exact (recorded.reachable.bare.take? taken).1

def emptied : Mailbox :=
  match cramped.takeSendBuffer? with
  | .ok (_, m) => m
  | .error _ => cramped

def belled : Buffer :=
  { Buffer.fresh 0 0 16 with
    bytes := (MessageHeader.plain .coe 0x1001 1).encode ++ 1 :: Bytes.zeros 9
    length := 7
    callback := some 7 }

/-- The slave takes the message when it is written again. -/
def rung : Mailbox :=
  (((emptied.enqueue false belled false 1000000).2.turn deaf.transport 1 ()).2.1.turn
    mute.transport 2 ()).2.1

/-- The callback does not run in the turn that fails, and runs in the next one on the message that
was stamped again. -/
theorem callbacks_fire_rung : ∃ history s, Recorded history s ∧ s.mailbox = rung ∧
    (callsIn history).flatMap (Call.fires (lodgedIn history)) =
      [⟨7, { belled.stamped 2 with callback := none }⟩] ∧
    ∀ b m, rung.takeSendBuffer? = .ok (b, m) → b.callback = none := by
  have start : Recorded [] ⟨cramped, [], []⟩ := .start _ _ _ _
  have take : cramped.takeSendBuffer? = .ok (Buffer.fresh 0 0 16, emptied) := by rfl
  have accepted : (emptied.enqueue false belled false 1000000).1 = .ok ⟨0, 0, 1000000⟩ := by rfl
  have decoded : MessageHeader.decode? belled.bytes = .ok (.plain .coe 0x1001 1) := by rfl
  have taken := start.step (.aside (.take take)
    (.inl (Mailbox.takeSendBuffer_untouched take)) (Mailbox.takeSendBuffer_unread take))
  have filled := taken.step (.aside (.change (c := belled) [] rfl rfl) (.inl (.refl _)) (.refl _))
  have lodged := filled.step (.queue [] false false 1000000 accepted decoded)
  have recorded := (lodged.step (.turn deaf () 1)).step (.turn mute () 2)
  obtain ⟨fired, -, -, -, -, -, bare⟩ := callbacks_fire recorded
  have ran : rung.firings = [⟨7, { belled.stamped 2 with callback := none }⟩] := by decide +kernel
  exact ⟨_, _, recorded, rfl, fired.symm.trans ran, bare⟩

end Session

end Fieldbus
