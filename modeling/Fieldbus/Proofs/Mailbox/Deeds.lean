import Fieldbus.Proofs.Mailbox.Branches
import Fieldbus.Proofs.Mailbox.Calls
import Fieldbus.Proofs.Mailbox.Moves

/-!
# The deeds of a turn

A deed is a move together with the calls that it takes. The journal tells truly what passed in them,
and what they write is the message of the request that the mailbox picked. A turn is a path of
deeds, and only the last one writes. To a move a deed adds the calls and nothing else, so no caller
acts during it either.
-/

namespace Fieldbus.Mailbox

/-- The journal grew by what passed in the calls, among other things. -/
def Tells (m : Mailbox) (calls : List Call) (m' : Mailbox) : Prop :=
  ∃ events, m'.journal = m.journal ++ events ∧
    events.filterMap MailboxEvent.exchange? = calls.filterMap Call.exchange?

/-- The call writes the message of a request that `m` picks, stamped with the next counter. -/
def WritesPicked (now : Nat) (m : Mailbox) (call : Call) : Prop :=
  ∃ p b m₁ result, m.Picks now p b m₁ ∧ call.mailbox = (m₁.stamp b).2 ∧
    call.access = .write ((m₁.stamp b).1.bytes.take m.slave.writeSlot.length.toNat) result

structure Deed (now : Nat) (m : Mailbox) (calls : List Call) (m' : Mailbox) : Prop where
  move : Move now m m'
  tells : m.Tells calls m'
  writes : ∀ call ∈ calls, call.isWrite = true → m.WritesPicked now call
  stamped : (∃ call ∈ calls, call.isWrite = true) → m'.counter = m.counter.next
  unstamped : (∀ call ∈ calls, call.isWrite = false) → m'.counter = m.counter

inductive Deeds (now : Nat) : Mailbox → List Call → Mailbox → Prop
  | refl (m : Mailbox) : Deeds now m [] m
  | tail {m m₁ m₂ : Mailbox} {calls more : List Call} :
      Deeds now m calls m₁ → Deed now m₁ more m₂ → Deeds now m (calls ++ more) m₂

variable {m m' m'' : Mailbox} {now : Nat} {calls more : List Call}

theorem Deed.deeds (deed : Deed now m calls m') : Deeds now m calls m' :=
  .tail (.refl m) deed

theorem Deeds.trans (path : Deeds now m calls m') (later : Deeds now m' more m'') :
    Deeds now m (calls ++ more) m'' := by
  induction later with
  | refl => rwa [List.append_nil]
  | tail _ deed ih =>
      rw [← List.append_assoc]
      exact .tail ih deed

theorem Deeds.moves (path : Deeds now m calls m') : Moves now m m' := by
  induction path with
  | refl => exact .refl
  | tail _ deed ih => exact ih.tail deed.move

/-! ## Moves that exchange nothing -/

/-- Nothing passes between the mailbox and the slave, and nothing is stamped. -/
structure Mute (m m' : Mailbox) : Prop where
  counter : m'.counter = m.counter
  tells : m.Tells [] m'

theorem Mute.of_journal (counter : m'.counter = m.counter) (journal : m'.journal = m.journal) :
    m.Mute m' :=
  ⟨counter, [], by rw [journal, List.append_nil], rfl⟩

theorem Tells.trans (h : m.Tells calls m') (h' : m'.Tells more m'') :
    m.Tells (calls ++ more) m'' := by
  obtain ⟨events, journal, passed⟩ := h
  obtain ⟨events', journal', passed'⟩ := h'
  refine ⟨events ++ events', by rw [journal', journal, List.append_assoc], ?_⟩
  rw [List.filterMap_append, List.filterMap_append, passed, passed']

theorem Mute.trans (h : m.Mute m') (h' : m'.Mute m'') : m.Mute m'' :=
  ⟨h'.counter.trans h.counter, h.tells.trans h'.tells⟩

theorem exchange?_verdict (m : Mailbox) (ticket : Nat) (outcome : Except Error Reply) :
    (m.verdict ticket outcome).filterMap MailboxEvent.exchange? = [] := by
  unfold verdict
  split <;> rfl

theorem mute_verdict {m₀ : Mailbox} {ticket : Nat} {outcome : Except Error Reply}
    (counter : m'.counter = m.counter)
    (journal : m'.journal = m.journal ++ m₀.verdict ticket outcome) : m.Mute m' :=
  ⟨counter, _, journal, exchange?_verdict m₀ ticket outcome⟩

theorem mute_expire (m : Mailbox) (now : Nat) : m.Mute (m.expire now) := by
  rcases m.expire_cases now with eq | ⟨flight, -, -, -, eq⟩ <;> rw [eq]
  · exact .of_journal rfl rfl
  · exact mute_verdict rfl rfl

theorem mute_requeue (m : Mailbox) (p : Protocol) (b : Buffer) : m.Mute (m.requeue p b) := by
  rcases m.requeue_cases p b with eq | ⟨flight, -, eq⟩ | ⟨flight, sendQueues, -, -, eq⟩ <;> rw [eq]
  · exact .of_journal rfl rfl
  · exact mute_verdict rfl rfl
  · exact ⟨rfl, [.requeued flight.request.ticket], rfl, rfl⟩

theorem Deed.mute (move : Move now m m') (mute : m.Mute m')
    (idle : ∀ call ∈ calls, call.isWrite = false ∧ call.exchange? = none) :
    Deed now m calls m' := by
  obtain ⟨counter, events, journal, passed⟩ := mute
  have reads : ∀ call ∈ calls, ¬call.isWrite = true := by
    intro call mem written
    rw [(idle call mem).1] at written
    cases written
  constructor
  case move => exact move
  case tells =>
    refine ⟨events, journal, passed.trans ?_⟩
    exact (List.filterMap_eq_nil_iff.mpr fun call mem => (idle call mem).2).symm
  case writes => exact fun call mem written => absurd written (reads call mem)
  case stamped => exact fun ⟨call, mem, written⟩ => absurd written (reads call mem)
  case unstamped => exact fun _ => counter

/-! ## Reading -/

theorem contents_holding (b : Buffer) (data : Bytes) (n : Nat) :
    ((b.holding (data.take n)).withLength n).contents =
      Bytes.overwrite (b.bytes.take n) 0 (data.take n) := by
  unfold Buffer.contents Buffer.withLength Buffer.holding Buffer.capacity
  rw [Bytes.overwrite_zero, Bytes.overwrite_zero]
  dsimp only
  rw [← List.take_eq_take_min, List.take_append, List.take_take, Nat.min_self]
  have short : (data.take n).length ≤ n := List.length_take_le n data
  rw [List.drop_take]

theorem route_tells (m : Mailbox) (b : Buffer) :
    (m.route b).counter = m.counter ∧ ∃ events, (m.route b).journal = m.journal ++ events ∧
      events.filterMap MailboxEvent.exchange? = [.ofRead b.contents] := by
  have pushed (m : Mailbox) (p : Protocol) :
      (m.pushReceived p b).counter = m.counter ∧ (m.pushReceived p b).journal = m.journal := by
    unfold pushReceived
    split <;> exact ⟨rfl, rfl⟩
  rcases decoded : Message.decode? b.contents with cause | message
  · rw [route_garbled decoded]
    exact ⟨rfl, [.garbled b.contents], rfl,
      by simp [MailboxEvent.exchange?, Exchange.ofRead, decoded]⟩
  · have told (fate : Fate) : [MailboxEvent.routed message fate].filterMap
        MailboxEvent.exchange? = [.ofRead b.contents] := by
      simp [MailboxEvent.exchange?, Exchange.ofRead, decoded]
    cases fate : m.fate message with
    | unsupported =>
        rw [route_unsupported decoded fate]
        exact ⟨rfl, _, rfl, told _⟩
    | stale =>
        rw [route_stale decoded fate]
        exact ⟨rfl, _, rfl, told _⟩
    | queued =>
        rw [route_queued decoded fate, (pushed _ _).1, (pushed _ _).2]
        exact ⟨rfl, _, rfl, told _⟩
    | answered ticket =>
        obtain ⟨flight, awaiting, flying, rfl, -, -⟩ := fate_answered fate
        obtain ⟨m₀, -, answered, routed⟩ := route_answered decoded awaiting flying fate
        rw [answered]
        refine ⟨rfl, _, (congrArg (· ++ _) routed).trans (List.append_assoc ..), ?_⟩
        rw [List.filterMap_append, told]
        have silent : (m₀.verdict flight.request.ticket
            (.ok (.response flight.workCounter message))).filterMap
              MailboxEvent.exchange? = [] := by
          unfold verdict
          split <;> rfl
        rw [silent, List.append_nil]

variable {σ : Type}

theorem transport_slotState {d : SlotDevice σ} {slot : SyncManager} {s s' : σ}
    {result : Except Error SlotState} (h : d.slotState m.slave slot s = (result, s')) :
    d.transport.slotState slot m s = (result, m, s') := by
  simp only [SlotDevice.transport, h]

theorem transport_write {d : SlotDevice σ} {data : Bytes} {s s' : σ}
    {result : Except Error UInt16} (h : d.write m.slave data s = (result, s')) :
    d.transport.write data m s = (result, m, s') := by
  simp only [SlotDevice.transport, h]

theorem transport_read {d : SlotDevice σ} {before : Bytes} {s s' : σ}
    {outcome : Except Error UInt16 × Bytes} (h : d.read m.slave before s = (outcome, s')) :
    d.transport.read before m s = (outcome, m, s') := by
  simp only [SlotDevice.transport, h]

def Polls (now : Nat) (m : Mailbox) (log : List Call) (result : Mailbox × List Call × σ) : Prop :=
  ∃ calls, result.2.1 = log ++ calls ∧ Deeds now m calls result.1 ∧
    ∀ call ∈ calls, call.isWrite = false

theorem Polls.trans {log log₁ : List Call} {s₁ : σ} {result : Mailbox × List Call × σ}
    (first : Polls now m log (m', log₁, s₁)) (later : Polls now m' log₁ result) :
    Polls now m log result := by
  obtain ⟨calls, rfl, path, reads⟩ := first
  obtain ⟨more, logged, path', reads'⟩ := later
  refine ⟨calls ++ more, by rw [logged, List.append_assoc], path.trans path', fun call mem => ?_⟩
  rcases List.mem_append.mp mem with mem | mem
  · exact reads call mem
  · exact reads' call mem

theorem deed_look (now : Nat) (m : Mailbox) (state : SlotState) (slot : SyncManager)
    (result : Except Error SlotState) :
    Deed now m [⟨m, .look slot result⟩] { m with slotState := state } := by
  refine .mute (.look m state) (.of_journal rfl rfl) fun call mem => ?_
  rw [List.mem_singleton.mp mem]
  exact ⟨rfl, rfl⟩

section Read

variable {b : Buffer} {receivePool : Pool} (take : m.receivePool.take? = .ok (b, receivePool))
  (after : Bytes)

def readCall (m : Mailbox) (receivePool : Pool) (b : Buffer) (result : Except Error UInt16)
    (after : Bytes) : Call :=
  ⟨{ m with slotState := .full, receivePool },
    .read (b.bytes.take m.slave.readSlot.length.toNat) result after⟩

include take in
theorem deed_spare (now : Nat) {result : Except Error UInt16}
    (idle : (m.readCall receivePool b result after).exchange? = none) :
    Deed now { m with slotState := .full } [m.readCall receivePool b result after]
      ({ m with slotState := .full, receivePool }.putReceive
        (b.holding (after.take m.slave.readSlot.length.toNat))) := by
  have short := List.length_take_le m.slave.readSlot.length.toNat after
  refine .mute (.spare _ take short) (.of_journal rfl rfl) fun call mem => ?_
  rw [List.mem_singleton.mp mem]
  exact ⟨rfl, idle⟩

include take in
theorem deed_receive (now : Nat) {counter : UInt16} (counted : counter ≠ 0) :
    Deed now m [⟨m, .look m.slave.readSlot (.ok .full)⟩,
        m.readCall receivePool b (.ok counter) after]
      ({ m with receivePool, slotState := .empty }.route
        ((b.holding (after.take m.slave.readSlot.length.toNat)).withLength
          m.slave.readSlot.length.toNat)) := by
  have short := List.length_take_le m.slave.readSlot.length.toNat after
  obtain ⟨same, events, journal, told⟩ := route_tells { m with receivePool, slotState := .empty }
    ((b.holding (after.take m.slave.readSlot.length.toNat)).withLength
      m.slave.readSlot.length.toNat)
  rw [contents_holding] at told
  constructor
  case move => exact .receive _ take short
  case tells =>
    have gave : (m.readCall receivePool b (.ok counter) after).exchange? =
        some (.ofRead (Bytes.overwrite (b.bytes.take m.slave.readSlot.length.toNat) 0
          (after.take m.slave.readSlot.length.toNat))) := if_neg counted
    refine ⟨events, journal, told.trans ?_⟩
    rw [List.filterMap_cons_none rfl, List.filterMap_cons_some gave, List.filterMap_nil]
  case writes => simp [Call.isWrite, readCall]
  case stamped => simp [Call.isWrite, readCall]
  case unstamped => exact fun _ => same

end Read

theorem readOne_polls (d : SlotDevice σ) (now : Nat) (m : Mailbox) (log : List Call) (s : σ) :
    Polls now m log (readOne d.transport.noting m (log, s)).2 := by
  unfold readOne
  rcases hstate : d.slotState m.slave m.slave.readSlot s with ⟨cause | state, s₁⟩
  · rw [noting_slotState (transport_slotState hstate)]
    exact ⟨_, rfl, (deed_look now m m.slotState _ _).deeds, by simp [Call.isWrite]⟩
  · rw [noting_slotState (transport_slotState hstate)]
    have looked : Polls now m log ({ m with slotState := state },
        log ++ [⟨m, .look m.slave.readSlot (.ok state)⟩], s₁) :=
      ⟨_, rfl, (deed_look now m state _ _).deeds, by simp [Call.isWrite]⟩
    cases state with
    | empty => exact looked
    | full =>
        rcases take : m.receivePool.take? with cause | ⟨b, receivePool⟩
        · simp only [take]
          exact looked
        · rcases hread : d.read m.slave (b.bytes.take m.slave.readSlot.length.toNat) s₁ with
            ⟨⟨result, after⟩, s₂⟩
          have read := noting_read
            (transport_read (m := { m with slotState := .full, receivePool }) hread)
            (log ++ [⟨m, .look m.slave.readSlot (.ok .full)⟩])
          simp only [take, read]
          have spared (idle : (m.readCall receivePool b result after).exchange? = none) :
              Polls now m log ({ m with slotState := .full, receivePool }.putReceive
                  (b.holding (after.take m.slave.readSlot.length.toNat)),
                log ++ [⟨m, .look m.slave.readSlot (.ok .full)⟩] ++
                  [m.readCall receivePool b result after], s₂) := by
            refine looked.trans ⟨[m.readCall receivePool b result after], rfl,
              (deed_spare take after now idle).deeds, ?_⟩
            simp [Call.isWrite, readCall]
          rcases result with cause | counter
          · exact spared rfl
          · by_cases none : counter = 0
            · simp only [if_pos none]
              exact spared (by simp [Call.exchange?, readCall, none])
            · simp only [if_neg none]
              exact ⟨_, List.append_assoc .., (deed_receive take after now none).deeds,
                by simp [Call.isWrite]⟩

theorem readMany_polls (d : SlotDevice σ) (now fuel : Nat) (m : Mailbox) (log : List Call)
    (s : σ) : Polls now m log (readMany d.transport.noting fuel m (log, s)).2 := by
  induction fuel generalizing m log s with
  | zero => exact ⟨[], (List.append_nil log).symm, .refl m, by simp⟩
  | succ fuel ih =>
      have one := readOne_polls d now m log s
      rw [readMany]
      rcases hread : readOne d.transport.noting m (log, s) with ⟨cause | taken, m₁, log₁, s₁⟩
      · rw [hread] at one
        exact one
      · rw [hread] at one
        cases taken with
        | false => exact one
        | true => exact one.trans (ih m₁ log₁ s₁)

theorem poll_polls (d : SlotDevice σ) (now : Nat) (m : Mailbox) (log : List Call) (s : σ) :
    Polls now m log (poll d.transport.noting now m (log, s)).2 := by
  unfold poll
  split
  · let m₁ : Mailbox := { m with
      readScheduled := false, nextPoll := some (now + m.config.pollInterval) }
    have scheduled : Deed now m [] m₁ := .mute (.schedule m _) (.of_journal rfl rfl) (by simp)
    have first : Polls now m log (m₁, log, s) :=
      ⟨[], (List.append_nil log).symm, scheduled.deeds, by simp⟩
    exact first.trans (readMany_polls d now _ m₁ log s)
  · exact ⟨[], (List.append_nil log).symm, .refl m, by simp⟩

/-! ## Writing -/

/-- The mailbox after the next request was looked for: at rest if there is none, else on the way
from a mailbox at rest that picks it. -/
def Chosen (now : Nat) (m : Mailbox) : Option (Protocol × Buffer) → Mailbox → Prop
  | none, m' => Deeds now m [] m'
  | some (p, b), m' => ∃ m₀, Deeds now m [] m₀ ∧ m₀.Picks now p b m'

theorem Chosen.head {m₁ : Mailbox} {picked : Option (Protocol × Buffer)}
    (first : Deed now m [] m₁) (later : Chosen now m₁ picked m') : Chosen now m picked m' := by
  cases picked with
  | none => exact first.deeds.trans later
  | some _ =>
      obtain ⟨m₀, path, picks⟩ := later
      exact ⟨m₀, first.deeds.trans path, picks⟩

theorem takeNextWithin_chosen (now fuel : Nat) (m : Mailbox) (ready : m.handshake.isReady = true) :
    Chosen now m (takeNextWithin now fuel m).1 (takeNextWithin now fuel m).2 := by
  induction fuel generalizing m with
  | zero => exact .refl m
  | succ fuel ih =>
      rw [takeNextWithin]
      rcases hnext : m.sendQueues.next? m.config.priority with _ | ⟨p, b, sendQueues⟩
      · exact .refl m
      · rcases hrequest : m.request? b.index with _ | request
        · have same : ({ m with sendQueues }).request? b.index = none := hrequest
          simp only [same]
          exact .head (.mute (.orphan ready hnext hrequest) (.of_journal rfl rfl) (by simp))
            (ih _ ready)
        · have same : ({ m with sendQueues }).request? b.index = some request := hrequest
          simp only [same]
          split
          case isTrue late =>
            have overdue := Move.overdue ready hnext hrequest late
            rw [resolve_eq] at overdue ⊢
            exact .head (.mute overdue (mute_verdict rfl rfl) (by simp)) (ih _ ready)
          case isFalse early =>
            exact ⟨m, .refl m, sendQueues, request, ready, hnext, hrequest, by omega, rfl⟩

theorem takeNext_chosen (now : Nat) (m : Mailbox) :
    Chosen now m (m.takeNext now).1 (m.takeNext now).2 := by
  unfold takeNext
  split
  case isTrue ready => exact takeNextWithin_chosen now _ m ready
  case isFalse => exact .refl m

theorem Tells.congr (h : m.Tells calls m')
    (same : more.filterMap Call.exchange? = calls.filterMap Call.exchange?) : m.Tells more m' := by
  obtain ⟨events, journal, told⟩ := h
  exact ⟨events, journal, told.trans same.symm⟩

theorem Picks.mute {m₁ : Mailbox} {p : Protocol} {b : Buffer} (picks : m.Picks now p b m₁) :
    m.Mute m₁ := by
  obtain ⟨sendQueues, request, -, -, -, -, rfl⟩ := picks
  exact .of_journal rfl rfl

theorem stamp_tells (m : Mailbox) (b : Buffer) : m.Tells [] (m.stamp b).2 :=
  ⟨[.stamped m.flightTicket m.counter.next.last], rfl, rfl⟩

theorem acknowledge_tells (m : Mailbox) (b : Buffer) (workCounter : UInt16) :
    (m.acknowledge b workCounter).counter = m.counter ∧
      ∃ events, (m.acknowledge b workCounter).journal = m.journal ++ events ∧
        events.filterMap MailboxEvent.exchange? =
          [.took m.flightTicket m.counter.last workCounter] := by
  let events := MailboxEvent.acknowledged m.flightTicket m.counter.last workCounter ::
    b.fire.1.map MailboxEvent.fired
  have told : events.filterMap MailboxEvent.exchange? =
      [.took m.flightTicket m.counter.last workCounter] := by
    have silent : (b.fire.1.map MailboxEvent.fired).filterMap MailboxEvent.exchange? = [] := by
      simp [List.filterMap_map, MailboxEvent.exchange?]
    have first : (MailboxEvent.acknowledged m.flightTicket m.counter.last workCounter).exchange? =
        some (.took m.flightTicket m.counter.last workCounter) := rfl
    rw [List.filterMap_cons_some first, silent]
  have grown : m.journal ++ [MailboxEvent.acknowledged m.flightTicket m.counter.last workCounter] ++
      b.fire.1.map MailboxEvent.fired = m.journal ++ events := List.append_assoc ..
  rcases m.acknowledge_cases b workCounter with
    ⟨handshake, eq⟩ | ⟨flight, -, eq⟩ | ⟨flight, -, eq⟩ <;> rw [eq]
  · exact ⟨rfl, events, grown, told⟩
  · exact ⟨rfl, events, grown, told⟩
  · refine ⟨rfl, _, (congrArg (· ++ _) grown).trans (List.append_assoc ..), ?_⟩
    rw [List.filterMap_append, told, exchange?_verdict]
    rfl

/-! ### Attempts -/

def Heeded (m : Mailbox) (calls : List Call) : Except Error (Option UInt16) → Prop
  | .ok (some workCounter) => workCounter ≠ 0 ∧
      calls.filterMap Call.exchange? = [.took m.flightTicket m.counter.last workCounter]
  | _ => calls.filterMap Call.exchange? = []

structure Attempted (m : Mailbox) (data : Bytes) (calls : List Call)
    (result : Except Error (Option UInt16)) : Prop where
  writes : ∀ call ∈ calls, ∃ result, call = ⟨m, .write data result⟩
  heeded : m.Heeded calls result

theorem Attempted.cons {data : Bytes} {result : Except Error (Option UInt16)}
    (later : m.Attempted data calls result) :
    m.Attempted data (⟨m, .write data (.ok 0)⟩ :: calls) result := by
  have idle : (⟨m, .write data (.ok 0)⟩ : Call).exchange? = none := rfl
  constructor
  case writes =>
    intro call mem
    rcases List.mem_cons.mp mem with rfl | mem
    · exact ⟨.ok 0, rfl⟩
    · exact later.writes call mem
  case heeded =>
    have heeded := later.heeded
    unfold Heeded at heeded ⊢
    rw [List.filterMap_cons_none idle]
    exact heeded

theorem writeRepeatedly_attempted (d : SlotDevice σ) (data : Bytes) (attempts failures : Nat)
    (m : Mailbox) (log : List Call) (s : σ) :
    ∃ calls written s', writeRepeatedly d.transport.noting data attempts failures m (log, s) =
        (written, m, log ++ calls, s') ∧
      m.Attempted data calls written.result ∧ (0 < attempts → calls ≠ []) := by
  induction attempts generalizing failures log s with
  | zero =>
      refine ⟨[], ⟨failures, .ok none⟩, s, by rw [writeRepeatedly, List.append_nil], ?_, by simp⟩
      exact ⟨by simp, rfl⟩
  | succ attempts ih =>
      rw [writeRepeatedly]
      rcases hwrite : d.write m.slave data s with ⟨cause | counter, s₁⟩
      · rw [noting_write (transport_write hwrite)]
        refine ⟨_, ⟨failures, .error cause⟩, s₁, rfl, ⟨?_, rfl⟩, by simp⟩
        intro call mem
        exact ⟨.error cause, List.mem_singleton.mp mem⟩
      · rw [noting_write (transport_write hwrite)]
        by_cases none : counter = 0
        · subst none
          obtain ⟨calls, written, s', eq, attempted, -⟩ :=
            ih (failures + 1) (log ++ [⟨m, .write data (.ok 0)⟩]) s₁
          refine ⟨⟨m, .write data (.ok 0)⟩ :: calls, written, s', ?_, attempted.cons, by simp⟩
          simp only [if_true, eq, List.append_assoc, List.singleton_append]
        · simp only [if_neg none]
          refine ⟨_, ⟨failures, .ok (some counter)⟩, s₁, rfl, ⟨?_, none, ?_⟩, by simp⟩
          · intro call mem
            exact ⟨.ok counter, List.mem_singleton.mp mem⟩
          · exact List.filterMap_cons_some (if_neg none)

section Send

variable {m₁ : Mailbox} {p : Protocol} {b : Buffer} (picks : m.Picks now p b m₁)

include picks in
theorem deed_withhold (slot : SyncManager) (result : Except Error SlotState) :
    Deed now m [⟨m₁, .look slot result⟩] (m₁.requeue p b) := by
  refine .mute (.withhold picks) (picks.mute.trans (mute_requeue m₁ p b)) fun call mem => ?_
  rw [List.mem_singleton.mp mem]
  exact ⟨rfl, rfl⟩

include picks in
theorem Attempted.writesPicked {result : Except Error (Option UInt16)} {slot : SyncManager}
    (attempted : (m₁.stamp b).2.Attempted
      ((m₁.stamp b).1.bytes.take (m₁.stamp b).2.slave.writeSlot.length.toNat) calls result) :
    ∀ call ∈ ⟨m₁, .look slot (.ok .empty)⟩ :: calls, call.isWrite = true →
      m.WritesPicked now call := by
  intro call mem written
  rcases List.mem_cons.mp mem with rfl | mem
  · cases written
  · obtain ⟨result, rfl⟩ := attempted.writes call mem
    obtain ⟨sendQueues, request, ready, next, found, early, rfl⟩ := picks
    exact ⟨p, b, _, result, ⟨sendQueues, request, ready, next, found, early, rfl⟩, rfl, rfl⟩

theorem Deed.of_writes {slot : SyncManager} (move : Move now m m')
    (tells : m.Tells (⟨m₁, .look slot (.ok .empty)⟩ :: calls) m')
    (writes : ∀ call ∈ ⟨m₁, .look slot (.ok .empty)⟩ :: calls, call.isWrite = true →
      m.WritesPicked now call)
    (all : ∀ call ∈ calls, call.isWrite = true) (some : calls ≠ [])
    (next : m'.counter = m.counter.next) :
    Deed now m (⟨m₁, .look slot (.ok .empty)⟩ :: calls) m' := by
  obtain ⟨call, mem⟩ := List.exists_mem_of_ne_nil calls some
  refine ⟨move, tells, writes, fun _ => next, fun unwritten => ?_⟩
  have contrary := unwritten call (List.mem_cons_of_mem _ mem)
  rw [all call mem] at contrary
  cases contrary

theorem Attempted.all {data : Bytes} {result : Except Error (Option UInt16)}
    (attempted : m.Attempted data calls result) : ∀ call ∈ calls, call.isWrite = true := by
  intro call mem
  obtain ⟨result, rfl⟩ := attempted.writes call mem
  rfl

include picks in
theorem writeMessage_deed (d : SlotDevice σ) (log : List Call) (s : σ) :
    ∃ calls, (writeMessage d.transport.noting p b m₁ (log, s)).2.2.1 = log ++ calls ∧
      Deed now m (⟨m₁, .look m₁.slave.writeSlot (.ok .empty)⟩ :: calls)
        (writeMessage d.transport.noting p b m₁ (log, s)).2.1 := by
  unfold writeMessage
  dsimp only
  obtain ⟨calls, written, s', eq, attempted, nonempty⟩ := writeRepeatedly_attempted d
    ((m₁.stamp b).1.bytes.take (m₁.stamp b).2.slave.writeSlot.length.toNat)
    (max (m₁.stamp b).2.config.writeAttempts.toNat 1) 0 (m₁.stamp b).2 log s
  have nonempty := nonempty (by omega)
  have counter : (m₁.stamp b).2.counter = m.counter.next :=
    congrArg SequenceCounter.next picks.mute.counter
  have told : m.Tells [] ((m₁.stamp b).2.retried written.failures) :=
    picks.mute.tells.trans (stamp_tells m₁ b)
  rw [eq]
  obtain ⟨failures, result⟩ := written
  have refused (silent : calls.filterMap Call.exchange? = []) :
      Deed now m (⟨m₁, .look m₁.slave.writeSlot (.ok .empty)⟩ :: calls)
        (((m₁.stamp b).2.retried failures).requeue p (m₁.stamp b).1) := by
    have mute := mute_requeue ((m₁.stamp b).2.retried failures) p (m₁.stamp b).1
    refine .of_writes (.refuse failures picks) ?_ (attempted.writesPicked picks) attempted.all
      nonempty (mute.counter.trans counter)
    exact (told.trans mute.tells).congr silent
  rcases result with cause | _ | workCounter
  · exact ⟨calls, rfl, refused attempted.heeded⟩
  · exact ⟨calls, rfl, refused attempted.heeded⟩
  · obtain ⟨counted, took⟩ := attempted.heeded
    obtain ⟨same, events, journal, acknowledged⟩ := acknowledge_tells
      ((m₁.stamp b).2.retried failures) (m₁.stamp b).1 workCounter
    refine ⟨calls, rfl, .of_writes (.accept failures picks counted) ?_
      (attempted.writesPicked picks) attempted.all nonempty (same.trans counter)⟩
    have accepted : ((m₁.stamp b).2.retried failures).Tells calls
        (((m₁.stamp b).2.retried failures).acknowledge (m₁.stamp b).1 workCounter) :=
      ⟨events, journal, acknowledged.trans took.symm⟩
    exact (told.trans accepted).congr (List.filterMap_cons_none rfl)

end Send

theorem sendNext_deeds (d : SlotDevice σ) (now : Nat) (m : Mailbox) (log : List Call) (s : σ) :
    ∃ m₀ calls, Deeds now m [] m₀ ∧
      (sendNext d.transport.noting now m (log, s)).2.2.1 = log ++ calls ∧
      (calls = [] ∧ (sendNext d.transport.noting now m (log, s)).2.1 = m₀ ∨
        Deed now m₀ calls (sendNext d.transport.noting now m (log, s)).2.1) := by
  have chosen := takeNext_chosen now m
  unfold sendNext
  rcases hnext : m.takeNext now with ⟨_ | ⟨p, b⟩, m₁⟩ <;> rw [hnext] at chosen
  · exact ⟨m₁, [], chosen, (List.append_nil log).symm, .inl ⟨rfl, rfl⟩⟩
  · obtain ⟨m₀, path, picks⟩ := chosen
    refine ⟨m₀, ?_⟩
    dsimp only
    rcases hstate : d.slotState m₁.slave m₁.slave.writeSlot s with ⟨cause | state, s₁⟩
    · rw [noting_slotState (transport_slotState hstate)]
      exact ⟨_, path, rfl, .inr (deed_withhold picks _ _)⟩
    · rw [noting_slotState (transport_slotState hstate)]
      cases state with
      | full => exact ⟨_, path, rfl, .inr (deed_withhold picks _ _)⟩
      | empty =>
          obtain ⟨calls, logged, deed⟩ := writeMessage_deed picks d
            (log ++ [⟨m₁, .look m₁.slave.writeSlot (.ok .empty)⟩]) s₁
          rw [List.append_assoc] at logged
          exact ⟨_, path, logged, .inr deed⟩

/-! ## Turns -/

/-- A turn is a path of deeds that write nothing, and at most one more. -/
theorem turn_deeds (d : SlotDevice σ) (now : Nat) (m : Mailbox) (s : σ) :
    ∃ m₀ polled sent, m.calls d now s = polled ++ sent ∧ Deeds now m polled m₀ ∧
      (∀ call ∈ polled, call.isWrite = false) ∧
      (sent = [] ∧ (m.turn d.transport now s).2.1 = m₀ ∨
        Deed now m₀ sent (m.turn d.transport now s).2.1) := by
  have noted := turn_noting d.transport now m [] s
  have mailbox : (m.turn d.transport now s).2.1 =
      (m.turn d.transport.noting now ([], s)).2.1 := by
    rw [← noted]
    rfl
  rw [mailbox]
  unfold Mailbox.calls turn
  split
  · exact ⟨m, [], [], rfl, .refl m, by simp, .inl ⟨rfl, rfl⟩⟩
  · have expired : Deed now m [] (m.expire now) := .mute (.expire m) (mute_expire m now) (by simp)
    have polled := poll_polls d now (m.expire now) [] s
    rcases hpoll : poll d.transport.noting now (m.expire now) ([], s) with
      ⟨cause | _, m₁, log, s₁⟩
    · rw [hpoll] at polled
      obtain ⟨looks, logged, path, reads⟩ := polled
      refine ⟨m₁, looks, [], ?_, expired.deeds.trans path, reads, .inl ⟨rfl, rfl⟩⟩
      rw [List.append_nil]
      exact logged
    · rw [hpoll] at polled
      obtain ⟨looks, logged, path, reads⟩ := polled
      obtain ⟨m₀, sent, chosen, sending, final⟩ := sendNext_deeds d now m₁ log s₁
      refine ⟨m₀, looks ++ [], sent, ?_, (expired.deeds.trans path).trans chosen, ?_, final⟩
      · rw [List.append_nil]
        exact sending.trans (congrArg (· ++ sent) logged)
      · rwa [List.append_nil]

/-- What a turn writes was chosen when the turn had written nothing yet. -/
theorem turn_writes (d : SlotDevice σ) (device : σ) {call : Call}
    (mem : call ∈ m.calls d now device) (written : call.isWrite = true) :
    ∃ polled m₀, Deeds now m polled m₀ ∧ (∀ call ∈ polled, call.isWrite = false) ∧
      m₀.WritesPicked now call := by
  obtain ⟨m₀, polled, sent, split, path, reads, final⟩ := turn_deeds d now m device
  rw [split] at mem
  rcases List.mem_append.mp mem with mem | mem
  · rw [reads call mem] at written
    cases written
  · rcases final with ⟨rfl, -⟩ | deed
    · cases mem
    · exact ⟨polled, m₀, path, reads, deed.writes call mem written⟩

theorem calls_closed {d : SlotDevice σ} {device : σ} (closed : m.closed = true) :
    m.calls d now device = [] := by
  unfold Mailbox.calls turn
  rw [if_pos closed]

theorem turn_path (d : SlotDevice σ) (now : Nat) (m : Mailbox) (s : σ) :
    Deeds now m (m.calls d now s) (m.turn d.transport now s).2.1 := by
  obtain ⟨m₀, polled, sent, split, path, -, ⟨rfl, same⟩ | deed⟩ := turn_deeds d now m s
  · rw [split, List.append_nil, same]
    exact path
  · rw [split]
    exact .tail path deed

theorem turn_moves (d : SlotDevice σ) (now : Nat) (m : Mailbox) (s : σ) :
    Moves now m (m.turn d.transport now s).2.1 :=
  (turn_path d now m s).moves

theorem readOne_moves (d : SlotDevice σ) {s s' : σ} (now : Nat) {result : Except Error Bool}
    (h : readOne d.transport m s = (result, m', s')) : Moves now m m' := by
  obtain ⟨calls, -, path, -⟩ := readOne_polls d now m [] s
  have noted := readOne_noting d.transport m [] s
  rw [h] at noted
  have mailbox : (readOne d.transport.noting m ([], s)).2.1 = m' :=
    congrArg (fun result => result.2.1) noted
  exact mailbox ▸ path.moves

end Fieldbus.Mailbox
