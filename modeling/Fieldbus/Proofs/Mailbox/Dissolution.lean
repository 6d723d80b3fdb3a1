import Fieldbus.Proofs.Mailbox.Outcomes

/-!
# After a mailbox was closed

When a mailbox closes, every request that it carries gets an outcome and every queued buffer goes
back before the pools close, so that the buffers that are missing are those that callers hold. From
then on it answers every call without doing anything.
-/

namespace Fieldbus

open BufferQueue (indices)

namespace Pool

variable {p : Pool} {bs out : List Buffer}

theorem Lends.putAll (h : p.Lends (bs ++ out)) : (bs.foldl Pool.put p).Lends out := by
  induction bs generalizing p with
  | nil => exact h
  | cons b bs ih => exact ih (Lends.put h)

end Pool

theorem ProtocolQueues.pop?_empty {q : ProtocolQueues} {capacity : Nat} (h : q.Sound capacity)
    {p : Protocol} (empty : q.entries p = []) : q.pop? p = none := by
  have holds := h.holds p
  rw [empty] at holds
  rw [pop?, holds.popFront?_nil]
  rfl

namespace Mailbox

variable {m m' m'' : Mailbox} {held : List Buffer} {events : List MailboxEvent}

/-- Every request that `m` carries is still carried or has an outcome. -/
structure Discharges (m m' : Mailbox) : Prop where
  grown : ∃ events, m'.journal = m.journal ++ events
  ended : ∀ i r, m.Carries i r → m'.Carries i r ∨ (m'.outcome? r.ticket).isSome

theorem Discharges.of_same (journal : m'.journal = m.journal) (requests : m'.requests = m.requests)
    (inFlight : m'.inFlight = m.inFlight) : m.Discharges m' := by
  refine ⟨⟨[], by rw [journal, List.append_nil]⟩, fun i r carries => .inl ?_⟩
  rwa [Carries, request?, requests, inFlight]

theorem Discharges.trans (h : m.Discharges m') (h' : m'.Discharges m'') : m.Discharges m'' := by
  obtain ⟨events, first⟩ := h.grown
  obtain ⟨events', second⟩ := h'.grown
  refine ⟨⟨events ++ events', by rw [second, first, List.append_assoc]⟩, fun i r carries => ?_⟩
  rcases h.ended i r carries with carries | decided
  · exact h'.ended i r carries
  · obtain ⟨outcome, decided⟩ := Option.isSome_iff_exists.mp decided
    rw [outcome?_kept second decided]
    exact .inr rfl

theorem isSome_outcome?_verdict {ticket : Nat} {outcome : Except Error Reply}
    (journal : m'.journal = m.journal ++ m.verdict ticket outcome) :
    (m'.outcome? ticket).isSome := by
  rw [(Resolves.of_verdict (.of_journal rfl) journal).outcome]
  cases m.outcome? ticket <;> rfl

theorem closeRequest_discharges (m : Mailbox) (b : Buffer) : m.Discharges (m.closeRequest b) := by
  cases found : m.request? b.index with
  | none =>
      unfold closeRequest
      rw [found]
      exact .of_same rfl rfl rfl
  | some request =>
      rw [closeRequest_eq found]
      refine ⟨⟨_, rfl⟩, fun i r carries => ?_⟩
      rcases carries with waits | flies
      · by_cases same : b.index = i
        · subst same
          cases found.symm.trans waits
          exact .inr (isSome_outcome?_verdict rfl)
        · refine .inl (.inl ?_)
          rw [← waits]
          exact request?_setRequest_ne none (Ne.symm same)
      · exact .inl (.inr flies)

theorem dismissQueued_discharges (m : Mailbox) : m.Discharges m.dismissQueued := by
  have fold (queued : List (Protocol × Buffer)) (m : Mailbox) :
      m.Discharges (queued.foldl (fun m entry => m.closeRequest entry.2) m) := by
    induction queued generalizing m with
    | nil => exact .of_same rfl rfl rfl
    | cons entry queued ih => exact (m.closeRequest_discharges entry.2).trans (ih _)
  have begun : m.Discharges { m with
      closed := true
      sendQueues := m.sendQueues.drain.2
      receiveQueues := m.receiveQueues.drain.2 } := .of_same rfl rfl rfl
  exact begun.trans (fold ..)

theorem dismissAll_discharges (m : Mailbox) : m.Discharges m.dismissAll := by
  refine m.dismissQueued_discharges.trans ?_
  unfold dismissAll
  generalize m.dismissQueued = m
  dsimp only
  split
  · exact .of_same rfl rfl rfl
  case h_2 flight flying =>
      rw [resolve_eq]
      refine ⟨⟨_, rfl⟩, fun i r carries => ?_⟩
      rcases carries with waits | ⟨other, flies, -, rfl⟩
      · exact .inl (.inl waits)
      · cases flying.symm.trans flies
        exact .inr (isSome_outcome?_verdict (m := m) rfl)

theorem Shut.carries_none (shut : m.Shut) (i : Nat) (r : PendingRequest) : ¬m.Carries i r := by
  rintro (waits | ⟨flight, flies, -⟩)
  · rw [shut.vacant] at waits
    cases waits
  · rw [shut.calm] at flies
    cases flies

theorem Sound.closes (s : m.Sound held) (opened : m.closed = false) {i : Nat} {r : PendingRequest}
    (carries : m.Carries i r) : m.close.2.outcome? r.ticket = some (.error .closed) := by
  obtain ⟨dismisses, shut⟩ := s.close opened
  have untouched := close_untouched opened
  have closed : m.Discharges m.close.2 := m.dismissAll_discharges.trans
    (.of_same untouched.journal untouched.requests untouched.inFlight)
  have decided := (closed.ended i r carries).resolve_left (shut.carries_none i r)
  obtain ⟨outcome, decided⟩ := Option.isSome_iff_exists.mp decided
  have undecided := (s.accounts.carried i r carries).2.1
  obtain ⟨-, -, -, -, rfl⟩ := dismisses.closes undecided decided
  exact decided

/-! ## Afterwards -/

structure Dissolved (m : Mailbox) : Prop where
  shut : m.Shut
  sending : m.sendPool.closed = true ∧ m.sendPool.available = 0
  receiving : m.receivePool.closed = true ∧ m.receivePool.available = 0
  received : ∀ p, m.receiveQueues.entries p = [] ∧ m.receiveQueues.pop? p = none

theorem Sound.dissolves (s : m.Sound held) (opened : m.closed = false) :
    m.close.1 = held.length ∧ m.close.2.Dissolved := by
  obtain ⟨sent, -, -⟩ := s.custody.stock.queued.drain
  obtain ⟨received, sound, emptied⟩ := s.shelved.queued.drain
  -- The queued buffers are back when the pools close, so only those that are held are missing.
  have sending := (s.custody.stock.lends.perm List.perm_append_comm).putAll.close
  have receiving := (s.shelved.lends.perm List.perm_append_comm).putAll.close
  have shut := (s.close opened).2
  have closing := close_eq opened rfl rfl
  rw [sent, received] at closing
  have queues : m.close.2.receiveQueues = m.receiveQueues.drain.2 := by
    rw [closing]
    exact m.dismissAll_stores.2.2
  constructor
  · rw [closing]
    dsimp only
    rw [sending.1, receiving.1]
    rfl
  · constructor
    case shut => exact shut
    case sending =>
      rw [closing]
      exact ⟨rfl, sending.2⟩
    case receiving =>
      rw [closing]
      exact ⟨rfl, receiving.2⟩
    case received =>
      intro p
      have empty := List.flatMap_eq_nil_iff.mp emptied p (Protocol.mem_all p)
      rw [queues]
      exact ⟨empty, ProtocolQueues.pop?_empty sound empty⟩

namespace Dissolved

theorem scheduled (h : m.Dissolved) (readScheduled : Bool) :
    { m with readScheduled }.Dissolved :=
  ⟨⟨h.shut.closed, h.shut.idle, h.shut.calm, h.shut.vacant, h.shut.queued, h.shut.emptied⟩,
    h.sending, h.receiving, h.received⟩

theorem takeSendBuffer (h : m.Dissolved) : m.takeSendBuffer? = .error .closed := by
  rw [takeSendBuffer?, if_pos h.shut.closed]

theorem putSend (h : m.Dissolved) (b : Buffer) : m.putSend b = m := by
  rw [Mailbox.putSend, Pool.put_closed b h.sending.1]

theorem takeReceived (h : m.Dissolved) (p : Protocol) : m.takeReceived? p = none := by
  rw [takeReceived?, (h.received p).2]
  rfl

theorem tryRead (h : m.Dissolved) (p : Protocol) : m.tryRead p = (.error .empty, m) := by
  rw [Mailbox.tryRead, h.takeReceived]
  rfl

theorem requestRead (h : m.Dissolved) (p : Protocol) :
    m.requestRead p = (.error .closed, m) := by
  rw [Mailbox.requestRead, if_pos h.shut.closed]

theorem read (h : m.Dissolved) (p : Protocol) : m.read p = (.error .closed, m) := by
  rw [Mailbox.read, h.requestRead]

theorem close (h : m.Dissolved) : m.close = (0, m) := by
  rw [Mailbox.close, if_pos h.shut.closed]

theorem turn (h : m.Dissolved) {σ : Type} (t : Transport σ) (now : Nat) (device : σ) :
    m.turn t now device = (.error .closed, m, device) := by
  rw [Mailbox.turn, if_pos h.shut.closed]

theorem enqueue (h : m.Dissolved) (front : Bool) (b : Buffer) (expectsResponse : Bool)
    (deadline : Nat) : ∃ cause, m.enqueue front b expectsResponse deadline = (.error cause, m) := by
  have refused (push : ProtocolQueues → Protocol → Buffer → Option ProtocolQueues) :
      ∃ cause, m.enqueueWith push b expectsResponse deadline = (.error cause, m) := by
    unfold enqueueWith
    rw [h.putSend]
    split
    · split
      · exact ⟨_, rfl⟩
      · split
        · exact ⟨_, rfl⟩
        · rw [if_pos h.shut.closed]
          exact ⟨_, rfl⟩
    · exact ⟨_, rfl⟩
  cases front with
  | true => exact refused _
  | false => exact refused _

end Dissolved

/-- Whatever is asked of `m'` fails and changes nothing, a turn does not even reach the transport,
no request got an outcome since `m`, and no buffer is to be had. -/
structure Refuses (m m' : Mailbox) : Prop where
  close : m'.close = (0, m')
  turn : ∀ {σ : Type} (t : Transport σ) (now : Nat) (device : σ),
    m'.turn t now device = (.error .closed, m', device)
  take : m'.takeSendBuffer? = .error .closed
  read : ∀ p, m'.read p = (.error .closed, m')
  enqueue : ∀ front b expectsResponse deadline, ∃ cause,
    m'.enqueue front b expectsResponse deadline = (.error cause, m')
  outcome : ∀ ticket, m'.outcome? ticket = m.outcome? ticket
  available : m'.sendPool.available = 0 ∧ m'.receivePool.available = 0

theorem Dissolved.refuses (h : m'.Dissolved)
    (outcome : ∀ ticket, m'.outcome? ticket = m.outcome? ticket) : m.Refuses m' where
  close := h.close
  turn := h.turn
  take := h.takeSendBuffer
  read := h.read
  enqueue := h.enqueue
  outcome := outcome
  available := ⟨h.sending.2, h.receiving.2⟩

end Mailbox

namespace Session

variable {s s' : Session}

theorem Step.dissolved (dissolved : s.mailbox.Dissolved) (step : Step s s') :
    ∃ readScheduled, s'.mailbox = { s.mailbox with readScheduled } := by
  have same {m : Mailbox} (eq : m = s.mailbox) :
      ∃ readScheduled, m = { s.mailbox with readScheduled } := ⟨_, eq⟩
  cases step with
  | take take =>
      rw [dissolved.takeSendBuffer] at take
      cases take
  | change left => exact same rfl
  | giveBack left => exact same (dissolved.putSend _)
  | enqueue left front expectsResponse deadline =>
      obtain ⟨cause, eq⟩ := dissolved.enqueue front _ expectsResponse deadline
      exact same (congrArg Prod.snd eq)
  | enqueueForeign front expectsResponse deadline =>
      obtain ⟨cause, eq⟩ := dissolved.enqueue front _ expectsResponse deadline
      exact same (congrArg Prod.snd eq)
  | turn d device now =>
      exact same (congrArg (fun result => result.2.1) (dissolved.turn d.transport now device))
  | wait left => exact same (dissolved.shut.settle _)
  | tryRead p => exact same (congrArg Prod.snd (dissolved.tryRead p))
  | requestRead p => exact same (congrArg Prod.snd (dissolved.requestRead p))
  | read p => exact same (congrArg Prod.snd (dissolved.read p))
  | scheduleRead => exact ⟨true, rfl⟩
  | close => exact same (congrArg Prod.snd dissolved.close)

theorem Run.dissolved (dissolved : s.mailbox.Dissolved) (run : Run s s') :
    s'.mailbox.Dissolved ∧ ∃ readScheduled, s'.mailbox = { s.mailbox with readScheduled } := by
  induction run with
  | refl => exact ⟨dissolved, _, rfl⟩
  | tail _ step ih =>
      obtain ⟨between, readScheduled, eq⟩ := ih
      obtain ⟨readScheduled', eq'⟩ := step.dissolved between
      rw [eq']
      exact ⟨between.scheduled readScheduled', readScheduled', by rw [eq]⟩

/-- Closing tells every request that waits or is in flight, and no outcome is lost. All queues are
empty then, the channel is idle, and the buffers that are missing are those that callers hold.
Whatever callers do afterwards, the mailbox refuses everything. -/
theorem close_settles (reached : s.Reachable) (opened : s.mailbox.closed = false) :
    s.mailbox.close.1 = s.held.length ∧
    (∀ p, ∀ b ∈ s.mailbox.sendQueues.entries p, ∃ request,
      s.mailbox.request? b.index = some request ∧
        s.mailbox.close.2.outcome? request.ticket = some (.error .closed)) ∧
    (∀ flight, s.mailbox.inFlight = some flight →
      s.mailbox.close.2.outcome? flight.request.ticket = some (.error .closed)) ∧
    (∀ ticket outcome, s.mailbox.outcome? ticket = some outcome →
      s.mailbox.close.2.outcome? ticket = some outcome) ∧
    (∀ p, s.mailbox.close.2.sendQueues.entries p = [] ∧
      s.mailbox.close.2.receiveQueues.entries p = []) ∧
    s.mailbox.close.2.handshake = .idle ∧ s.mailbox.close.2.inFlight = none ∧
    ∀ s', Run ⟨s.mailbox.close.2, s.held, s.pending⟩ s' →
      s.mailbox.close.2.Refuses s'.mailbox := by
  have sound := (reached.sound opened).mailbox
  obtain ⟨missing, dissolved⟩ := sound.dissolves opened
  obtain ⟨dismisses, -⟩ := sound.close opened
  refine ⟨missing, fun p b mem => ?_, fun flight flies => ?_, fun ticket outcome decided => ?_,
    fun p => ⟨?_, (dissolved.received p).1⟩, dissolved.shut.idle, dissolved.shut.calm,
    fun s' run => ?_⟩
  · have queued := ProtocolQueues.mem_indices_everything.mpr ⟨p, List.mem_map_of_mem mem⟩
    have recorded := (sound.custody.recorded b.index).mpr queued
    obtain ⟨request, found⟩ := Option.isSome_iff_exists.mp recorded
    exact ⟨request, found, sound.closes opened (.inl found)⟩
  · exact sound.closes opened (.inr ⟨flight, flies, rfl, rfl⟩)
  · obtain ⟨events, journal, -⟩ := dismisses.journal
    exact Mailbox.outcome?_kept journal decided
  · exact List.flatMap_eq_nil_iff.mp dissolved.shut.emptied p (Protocol.mem_all p)
  · obtain ⟨later, readScheduled, eq⟩ := Run.dissolved dissolved run
    exact later.refuses fun ticket => by rw [eq]; rfl

def roomy : Mailbox :=
  .create ⟨0, 0x1001, ⟨0, 0x1000, 16⟩, ⟨1, 0x1080, 16⟩, .all⟩ { mailboxPoolSize := 3 } 0 1

def lent : Mailbox :=
  match roomy.takeSendBuffer? with
  | .ok (_, m) => m
  | .error _ => roomy

/-- In another one a request was written and awaits its reply, and in the third one a request waits
to be written. -/
def crowded : Mailbox :=
  (((lent.submit .coe 0x1001 [1] true 1000000).2.turn mute.transport 0 ()).2.1.submit .coe 0x1001
    [2] true 1000000).2

theorem close_settles_crowded : ∃ s : Session, s.Reachable ∧ s.mailbox = crowded ∧
    s.mailbox.close.1 = 1 ∧ s.mailbox.close.2.outcome? 0 = some (.error .closed) ∧
    s.mailbox.close.2.outcome? 1 = some (.error .closed) ∧
    s.mailbox.close.2.close = (0, s.mailbox.close.2) := by
  have taken : roomy.takeSendBuffer? = .ok (Buffer.fresh 0 0 16, lent) := by rfl
  have first := (reachable_start _ _ _ _ : Reachable ⟨roomy, [], []⟩).run (.single (.take taken))
  have second := (first.run (submit_run _ _ _ .coe 0x1001 [1] true 1000000)).run
    (.single (.turn mute () 0))
  have reached := second.run (submit_run _ _ _ .coe 0x1001 [2] true 1000000)
  obtain ⟨missing, queued, flying, -, -, -, -, after⟩ :=
    close_settles reached (by decide +kernel : crowded.closed = false)
  have flight : crowded.inFlight = some ⟨1, ⟨0, true, 1000000⟩, false, 1⟩ := by decide +kernel
  have waits : (crowded.sendQueues.entries .coe).map (fun b => crowded.request? b.index) =
      [some ⟨1, true, 1000000⟩] := by decide +kernel
  obtain ⟨b, mem, found⟩ := List.mem_map.mp (waits ▸ List.mem_singleton_self _)
  obtain ⟨request, known, told⟩ := queued .coe b mem
  cases known.symm.trans found
  exact ⟨_, reached, rfl, missing, flying _ flight, told, (after _ .refl).close⟩

end Session

end Fieldbus
