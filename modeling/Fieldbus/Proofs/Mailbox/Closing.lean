import Fieldbus.Proofs.Mailbox.Session

/-!
# Closing a mailbox

Closing ends every request that the mailbox carries and empties its queues. A closed mailbox takes
no request, and whatever is done to it, nothing about its channel and its requests changes.
-/

namespace Fieldbus

open BufferQueue (indices)

namespace ProtocolQueues

theorem Sound.drain {q : ProtocolQueues} {capacity : Nat} (h : q.Sound capacity) :
    q.drain.1.map Prod.snd = q.everything ∧ q.drain.2.Sound capacity ∧
      q.drain.2.everything = [] := by
  have queue (p : Protocol) : q.drain.2.queue p = (q.queue p).drain.2 := by
    simp [ProtocolQueues.drain, ProtocolQueues.queue]
  have entries (p : Protocol) : q.drain.2.entries p = [] := by
    rw [ProtocolQueues.entries, queue]
    exact (h.holds p).drain.2.1.toList
  refine ⟨?_, ⟨fun p => ?_, fun p => ?_⟩, ?_⟩
  · simp only [ProtocolQueues.drain, List.map_flatMap, List.map_map, everything]
    congr 1
    funext p
    rw [(h.holds p).drain.1]
    exact List.map_id _
  · rw [queue, entries]
    exact (h.holds p).drain.2.1
  · rw [queue, (h.holds p).drain.2.2, h.capacity p]
  · simp [everything, entries]

end ProtocolQueues

namespace Mailbox

structure Shut (m : Mailbox) : Prop where
  closed : m.closed = true
  idle : m.handshake = .idle
  calm : m.inFlight = none
  vacant : ∀ i, m.request? i = none
  queued : ∃ capacity, m.sendQueues.Sound capacity
  emptied : m.sendQueues.everything = []

def Dismissal (m : Mailbox) (event : MailboxEvent) : Prop :=
  ∃ i r, m.Carries i r ∧ event = .resolved r.ticket (.error .closed)

/-- Some requests of `m` were dismissed, and `m'` is what became of it. -/
structure Dismisses (m m' : Mailbox) : Prop where
  journal : ∃ events, m'.journal = m.journal ++ events ∧ ∀ event ∈ events, m.Dismissal event
  request : ∀ i r, m'.request? i = some r → m.request? i = some r
  counter : m'.counter = m.counter
  nextTicket : m'.nextTicket = m.nextTicket
  decided : m.Decided → m'.Decided

variable {m m' m'' : Mailbox} {held : List Buffer}

theorem Dismisses.refl (m : Mailbox) : m.Dismisses m :=
  ⟨⟨[], (List.append_nil _).symm, by simp⟩, fun _ _ found => found, rfl, rfl, id⟩

theorem verdict_dismissal {i : Nat} {r : PendingRequest} (carries : m.Carries i r)
    (m' : Mailbox) : ∀ event ∈ m'.verdict r.ticket (.error .closed), m.Dismissal event := by
  unfold verdict
  split
  · simp
  · intro event mem
    exact ⟨i, r, carries, List.mem_singleton.mp mem⟩

theorem Dismisses.more {i : Nat} {r : PendingRequest} (h : m.Dismisses m')
    (carries : m.Carries i r)
    (journal : m''.journal = m'.journal ++ m'.verdict r.ticket (.error .closed))
    (request : ∀ i r, m''.request? i = some r → m'.request? i = some r)
    (counter : m''.counter = m'.counter) (next : m''.nextTicket = m'.nextTicket) :
    m.Dismisses m'' := by
  obtain ⟨⟨before, old, all⟩, found, same, nextTicket, decided⟩ := h
  refine ⟨⟨before ++ m'.verdict r.ticket (.error .closed), ?_, ?_⟩,
    fun i r waits => found i r (request i r waits), counter.trans same,
    next.trans nextTicket, fun once => (decided once).resolved journal⟩
  · rw [journal, old, List.append_assoc]
  · intro event mem
    exact (List.mem_append.mp mem).elim (all event) (verdict_dismissal carries m' event)

theorem closeRequest_eq {b : Buffer} {r : PendingRequest} (found : m.request? b.index = some r) :
    m.closeRequest b = { m.setRequest b.index none with
      journal := m.journal ++ m.verdict r.ticket (.error .closed) } := by
  unfold closeRequest
  rw [found]
  exact resolve_eq ..

theorem request?_closeRequest (m : Mailbox) (b : Buffer) (i : Nat) :
    (m.closeRequest b).request? i = if b.index = i then none else m.request? i := by
  cases found : m.request? b.index with
  | none =>
      have same : m.closeRequest b = m := by
        unfold closeRequest
        rw [found]
      rw [same]
      split
      case isTrue here => exact here ▸ found
      case isFalse => rfl
  | some r =>
      rw [closeRequest_eq found]
      exact request?_setRequest (lt_size_of_request? found) none i

theorem Dismisses.closeRequest (h : m.Dismisses m') (b : Buffer) :
    m.Dismisses (m'.closeRequest b) := by
  have request (i : Nat) (r : PendingRequest) (waits : (m'.closeRequest b).request? i = some r) :
      m'.request? i = some r := by
    rw [request?_closeRequest] at waits
    split at waits
    · cases waits
    · exact waits
  cases found : m'.request? b.index with
  | none =>
      unfold Mailbox.closeRequest
      rw [found]
      exact h
  | some r =>
      rw [closeRequest_eq found] at request ⊢
      exact h.more (.inl (h.request b.index r found)) rfl request rfl rfl

theorem Dismisses.foldl (h : m.Dismisses m') (queued : List (Protocol × Buffer)) :
    m.Dismisses (queued.foldl (fun m entry => m.closeRequest entry.2) m') ∧
      ∀ i, (queued.foldl (fun m entry => m.closeRequest entry.2) m').request? i =
        if i ∈ indices (queued.map Prod.snd) then none else m'.request? i := by
  induction queued generalizing m' with
  | nil => exact ⟨h, fun i => by simp⟩
  | cons entry queued ih =>
      obtain ⟨dismisses, request⟩ := ih (h.closeRequest entry.2)
      refine ⟨dismisses, fun i => (request i).trans ?_⟩
      rw [request?_closeRequest]
      by_cases here : i = entry.2.index
      · simp [here, indices]
      · rw [if_neg (Ne.symm here)]
        simp only [indices, List.map_cons, List.mem_cons, here, false_or]

theorem Untouched.request (h : m.Untouched m') (i : Nat) : m'.request? i = m.request? i := by
  rw [request?, request?, h.requests]

theorem Untouched.shut (h : m.Untouched m') (shut : m.Shut) : m'.Shut where
  closed := h.closed.trans shut.closed
  idle := h.handshake.trans shut.idle
  calm := h.inFlight.trans shut.calm
  vacant i := (h.request i).trans (shut.vacant i)
  queued := by rw [h.sendQueues]; exact shut.queued
  emptied := by rw [h.sendQueues]; exact shut.emptied

theorem Dismisses.untouched (h : m.Dismisses m') (untouched : m'.Untouched m'') :
    m.Dismisses m'' where
  journal := by rw [untouched.journal]; exact h.journal
  request i r found := h.request i r (untouched.request i ▸ found)
  counter := untouched.counter.trans h.counter
  nextTicket := untouched.nextTicket.trans h.nextTicket
  decided once := by rw [Decided, untouched.journal]; exact h.decided once

def dismissQueued (m : Mailbox) : Mailbox :=
  m.sendQueues.drain.1.foldl (fun m entry => m.closeRequest entry.2) { m with
    closed := true
    sendQueues := m.sendQueues.drain.2
    receiveQueues := m.receiveQueues.drain.2 }

section Beside

variable (closed : Bool) (sendQueues receiveQueues : ProtocolQueues)

theorem closeRequest_beside (m : Mailbox) (b : Buffer) :
    { m with closed, sendQueues, receiveQueues }.closeRequest b =
      { m.closeRequest b with closed, sendQueues, receiveQueues } := by
  have same : { m with closed, sendQueues, receiveQueues }.request? b.index =
      m.request? b.index := rfl
  unfold closeRequest
  rw [same]
  split
  · rfl
  · rw [resolve_eq, resolve_eq]
    rfl

theorem closeRequests_beside (queued : List (Protocol × Buffer)) (m : Mailbox) :
    queued.foldl (fun m entry => m.closeRequest entry.2)
        { m with closed, sendQueues, receiveQueues } =
      { queued.foldl (fun m entry => m.closeRequest entry.2) m with
        closed, sendQueues, receiveQueues } := by
  induction queued generalizing m with
  | nil => rfl
  | cons entry queued ih => rw [List.foldl_cons, List.foldl_cons, closeRequest_beside, ih]

end Beside

theorem closeRequests_eq (queued : List (Protocol × Buffer)) (m : Mailbox) :
    ∃ requests journal, queued.foldl (fun m entry => m.closeRequest entry.2) m =
      { m with requests, journal } := by
  induction queued generalizing m with
  | nil => exact ⟨_, _, rfl⟩
  | cons entry queued ih =>
      obtain ⟨requests, journal, eq⟩ := ih (m.closeRequest entry.2)
      refine ⟨requests, journal, eq.trans ?_⟩
      unfold closeRequest
      split
      · rfl
      · rw [resolve_eq]
        rfl

theorem dismissQueued_eq (m : Mailbox) : ∃ requests journal, m.dismissQueued = { m with
    closed := true
    sendQueues := m.sendQueues.drain.2
    receiveQueues := m.receiveQueues.drain.2
    requests
    journal } := by
  obtain ⟨requests, journal, eq⟩ := closeRequests_eq m.sendQueues.drain.1 m
  refine ⟨requests, journal, ?_⟩
  rw [dismissQueued, closeRequests_beside, eq]

def dismissAll (m : Mailbox) : Mailbox :=
  let m := m.dismissQueued
  let m := match m.inFlight with
    | none => m
    | some flight => { m with inFlight := none }.resolve flight.request.ticket (.error .closed)
  { m with handshake := .idle }

def returnQueued (m : Mailbox) (queued received : List (Protocol × Buffer)) : Mailbox :=
  received.foldl (fun m entry => m.putReceive entry.2)
    (queued.foldl (fun m entry => m.putSend entry.2) m)

theorem returnQueued_eq (m : Mailbox) (queued received : List (Protocol × Buffer)) :
    m.returnQueued queued received = { m with
      sendPool := (queued.map Prod.snd).foldl Pool.put m.sendPool
      receivePool := (received.map Prod.snd).foldl Pool.put m.receivePool } := by
  have sent (m : Mailbox) :
      queued.foldl (fun m entry => m.putSend entry.2) m =
        { m with sendPool := (queued.map Prod.snd).foldl Pool.put m.sendPool } := by
    induction queued generalizing m with
    | nil => rfl
    | cons entry queued ih => exact ih (m.putSend entry.2)
  have back (m : Mailbox) :
      received.foldl (fun m entry => m.putReceive entry.2) m =
        { m with receivePool := (received.map Prod.snd).foldl Pool.put m.receivePool } := by
    induction received generalizing m with
    | nil => rfl
    | cons entry received ih => exact ih (m.putReceive entry.2)
  rw [returnQueued, sent, back]

theorem dismissAll_stores (m : Mailbox) :
    m.dismissAll.sendPool = m.sendPool ∧ m.dismissAll.receivePool = m.receivePool ∧
      m.dismissAll.receiveQueues = m.receiveQueues.drain.2 := by
  obtain ⟨requests, journal, eq⟩ := m.dismissQueued_eq
  unfold dismissAll
  rw [eq]
  dsimp only
  split
  · exact ⟨rfl, rfl, rfl⟩
  · rw [resolve_eq]
    exact ⟨rfl, rfl, rfl⟩

/-- Closing dismisses everything, and every queued buffer goes back to its pool before the pools
are closed. -/
theorem close_eq (opened : m.closed = false) {sending receiving : Pool}
    (sent : sending = (m.sendQueues.drain.1.map Prod.snd).foldl Pool.put m.sendPool)
    (received : receiving = (m.receiveQueues.drain.1.map Prod.snd).foldl Pool.put m.receivePool) :
    m.close = (sending.close.1 + receiving.close.1, { m.dismissAll with
      sendPool := sending.close.2, receivePool := receiving.close.2 }) := by
  have closed : ¬m.closed = true := by simp [opened]
  let back := m.dismissAll.returnQueued m.sendQueues.drain.1 m.receiveQueues.drain.1
  have closing : m.close = (back.sendPool.close.1 + back.receivePool.close.1, { back with
      sendPool := back.sendPool.close.2, receivePool := back.receivePool.close.2 }) := by
    unfold Mailbox.close
    rw [if_neg closed]
    rfl
  obtain ⟨sendPool, receivePool, -⟩ := m.dismissAll_stores
  have returned : back = _ := m.dismissAll.returnQueued_eq ..
  rw [closing, returned, sendPool, receivePool, ← sent, ← received]

theorem close_untouched (opened : m.closed = false) : m.dismissAll.Untouched m.close.2 := by
  rw [close_eq opened rfl rfl]
  exact ⟨rfl, rfl, rfl, rfl, rfl, rfl, rfl, rfl, rfl⟩

theorem Custody.dismissQueued (custody : m.Custody held) :
    m.Dismisses m.dismissQueued ∧ ∀ i, m.dismissQueued.request? i = none := by
  obtain ⟨drained, -, -⟩ := custody.stock.queued.drain
  have start : m.Dismisses { m with
      closed := true
      sendQueues := m.sendQueues.drain.2
      receiveQueues := m.receiveQueues.drain.2 } :=
    ⟨⟨[], (List.append_nil _).symm, by simp⟩, fun _ _ found => found, rfl, rfl, id⟩
  obtain ⟨dismisses, request⟩ := start.foldl m.sendQueues.drain.1
  refine ⟨dismisses, fun i => (request i).trans ?_⟩
  rw [drained]
  split
  · rfl
  case isFalse missing =>
    rw [← custody.recorded i, Option.not_isSome_iff_eq_none] at missing
    exact missing

theorem Custody.close (custody : m.Custody held) (opened : m.closed = false) :
    m.Dismisses m.close.2 ∧ m.close.2.Shut := by
  obtain ⟨dismisses, vacant⟩ := custody.dismissQueued
  obtain ⟨-, sound, emptied⟩ := custody.stock.queued.drain
  have untouched := close_untouched opened
  obtain ⟨requests, journal, eq⟩ := m.dismissQueued_eq
  rw [eq] at dismisses vacant
  suffices all : m.Dismisses m.dismissAll ∧ m.dismissAll.Shut from
    ⟨all.1.untouched untouched, untouched.shut all.2⟩
  unfold dismissAll
  rw [eq]
  dsimp only
  cases flying : m.inFlight with
  | none =>
      dsimp only
      refine ⟨?_, rfl, rfl, rfl, vacant, ⟨_, sound⟩, emptied⟩
      exact ⟨dismisses.journal, dismisses.request, dismisses.counter, dismisses.nextTicket,
        dismisses.decided⟩
  | some flight =>
      have carries : m.Carries flight.index flight.request := .inr ⟨flight, flying, rfl, rfl⟩
      dsimp only
      rw [resolve_eq]
      refine ⟨?_, rfl, rfl, rfl, vacant, ⟨_, sound⟩, emptied⟩
      exact dismisses.more carries rfl (fun _ _ found => found) rfl rfl

theorem Sound.close (s : m.Sound held) (opened : m.closed = false) :
    m.Dismisses m.close.2 ∧ m.close.2.Shut :=
  s.custody.close opened

/-! ## A closed mailbox -/

theorem enqueue_shut (closed : m.closed = true) (front : Bool) (b : Buffer)
    (expectsResponse : Bool) (deadline : Nat) :
    (∃ cause, (m.enqueue front b expectsResponse deadline).1 = .error cause) ∧
      m.Untouched (m.enqueue front b expectsResponse deadline).2 := by
  have refused (push : ProtocolQueues → Protocol → Buffer → Option ProtocolQueues) :
      (∃ cause, (m.enqueueWith push b expectsResponse deadline).1 = .error cause) ∧
        m.Untouched (m.enqueueWith push b expectsResponse deadline).2 := by
    unfold enqueueWith
    split
    · split
      · exact ⟨⟨_, rfl⟩, m.putSend_untouched b⟩
      · split
        · exact ⟨⟨_, rfl⟩, m.putSend_untouched b⟩
        · exact ⟨⟨_, rfl⟩, m.putSend_untouched b⟩
    · exact ⟨⟨_, rfl⟩, .refl m⟩
  cases front with
  | true => exact refused _
  | false => exact refused _

theorem Shut.settle (shut : m.Shut) (h : Handle) : (m.settle h).2 = m := by
  obtain ⟨capacity, sound⟩ := shut.queued
  have missing : m.sendQueues.remove? h.index = none := by
    rw [sound.remove?_eq_none_iff, shut.emptied]
    simp
  rcases m.settle_eq h with eq | ⟨-, eq⟩ <;> rw [eq]
  rcases m.abandon_cases h with eq | ⟨p, b, sendQueues, removed, -⟩ | ⟨flight, flying, -⟩
  · exact eq
  · rw [missing] at removed
    cases removed
  · rw [shut.calm] at flying
    cases flying

end Mailbox

namespace Session

variable {s s' : Session}

theorem Step.untouched (shut : s.mailbox.Shut) (step : Step s s') :
    s.mailbox.Untouched s'.mailbox := by
  cases step with
  | take take => exact Mailbox.takeSendBuffer_untouched take
  | change left => exact .refl _
  | @giveBack m left right pending b => exact m.putSend_untouched b
  | enqueue left front expectsResponse deadline =>
      exact (Mailbox.enqueue_shut shut.closed front _ expectsResponse deadline).2
  | enqueueForeign front expectsResponse deadline foreign =>
      exact (Mailbox.enqueue_shut shut.closed front _ expectsResponse deadline).2
  | turn d device now =>
      dsimp only
      rw [Mailbox.turn, if_pos shut.closed]
      exact .refl _
  | wait left =>
      dsimp only
      rw [shut.settle]
      exact .refl _
  | tryRead p => exact Mailbox.tryRead_untouched _ p
  | requestRead p => exact Mailbox.requestRead_untouched _ p
  | read p => exact Mailbox.read_untouched _ p
  | scheduleRead => exact Mailbox.scheduleRead_untouched _
  | close =>
      dsimp only
      rw [Mailbox.close, if_pos shut.closed]
      exact .refl _

theorem Step.closes (sound : s.Sound) (step : Step s s') :
    s'.mailbox.closed = s.mailbox.closed ∨ s' = ⟨s.mailbox.close.2, s.held, s.pending⟩ := by
  cases step with
  | take take => exact .inl (Mailbox.takeSendBuffer_untouched take).closed
  | change left => exact .inl rfl
  | giveBack left => exact .inl rfl
  | enqueue left front expectsResponse deadline => exact .inl (Mailbox.enqueue_closed ..)
  | enqueueForeign front expectsResponse deadline foreign => exact .inl (Mailbox.enqueue_closed ..)
  | @turn m held pending σ d device now =>
      exact .inl (Mailbox.Moves.steady sound.mailbox (Mailbox.turn_moves d now m device)).closed
  | wait left => exact .inl (Mailbox.settle_closed ..)
  | tryRead p => exact .inl (Mailbox.tryRead_untouched _ p).closed
  | requestRead p => exact .inl (Mailbox.requestRead_untouched _ p).closed
  | read p => exact .inl (Mailbox.read_untouched _ p).closed
  | scheduleRead => exact .inl rfl
  | close => exact .inr rfl

theorem Reachable.sound_or_shut (reached : s.Reachable) :
    s.mailbox.closed = false ∧ s.Sound ∨ s.mailbox.Shut := by
  cases opened : s.mailbox.closed with
  | false => exact .inl ⟨rfl, reached.sound opened⟩
  | true =>
      refine .inr ?_
      obtain ⟨slave, config, sendId, receiveId, run⟩ := reached
      induction run with
      | refl => cases opened
      | @tail s₁ s₂ run step ih =>
          cases closed : s₁.mailbox.closed with
          | true => exact (step.untouched (ih closed)).shut (ih closed)
          | false =>
              have sound := Reachable.sound ⟨slave, config, sendId, receiveId, run⟩ closed
              rcases step.closes sound with same | rfl
              · rw [same, closed] at opened
                cases opened
              · exact (sound.mailbox.close closed).2

theorem Reachable.sound_or_closed (reached : s.Reachable) :
    s.mailbox.Sound s.held ∨ s.mailbox.closed = true :=
  reached.sound_or_shut.imp (fun opened => opened.2.mailbox) Mailbox.Shut.closed

end Session

end Fieldbus
