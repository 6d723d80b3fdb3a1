import Fieldbus.Proofs.Mailbox.Session

/-!
# Which requests a mailbox still tracks

A request that nobody has waited for yet stands in one queue or in flight until it has its outcome,
unless the wait for another request withdrew it. That happens because a request is named by the
index of its buffer, which is free again as soon as the message is written: a later request can
wait under the index of the one in flight.
-/

namespace Fieldbus

open BufferQueue (indices)

inductive Standing where
  | waiting (p : Protocol) (b : Buffer) (request : PendingRequest)
  | flying (flight : InFlight)

namespace Mailbox

/-- The request of `h` stands in a queue with its buffer, or in flight. -/
def Stands (m : Mailbox) (h : Handle) : Standing → Prop
  | .waiting p b request => b ∈ m.sendQueues.entries p ∧ b.index = h.index ∧
      m.request? h.index = some request ∧ request.ticket = h.ticket
  | .flying flight => m.inFlight = some flight ∧ flight.index = h.index ∧
      flight.request.ticket = h.ticket

/-- The request of `h` stands in one place. -/
def Tracks (m : Mailbox) (h : Handle) : Prop := ∃! standing, m.Stands h standing

/-- A wait for `g` that runs out would withdraw the request of `h`. -/
def Names (m : Mailbox) (g h : Handle) : Prop :=
  ∃ request, m.named? g.index = some request ∧ request.ticket = h.ticket

variable {m m' : Mailbox} {held : List Buffer} {h : Handle}

theorem Stands.carries {standing : Standing} (stands : m.Stands h standing) :
    ∃ request, m.Carries h.index request ∧ request.ticket = h.ticket := by
  cases standing with
  | waiting p b request =>
      obtain ⟨-, -, found, ticket⟩ := stands
      exact ⟨request, .inl found, ticket⟩
  | flying flight =>
      obtain ⟨flying, index, ticket⟩ := stands
      exact ⟨flight.request, .inr ⟨flight, flying, index, rfl⟩, ticket⟩

theorem Sound.stands_unique (s : m.Sound held) {here there : Standing} (hh : m.Stands h here)
    (ht : m.Stands h there) : here = there := by
  cases here with
  | waiting p b request =>
      obtain ⟨queued, index, found, ticket⟩ := hh
      cases there with
      | waiting q c other =>
          obtain ⟨queued', index', found', -⟩ := ht
          have same : p = q := s.custody.stock.queue_unique (i := h.index)
            (index ▸ List.mem_map_of_mem queued) (index' ▸ List.mem_map_of_mem queued')
          subst same
          have buffer : b = c := List.inj_on_of_nodup_map
            (s.custody.stock.queued.holds p).distinct queued queued' (index.trans index'.symm)
          rw [found] at found'
          rw [buffer, Option.some.inj found']
      | flying flight =>
          obtain ⟨flying, -, ticket'⟩ := ht
          exact absurd (ticket.trans ticket'.symm)
            (s.accounts.once h.index request flight found flying)
  | flying flight =>
      obtain ⟨flying, -, ticket⟩ := hh
      cases there with
      | waiting q c other =>
          obtain ⟨-, -, found, ticket'⟩ := ht
          exact absurd (ticket'.trans ticket.symm)
            (s.accounts.once h.index other flight found flying)
      | flying flight' =>
          rw [Option.some.inj (flying.symm.trans ht.1)]

theorem Sound.tracks_of_carries (s : m.Sound held) {request : PendingRequest}
    (carries : m.Carries h.index request) (ticket : request.ticket = h.ticket) : m.Tracks h := by
  suffices stands : ∃ standing, m.Stands h standing by
    obtain ⟨standing, stands⟩ := stands
    exact ⟨standing, stands, fun other there => s.stands_unique there stands⟩
  rcases carries with found | ⟨flight, flying, index, rfl⟩
  · have queued : h.index ∈ indices m.sendQueues.everything := by
      rw [← s.custody.recorded, found]
      rfl
    obtain ⟨p, mem⟩ := ProtocolQueues.mem_indices_everything.mp queued
    obtain ⟨b, mem, index⟩ := List.mem_map.mp mem
    exact ⟨.waiting p b request, mem, index, found, ticket⟩
  · exact ⟨.flying flight, flying, index, ticket⟩

theorem Withdraws.stands {g : Handle} {r : PendingRequest} (named : m.named? g.index = some r)
    (withdraws : m.Withdraws g r m') (standing : Standing) :
    m'.Stands h standing ↔ m.Stands h standing ∧ r.ticket ≠ h.ticket := by
  cases standing with
  | waiting p b request =>
      simp only [Stands, withdraws.entries, withdraws.drops.request]
      constructor
      · rintro ⟨⟨queued, -⟩, index, ⟨found, other⟩, ticket⟩
        exact ⟨⟨queued, index, found, ticket⟩, fun same => other (ticket.trans same.symm)⟩
      · rintro ⟨⟨queued, index, found, ticket⟩, other⟩
        refine ⟨⟨queued, fun same => ?_⟩, index, ⟨found, fun eq => other (eq ▸ ticket)⟩, ticket⟩
        rw [← index, same] at found
        rw [named?, found, Option.some_or] at named
        exact absurd (Option.some.inj named ▸ ticket) other
  | flying flight =>
      simp only [Stands, withdraws.drops.inFlight]
      constructor
      · rintro ⟨⟨flying, other⟩, index, ticket⟩
        exact ⟨⟨flying, index, ticket⟩, fun same => other (ticket.trans same.symm)⟩
      · rintro ⟨⟨flying, index, ticket⟩, other⟩
        exact ⟨⟨flying, fun same => other (same.symm.trans ticket)⟩, index, ticket⟩

end Mailbox

namespace Session

variable {s : Session} {g h : Handle}

theorem Sound.tracks_iff (sound : s.Sound) (mem : h ∈ s.pending)
    (undecided : s.mailbox.outcome? h.ticket = none) :
    s.mailbox.Tracks h ↔ ∀ waiter, (h.ticket, waiter) ∉ s.mailbox.withdrawals := by
  have accounts := sound.mailbox.accounts
  obtain ⟨request, admitted, ticket, -⟩ := sound.admitted h mem
  constructor
  · rintro ⟨standing, stands, -⟩ waiter
    obtain ⟨other, carries, same⟩ := stands.carries
    rw [← same]
    exact (accounts.carried h.index other carries).2.2 waiter
  · intro standing
    rcases accounts.accounted h.index request admitted with carries | decided | ⟨waiter, gone⟩
    · exact sound.mailbox.tracks_of_carries carries ticket
    · rw [ticket, undecided] at decided
      cases decided
    · rw [ticket] at gone
      exact absurd gone (standing waiter)

theorem Sound.wait_stands (sound : s.Sound) (undecided : s.mailbox.outcome? g.ticket = none)
    (standing : Standing) :
    (s.mailbox.settle g).2.Stands h standing ↔
      s.mailbox.Stands h standing ∧ ¬s.mailbox.Names g h := by
  cases named : s.mailbox.named? g.index with
  | none =>
      have same : (s.mailbox.settle g).2 = s.mailbox := by
        rw [Mailbox.settle, undecided]
        exact Mailbox.abandon_unnamed sound.mailbox.custody named
      have spared : ¬s.mailbox.Names g h := by
        rintro ⟨request, found, -⟩
        rw [named] at found
        cases found
      rw [same]
      exact ⟨fun stands => ⟨stands, spared⟩, And.left⟩
  | some r =>
      have withdraws := Mailbox.settle_withdraws sound.mailbox undecided named
      have names : s.mailbox.Names g h ↔ r.ticket = h.ticket := by
        simp [Mailbox.Names, named]
      rw [withdraws.stands named, names]

/-- An open request stays where it is, whatever callers and turns do, until the wait for another
one runs out whose index names it. -/
theorem tracked_until_named (reached : s.Reachable) (opened : s.mailbox.closed = false)
    (mem : h ∈ s.pending) (undecided : s.mailbox.outcome? h.ticket = none) :
    (s.mailbox.Tracks h ↔ ∀ waiter, (h.ticket, waiter) ∉ s.mailbox.withdrawals) ∧
      (∀ s' waiter, Step s s' → s'.mailbox.closed = false →
        ((h.ticket, waiter) ∈ s'.mailbox.withdrawals ↔
          (h.ticket, waiter) ∈ s.mailbox.withdrawals ∨
            ∃ g left right, s.pending = left ++ g :: right ∧
              s' = ⟨(s.mailbox.settle g).2, s.held, left ++ right⟩ ∧ g.ticket = waiter ∧
              s.mailbox.outcome? waiter = none ∧ s.mailbox.Names g h)) ∧
      ∀ g, s.mailbox.outcome? g.ticket = none →
        (s.mailbox.Names g h → g.index = h.index ∧ s.mailbox.Tracks h ∧
          ¬(s.mailbox.settle g).2.Tracks h ∧
          (s.mailbox.settle g).2.outcome? h.ticket = none) ∧
        (¬s.mailbox.Names g h → ∀ standing,
          (s.mailbox.settle g).2.Stands h standing ↔ s.mailbox.Stands h standing) := by
  have sound := reached.sound opened
  refine ⟨sound.tracks_iff mem undecided, fun s' waiter step opened' => ?_,
    fun g open' => ⟨fun names => ?_, fun spared standing => ?_⟩⟩
  · constructor
    · intro gone
      rcases step.withdrawals sound opened' with same | ⟨g, left, right, r, split, eq, open', named,
        more⟩
      · exact .inl (same ▸ gone)
      · rw [more, List.mem_append, List.mem_singleton] at gone
        rcases gone with old | new
        · exact .inl old
        · obtain ⟨ticket, rfl⟩ := Prod.mk.inj new
          exact .inr ⟨g, left, right, split, eq, rfl, open', r, named, ticket.symm⟩
    · rintro (old | ⟨g, left, right, split, rfl, rfl, open', r, named, ticket⟩)
      · rcases step.withdrawals sound opened' with same | ⟨_, _, _, _, _, _, _, _, more⟩
        · rwa [same]
        · rw [more]
          exact List.mem_append_left _ old
      · have withdraws := Mailbox.settle_withdraws sound.mailbox open' named
        rw [withdraws.withdrawals, ticket]
        exact List.mem_append_right _ (List.mem_singleton_self _)
  · obtain ⟨r, named, ticket⟩ := names
    have carries := Mailbox.carries_of_named named
    obtain ⟨own, admitted, same, -⟩ := sound.admitted h mem
    have unique := sound.mailbox.accounts.unique
      (sound.mailbox.accounts.carried g.index r carries).1 admitted (ticket.trans same.symm)
    have withdraws := Mailbox.settle_withdraws sound.mailbox open' named
    refine ⟨unique.1, sound.mailbox.tracks_of_carries (unique.1 ▸ carries) ticket, ?_,
      (withdraws.outcome h.ticket).trans undecided⟩
    rintro ⟨standing, stands, -⟩
    exact ((sound.wait_stands open' standing).mp stands).2 ⟨r, named, ticket⟩
  · rw [sound.wait_stands open']
    exact ⟨And.left, fun stands => ⟨stands, spared⟩⟩

/-! ## An index that is used again -/

/-- The first request was written, and the second waits in the same buffer. -/
def reused : Session :=
  let written := ((cramped.submit .coe 0x1001 [1] true 1000000).2.turn mute.transport 0 ()).2.1
  ⟨(written.submit .coe 0x1001 [2] true 1000000).2, [], [⟨0, 1, 1000000⟩, ⟨0, 0, 1000000⟩]⟩

theorem reachable_reused : reused.Reachable := by
  have start : Reachable ⟨cramped, [], []⟩ := reachable_start _ _ _ _
  have first := submit_reachable start (by decide +kernel :
    (cramped.submit .coe 0x1001 [1] true 1000000).1.toOption = some ⟨0, 0, 1000000⟩)
  have written := first.run (.single (.turn mute () 0))
  exact submit_reachable written (by decide +kernel)

theorem reused_names : reused.mailbox.Names ⟨0, 0, 1000000⟩ ⟨0, 1, 1000000⟩ :=
  ⟨⟨1, true, 1000000⟩, by rfl, rfl⟩

theorem tracked_until_named_reused :
    reused.mailbox.Tracks ⟨0, 1, 1000000⟩ ∧
      ¬(reused.mailbox.settle ⟨0, 0, 1000000⟩).2.Tracks ⟨0, 1, 1000000⟩ := by
  have undecided : reused.mailbox.outcome? 0 = none ∧ reused.mailbox.outcome? 1 = none :=
    ⟨by rfl, by rfl⟩
  have spared := (tracked_until_named (h := ⟨0, 1, 1000000⟩) reachable_reused
    (by decide +kernel) (by decide +kernel) undecided.2).2.2 ⟨0, 0, 1000000⟩ undecided.1
  obtain ⟨-, tracked, lost, -⟩ := spared.1 reused_names
  exact ⟨tracked, lost⟩

/-- The wait for one request can lose another. -/
theorem exists_untracked : ∃ s h, Reachable s ∧ s.mailbox.closed = false ∧ h ∈ s.pending ∧
    s.mailbox.outcome? h.ticket = none ∧ ¬s.mailbox.Tracks h := by
  have opened : reused.mailbox.closed = false := by decide +kernel
  have sound := reachable_reused.sound opened
  have undecided : reused.mailbox.outcome? 0 = none ∧ reused.mailbox.outcome? 1 = none :=
    ⟨by rfl, by rfl⟩
  obtain ⟨request, named, ticket⟩ := reused_names
  have withdraws := Mailbox.settle_withdraws (h := ⟨0, 0, 1000000⟩) sound.mailbox undecided.1 named
  have waited : Step reused
      ⟨(reused.mailbox.settle ⟨0, 0, 1000000⟩).2, [], [⟨0, 1, 1000000⟩]⟩ := .wait [⟨0, 1, 1000000⟩]
  refine ⟨_, ⟨0, 1, 1000000⟩, reachable_reused.run (.single waited), ?_,
    List.mem_singleton_self _, ?_, ?_⟩
  · exact withdraws.closed.trans opened
  · exact (withdraws.outcome 1).trans undecided.2
  · rintro ⟨standing, stands, -⟩
    have spared := sound.wait_stands (g := ⟨0, 0, 1000000⟩) (h := ⟨0, 1, 1000000⟩) undecided.1
      standing
    exact (spared.mp stands).2 ⟨request, named, ticket⟩

end Session

end Fieldbus
