import Fieldbus.Proofs.Mailbox.Closing

/-!
# One request at a time

A slave has one request before it at most. Once a request was written, no turn writes another
before the wait for its reply has ended, in that turn or earlier.
-/

namespace Fieldbus

open BufferQueue (indices)

/-- The wait for a reply may end with this outcome. -/
inductive InFlight.EndsWith (now : Nat) (flight : InFlight) : Except Error Reply → Prop
  | late : flight.request.deadline ≤ now → EndsWith now flight (.error .timeout)
  | answered (message : Message) :
      EndsWith now flight (.ok (.response flight.workCounter message))

namespace Mailbox

variable {m m' : Mailbox} {held : List Buffer} {now : Nat} {calls : List Call}
  {flight : InFlight}

def Awaits (now : Nat) (flight : InFlight) (m : Mailbox) : Prop :=
  m.inFlight = some flight ∨
    ∃ outcome, m.outcome? flight.request.ticket = some outcome ∧ flight.EndsWith now outcome

theorem Concludes.endsWith {outcome : Except Error Reply} {told : List MailboxEvent}
    (h : m.Concludes now flight outcome told) : flight.EndsWith now outcome := by
  cases h with
  | late overdue => exact .late overdue
  | answered message => exact .answered message

theorem Rest.not_ready (rest : m.Rest) (flying : m.inFlight = some flight) :
    m.handshake.isReady ≠ true := by
  rw [Ne, rest.ready_iff, flying]
  simp

/-- While a request is in flight, a move leaves it there or ends the wait for its reply. -/
theorem Effect.awaits (s : m.Sound held) (flying : m.inFlight = some flight)
    (effect : Effect now m m') : m'.Awaits now flight := by
  have busy := s.rest.not_ready flying
  have undecided := (s.accounts.carried _ _ (.inr ⟨flight, flying, rfl, rfl⟩)).2.1
  cases effect with
  | idle events undisturbed => exact .inl (undisturbed.inFlight.trans flying)
  | kept message undisturbed => exact .inl (undisturbed.inFlight.trans flying)
  | ended other outcome told awaiting again cause same calm ready consumed counter journal =>
      rw [flying] at again
      cases again
      refine .inr ⟨outcome, ?_, cause.endsWith⟩
      rw [(cause.resolves journal).outcome, undecided, Option.none_or]
  | overdue index request ready => exact absurd ready busy
  | returned index request stamps ready => exact absurd ready busy
  | sent index request workCounter ready => exact absurd ready busy
  | written index request workCounter m₀ ready => exact absurd ready busy

theorem Deeds.awaits (s : m.Sound held) (flying : m.inFlight = some flight)
    (path : Deeds now m calls m') : m'.Awaits now flight := by
  induction path with
  | refl => exact .inl flying
  | tail path deed ih =>
      have between := Moves.sound s path.moves
      rcases ih with here | ⟨outcome, decided, ends⟩
      · exact (deed.move.effect between.custody).2.1.awaits between here
      · obtain ⟨events, journal, -⟩ := deed.tells
        exact .inr ⟨outcome, outcome?_kept journal decided, ends⟩

theorem calls_after_flight {σ : Type} (s : m.Sound held) (flying : m.inFlight = some flight)
    (d : SlotDevice σ) (device : σ) {call : Call} (mem : call ∈ m.calls d now device)
    (written : call.isWrite = true) :
    ∃ outcome, call.mailbox.outcome? flight.request.ticket = some outcome ∧
      flight.EndsWith now outcome := by
  obtain ⟨polled, m₀, path, -, p, b, m₁, result, picks, mailbox, -⟩ :=
    turn_writes d device mem written
  have between := Moves.sound s path.moves
  obtain ⟨sendQueues, request, ready, -, -, -, stamped⟩ := picks.stamp
  rcases path.awaits s flying with here | ⟨outcome, decided, ends⟩
  · exact absurd ready (between.rest.not_ready here)
  · have journal : call.mailbox.journal = m₀.journal ++
        [.stamped (some request.ticket) m₀.counter.next.last] := by rw [mailbox, stamped]
    exact ⟨outcome, outcome?_kept journal decided, ends⟩

theorem Custody.linked_once (custody : m.Custody held) (i : Nat) :
    (m.request? i).isSome ↔ ∃! p, i ∈ indices (m.sendQueues.entries p) := by
  rw [custody.recorded, ProtocolQueues.mem_indices_everything]
  constructor
  · rintro ⟨p, mem⟩
    exact ⟨p, mem, fun other there => custody.stock.queue_unique there mem⟩
  · rintro ⟨p, mem, -⟩
    exact ⟨p, mem⟩

end Mailbox

namespace Session

variable {s : Session}

/-- Between two steps the channel is at rest, every request that waits stands in one queue and
once, and while a reply is awaited no turn writes unless it has ended that wait before. -/
theorem single_flight (reached : s.Reachable) :
    s.mailbox.Rest ∧
      (indices s.mailbox.sendQueues.everything).Nodup ∧
      (∀ i, (s.mailbox.request? i).isSome ↔
        ∃! p, i ∈ indices (s.mailbox.sendQueues.entries p)) ∧
      (s.mailbox.handshake = .awaitResponse → ∃ flight, s.mailbox.inFlight = some flight ∧
        s.mailbox.outcome? flight.request.ticket = none ∧
        ∀ {σ : Type} (d : SlotDevice σ) (device : σ) (now : Nat),
          ∀ call ∈ s.mailbox.calls d now device, call.isWrite = true →
            ∃ outcome, call.mailbox.outcome? flight.request.ticket = some outcome ∧
              flight.EndsWith now outcome) := by
  rcases reached.sound_or_shut with ⟨-, sound⟩ | shut
  · have mailbox := sound.mailbox
    refine ⟨mailbox.rest, ?_, mailbox.custody.linked_once, fun awaiting => ?_⟩
    · exact mailbox.custody.stock.nodup_everything
    · obtain ⟨flight, flying⟩ := Option.isSome_iff_exists.mp (mailbox.rest.awaiting.mp awaiting)
      refine ⟨flight, flying, ?_, fun d device now call mem written => ?_⟩
      · exact (mailbox.accounts.carried _ _ (.inr ⟨flight, flying, rfl, rfl⟩)).2.1
      · exact Mailbox.calls_after_flight mailbox flying d device mem written
  · refine ⟨.of_calm (by rw [shut.idle]; rfl) shut.calm, ?_, fun i => ?_, fun awaiting => ?_⟩
    · rw [shut.emptied]
      exact List.nodup_nil
    · rw [shut.vacant]
      refine iff_of_false (by simp) ?_
      rintro ⟨p, mem, -⟩
      have everywhere := ProtocolQueues.mem_indices_everything.mpr ⟨p, mem⟩
      rw [shut.emptied] at everywhere
      cases everywhere
    · rw [shut.idle] at awaiting
      cases awaiting

/-- The reply to the first request is awaited until time 10, and the second waits longer. -/
def overtaken : Session :=
  let written := ((cramped.submit .coe 0x1001 [1] true 10).2.turn mute.transport 0 ()).2.1
  ⟨(written.submit .coe 0x1001 [2] true 100).2, [], [⟨0, 1, 100⟩, ⟨0, 0, 10⟩]⟩

theorem reachable_overtaken : overtaken.Reachable := by
  have start : Reachable ⟨cramped, [], []⟩ := reachable_start _ _ _ _
  have first := submit_reachable start (by decide +kernel :
    (cramped.submit .coe 0x1001 [1] true 10).1.toOption = some ⟨0, 0, 10⟩)
  have written := first.run (.single (.turn mute () 0))
  exact submit_reachable written (by decide +kernel)

/-- At time 20 the second request is written, and by then the first has its outcome. -/
theorem single_flight_overtaken :
    overtaken.mailbox.handshake = .awaitResponse ∧
      (overtaken.mailbox.calls mute 20 ()).any Call.isWrite = true ∧
      ∃ flight, overtaken.mailbox.inFlight = some flight ∧
        ∀ call ∈ overtaken.mailbox.calls mute 20 (), call.isWrite = true →
          ∃ outcome, call.mailbox.outcome? flight.request.ticket = some outcome ∧
            flight.EndsWith 20 outcome := by
  have awaiting : overtaken.mailbox.handshake = .awaitResponse := by decide +kernel
  obtain ⟨-, -, -, once⟩ := single_flight reachable_overtaken
  obtain ⟨flight, flying, -, ended⟩ := once awaiting
  exact ⟨awaiting, by decide +kernel, flight, flying, ended mute () 20⟩

end Session

end Fieldbus
