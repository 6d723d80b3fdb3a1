import Fieldbus.Proofs.Mailbox.Delivery
import Fieldbus.Proofs.Mailbox.Ledger
import Fieldbus.Proofs.Mailbox.Messages

/-!
# Why a request has its outcome

Every outcome rests on what was seen: the slave took the message of the request, and gave the reply
after that, with the counter stamped on the message; or the deadline had come; or the mailbox was
closed.
-/

namespace Fieldbus

/-- The slave took the message of a request with this call. -/
structure Call.Takes (c : Call) (request : PendingRequest) (message : Bytes)
    (workCounter : UInt16) : Prop where
  sends : c.Sends request message
  result : ∃ data, c.access = .write data (.ok workCounter)
  counted : workCounter ≠ 0

/-- The slave gave this message with the call. What it gives overwrites the buffer, as far as the
slot reaches. -/
def Call.Gives (c : Call) (message : Message) : Prop :=
  ∃ before workCounter after, c.access = .read before (.ok workCounter) after ∧ workCounter ≠ 0 ∧
    Message.decode? (before.overwrite 0 (after.take c.mailbox.slave.readSlot.length.toNat)) =
      .ok message

/-- What is seen, with the calls so far, when a request with this message gets its outcome. -/
inductive Warrants (calls : List Call) (request : PendingRequest) (message : Bytes) :
    Sight → Except Error Reply → Prop
  | written {now : Nat} {own : List Call} {sent : Call} {workCounter : UInt16} :
      request.expectsResponse = false → sent ∈ calls → sent.Takes request message workCounter →
      Warrants calls request message (.turn now own) (.ok (.written workCounter))
  | answered {now : Nat} {own : List Call} {sent read : Call} {workCounter : UInt16}
      {reply : Message} :
      request.expectsResponse = true → [sent, read].Sublist calls →
      sent.Takes request message workCounter → read.Gives reply →
      reply.header.counter = sent.mailbox.counter.last →
      Warrants calls request message (.turn now own) (.ok (.response workCounter reply))
  | late {now : Nat} {own : List Call} : request.deadline ≤ now →
      Warrants calls request message (.turn now own) (.error .timeout)
  | closed : Warrants calls request message .close (.error .closed)

/-- The same of the exchanges between a mailbox and its slave, for a turn. -/
inductive Grounded (now : Nat) (exchanges : List Exchange) (request : PendingRequest) :
    Except Error Reply → Prop
  | written (counter : UInt8) {workCounter : UInt16} : request.expectsResponse = false →
      .took request.ticket counter workCounter ∈ exchanges →
      Grounded now exchanges request (.ok (.written workCounter))
  | answered {workCounter : UInt16} {reply : Message} : request.expectsResponse = true →
      [.took request.ticket reply.header.counter workCounter, .gave reply].Sublist exchanges →
      Grounded now exchanges request (.ok (.response workCounter reply))
  | late : request.deadline ≤ now → Grounded now exchanges request (.error .timeout)

theorem Grounded.longer {now : Nat} {exchanges : List Exchange} {request : PendingRequest}
    {outcome : Except Error Reply} (h : Grounded now exchanges request outcome)
    (more : List Exchange) : Grounded now (exchanges ++ more) request outcome := by
  cases h with
  | written counter writeOnly took =>
      exact .written counter writeOnly (List.mem_append_left more took)
  | answered expects exchanged =>
      exact .answered expects (exchanged.trans (List.sublist_append_left exchanges more))
  | late deadline => exact .late deadline

theorem Call.access_of_acknowledged {c : Call} (acknowledged : c.acknowledged = true) :
    ∃ data workCounter, c.access = .write data (.ok workCounter) ∧ workCounter ≠ 0 := by
  unfold Call.acknowledged at acknowledged
  split at acknowledged
  case h_1 data workCounter access => exact ⟨data, workCounter, access, bne_iff_ne.mp acknowledged⟩
  case h_2 => cases acknowledged

theorem Call.eq_of_took {c : Call} {ticket : Option Nat} {counter : UInt8} {workCounter : UInt16}
    (took : c.exchange? = some (.took ticket counter workCounter)) :
    (∃ data, c.access = .write data (.ok workCounter)) ∧ workCounter ≠ 0 ∧
      c.mailbox.flightTicket = ticket ∧ c.mailbox.counter.last = counter := by
  unfold exchange? at took
  split at took
  case h_1 data result access =>
    split at took
    case isTrue => cases took
    case isFalse counted =>
      cases took
      exact ⟨⟨data, access⟩, counted, rfl, rfl⟩
  case h_2 before result after access =>
    split at took
    · cases took
    · unfold Exchange.ofRead at took
      split at took <;> cases took
  case h_3 => cases took

theorem Call.gives_of_gave {c : Call} {message : Message}
    (gave : c.exchange? = some (.gave message)) : c.Gives message := by
  unfold exchange? at gave
  split at gave
  case h_1 => split at gave <;> cases gave
  case h_2 before result after access =>
    split at gave
    case isTrue => cases gave
    case isFalse counted =>
      refine ⟨before, result, after, access, counted, ?_⟩
      unfold Exchange.ofRead at gave
      split at gave
      case h_1 decoded =>
        cases gave
        exact decoded
      case h_2 => cases gave
  case h_3 => cases gave

namespace Mailbox

variable {m m' : Mailbox} {held : List Buffer} {now ticket : Nat} {outcome : Except Error Reply}

theorem Resolves.fresh {other : Nat} {verdict : Except Error Reply}
    (resolves : m.Resolves ticket outcome m') (undecided : m.outcome? other = none)
    (decided : m'.outcome? other = some verdict) : ticket = other ∧ outcome = verdict := by
  by_cases same : other = ticket
  · subst same
    rw [resolves.outcome, undecided] at decided
    exact ⟨rfl, Option.some.inj decided⟩
  · rw [resolves.others other same, undecided] at decided
    cases decided

/-- A request gets its outcome in a move for a reason that the exchanges show. -/
theorem Effect.grounded (s : m.Sound held) (l : m.Ledger) (effect : Effect now m m')
    (undecided : m.outcome? ticket = none) (decided : m'.outcome? ticket = some outcome) :
    ∃ i r, m.Carries i r ∧ r.ticket = ticket ∧ Grounded now m'.exchanges r outcome := by
  have moved (unmoved : m.Unmoved m') : ∃ i r, m.Carries i r ∧ r.ticket = ticket ∧
      Grounded now m'.exchanges r outcome := by
    rw [unmoved.outcome, undecided] at decided
    cases decided
  cases effect with
  | idle events undisturbed consumed journal unanswering =>
      exact moved (.of_quiet journal fun event mem => (unanswering event mem).quiet)
  | kept message undisturbed wanted sequenced calm consumed journal =>
      refine moved (.of_quiet journal fun event mem => ?_)
      rw [List.mem_singleton.mp mem]
      exact MailboxEvent.quiet_routed message _
  | ended flight verdict told awaiting flying cause same none ready consumed counter journal =>
      obtain ⟨rfl, rfl⟩ := (cause.resolves journal).fresh undecided decided
      refine ⟨flight.index, flight.request, .inr ⟨flight, flying, rfl, rfl⟩, rfl, ?_⟩
      cases cause with
      | late deadline => exact .late deadline
      | answered reply wanted =>
          -- The counter of the reply is the one stamped last, and that was on this request.
          have took := l.flying flight flying
          rw [← last_of_wanted wanted] at took
          refine .answered (s.rest.flight flight flying).1 ?_
          rw [List.append_assoc] at journal
          rw [exchanges_append journal]
          exact .append (List.singleton_sublist.mpr took) (.cons_cons _ (List.nil_sublist _))
  | overdue index request ready found late removes inFlight handshake consumed counter journal =>
      have resolves : m.Resolves request.ticket (.error .timeout) m' :=
        .of_verdict (.of_journal rfl) journal
      obtain ⟨rfl, rfl⟩ := resolves.fresh undecided decided
      exact ⟨index, request, .inl found, rfl, .late late⟩
  | returned index request stamps ready found early same none idle consumed journal stamping =>
      exact moved (unmoved_of_returned journal (stamping.imp And.left And.left))
  | sent index request workCounter ready found early removes acknowledges =>
      exact moved acknowledges.unmoved
  | written index request workCounter m₀ ready found early removes acknowledges counter fresh
      writing counted none complete journal =>
      have resolves := Resolves.of_verdict acknowledges.unmoved journal
      obtain ⟨rfl, rfl⟩ := resolves.fresh undecided decided
      refine ⟨index, request, .inl found, rfl, .written m.counter.next.last writing ?_⟩
      obtain ⟨firings, acknowledged⟩ := acknowledges
      rw [exchanges_append journal, exchanges_append acknowledged]
      exact List.mem_append_left _ (List.mem_append_right _ (List.mem_cons_self ..))

theorem Deeds.grounded {calls : List Call} (s : m.Sound held) (l : m.Ledger)
    (path : Deeds now m calls m') (undecided : m.outcome? ticket = none)
    (decided : m'.outcome? ticket = some outcome) :
    ∃ i r, (i, r) ∈ m.admissions ∧ r.ticket = ticket ∧ Grounded now m'.exchanges r outcome := by
  induction path generalizing outcome with
  | refl =>
      rw [undecided] at decided
      cases decided
  | @tail m₁ m₂ before own path deed ih =>
      have between := Moves.sound s path.moves
      cases earlier : m₁.outcome? ticket with
      | none =>
          have effect := (deed.move.effect between.custody).2.1
          obtain ⟨i, r, carries, same, grounded⟩ :=
            effect.grounded between (path.moves.ledger l s) earlier decided
          have admitted := (between.accounts.carried i r carries).1
          rw [(path.moves.books s).1] at admitted
          exact ⟨i, r, admitted, same, grounded⟩
      | some verdict =>
          obtain ⟨events, journal, -⟩ := deed.tells
          rw [outcome?_kept journal earlier] at decided
          cases decided
          obtain ⟨i, r, admitted, same, grounded⟩ := ih earlier
          rw [exchanges_append journal]
          exact ⟨i, r, admitted, same, grounded.longer _⟩

theorem Dismisses.closes (dismisses : m.Dismisses m') (undecided : m.outcome? ticket = none)
    (decided : m'.outcome? ticket = some outcome) :
    ∃ i r, m.Carries i r ∧ r.ticket = ticket ∧ outcome = .error .closed := by
  obtain ⟨events, journal, dismissed⟩ := dismisses.journal
  rw [outcome?_append journal, undecided, Option.none_or] at decided
  obtain ⟨event, mem, given⟩ := List.exists_of_findSome?_eq_some decided
  obtain ⟨i, r, carries, rfl⟩ := dismissed event mem
  simp only [outcomeOf?] at given
  split at given
  case isTrue same =>
    cases given
    exact ⟨i, r, carries, same, rfl⟩
  case isFalse => cases given

theorem Undergoes.tickets {sight : Sight} (state : m.Sound held ∨ m.closed = true)
    (undergoes : m.Undergoes sight m') : List.range m'.nextTicket =
      List.range m.nextTicket ++ (queuedIn [sight]).map fun queued => queued.1.ticket := by
  have same (next : m'.nextTicket = m.nextTicket) :
      List.range m'.nextTicket = List.range m.nextTicket ++ [] := by
    rw [next, List.append_nil]
  cases undergoes with
  | turn d device now =>
      refine same ?_
      rcases state with sound | closed
      · exact (Moves.steady sound (turn_moves d now m device)).nextTicket
      · rw [Mailbox.turn, if_pos closed]
  | queue expectsResponse deadline => exact List.range_succ
  | close dismisses => exact same dismisses.nextTicket
  | aside idles => exact same idles.nextTicket

end Mailbox

namespace Session

variable {s s' : Session} {trace : List Sight} {sight : Sight} {request other : PendingRequest}
  {message : Bytes} {outcome : Except Error Reply}

theorem Traced.tickets (traced : Traced trace s) :
    (queuedIn trace).map (fun queued => queued.1.ticket) = List.range s.mailbox.nextTicket := by
  induction traced with
  | start => rfl
  | step traced shown ih =>
      have undergoes := shown.undergoes traced.reachable
      rw [undergoes.tickets traced.reachable.sound_or_closed, ← ih, queuedIn_append,
        List.map_append]

theorem Traced.distinct (traced : Traced trace s) :
    ((queuedIn trace).map fun queued => queued.1.ticket).Nodup := by
  rw [traced.tickets]
  exact List.nodup_range

theorem Traced.admitted (traced : Traced trace s) {i : Nat}
    (admitted : (i, request) ∈ s.mailbox.admissions) :
    ∃ message, (request, message) ∈ queuedIn trace := by
  have mem : request ∈ s.mailbox.admissions.map Prod.snd := List.mem_map_of_mem admitted
  rw [traced.admissions] at mem
  obtain ⟨⟨_, message⟩, known, rfl⟩ := List.mem_map.mp mem
  exact ⟨message, known⟩

theorem Traced.carried (traced : Traced trace s) {i : Nat}
    (carries : s.mailbox.Carries i request) :
    (∃ message, (request, message) ∈ queuedIn trace) ∧
      s.mailbox.outcome? request.ticket = none := by
  rcases traced.reachable.sound_or_shut with ⟨-, sound⟩ | shut
  · obtain ⟨admitted, undecided, -⟩ := sound.mailbox.accounts.carried i request carries
    exact ⟨traced.admitted admitted, undecided⟩
  · rcases carries with waits | ⟨flight, flying, -⟩
    · rw [shut.vacant] at waits
      cases waits
    · rw [shut.calm] at flying
      cases flying

theorem Traced.takes (traced : Traced trace s) (known : (request, message) ∈ queuedIn trace)
    {sent : Call} (mem : sent ∈ callsOf trace) {counter : UInt8} {workCounter : UInt16}
    (took : sent.exchange? = some (.took request.ticket counter workCounter)) :
    sent.Takes request message workCounter ∧ sent.mailbox.counter.last = counter := by
  obtain ⟨⟨data, access⟩, counted, ticket, stamped⟩ := Call.eq_of_took took
  have written : sent.isWrite = true := by
    rw [Call.isWrite, access]
  obtain ⟨other, bytes, queued, sends⟩ := traced.sends mem written
  rw [sends.own, Option.some.injEq] at ticket
  -- What was sent is the message of the request with this ticket, and there is only one such.
  obtain ⟨rfl, rfl⟩ := Prod.mk.inj (List.inj_on_of_nodup_map traced.distinct queued known ticket)
  exact ⟨⟨sends, ⟨data, access⟩, counted⟩, stamped⟩

theorem Traced.warrants (traced : Traced trace s) (known : (request, message) ∈ queuedIn trace)
    {now : Nat} {own : List Call} (grounded : Grounded now s.mailbox.exchanges request outcome) :
    Warrants (callsOf trace) request message (.turn now own) outcome := by
  rw [traced.told] at grounded
  cases grounded with
  | written counter writeOnly took =>
      obtain ⟨sent, mem, took⟩ := List.mem_filterMap.mp took
      exact .written writeOnly mem (traced.takes known mem took).1
  | answered expects exchanged =>
      obtain ⟨calls, seen, exchanges⟩ := List.sublist_filterMap_iff.mp exchanged
      obtain ⟨before, sent, rest, rfl, -, took, exchanges⟩ :=
        List.filterMap_eq_cons_iff.mp exchanges.symm
      obtain ⟨between, read, after, rfl, -, gave, -⟩ := List.filterMap_eq_cons_iff.mp exchanges
      have last : [read].Sublist (between ++ read :: after) :=
        List.singleton_sublist.mpr (by simp)
      have both : [sent, read].Sublist (callsOf trace) :=
        .trans (.trans (.cons_cons sent last) (List.sublist_append_right before _)) seen
      obtain ⟨takes, counter⟩ := traced.takes known (both.subset (by simp)) took
      exact .answered expects both takes (Call.gives_of_gave gave) counter.symm
  | late deadline => exact .late deadline

theorem Traced.resolves (traced : Traced trace s) (shown : Shows s sight s') {ticket : Nat}
    (undecided : s.mailbox.outcome? ticket = none)
    (decided : s'.mailbox.outcome? ticket = some outcome) :
    ∃ request message, (request, message) ∈ queuedIn trace ∧ request.ticket = ticket ∧
      Warrants (callsOf (trace ++ [sight])) request message sight outcome := by
  have undergoes := shown.undergoes traced.reachable
  have next := traced.step shown
  -- What the mailbox undergoes is known by cases only if the mailbox after it is a variable.
  generalize after : s'.mailbox = m' at *
  cases undergoes with
  | turn d device now =>
      rcases traced.reachable.sound_or_shut with ⟨-, sound⟩ | shut
      · obtain ⟨i, r, admitted, same, grounded⟩ :=
          (Mailbox.turn_path d now s.mailbox device).grounded sound.mailbox traced.ledger
            undecided decided
        obtain ⟨message, known⟩ := traced.admitted admitted
        rw [← after] at grounded
        refine ⟨r, message, known, same, next.warrants ?_ grounded⟩
        rw [queuedIn_append]
        exact List.mem_append_left _ known
      · rw [Mailbox.turn, if_pos shut.closed, undecided] at decided
        cases decided
  | queue expectsResponse deadline =>
      rw [Mailbox.outcome?_lodge, undecided] at decided
      cases decided
  | close dismisses =>
      obtain ⟨i, r, carries, same, rfl⟩ := dismisses.closes undecided decided
      obtain ⟨⟨message, known⟩, -⟩ := traced.carried carries
      exact ⟨r, message, known, same, .closed⟩
  | aside idles =>
      rw [idles.outcome?_eq, undecided] at decided
      cases decided

/-- Every outcome was given at one moment of the run, which shows why. -/
theorem Traced.resolved (traced : Traced trace s) {ticket : Nat}
    (decided : s.mailbox.outcome? ticket = some outcome) :
    ∃ before sight after request message, trace = before ++ sight :: after ∧
      (request, message) ∈ queuedIn before ∧ request.ticket = ticket ∧
      Warrants (callsOf (before ++ [sight])) request message sight outcome := by
  induction traced with
  | start => cases decided
  | @step trace s₁ s₂ sight traced shown ih =>
      cases earlier : s₁.mailbox.outcome? ticket with
      | none =>
          obtain ⟨request, message, known, same, warrants⟩ :=
            traced.resolves shown earlier decided
          exact ⟨trace, sight, [], request, message, rfl, known, same, warrants⟩
      | some verdict =>
          obtain ⟨events, journal⟩ := (shown.undergoes traced.reachable).grown
          rw [Mailbox.outcome?_kept journal earlier] at decided
          cases decided
          obtain ⟨before, moment, after, request, message, rfl, rest⟩ := ih earlier
          exact ⟨before, moment, after ++ [sight], request, message, by simp, rest⟩

def outcomes (s : Session) (ticket : Nat) : List (Except Error Reply) :=
  s.mailbox.journal.filterMap (Mailbox.outcomeOf? ticket)

/-- No two requests have one ticket, and whatever the slave took was the message of one of them,
once. A request has one outcome at most, and with it the mailbox is done with the request. The
moment at which it got its outcome shows why: its message had been taken, or its reply had been
read after that, or its deadline had come, or the mailbox was closed. -/
theorem outcomes_sound (traced : Traced trace s) :
    ((queuedIn trace).map fun queued => queued.1.ticket).Nodup ∧
      ((callsOf trace).filterMap Call.taker?).Nodup ∧
      (∀ call ∈ callsOf trace, call.acknowledged = true →
        ∃ request message workCounter, (request, message) ∈ queuedIn trace ∧
          call.taker? = some request.ticket ∧ call.Takes request message workCounter) ∧
      (∀ i request, s.mailbox.Carries i request → s.outcomes request.ticket = []) ∧
      ∀ ticket, (s.outcomes ticket).length ≤ 1 ∧ ∀ outcome ∈ s.outcomes ticket,
        ∃ before sight after request message, trace = before ++ sight :: after ∧
          (request, message) ∈ queuedIn before ∧ request.ticket = ticket ∧
          Warrants (callsOf (before ++ [sight])) request message sight outcome := by
  refine ⟨traced.distinct, ?_, fun call mem acknowledged => ?_, fun i request carries => ?_,
    fun ticket => ?_⟩
  · rw [← traced.takers]
    exact traced.ledger.once
  · obtain ⟨written, taker⟩ := Call.taker?_of_acknowledged acknowledged
    obtain ⟨request, message, known, sends⟩ := traced.sends mem written
    obtain ⟨data, workCounter, access, counted⟩ := Call.access_of_acknowledged acknowledged
    rw [sends.own] at taker
    exact ⟨request, message, workCounter, known, taker, sends, ⟨data, access⟩, counted⟩
  · have undecided := (traced.carried carries).2
    rw [Mailbox.outcome?, List.findSome?_eq_none_iff] at undecided
    exact List.filterMap_eq_nil_iff.mpr undecided
  · have once : (s.outcomes ticket).length ≤ 1 := traced.ledger.decided ticket
    refine ⟨once, fun outcome mem => traced.resolved ?_⟩
    have single := Nat.le_antisymm once (List.length_pos_of_mem mem)
    obtain ⟨verdict, alone⟩ := List.length_eq_one_iff.mp single
    rw [alone, List.mem_singleton] at mem
    rw [Mailbox.outcome?, ← List.head?_filterMap, mem]
    exact congrArg List.head? alone

/-- A request was written, and in the next turn its reply was read. -/
def replied : Mailbox :=
  let written := ((cramped.submit .coe 0x1001 [1] true 1000000).2.turn mute.transport 0 ()).2.1
  (written.turn answering.transport 1 ()).2.1

theorem outcomes_sound_replied : ∃ trace,
    Traced trace ⟨replied, [], [⟨0, 0, 1000000⟩]⟩ ∧
      outcomes ⟨replied, [], [⟨0, 0, 1000000⟩]⟩ 0 = [.ok (.response 1 lateReply)] ∧
      ∃ before sight after request message, trace = before ++ sight :: after ∧
        (request, message) ∈ queuedIn before ∧ request.ticket = 0 ∧
        Warrants (callsOf (before ++ [sight])) request message sight
          (.ok (.response 1 lateReply)) := by
  have start : Traced [] ⟨cramped, [], []⟩ := .start _ _ _ _
  have accepted : (cramped.submit .coe 0x1001 [1] true 1000000).1 = .ok ⟨0, 0, 1000000⟩ := by rfl
  obtain ⟨message, queued⟩ := submit_traced start accepted
  have traced := (queued.step (.turn mute () 0)).step (.turn answering () 1)
  have outcome : outcomes ⟨replied, [], [⟨0, 0, 1000000⟩]⟩ 0 =
      [.ok (.response 1 lateReply)] := by rfl
  have warranted := ((outcomes_sound traced).2.2.2.2 0).2 _
    (outcome ▸ List.mem_singleton.mpr rfl)
  exact ⟨_, traced, outcome, warranted⟩

end Session

end Fieldbus
