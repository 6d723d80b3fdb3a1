import Fieldbus.Proofs.Mailbox.Postings
import Fieldbus.Proofs.Mailbox.SingleFlight
import Fieldbus.Proofs.Mailbox.Staleness

/-!
# Deadlines

A turn writes no request whose deadline has come, and none for which a wait had run out when the
turn took it from its queue. The reply to a request is not awaited beyond its deadline. A wait that
runs out later, while the request is being written, does not keep the turn from writing it again.
-/

namespace Fieldbus

namespace Mailbox

variable {m m' : Mailbox} {now ticket : Nat}

/-- No turn takes the request of the ticket from a queue any more. If it is in flight, either its
caller has given up or only its reply is outstanding. -/
structure Spent (m : Mailbox) (ticket : Nat) : Prop where
  known : ticket < m.nextTicket
  waiting : ∀ i r, m.request? i = some r → r.ticket ≠ ticket
  flying : ∀ flight, m.inFlight = some flight → flight.request.ticket = ticket →
    flight.abandoned = true ∨ m.handshake = .awaitResponse

def Timely (now : Nat) (m : Mailbox) : Prop :=
  ∀ flight, m.inFlight = some flight → now < flight.request.deadline

def Answered (m : Mailbox) : Prop :=
  ∀ message ticket, .routed message (.answered ticket) ∈ m.journal →
    ∃ workCounter, m.outcome? ticket = some (.ok (.response workCounter message))

/-! ## Spent requests -/

theorem requeue_abandoned {p : Protocol} {b : Buffer} {flight : InFlight}
    (flying : m.inFlight = some flight) (abandoned : flight.abandoned = true) :
    m.requeue p b =
      { m with handshake := .idle, consumed := true, inFlight := none }.putSend b := by
  simp only [requeue, flying, abandoned, if_true]

namespace Spent

theorem forgets (h : m.Spent ticket) (forgets : m.Forgets m') : m'.Spent ticket where
  known := by
    rw [forgets.nextTicket]
    exact h.known
  waiting i r found := h.waiting i r (forgets.request i r found)
  flying flight flying own := by
    rcases forgets.flight with calm | ⟨same, old, abandoned, before, now⟩
    · cases calm.symm.trans flying
    · cases now.symm.trans flying
      rcases h.flying old before own with given | awaiting
      · exact .inl (by simp [given])
      · exact .inr (same.trans awaiting)

theorem lodge (h : m.Spent ticket) (sendQueues : ProtocolQueues) (b : Buffer)
    (expectsResponse : Bool) (deadline : Nat) :
    (m.lodge sendQueues b expectsResponse deadline).Spent ticket where
  known := Nat.lt_succ_of_lt h.known
  waiting i r found := by
    rcases request?_setRequest_eq_some found with ⟨-, new⟩ | ⟨-, old⟩
    · cases new
      exact (Nat.ne_of_lt h.known).symm
    · exact h.waiting i r old
  flying := h.flying

theorem pick {p : Protocol} {b : Buffer} (h : m.Spent ticket) (picks : m.Picks now p b m') :
    m'.Spent ticket := by
  obtain ⟨sendQueues, request, -, -, found, -, rfl⟩ := picks
  refine ⟨h.known, fun i r waits => ?_, fun flight flying own => ?_⟩
  · rcases request?_setRequest_eq_some waits with ⟨-, none⟩ | ⟨-, before⟩
    · cases none
    · exact h.waiting i r before
  · cases flying
    exact absurd own (h.waiting b.index request found)

theorem stamp (h : m.Spent ticket) (b : Buffer) : (m.stamp b).2.Spent ticket := by
  refine ⟨h.known, h.waiting, fun flight flying own => (h.flying flight flying own).imp id ?_⟩
  intro awaiting
  have other : m.handshake ≠ .sendPending := by rw [awaiting]; decide
  exact (if_neg other).trans awaiting

theorem requeue (h : m.Spent ticket) (p : Protocol) (b : Buffer)
    (writing : ∀ flight, m.inFlight = some flight → m.handshake ≠ .awaitResponse) :
    (m.requeue p b).Spent ticket := by
  by_cases given : ∃ flight, m.inFlight = some flight ∧ flight.abandoned = true
  · obtain ⟨flight, flying, abandoned⟩ := given
    rw [requeue_abandoned flying abandoned]
    exact ⟨h.known, h.waiting, nofun⟩
  · rcases m.requeue_cases p b with
      eq | ⟨flight, flying, eq⟩ | ⟨flight, sendQueues, flying, -, eq⟩ <;> rw [eq]
    · exact ⟨h.known, h.waiting, nofun⟩
    · exact ⟨h.known, h.waiting, nofun⟩
    · refine ⟨h.known, fun i r found own => ?_, nofun⟩
      rcases request?_setRequest_eq_some found with ⟨-, back⟩ | ⟨-, before⟩
      · cases back
        rcases h.flying flight flying own with abandoned | awaiting
        · exact given ⟨flight, flying, abandoned⟩
        · exact writing flight flying awaiting
      · exact h.waiting i r before own

theorem acknowledge (h : m.Spent ticket) (b : Buffer) (workCounter : UInt16) :
    (m.acknowledge b workCounter).Spent ticket := by
  rcases m.acknowledge_cases b workCounter with
    ⟨handshake, eq⟩ | ⟨flight, flying, eq⟩ | ⟨flight, flying, eq⟩ <;> rw [eq]
  · exact ⟨h.known, h.waiting, nofun⟩
  · exact ⟨h.known, h.waiting, fun _ _ _ => .inr rfl⟩
  · exact ⟨h.known, h.waiting, nofun⟩

end Spent

/-! ## Requests in time -/

namespace Timely

theorem forgets (h : m.Timely now) (forgets : m.Forgets m') : m'.Timely now := by
  intro flight flying
  rcases forgets.flight with calm | ⟨-, old, abandoned, before, same⟩
  · cases calm.symm.trans flying
  · cases same.symm.trans flying
    exact h old before

theorem pick {p : Protocol} {b : Buffer} (picks : m.Picks now p b m') : m'.Timely now := by
  obtain ⟨sendQueues, request, -, -, -, timely, rfl⟩ := picks
  intro flight flying
  cases flying
  exact timely

theorem requeue (p : Protocol) (b : Buffer) : (m.requeue p b).Timely now := by
  rcases m.requeue_cases p b with
    eq | ⟨flight, -, eq⟩ | ⟨flight, sendQueues, -, -, eq⟩ <;> rw [eq] <;> exact nofun

theorem acknowledge (h : m.Timely now) (b : Buffer) (workCounter : UInt16) :
    (m.acknowledge b workCounter).Timely now := by
  rcases m.acknowledge_cases b workCounter with
    ⟨handshake, eq⟩ | ⟨flight, flying, eq⟩ | ⟨flight, flying, eq⟩ <;> rw [eq]
  · exact nofun
  · intro own same
    cases same
    exact h flight flying
  · exact nofun

end Timely

section Expire

variable (rest : ∀ flight, m.inFlight = some flight → m.handshake = .awaitResponse)

include rest

theorem expire_timely (now : Nat) : (m.expire now).Timely now := by
  intro own flying
  unfold expire at flying
  split at flying
  case h_1 calm => cases calm.symm.trans flying
  case h_2 flight here =>
    split at flying
    · rw [resolve_eq] at flying
      cases flying
    case isFalse early =>
      cases here.symm.trans flying
      exact Nat.lt_of_not_le fun late => early ⟨rest _ here, late⟩

theorem expire_late {flight : InFlight} (flying : m.inFlight = some flight)
    (late : flight.request.deadline ≤ now) (undecided : m.outcome? flight.request.ticket = none) :
    (m.expire now).outcome? flight.request.ticket = some (.error .timeout) := by
  rcases m.expire_cases now with eq | ⟨other, again, -, -, eq⟩
  · have timely := expire_timely rest now
    rw [eq] at timely
    exact absurd (timely flight flying) (Nat.not_lt_of_le late)
  · cases flying.symm.trans again
    have resolves : m.Resolves flight.request.ticket (.error .timeout) (m.expire now) :=
      .of_verdict (.of_journal rfl) (by rw [eq])
    rw [resolves.outcome, undecided]
    rfl

end Expire

/-! ## Outcomes that stay -/

theorem Records.journal (records : m.Records m') :
    ∃ events, m'.journal = m.journal ++ events := by
  cases records with
  | aside aside =>
      obtain ⟨events, journal, -⟩ := aside.journal
      exact ⟨events, journal⟩
  | stamps b eq => exact ⟨_, congrArg Mailbox.journal eq⟩
  | queues c message decoded wanted queues =>
      obtain ⟨_, _, rfl⟩ := queues.rest
      exact ⟨_, rfl⟩
  | answers c message flight sequenced wanted answers =>
      obtain ⟨_, rfl⟩ := answers.rest
      exact ⟨_, rfl⟩

theorem Beats.outcome_kept {x y : Moment} (orderly : Orderly x) (beats : Beats x y)
    {outcome : Except Error Reply} (decided : x.mailbox.outcome? ticket = some outcome) :
    y.mailbox.outcome? ticket = some outcome := by
  induction beats with
  | refl => exact decided
  | tail before beat ih =>
      obtain ⟨events, journal⟩ := (beat.records (Beats.orderly orderly before)).journal
      exact outcome?_kept journal ih

theorem Answered.congr (h : m.Answered) {events : List MailboxEvent}
    (journal : m'.journal = m.journal ++ events)
    (unanswered : ∀ message ticket, .routed message (.answered ticket) ∉ events) :
    m'.Answered := by
  intro message ticket mem
  rw [journal, List.mem_append] at mem
  rcases mem with old | new
  · obtain ⟨workCounter, outcome⟩ := h message ticket old
    exact ⟨workCounter, outcome?_kept journal outcome⟩
  · exact absurd new (unanswered message ticket)

theorem Records.answered (h : m.Answered) (records : m.Records m') : m'.Answered := by
  cases records with
  | aside aside =>
      obtain ⟨events, journal, inner⟩ := aside.journal
      exact h.congr journal fun message ticket mem => nomatch inner _ mem
  | stamps b eq =>
      rw [eq]
      have journal : (m.stamp b).2.journal =
        m.journal ++ [.stamped m.flightTicket m.counter.next.last] := rfl
      exact h.congr journal (by simp)
  | queues c message decoded wanted queues =>
      obtain ⟨_, _, rfl⟩ := queues.rest
      exact h.congr rfl (by simp)
  | answers c message flight sequenced wanted answers =>
      obtain ⟨_, eq⟩ := answers.rest
      have journal := congrArg Mailbox.journal eq
      intro other ticket mem
      rw [journal, List.mem_append] at mem
      rcases mem with old | new
      · obtain ⟨workCounter, outcome⟩ := h other ticket old
        exact ⟨workCounter, outcome?_kept journal outcome⟩
      · obtain ⟨rfl, rfl⟩ : other = message ∧ ticket = flight.request.ticket := by simpa using new
        exact ⟨flight.workCounter, answers.decided⟩

theorem Beats.answered {x y : Moment} (orderly : Orderly x) (h : x.mailbox.Answered)
    (beats : Beats x y) : y.mailbox.Answered := by
  induction beats with
  | refl => exact h
  | tail before beat ih => exact (beat.records (Beats.orderly orderly before)).answered ih

end Mailbox

/-! ## Waits that ran out -/

namespace Stage

/-- The requests for which a wait ran out are spent. -/
def Lapses (x : Stage) : Prop := ∀ ticket ∈ x.callers.lapsed, x.mailbox.Spent ticket

variable {m : Mailbox} {c : Callers} {errand : Option Errand} {reading : List Buffer}
  {slave : SlaveConfig} {h : Handle}

theorem Sound.named (sound : Sound slave ⟨m, c, errand, reading⟩) (known : c.Knows h) :
    (∀ i r, m.request? i = some r → r.ticket = h.ticket → i = h.index) ∧
      ∀ flight, m.inFlight = some flight → flight.request.ticket = h.ticket →
        flight.index = h.index := by
  obtain ⟨posting, mem, index, ticket⟩ := known
  constructor
  · intro i r found own
    rcases sound.kept.state with ⟨-, stores⟩ | shut
    · obtain ⟨other, mem', rfl, rfl⟩ := sound.booked.waiting stores.custody found
      rw [sound.booked.unique mem' mem (own.trans ticket.symm), index]
    · rw [shut.vacant] at found
      cases found
  · intro flight flying own
    obtain ⟨other, mem', place, request⟩ := sound.booked.flying flight flying
    rw [← place, sound.booked.unique mem' mem ?_, index]
    rw [request, own, ticket]

/-- A request that waits is withdrawn. If another one waits under the index, only the reply is
outstanding. -/
theorem Sound.spent_of_queued (sound : Sound slave ⟨m, c, errand, reading⟩) (known : c.Knows h)
    {p : Protocol} {b : Buffer} {sendQueues : ProtocolQueues}
    (removed : m.sendQueues.remove? h.index = some (p, b, sendQueues)) :
    (m.abandon h).Spent h.ticket := by
  obtain ⟨waits, flies⟩ := sound.named known
  obtain ⟨posting, mem, -, ticket⟩ := known
  rw [Mailbox.abandon_queued removed]
  refine ⟨ticket ▸ sound.booked.numbered posting mem, fun i r found own => ?_,
    fun flight flying own => .inr ?_⟩
  · rcases Mailbox.request?_setRequest_eq_some found with ⟨-, none⟩ | ⟨other, before⟩
    · cases none
    · exact other (waits i r before own).symm
  · have flying : m.inFlight = some flight := flying
    cases errand with
    | none => exact sound.booked.rest rfl flight flying
    | some e =>
        -- The buffer of the request that is being written cannot stand in a queue.
        have index := ((sound.booked.busy e rfl).2 flight flying).2.1
        rcases sound.kept.state with ⟨-, stores⟩ | shut
        · obtain ⟨before, after, entries, same, -⟩ :=
            stores.custody.stock.queued.remove? removed
          have own := stores.perm (List.perm_append_singleton e.buffer c.buffers).symm
          refine absurd ?_ (own.custody.stock.fresh p)
          rw [← index, flies flight flying ‹_›, ← same, entries]
          simp
        · cases flying.symm.trans shut.calm

/-- A request in flight loses its caller, or the wait for its reply ends. -/
theorem Sound.spent_of_unqueued (sound : Sound slave ⟨m, c, errand, reading⟩) (known : c.Knows h)
    (missing : m.sendQueues.remove? h.index = none) : (m.abandon h).Spent h.ticket := by
  obtain ⟨waits, flies⟩ := sound.named known
  obtain ⟨posting, mem, -, ticket⟩ := known
  have numbered : h.ticket < m.nextTicket := ticket ▸ sound.booked.numbered posting mem
  have vacant : m.request? h.index = none := by
    rcases sound.kept.state with ⟨-, stores⟩ | shut
    · exact (Mailbox.not_queued_iff stores.custody h.index).mp missing
    · exact shut.vacant h.index
  have waiting (i : Nat) (r : PendingRequest) (found : m.request? i = some r) :
      r.ticket ≠ h.ticket := by
    intro own
    rw [waits i r found own, vacant] at found
    cases found
  unfold Mailbox.abandon
  rw [missing]
  dsimp only
  split
  case h_1 calm =>
    exact ⟨numbered, waiting, fun flight flying => nomatch calm.symm.trans flying⟩
  case h_2 flight flying =>
    split
    case isTrue index =>
      split
      · exact ⟨numbered, waiting, nofun⟩
      · refine ⟨numbered, waiting, fun other same _ => .inl ?_⟩
        cases same
        rfl
    case isFalse other =>
      refine ⟨numbered, waiting, fun flight' flying' own => absurd ?_ other⟩
      cases flying.symm.trans flying'
      exact flies flight flying own

theorem Sound.spent (sound : Sound slave ⟨m, c, errand, reading⟩) (known : c.Knows h) :
    (m.settle h).2.Spent h.ticket := by
  obtain ⟨posting, mem, -, ticket⟩ := id known
  have numbered : h.ticket < m.nextTicket := ticket ▸ sound.booked.numbered posting mem
  have pending := sound.orderly.undecided.pending
  cases decided : m.outcome? h.ticket with
  | some outcome =>
      have same : (m.settle h).2 = m := by rw [Mailbox.settle, decided]
      rw [same]
      refine ⟨numbered, fun i r found own => ?_, fun flight flying own => ?_⟩
      · have undecided := (pending (some i) r found).2
        rw [own, decided] at undecided
        cases undecided
      · have undecided := (pending none flight.request (by rw [Mailbox.tracked, flying]; rfl)).2
        rw [own, decided] at undecided
        cases undecided
  | none =>
      have given : (m.settle h).2 = m.abandon h := by rw [Mailbox.settle, decided]
      rw [given]
      cases removed : m.sendQueues.remove? h.index with
      | some entry => exact sound.spent_of_queued known removed
      | none => exact sound.spent_of_unqueued known removed

end Stage

namespace Stride

variable {now : Nat} {x y : Stage} {slave : SlaveConfig}

theorem lapses (sound : x.Sound slave) (h : x.Lapses) (stride : Stride now x y) : y.Lapses := by
  cases stride with
  | @act m m' c c' errand reading act =>
      cases (act.alters sound.kept).1 with
      | forgets forgets posted lapsed =>
          rcases lapsed with same | ⟨handle, known, -, rfl, more⟩
          · intro ticket mem
            exact (h ticket (same ▸ mem)).forgets forgets
          · intro ticket mem
            have mem : ticket ∈ c'.lapsed := mem
            rw [more, List.mem_cons] at mem
            rcases mem with rfl | mem
            · exact sound.spent known
            · exact (h ticket mem).forgets forgets
      | lodges expectsResponse deadline custody perm becomes =>
          exact fun ticket mem => (h ticket mem).lodge ..
  | aside c beside beats => exact fun ticket mem => (h ticket mem).forgets beside.forgets
  | orphan c reading next vacant => exact (sound.kept.occupied next vacant).elim
  | overdue c reading next found late =>
      exact fun ticket mem => (h ticket mem).forgets (sound.kept.overdue_forgets next)
  | pick c reading picks found => exact fun ticket mem => (h ticket mem).pick picks
  | stamp m c reading errand => exact fun ticket mem => (h ticket mem).stamp errand.buffer
  | requeue m c reading errand failures =>
      intro ticket mem
      refine ((h ticket mem).forgets (m.retried_forgets failures)).requeue _ _
        fun flight flying => ?_
      exact ((sound.booked.busy errand rfl).2 flight flying).1
  | acknowledge m c reading errand failures workCounter =>
      intro ticket mem
      exact ((h ticket mem).forgets (m.retried_forgets failures)).acknowledge _ workCounter

theorem timely (sound : x.Sound slave) (h : x.mailbox.Timely now) (stride : Stride now x y) :
    y.mailbox.Timely now := by
  cases stride with
  | act errand reading act =>
      cases (act.alters sound.kept).1 with
      | forgets forgets posted lapsed => exact h.forgets forgets
      | lodges expectsResponse deadline custody perm becomes => exact h
  | aside c beside beats => exact h.forgets beside.forgets
  | orphan c reading next vacant => exact h
  | overdue c reading next found late => exact h.forgets (sound.kept.overdue_forgets next)
  | pick c reading picks found => exact .pick picks
  | stamp m c reading errand => exact h
  | requeue m c reading errand failures => exact .requeue _ _
  | acknowledge m c reading errand failures workCounter =>
      exact Mailbox.Timely.acknowledge (m := m.retried failures) h _ workCounter

end Stride

namespace Strides

variable {now : Nat} {x y : Stage} {slave : SlaveConfig}

theorem beats (path : Strides now x y) :
    Mailbox.Beats ⟨x.mailbox, x.reading⟩ ⟨y.mailbox, y.reading⟩ := by
  induction path with
  | refl => exact .refl
  | tail _ stride ih => exact ih.trans stride.beats

theorem lapses (sound : x.Sound slave) (h : x.Lapses) (path : Strides now x y) : y.Lapses := by
  induction path with
  | refl => exact h
  | tail before stride ih => exact stride.lapses (Strides.sound sound before) ih

theorem timely (sound : x.Sound slave) (h : x.mailbox.Timely now) (path : Strides now x y) :
    y.mailbox.Timely now := by
  induction path with
  | refl => exact h
  | tail before stride ih => exact stride.timely (Strides.sound sound before) ih

end Strides

theorem Transport.Hosts.within {σ : Type} {t : Transport σ} {view : σ → Callers}
    (hosts : t.Hosts view) : t.Within Mailbox.Leads := by
  have leads {x y : Scene} (acts : Scene.Acts x y) : Mailbox.Leads x.mailbox y.mailbox := by
    induction acts with
    | refl => exact fun _ => .refl
    | tail _ act ih => exact fun held => (ih held).trans (act.beats held)
  exact ⟨fun slot m s => leads (hosts.slotState slot m s),
    fun data m s => leads (hosts.write data m s), fun bytes m s => leads (hosts.read bytes m s)⟩

namespace Scene

theorem Reached.lapses {x : Scene} (reached : x.Reached) : (x.atRest []).Lapses := by
  have both : (∃ slave, (x.atRest []).Sound slave) ∧ (x.atRest []).Lapses :=
    reached.induction (P := fun y => (∃ slave, y.Sound slave) ∧ y.Lapses)
      (fun slave config sendId receiveId =>
        ⟨⟨slave, Stage.sound_create ..⟩, List.forall_mem_nil _⟩)
      fun now y z ⟨⟨slave, sound⟩, lapses⟩ stride =>
        ⟨⟨slave, stride.sound sound⟩, stride.lapses sound lapses⟩
  exact both.2

theorem Reached.answered {x : Scene} (reached : x.Reached) : x.mailbox.Answered := by
  have both : Mailbox.Orderly ⟨x.mailbox, []⟩ ∧ x.mailbox.Answered :=
    reached.induction (P := fun y => Mailbox.Orderly ⟨y.mailbox, y.reading⟩ ∧ y.mailbox.Answered)
      (fun slave config sendId receiveId => ⟨Mailbox.orderly_create .., fun _ _ => nofun⟩)
      fun now y z ⟨orderly, answered⟩ stride =>
        ⟨Mailbox.Beats.orderly orderly stride.beats,
          Mailbox.Beats.answered orderly answered stride.beats⟩
  exact both.2

theorem later_beats {x y : Scene} (later : Relation.ReflTransGen Happens x y) :
    Mailbox.Beats ⟨x.mailbox, []⟩ ⟨y.mailbox, []⟩ := by
  induction later with
  | refl => exact .refl
  | tail _ happens ih =>
      obtain ⟨now, path⟩ := happens.strides []
      exact ih.trans path.beats

section Turn

variable {σ : Type} {t : Transport σ} {view : σ → Callers} {m : Mailbox} {s : σ}
  (reached : Reached ⟨m, view s⟩) (hosts : t.Hosts view) {now : Nat}

include reached

include hosts

theorem Reached.taken_unlapsed {taken : σ} {p : Protocol} {b : Buffer} {m₁ : Mailbox}
    {flight : InFlight} (takes : m.Takes t now s p b m₁ taken)
    (flying : m₁.inFlight = some flight) : flight.request.ticket ∉ (view taken).lapsed := by
  intro lapsed
  obtain ⟨request, same, way⟩ := reached.takes hosts takes
  have writing := ((Strides.sound reached.sound way).booked.busy _ rfl).2 flight flying
  have spent := Strides.lapses reached.sound reached.lapses way flight.request.ticket lapsed
  cases same.symm.trans flying
  rcases spent.flying _ flying rfl with abandoned | awaiting
  · cases abandoned
  · exact writing.1 awaiting

theorem Reached.turn_timely (now : Nat) : (m.turn t now s).2.1.Timely now := by
  rcases reached.sound.kept.state with ⟨opened, -⟩ | shut
  · obtain ⟨-, sound⟩ := reached.expires now
    exact Strides.timely sound (Mailbox.expire_timely (reached.sound.booked.rest rfl) now)
      (Mailbox.turn_strides hosts m s opened)
  · intro flight flying
    have closed : m.closed = true := shut.closed
    rw [Mailbox.turn, if_pos closed] at flying
    cases flying.symm.trans shut.calm

theorem Reached.overdue_ends {flight : InFlight} (flying : m.inFlight = some flight)
    (late : flight.request.deadline ≤ now) :
    (m.expire now).outcome? flight.request.ticket = some (.error .timeout) ∧
      Mailbox.Beats ⟨m.expire now, []⟩ ⟨(m.turn t now s).2.1, []⟩ := by
  have sound := reached.sound
  have undecided := (sound.orderly.undecided.pending none flight.request
    (by rw [Mailbox.tracked, atRest, flying]; rfl)).2
  refine ⟨Mailbox.expire_late (sound.booked.rest rfl) flying late undecided, ?_⟩
  rcases sound.kept.state with ⟨opened, -⟩ | shut
  · exact Strides.beats (Mailbox.turn_strides hosts m s opened)
  · cases flying.symm.trans shut.calm

end Turn

variable {σ : Type} {t : Transport σ} {view : σ → Callers} {m : Mailbox} {s : σ}

/-- Every request that a turn writes has time left, and no wait for it had run out when the turn
took it from its queue. After the turn the request in flight has time left too. One that had none
is timed out before the read slot is looked at and stays so, whatever is read then or later. -/
theorem deadlines_kept (reached : Reached ⟨m, view s⟩) (hosts : t.Hosts view) (now : Nat) :
    (∀ taken request data left m' s', m.Writing t now s taken request data left m' s' →
      now < request.deadline ∧ request.ticket ∉ (view taken).lapsed) ∧
    (∀ flight, (m.turn t now s).2.1.inFlight = some flight → now < flight.request.deadline) ∧
    ∀ flight, m.inFlight = some flight → flight.request.deadline ≤ now →
      (∀ m' s', m.Polling t now m' s' →
        m'.outcome? flight.request.ticket = some (.error .timeout)) ∧
      ∀ y, Relation.ReflTransGen Happens
          ⟨(m.turn t now s).2.1, view (m.turn t now s).2.2⟩ y →
        y.mailbox.outcome? flight.request.ticket = some (.error .timeout) ∧
        ∀ message, .routed message (.answered flight.request.ticket) ∉ y.mailbox.journal := by
  refine ⟨fun taken request data left m' s' writing => ?_, reached.turn_timely hosts now,
    fun flight flying late => ?_⟩
  case refine_1 =>
    obtain ⟨p, b, m₁, takes, flying, timely, -⟩ := writing.strides hosts
    exact ⟨timely, reached.taken_unlapsed hosts takes flying⟩
  case refine_2 =>
    obtain ⟨timeout, turned⟩ := reached.overdue_ends hosts flying late
    obtain ⟨expires, sound⟩ := reached.expires now
    refine ⟨fun m' s' polling => ?_, fun y later => ?_⟩
    · exact (polling.beats_expired hosts.within).outcome_kept sound.orderly timeout
    · have beats := turned.trans (later_beats later)
      have stays := Mailbox.Beats.outcome_kept sound.orderly beats timeout
      refine ⟨stays, fun message answered => ?_⟩
      have start : (m.expire now).Answered :=
        Mailbox.Beats.answered reached.sound.orderly reached.answered (Strides.beats expires)
      obtain ⟨workCounter, outcome⟩ :=
        Mailbox.Beats.answered sound.orderly start beats message _ answered
      cases stays.symm.trans outcome

/-! ## A mailbox with one buffer -/

/-- The first request is timed out, and the second is written in time. -/
theorem deadlines_kept_overtaken :
    (∃ flight, Session.overtaken.mailbox.inFlight = some flight ∧ flight.request.ticket = 0 ∧
      flight.request.deadline ≤ 20) ∧
    (∃ taken request data left m' s',
      Session.overtaken.mailbox.Writing Session.mute.transport 20 () taken request data left m' s' ∧
        20 < request.deadline) ∧
    (Session.overtaken.mailbox.turn Session.mute.transport 20 ()).2.1.outcome? 0 =
      some (.error .timeout) := by
  obtain ⟨b₁, b₁', -, -, -, first⟩ := submit_acts (c := ⟨[], [], []⟩) (by decide +kernel :
    (Session.cramped.submit .coe 0x1001 [1] true 10).1.toOption = some ⟨0, 0, 10⟩)
  have written := (reached_cramped.acts first).turn (d := Session.mute) 0 ()
  obtain ⟨b₂, b₂', -, -, -, second⟩ := submit_acts (by decide +kernel :
    (((Session.cramped.submit .coe 0x1001 [1] true 10).2.turn Session.mute.transport 0
      ()).2.1.submit .coe 0x1001 [2] true 100).1.toOption = some ⟨0, 1, 100⟩)
  have reached := written.acts second
  generalize Callers.mk _ _ _ = c at reached
  have reached : Reached ⟨Session.overtaken.mailbox, c⟩ := reached
  have hosts := Session.mute.transport_hosts c
  obtain ⟨writes, -, expires⟩ := deadlines_kept (s := ()) reached hosts 20
  have waits : Session.overtaken.mailbox.inFlight.map (fun flight =>
      (flight.request.ticket, flight.request.deadline)) = some (0, 10) := by decide +kernel
  obtain ⟨flight, flying, own⟩ := Option.map_eq_some_iff.mp waits
  obtain ⟨ticket, deadline⟩ := Prod.mk.inj own
  have late : flight.request.deadline ≤ 20 := by omega
  refine ⟨⟨flight, flying, ticket, late⟩, ?_, ?_⟩
  · obtain ⟨⟨p, b⟩, next⟩ := Option.isSome_iff_exists.mp (by decide +kernel :
      ((Mailbox.poll Session.mute.transport 20 (Session.overtaken.mailbox.expire 20)
        ()).2.1.takeNext 20).1.isSome = true)
    have takes := Mailbox.takes_of_some 20 (by decide +kernel) (by decide +kernel) next
    obtain ⟨request, flying, -, -⟩ := takes.strides hosts []
    have writing := Mailbox.Writing.first takes flying rfl
    exact ⟨_, _, _, _, _, _, writing, (writes _ _ _ _ _ _ writing).1⟩
  · have timeout := ((expires flight flying late).2 _ .refl).1
    rwa [ticket] at timeout

/-- The slave takes no message, and the caller gives up while one is written. -/
def forsaking (h : Handle) : Transport (List Nat) where
  slotState _ m lapsed := (.ok .empty, m, lapsed)
  write _ m lapsed :=
    (.ok 0, (m.settle h).2, (Callers.hear ⟨[], [], lapsed⟩ h (m.settle h).1).lapsed)
  read bytes m lapsed := ((.ok 0, bytes), m, lapsed)

theorem forsaking_hosts {h : Handle} {posted : List Posting}
    (known : Callers.Knows ⟨[], posted, []⟩ h) :
    (forsaking h).Hosts fun lapsed => ⟨[], posted, lapsed⟩ where
  slotState _ _ _ := .refl
  write _ m lapsed := by
    have waits : Act ⟨m, ⟨[], posted, lapsed⟩⟩ ⟨(m.settle h).2, _⟩ := .wait known
    rw [Callers.hear_lapsed] at waits
    exact .single waits
  read _ _ _ := .refl

/-- A turn goes on to write a request after the wait for it ran out. -/
theorem exists_lapsed_written : ∃ (t : Transport (List Nat)) (view : List Nat → Callers)
    (m : Mailbox) (s : List Nat), Reached ⟨m, view s⟩ ∧ t.Hosts view ∧
      ∃ taken request data left m' s', m.Writing t 0 s taken request data left m' s' ∧
        request.ticket ∈ (view s').lapsed := by
  let h : Handle := ⟨0, 0, 1000000⟩
  obtain ⟨b, b', -, -, -, submitted⟩ := submit_acts (c := ⟨[], [], []⟩) (by decide +kernel :
    (Session.cramped.submit .coe 0x1001 [1] true 1000000).1.toOption = some h)
  have known : Callers.Knows ⟨[], [⟨0, ⟨0, true, 1000000⟩, b'.bytes⟩], []⟩ h :=
    ⟨_, List.mem_singleton_self _, rfl, rfl⟩
  have hosts := forsaking_hosts known
  refine ⟨forsaking h, _, (Session.cramped.submit .coe 0x1001 [1] true 1000000).2, [],
    reached_cramped.acts submitted, hosts, ?_⟩
  let next := (Mailbox.poll (forsaking h) 0
    ((Session.cramped.submit .coe 0x1001 [1] true 1000000).2.expire 0) []).2.1.takeNext 0
  have chosen : next.1.isSome = true := by decide +kernel
  have takes := Mailbox.takes_of_some (t := forsaking h) (s := [])
    (m := (Session.cramped.submit .coe 0x1001 [1] true 1000000).2) 0 (by decide +kernel)
    (by decide +kernel) (Option.some_get chosen).symm
  obtain ⟨request, flying, -, -⟩ := takes.strides hosts []
  have first := Mailbox.Writing.first takes flying rfl
  have ticket : next.2.inFlight.map (·.request.ticket) = some 0 := by decide +kernel
  refine ⟨_, _, _, 8, _, _, .again first rfl, ?_⟩
  have own : request.ticket = 0 := by
    rw [flying] at ticket
    exact Option.some.inj ticket
  dsimp only
  rw [own]
  decide +kernel

end Scene

end Fieldbus
