import Fieldbus.Proofs.Mailbox.Closing

/-!
# What is seen of a session

A trace tells of every turn when it was and which calls it made, of every request that was queued
which message lay in its buffer, and when the mailbox was closed. Each run of a session has a trace.

`Session.Shows` adds to a step of a session what is seen of it. `Mailbox.Undergoes` is what such a
sight does to the mailbox, whoever the callers are and whatever they hold.
-/

namespace Fieldbus

inductive Sight where
  | turn (now : Nat) (calls : List Call)
  | queue (request : PendingRequest) (message : Bytes)
  | close
  | aside

def callsOf (trace : List Sight) : List Call :=
  trace.flatMap fun
    | .turn _ calls => calls
    | _ => []

def queuedIn (trace : List Sight) : List (PendingRequest × Bytes) :=
  trace.filterMap fun
    | .queue request message => some (request, message)
    | _ => none

@[simp] theorem callsOf_append (trace more : List Sight) :
    callsOf (trace ++ more) = callsOf trace ++ callsOf more :=
  List.flatMap_append

@[simp] theorem queuedIn_append (trace more : List Sight) :
    queuedIn (trace ++ more) = queuedIn trace ++ queuedIn more :=
  List.filterMap_append

namespace Mailbox

/-- Requests and channel are as they were, or a wait that ran out withdrew a request. -/
def Idles (m m' : Mailbox) : Prop :=
  m.Untouched m' ∨ ∃ h r, m.Withdraws h r m'

inductive Undergoes (m : Mailbox) : Sight → Mailbox → Prop
  | turn {σ : Type} (d : SlotDevice σ) (device : σ) (now : Nat) :
      m.Undergoes (.turn now (m.calls d now device)) (m.turn d.transport now device).2.1
  | queue {held : List Buffer} {p : Protocol} {b : Buffer} {bs : List Buffer}
      {sendQueues : ProtocolQueues} (expectsResponse : Bool) (deadline : Nat) :
      m.Sound (b :: held) → bs.Perm (b :: m.sendQueues.entries p) →
      m.sendQueues.Becomes m.sendPool.capacity p bs sendQueues →
      (∃ header, MessageHeader.decode? b.bytes = .ok header) →
      m.Undergoes (.queue ⟨m.nextTicket, expectsResponse, deadline⟩ b.bytes)
        (m.lodge sendQueues b expectsResponse deadline)
  | close {m' : Mailbox} : m.Dismisses m' → m'.Shut → m.Undergoes .close m'
  | aside {m' : Mailbox} : m.Idles m' → m.Undergoes .aside m'

variable {m m' : Mailbox} {sight : Sight}

theorem Dismisses.tells (h : m.Dismisses m') : m.Tells [] m' := by
  obtain ⟨events, journal, dismissed⟩ := h.journal
  refine ⟨events, journal, List.filterMap_eq_nil_iff.mpr fun event mem => ?_⟩
  obtain ⟨i, r, -, rfl⟩ := dismissed event mem
  rfl

theorem Idles.tells (h : m.Idles m') : m.Tells [] m' := by
  rcases h with untouched | ⟨g, r, withdraws⟩
  · exact ⟨[], untouched.journal.trans (List.append_nil _).symm, rfl⟩
  · exact ⟨_, withdraws.journal, rfl⟩

theorem Idles.counter (h : m.Idles m') : m'.counter = m.counter := by
  rcases h with untouched | ⟨g, r, withdraws⟩
  · exact untouched.counter
  · exact withdraws.counter

theorem Idles.closed (idles : m.Idles m') : m'.closed = m.closed := by
  rcases idles with untouched | ⟨g, r, withdraws⟩
  · exact untouched.closed
  · exact withdraws.closed

theorem Idles.nextTicket (idles : m.Idles m') : m'.nextTicket = m.nextTicket := by
  rcases idles with untouched | ⟨g, r, withdraws⟩
  · exact untouched.nextTicket
  · exact withdraws.nextTicket

theorem Idles.outcome?_eq (idles : m.Idles m') (ticket : Nat) :
    m'.outcome? ticket = m.outcome? ticket := by
  rcases idles with untouched | ⟨g, r, withdraws⟩
  · rw [outcome?, untouched.journal, outcome?]
  · rw [outcome?_append withdraws.journal]
    exact Option.or_none

theorem Deeds.tells {now : Nat} {calls : List Call} (path : Deeds now m calls m') :
    m.Tells calls m' := by
  induction path with
  | refl => exact ⟨[], (List.append_nil _).symm, rfl⟩
  | tail _ deed ih => exact ih.trans deed.tells

theorem Undergoes.tells (h : m.Undergoes sight m') : m.Tells (callsOf [sight]) m' := by
  cases h with
  | turn d device now =>
      rw [callsOf, List.flatMap_singleton]
      exact (turn_path d now m device).tells
  | queue expectsResponse deadline => exact ⟨_, rfl, rfl⟩
  | close dismisses => exact dismisses.tells
  | aside idles => exact idles.tells

theorem Undergoes.grown (undergoes : m.Undergoes sight m') :
    ∃ events, m'.journal = m.journal ++ events := by
  obtain ⟨events, journal, -⟩ := undergoes.tells
  exact ⟨events, journal⟩

theorem Dismisses.unadmitted (h : m.Dismisses m') : m'.admissions = m.admissions := by
  obtain ⟨events, journal, dismissed⟩ := h.journal
  rw [admissions_append journal, List.filterMap_eq_nil_iff.mpr, List.append_nil]
  intro event mem
  obtain ⟨i, r, -, rfl⟩ := dismissed event mem
  rfl

theorem Idles.admissions (h : m.Idles m') : m'.admissions = m.admissions := by
  rcases h with untouched | ⟨g, r, withdraws⟩
  · rw [Mailbox.admissions, untouched.journal, Mailbox.admissions]
  · exact withdraws.admissions

theorem turn_admissions {held : List Buffer} {σ : Type} (state : m.Sound held ∨ m.closed = true)
    (d : SlotDevice σ) (device : σ) (now : Nat) :
    (m.turn d.transport now device).2.1.admissions = m.admissions := by
  rcases state with sound | closed
  · exact ((turn_moves d now m device).books sound).1
  · rw [turn, if_pos closed]

theorem Undergoes.admissions {held : List Buffer} (state : m.Sound held ∨ m.closed = true)
    (h : m.Undergoes sight m') :
    m'.admissions.map Prod.snd = m.admissions.map Prod.snd ++ (queuedIn [sight]).map Prod.fst := by
  cases h with
  | turn d device now => rw [turn_admissions state, queuedIn]; simp
  | queue expectsResponse deadline => rw [admissions_lodge, List.map_append]; rfl
  | close dismisses => rw [dismisses.unadmitted, queuedIn]; simp
  | aside idles => rw [idles.admissions, queuedIn]; simp

theorem decode_of_enqueue {front expectsResponse : Bool} {b : Buffer} {deadline : Nat} {h : Handle}
    (queued : (m.enqueue front b expectsResponse deadline).1 = .ok h) :
    ∃ header, MessageHeader.decode? b.bytes = .ok header := by
  have decoded (push : ProtocolQueues → Protocol → Buffer → Option ProtocolQueues)
      (queued : (m.enqueueWith push b expectsResponse deadline).1 = .ok h) :
      ∃ header, MessageHeader.decode? b.bytes = .ok header := by
    unfold enqueueWith at queued
    split at queued
    · split at queued
      · cases queued
      case h_2 header decoded => exact ⟨header, decoded⟩
    · cases queued
  cases front with
  | true => exact decoded _ queued
  | false => exact decoded _ queued

end Mailbox

namespace Session

inductive Shows : Session → Sight → Session → Prop
  | turn {m : Mailbox} {held : List Buffer} {pending : List Handle} {σ : Type}
      (d : SlotDevice σ) (device : σ) (now : Nat) :
      Shows ⟨m, held, pending⟩ (.turn now (m.calls d now device))
        ⟨(m.turn d.transport now device).2.1, held, pending⟩
  | queue {m : Mailbox} (left : List Buffer) {right : List Buffer} {pending : List Handle}
      {b : Buffer} {h : Handle} (front expectsResponse : Bool) (deadline : Nat) :
      (m.enqueue front b expectsResponse deadline).1 = .ok h →
      Shows ⟨m, left ++ b :: right, pending⟩ (.queue ⟨h.ticket, expectsResponse, deadline⟩ b.bytes)
        ⟨(m.enqueue front b expectsResponse deadline).2, left ++ right, h :: pending⟩
  | close {m : Mailbox} {held : List Buffer} {pending : List Handle} :
      Shows ⟨m, held, pending⟩ .close ⟨m.close.2, held, pending⟩
  | aside {s s' : Session} : Step s s' → s.mailbox.Idles s'.mailbox → Shows s .aside s'

/-- The run of a new session that led to `s` showed `trace`. -/
inductive Traced : List Sight → Session → Prop
  | start (slave : SlaveConfig) (config : Config) (sendId receiveId : Nat) :
      Traced [] (start slave config sendId receiveId)
  | step {trace : List Sight} {s s' : Session} {sight : Sight} :
      Traced trace s → Shows s sight s' → Traced (trace ++ [sight]) s'

variable {s s' : Session} {sight : Sight} {trace : List Sight}

theorem Shows.step (shown : Shows s sight s') : Step s s' := by
  cases shown with
  | turn d device now => exact .turn d device now
  | @queue m left right pending b h front expectsResponse deadline queued =>
      have step := @Step.enqueue m left right pending b front expectsResponse deadline
      rw [queued] at step
      exact step
  | close => exact .close
  | aside step => exact step

theorem Traced.reachable (traced : Traced trace s) : s.Reachable := by
  induction traced with
  | start slave config sendId receiveId => exact reachable_start slave config sendId receiveId
  | step _ shown ih => exact ih.run (.single shown.step)

theorem Step.shows (reached : s.Reachable) (step : Step s s') : ∃ sight, Shows s sight s' := by
  have idles (idle : s.mailbox.Idles s'.mailbox) : ∃ sight, Shows s sight s' :=
    ⟨.aside, .aside step idle⟩
  have state := reached.sound_or_shut
  cases step with
  | take take => exact idles (.inl (Mailbox.takeSendBuffer_untouched take))
  | change left => exact idles (.inl (.refl _))
  | @giveBack m left right pending b => exact idles (.inl (m.putSend_untouched b))
  | @enqueue m left right pending b front expectsResponse deadline =>
      by_cases queued : ∃ h, (m.enqueue front b expectsResponse deadline).1 = .ok h
      · obtain ⟨h, queued⟩ := queued
        have shown := @Shows.queue m left right pending b h front expectsResponse deadline queued
        rw [queued]
        exact ⟨_, shown⟩
      · refine idles (.inl ?_)
        rcases state with ⟨-, sound⟩ | shut
        · have mailbox : m.Sound (b :: (left ++ right)) := sound.mailbox.perm List.perm_middle.symm
          rcases Mailbox.enqueue_cases mailbox.custody front expectsResponse deadline with
            ⟨cause, eq⟩ | ⟨p, bs, sendQueues, perm, becomes, eq⟩
          · rw [eq]
            exact m.putSend_untouched b
          · exact absurd ⟨_, congrArg Prod.fst eq⟩ queued
        · exact (Mailbox.enqueue_shut shut.closed front b expectsResponse deadline).2
  | enqueueForeign front expectsResponse deadline foreign =>
      refine idles (.inl ?_)
      dsimp only
      rw [Mailbox.enqueue_foreign foreign]
      exact .refl _
  | turn d device now => exact ⟨_, .turn d device now⟩
  | @wait m held left right h =>
      refine idles ?_
      rcases state with ⟨-, sound⟩ | shut
      · rcases Mailbox.settle_cases sound.mailbox h with eq | ⟨r, -, -, withdraws, -⟩
        · rw [eq]
          exact .inl (.refl m)
        · exact .inr ⟨h, r, withdraws⟩
      · rw [shut.settle]
        exact .inl (.refl m)
  | tryRead p => exact idles (.inl (Mailbox.tryRead_untouched _ p))
  | requestRead p => exact idles (.inl (Mailbox.requestRead_untouched _ p))
  | read p => exact idles (.inl (Mailbox.read_untouched _ p))
  | scheduleRead => exact idles (.inl (Mailbox.scheduleRead_untouched _))
  | close => exact ⟨.close, .close⟩

theorem Reachable.traced (reached : s.Reachable) : ∃ trace, Traced trace s := by
  obtain ⟨slave, config, sendId, receiveId, run⟩ := reached
  induction run with
  | refl => exact ⟨[], .start slave config sendId receiveId⟩
  | tail run step ih =>
      obtain ⟨trace, traced⟩ := ih
      obtain ⟨sight, shown⟩ := step.shows traced.reachable
      exact ⟨trace ++ [sight], .step traced shown⟩

theorem Shows.undergoes (reached : s.Reachable) (shown : Shows s sight s') :
    s.mailbox.Undergoes sight s'.mailbox := by
  have state := reached.sound_or_shut
  cases shown with
  | turn d device now => exact .turn d device now
  | @queue m left right pending b h front expectsResponse deadline queued =>
      have decoded := Mailbox.decode_of_enqueue queued
      rcases state with ⟨-, sound⟩ | shut
      · have mailbox : m.Sound (b :: (left ++ right)) := sound.mailbox.perm List.perm_middle.symm
        rcases Mailbox.enqueue_cases mailbox.custody front expectsResponse deadline with
          ⟨cause, eq⟩ | ⟨p, bs, sendQueues, perm, becomes, eq⟩
        · rw [eq] at queued
          cases queued
        · rw [eq] at queued ⊢
          cases queued
          exact .queue expectsResponse deadline mailbox perm becomes decoded
      · obtain ⟨⟨cause, refused⟩, -⟩ :=
          Mailbox.enqueue_shut shut.closed front b expectsResponse deadline
        rw [refused] at queued
        cases queued
  | close =>
      rcases state with ⟨opened, sound⟩ | shut
      · exact .close (sound.mailbox.close opened).1 (sound.mailbox.close opened).2
      · dsimp only
        rw [Mailbox.close, if_pos shut.closed]
        exact .close (.refl _) shut
  | aside step idles => exact .aside idles

theorem Traced.told (traced : Traced trace s) :
    s.mailbox.exchanges = (callsOf trace).filterMap Call.exchange? := by
  induction traced with
  | start => rfl
  | step traced shown ih =>
      obtain ⟨events, journal, told⟩ := (shown.undergoes traced.reachable).tells
      rw [Mailbox.exchanges_append journal, ih, told, callsOf_append, List.filterMap_append]

theorem Traced.admissions (traced : Traced trace s) :
    s.mailbox.admissions.map Prod.snd = (queuedIn trace).map Prod.fst := by
  induction traced with
  | start => rfl
  | step traced shown ih =>
      have undergoes := shown.undergoes traced.reachable
      rw [undergoes.admissions traced.reachable.sound_or_closed, ih, queuedIn_append,
        List.map_append]

theorem Traced.split {before after : List Sight} (traced : Traced (before ++ sight :: after) s) :
    ∃ s₀ s₁, Traced before s₀ ∧ Shows s₀ sight s₁ := by
  generalize whole : before ++ sight :: after = trace at traced
  induction traced generalizing after with
  | start => simp at whole
  | @step trace s₁ s₂ last traced shown ih =>
      rcases List.eq_nil_or_concat after with rfl | ⟨rest, other, rfl⟩
      · obtain ⟨rfl, last⟩ := List.append_inj' whole rfl
        cases last
        exact ⟨s₁, s₂, traced, shown⟩
      · rw [List.concat_eq_append, ← List.cons_append, ← List.append_assoc] at whole
        exact ih (List.append_inj' whole rfl).1

def submission (request : PendingRequest) (message : Bytes) : List Sight :=
  [.aside] ++ [.aside] ++ [.queue request message]

theorem submit_traced {m : Mailbox} {held : List Buffer} {pending : List Handle}
    (traced : Traced trace ⟨m, held, pending⟩) {p : Protocol} {address : UInt16} {payload : Bytes}
    {expectsResponse : Bool} {deadline : Nat} {h : Handle}
    (queued : (m.submit p address payload expectsResponse deadline).1 = .ok h) :
    ∃ message, Traced (trace ++ submission ⟨h.ticket, expectsResponse, deadline⟩ message)
      ⟨(m.submit p address payload expectsResponse deadline).2, held, h :: pending⟩ := by
  unfold Mailbox.submit at queued ⊢
  split
  case h_1 refused =>
    rw [refused] at queued
    cases queued
  case h_2 supported =>
    rw [supported] at queued
    dsimp only at queued
    split
    case h_1 refused =>
      rw [refused] at queued
      cases queued
    case h_2 b m₁ taken =>
      rw [taken] at queued
      dsimp only at queued
      split
      case h_1 refused =>
        rw [refused] at queued
        cases queued
      case h_2 c prepared =>
        rw [prepared] at queued
        obtain ⟨index, owner⟩ := prepare_place prepared
        have taken := traced.step (.aside (.take taken)
          (.inl (Mailbox.takeSendBuffer_untouched taken)))
        have filled := taken.step (.aside (.change [] index owner) (.inl (.refl m₁)))
        have lodged := filled.step (.queue [] false expectsResponse deadline queued)
        rw [List.append_assoc, List.append_assoc, ← List.append_assoc [Sight.aside]] at lodged
        exact ⟨c.bytes, lodged⟩

end Session

end Fieldbus
