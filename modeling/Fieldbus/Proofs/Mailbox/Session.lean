import Fieldbus.Proofs.Mailbox.Callers
import Fieldbus.Proofs.Mailbox.Deeds

/-!
# Runs of a mailbox

In a session callers and turns take steps on one mailbox, each to its end before the next. Callers
hold the buffers they took and the requests they queued.

A step is a whole turn, which moves and deeds take apart, or an operation of a caller, of which they
know nothing. `Session.Shows` and `Session.Occurs` are the same steps with what is seen of them.
-/

namespace Fieldbus

open BufferQueue (indices)

theorem Mailbox.request?_create (slave : SlaveConfig) (config : Config) (sendId receiveId i : Nat) :
    (create slave config sendId receiveId).request? i = none := by
  unfold request? create
  rw [Array.getElem?_replicate]
  split <;> rfl

structure Session where
  mailbox : Mailbox
  held : List Buffer
  /-- The requests that nobody has waited for yet. -/
  pending : List Handle

namespace Session

def start (slave : SlaveConfig) (config : Config) (sendId receiveId : Nat) : Session :=
  ⟨.create slave config sendId receiveId, [], []⟩

/-- The open requests after an attempt to queue one more. -/
def enroll (pending : List Handle) : Except Error Handle → List Handle
  | .ok h => h :: pending
  | .error _ => pending

inductive Step : Session → Session → Prop
  | take {m m' : Mailbox} {held : List Buffer} {pending : List Handle} {b : Buffer} :
      m.takeSendBuffer? = .ok (b, m') → Step ⟨m, held, pending⟩ ⟨m', b :: held, pending⟩
  | change {m : Mailbox} (left : List Buffer) {right : List Buffer} {pending : List Handle}
      {b c : Buffer} :
      c.index = b.index → c.pool = b.pool →
      Step ⟨m, left ++ b :: right, pending⟩ ⟨m, left ++ c :: right, pending⟩
  | giveBack {m : Mailbox} (left : List Buffer) {right : List Buffer} {pending : List Handle}
      {b : Buffer} :
      Step ⟨m, left ++ b :: right, pending⟩ ⟨m.putSend b, left ++ right, pending⟩
  | enqueue {m : Mailbox} (left : List Buffer) {right : List Buffer} {pending : List Handle}
      {b : Buffer} (front expectsResponse : Bool) (deadline : Nat) :
      Step ⟨m, left ++ b :: right, pending⟩
        ⟨(m.enqueue front b expectsResponse deadline).2, left ++ right,
          enroll pending (m.enqueue front b expectsResponse deadline).1⟩
  | enqueueForeign {m : Mailbox} {held : List Buffer} {pending : List Handle} {b : Buffer}
      (front expectsResponse : Bool) (deadline : Nat) :
      m.sendPool.owns b = false →
      Step ⟨m, held, pending⟩ ⟨(m.enqueue front b expectsResponse deadline).2, held,
        enroll pending (m.enqueue front b expectsResponse deadline).1⟩
  | turn {m : Mailbox} {held : List Buffer} {pending : List Handle} {σ : Type}
      (d : SlotDevice σ) (device : σ) (now : Nat) :
      Step ⟨m, held, pending⟩ ⟨(m.turn d.transport now device).2.1, held, pending⟩
  | wait {m : Mailbox} {held : List Buffer} (left : List Handle) {right : List Handle}
      {h : Handle} :
      Step ⟨m, held, left ++ h :: right⟩ ⟨(m.settle h).2, held, left ++ right⟩
  | tryRead {m : Mailbox} {held : List Buffer} {pending : List Handle} (p : Protocol) :
      Step ⟨m, held, pending⟩ ⟨(m.tryRead p).2, held, pending⟩
  | requestRead {m : Mailbox} {held : List Buffer} {pending : List Handle} (p : Protocol) :
      Step ⟨m, held, pending⟩ ⟨(m.requestRead p).2, held, pending⟩
  | read {m : Mailbox} {held : List Buffer} {pending : List Handle} (p : Protocol) :
      Step ⟨m, held, pending⟩ ⟨(m.read p).2, held, pending⟩
  | scheduleRead {m : Mailbox} {held : List Buffer} {pending : List Handle} :
      Step ⟨m, held, pending⟩ ⟨m.scheduleRead, held, pending⟩
  | close {m : Mailbox} {held : List Buffer} {pending : List Handle} :
      Step ⟨m, held, pending⟩ ⟨m.close.2, held, pending⟩

def Reachable (s : Session) : Prop :=
  ∃ slave config sendId receiveId,
    Relation.ReflTransGen Step (start slave config sendId receiveId) s

/-! ## The invariant -/

structure Sound (s : Session) : Prop where
  mailbox : s.mailbox.Sound s.held
  admitted : ∀ h ∈ s.pending, ∃ request, (h.index, request) ∈ s.mailbox.admissions ∧
    request.ticket = h.ticket ∧ request.deadline = h.deadline
  distinct : (s.pending.map Handle.ticket).Nodup
  waited : ∀ ticket waiter, (ticket, waiter) ∈ s.mailbox.withdrawals →
    ∀ h ∈ s.pending, h.ticket ≠ waiter

variable {s s' : Session}

theorem sound_start (slave : SlaveConfig) (config : Config) (sendId receiveId : Nat) :
    (start slave config sendId receiveId).Sound := by
  constructor
  case mailbox =>
    constructor
    case custody =>
      refine ⟨stock_openWith _ _ _, Array.size_replicate, fun i => ?_⟩
      rw [start, Mailbox.request?_create]
      simp [Mailbox.create]
    case shelved => exact stock_openWith _ _ _
    case rest => exact .of_calm rfl rfl
    case accounts =>
      constructor
      case numbered => exact List.forall_mem_nil _
      case distinct => exact List.nodup_nil
      case known => exact fun _ some => by cases some
      case shared => exact fun _ _ mem => by cases mem
      case carried =>
        rintro i r (waits | ⟨flight, flying, -⟩)
        · rw [start, Mailbox.request?_create] at waits
          cases waits
        · cases flying
      case once => exact fun _ _ _ _ flying => by cases flying
      case accounted => exact fun _ _ mem => by cases mem
  case admitted => exact List.forall_mem_nil _
  case distinct => exact List.nodup_nil
  case waited => exact fun _ _ mem => by cases mem

theorem closed_foldl {α : Type} {f : Mailbox → α → Mailbox}
    (keeps : ∀ m a, (f m a).closed = m.closed) (l : List α) (m : Mailbox) :
    (l.foldl f m).closed = m.closed := by
  induction l generalizing m with
  | nil => rfl
  | cons a l ih => exact (ih (f m a)).trans (keeps m a)

theorem closeRequest_closed (m : Mailbox) (b : Buffer) : (m.closeRequest b).closed = m.closed := by
  unfold Mailbox.closeRequest
  split
  · rfl
  · rw [Mailbox.resolve_eq]
    rfl

theorem close_closed (m : Mailbox) : m.close.2.closed = true := by
  unfold Mailbox.close
  split
  case isTrue closed => exact closed
  case isFalse =>
    dsimp only
    refine (closed_foldl (f := fun m (entry : Protocol × Buffer) => m.putReceive entry.2)
      (fun _ _ => rfl) _ _).trans ?_
    refine (closed_foldl (f := fun m (entry : Protocol × Buffer) => m.putSend entry.2)
      (fun _ _ => rfl) _ _).trans ?_
    dsimp only
    split
    · exact (closed_foldl (fun m entry => closeRequest_closed m (Prod.snd entry)) ..).trans rfl
    · rw [Mailbox.resolve_eq]
      exact (closed_foldl (fun m entry => closeRequest_closed m (Prod.snd entry)) ..).trans rfl

theorem Step.closed (step : Step s s') (closed : s.mailbox.closed = true) :
    s'.mailbox.closed = true := by
  cases step with
  | take take =>
      dsimp only at closed
      simp [Mailbox.takeSendBuffer?, closed] at take
  | change => exact closed
  | giveBack => exact closed
  | enqueue left front expectsResponse deadline => exact (Mailbox.enqueue_closed ..).trans closed
  | enqueueForeign front expectsResponse deadline foreign =>
      exact (Mailbox.enqueue_closed ..).trans closed
  | turn d device now =>
      dsimp only at closed ⊢
      rw [Mailbox.turn, if_pos closed]
      exact closed
  | wait => exact (Mailbox.settle_closed ..).trans closed
  | tryRead p => exact (Mailbox.tryRead_untouched _ p).closed.trans closed
  | requestRead p => exact (Mailbox.requestRead_untouched _ p).closed.trans closed
  | read p => exact (Mailbox.read_untouched _ p).closed.trans closed
  | scheduleRead => exact closed
  | close => exact close_closed _

theorem Step.opened (step : Step s s') (opened : s'.mailbox.closed = false) :
    s.mailbox.closed = false := by
  cases closed : s.mailbox.closed with
  | false => rfl
  | true =>
      rw [step.closed closed] at opened
      cases opened

theorem Sound.of_books (h : s.Sound) (mailbox : s'.mailbox.Sound s'.held)
    (pending : s'.pending = s.pending)
    (admissions : s'.mailbox.admissions = s.mailbox.admissions)
    (withdrawals : s'.mailbox.withdrawals = s.mailbox.withdrawals) : s'.Sound where
  mailbox := mailbox
  admitted := by rw [pending, admissions]; exact h.admitted
  distinct := by rw [pending]; exact h.distinct
  waited := by rw [pending, withdrawals]; exact h.waited

theorem Sound.of_journal (h : s.Sound) (mailbox : s'.mailbox.Sound s'.held)
    (pending : s'.pending = s.pending) (journal : s'.mailbox.journal = s.mailbox.journal) :
    s'.Sound :=
  h.of_books mailbox pending (by rw [Mailbox.admissions, journal, Mailbox.admissions])
    (by rw [Mailbox.withdrawals, journal, Mailbox.withdrawals])

theorem Sound.enqueue {m : Mailbox} {left right : List Buffer} {pending : List Handle} {b : Buffer}
    (h : Sound ⟨m, left ++ b :: right, pending⟩) (front expectsResponse : Bool) (deadline : Nat) :
    Sound ⟨(m.enqueue front b expectsResponse deadline).2, left ++ right,
      enroll pending (m.enqueue front b expectsResponse deadline).1⟩ := by
  have mailbox : m.Sound (b :: (left ++ right)) := h.mailbox.perm List.perm_middle.symm
  rcases Mailbox.enqueue_cases mailbox.custody front expectsResponse deadline with
    ⟨cause, eq⟩ | ⟨p, bs, sendQueues, perm, becomes, eq⟩
  · rw [eq]
    exact h.of_journal mailbox.put rfl rfl
  · rw [eq]
    have fresh (other : Handle) (mem : other ∈ pending) : other.ticket < m.nextTicket := by
      obtain ⟨request, admitted, ticket, -⟩ := h.admitted other mem
      rw [← ticket]
      exact mailbox.accounts.numbered _ admitted
    constructor
    case mailbox => exact mailbox.lodge perm becomes expectsResponse deadline
    case admitted =>
      intro other mem
      rw [Mailbox.admissions_lodge]
      rcases List.mem_cons.mp mem with rfl | mem
      · exact ⟨_, List.mem_append_right _ (List.mem_singleton_self _), rfl, rfl⟩
      · obtain ⟨request, admitted, same⟩ := h.admitted other mem
        exact ⟨request, List.mem_append_left _ admitted, same⟩
    case distinct =>
      refine List.nodup_cons.mpr ⟨fun mem => ?_, h.distinct⟩
      obtain ⟨other, mem, same⟩ := List.mem_map.mp mem
      exact Nat.ne_of_lt (fresh other mem) same
    case waited =>
      intro ticket waiter mem other pending
      rw [Mailbox.withdrawals_lodge] at mem
      rcases List.mem_cons.mp pending with rfl | pending
      · obtain ⟨i, request, own, -, -, admitted, rfl⟩ :=
          mailbox.accounts.shared ticket waiter mem
        exact (Nat.ne_of_lt (mailbox.accounts.numbered _ admitted)).symm
      · exact h.waited ticket waiter mem other pending

theorem Sound.wait {m : Mailbox} {held : List Buffer} {left right : List Handle} {h : Handle}
    (sound : Sound ⟨m, held, left ++ h :: right⟩) :
    Sound ⟨(m.settle h).2, held, left ++ right⟩ := by
  obtain ⟨own, admitted, ticket, -⟩ := sound.admitted h (by simp)
  have mailbox := sound.mailbox.settle admitted ticket
  have pending (other : Handle) (mem : other ∈ left ++ right) : other ∈ left ++ h :: right := by
    rcases List.mem_append.mp mem with mem | mem <;> simp [mem]
  have distinct := sound.distinct
  simp only [List.map_append, List.map_cons] at distinct
  have once := List.nodup_middle.mp distinct
  rw [← List.map_append] at once
  obtain ⟨gone, rest⟩ := List.nodup_cons.mp once
  rcases Mailbox.settle_cases sound.mailbox h with eq | ⟨r, -, -, withdraws, -, -, -⟩
  · refine ⟨mailbox, ?_, rest, ?_⟩
    · intro other mem
      dsimp only
      rw [eq]
      exact sound.admitted other (pending other mem)
    · intro ticket waiter mem other open'
      dsimp only at mem
      rw [eq] at mem
      exact sound.waited ticket waiter mem other (pending other open')
  · refine ⟨mailbox, ?_, rest, ?_⟩
    · intro other mem
      rw [withdraws.admissions]
      exact sound.admitted other (pending other mem)
    · intro ticket waiter mem other open'
      rw [withdraws.withdrawals, List.mem_append, List.mem_singleton] at mem
      rcases mem with mem | eq
      · exact sound.waited ticket waiter mem other (pending other open')
      · cases eq
        intro same
        exact gone (List.mem_map.mpr ⟨other, open', same⟩)

theorem Step.sound (h : s.Sound) (step : Step s s') (opened : s'.mailbox.closed = false) :
    s'.Sound := by
  cases step with
  | take take =>
      exact h.of_journal (h.mailbox.take take) rfl (Mailbox.takeSendBuffer_untouched take).journal
  | @change m left right pending b c index owner =>
      have front : m.Sound (b :: (left ++ right)) := h.mailbox.perm List.perm_middle.symm
      have changed : m.Sound (c :: (left ++ right)) :=
        ⟨front.custody.change index owner, front.shelved, front.rest, front.accounts⟩
      exact h.of_journal (changed.perm List.perm_middle) rfl rfl
  | @giveBack m left right pending b =>
      have front : m.Sound (b :: (left ++ right)) := h.mailbox.perm List.perm_middle.symm
      exact h.of_journal front.put rfl rfl
  | enqueue left front expectsResponse deadline => exact h.enqueue front expectsResponse deadline
  | enqueueForeign front expectsResponse deadline foreign =>
      rw [Mailbox.enqueue_foreign foreign]
      exact h
  | @turn m held pending σ d device now =>
      have moves := Mailbox.turn_moves d now m device
      obtain ⟨admissions, withdrawals⟩ := moves.books h.mailbox
      exact h.of_books (moves.sound h.mailbox) rfl admissions withdrawals
  | wait => exact h.wait
  | tryRead p =>
      exact h.of_journal (h.mailbox.tryRead p) rfl (Mailbox.tryRead_untouched _ p).journal
  | requestRead p =>
      exact h.of_journal (h.mailbox.requestRead p) rfl (Mailbox.requestRead_untouched _ p).journal
  | read p => exact h.of_journal (h.mailbox.read p) rfl (Mailbox.read_untouched _ p).journal
  | scheduleRead => exact h.of_journal h.mailbox.scheduleRead rfl rfl
  | close =>
      dsimp only at opened
      rw [close_closed] at opened
      cases opened

theorem Step.withdrawals (h : s.Sound) (step : Step s s') (opened : s'.mailbox.closed = false) :
    s'.mailbox.withdrawals = s.mailbox.withdrawals ∨
      ∃ g left right r, s.pending = left ++ g :: right ∧
        s' = ⟨(s.mailbox.settle g).2, s.held, left ++ right⟩ ∧
        s.mailbox.outcome? g.ticket = none ∧ s.mailbox.named? g.index = some r ∧
        s'.mailbox.withdrawals = s.mailbox.withdrawals ++ [(r.ticket, g.ticket)] := by
  have silent (m m' : Mailbox) (journal : m'.journal = m.journal) :
      m'.withdrawals = m.withdrawals := by
    rw [Mailbox.withdrawals, journal, Mailbox.withdrawals]
  cases step with
  | take take => exact .inl (silent _ _ (Mailbox.takeSendBuffer_untouched take).journal)
  | change => exact .inl rfl
  | giveBack left => exact .inl rfl
  | @enqueue m left right pending b front expectsResponse deadline =>
      have mailbox : m.Sound (b :: (left ++ right)) := h.mailbox.perm List.perm_middle.symm
      rcases Mailbox.enqueue_cases mailbox.custody front expectsResponse deadline with
        ⟨cause, eq⟩ | ⟨p, bs, sendQueues, perm, becomes, eq⟩
      · exact .inl (by rw [eq]; rfl)
      · exact .inl (by rw [eq, Mailbox.withdrawals_lodge])
  | enqueueForeign front expectsResponse deadline foreign =>
      exact .inl (by rw [Mailbox.enqueue_foreign foreign])
  | @turn m held pending σ d device now =>
      exact .inl ((Mailbox.turn_moves d now m device).books h.mailbox).2
  | @wait m held left right g =>
      rcases Mailbox.settle_cases h.mailbox g with eq | ⟨r, undecided, named, withdraws, -⟩
      · exact .inl (by rw [eq])
      · exact .inr ⟨g, left, right, r, rfl, rfl, undecided, named, withdraws.withdrawals⟩
  | tryRead p => exact .inl (silent _ _ (Mailbox.tryRead_untouched _ p).journal)
  | requestRead p => exact .inl (silent _ _ (Mailbox.requestRead_untouched _ p).journal)
  | read p => exact .inl (silent _ _ (Mailbox.read_untouched _ p).journal)
  | scheduleRead => exact .inl rfl
  | close =>
      dsimp only at opened
      rw [close_closed] at opened
      cases opened

theorem Reachable.sound (reached : s.Reachable) (opened : s.mailbox.closed = false) : s.Sound := by
  obtain ⟨slave, config, sendId, receiveId, run⟩ := reached
  induction run with
  | refl => exact sound_start slave config sendId receiveId
  | tail _ step ih => exact step.sound (ih (step.opened opened)) opened

/-! ## Longer operations -/

abbrev Run : Session → Session → Prop := Relation.ReflTransGen Step

theorem prepare_place {m : Mailbox} {b c : Buffer} {p : Protocol} {address : UInt16}
    {payload : Bytes} (prepared : m.prepare b p address payload = .ok c) :
    c.index = b.index ∧ c.pool = b.pool := by
  unfold Mailbox.prepare at prepared
  dsimp only at prepared
  split at prepared
  · cases prepared
  · cases encoded : Message.encodeInto (Bytes.zeros b.capacity) (.plain p address 0) payload with
    | error cause =>
        rw [encoded] at prepared
        cases prepared
    | ok message =>
        rw [encoded] at prepared
        cases prepared
        exact ⟨rfl, rfl⟩

/-- Submitting a request is to take a buffer, fill it and queue it, or to give it back. -/
theorem submit_run (m : Mailbox) (held : List Buffer) (pending : List Handle) (p : Protocol)
    (address : UInt16) (payload : Bytes) (expectsResponse : Bool) (deadline : Nat) :
    Run ⟨m, held, pending⟩ ⟨(m.submit p address payload expectsResponse deadline).2, held,
      enroll pending (m.submit p address payload expectsResponse deadline).1⟩ := by
  unfold Mailbox.submit
  split
  · exact .refl
  · split
    · exact .refl
    case h_2 b m₁ taken =>
      refine .head (.take taken) ?_
      split
      · exact .single (.giveBack [])
      case h_2 c prepared =>
        obtain ⟨index, owner⟩ := prepare_place prepared
        refine .head (.change [] index owner) (.single ?_)
        exact .enqueue [] false expectsResponse deadline

theorem reachable_start (slave : SlaveConfig) (config : Config) (sendId receiveId : Nat) :
    (start slave config sendId receiveId).Reachable :=
  ⟨slave, config, sendId, receiveId, .refl⟩

theorem Reachable.run (reached : s.Reachable) (run : Run s s') : s'.Reachable := by
  obtain ⟨slave, config, sendId, receiveId, before⟩ := reached
  exact ⟨slave, config, sendId, receiveId, before.trans run⟩

/-! ## A small mailbox -/

/-- A slave that takes every message and never answers. -/
def mute : SlotDevice Unit where
  slotState _ _ device := (.ok .empty, device)
  write _ _ device := (.ok 1, device)
  read _ _ device := ((.ok 0, []), device)

def cramped : Mailbox :=
  .create ⟨0, 0x1001, ⟨0, 0x1000, 16⟩, ⟨1, 0x1080, 16⟩, .all⟩ { mailboxPoolSize := 1 } 0 1

theorem enroll_of_toOption {pending : List Handle} {result : Except Error Handle} {h : Handle}
    (queued : result.toOption = some h) : enroll pending result = h :: pending := by
  cases result with
  | error cause => cases queued
  | ok other =>
      cases queued
      rfl

theorem submit_reachable {m : Mailbox} {held : List Buffer} {pending : List Handle}
    (reached : Reachable ⟨m, held, pending⟩) {p : Protocol} {address : UInt16} {payload : Bytes}
    {expectsResponse : Bool} {deadline : Nat} {h : Handle}
    (queued : (m.submit p address payload expectsResponse deadline).1.toOption = some h) :
    Reachable ⟨(m.submit p address payload expectsResponse deadline).2, held, h :: pending⟩ := by
  have submitted := submit_run m held pending p address payload expectsResponse deadline
  rw [enroll_of_toOption queued] at submitted
  exact reached.run submitted

end Session

end Fieldbus
