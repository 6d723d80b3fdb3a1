import Fieldbus.Proofs.Mailbox.SendOrder
import Mathlib.Algebra.BigOperators.Group.List.Basic

/-!
# Turns that fail to send

A turn has an error exactly if its transport had one. A request that was chosen and that the slave
did not take is first in its line again with its buffer, and but for those that were overdue all
others stand as before.
-/

namespace Fieldbus

/-- The messages differ at most in their counter, which is in bits 4 to 6 of the sixth byte. -/
structure MessageHeader.Restamped (before after : Bytes) : Prop where
  length : after.length = before.length
  others : ∀ i, i ≠ 5 → after[i]? = before[i]?
  kind : ∀ x y, before[5]? = some x → after[5]? = some y →
    y.toNat % 16 = x.toNat % 16 ∧ y.toNat / 128 = x.toNat / 128

theorem MessageHeader.Restamped.refl (bytes : Bytes) : Restamped bytes bytes where
  length := rfl
  others _ _ := rfl
  kind x y here there := by
    cases here.symm.trans there
    exact ⟨rfl, rfl⟩

theorem MessageHeader.restamped_stamp (counter : UInt8) (bytes : Bytes) :
    Restamped bytes (stamp counter bytes) := by
  unfold stamp
  split
  case h_1 b₀ b₁ b₂ b₃ b₄ kind rest =>
    constructor
    case length => rfl
    case others =>
      intro i other
      rcases i with - | - | - | - | - | - | i
      case succ.succ.succ.succ.succ.zero => exact absurd rfl other
      all_goals rfl
    case kind =>
      intro x y here there
      cases here
      cases there
      have small := kind.toNat_lt
      simp only [UInt8.toNat_ofNat']
      omega
  · exact .refl _

/-! ## Errors of the transport -/

def Call.error? (c : Call) : Option Error :=
  match c.access with
  | .look _ (.error cause) | .write _ (.error cause) | .read _ (.error cause) _ => some cause
  | _ => none

def errors {α : Type} : Except Error α → List Error
  | .ok _ => []
  | .error cause => [cause]

namespace Mailbox

variable {σ α β : Type}

/-- The calls that were added to the log had the error of the result and no other. -/
def Passes (log : List Call) (outcome : Except Error α) (log' : List Call) : Prop :=
  ∃ calls, log' = log ++ calls ∧ calls.filterMap Call.error? = errors outcome

theorem Passes.refl (log : List Call) (answer : α) : Passes log (.ok answer) log :=
  ⟨[], (List.append_nil log).symm, rfl⟩

theorem Passes.trans {log log₁ log₂ : List Call} {answer : α} {outcome : Except Error β}
    (first : Passes log (.ok answer) log₁) (later : Passes log₁ outcome log₂) :
    Passes log outcome log₂ := by
  obtain ⟨calls, rfl, none⟩ := first
  obtain ⟨more, rfl, same⟩ := later
  exact ⟨calls ++ more, List.append_assoc .., by rw [List.filterMap_append, none, same]; rfl⟩

variable (t : Transport σ)

theorem readOne_passes (m : Mailbox) (log : List Call) (s : σ) :
    Passes log (readOne t.noting m (log, s)).1 (readOne t.noting m (log, s)).2.2.1 := by
  unfold readOne
  rcases look : t.slotState m.slave.readSlot m s with ⟨cause | state, m₁, s₁⟩ <;>
    rw [noting_slotState look]
  · exact ⟨_, rfl, rfl⟩
  · have looked (answer : Bool) :
        Passes log (.ok answer) (log ++ [⟨m, .look m.slave.readSlot (.ok state)⟩]) :=
      ⟨_, rfl, rfl⟩
    cases state with
    | empty => exact looked false
    | full =>
        rcases take : m₁.receivePool.take? with cause | ⟨b, receivePool⟩
        · simp only [take]
          exact looked false
        · rcases read : t.read (b.bytes.take m₁.slave.readSlot.length.toNat)
            { m₁ with slotState := .full, receivePool } s₁ with
            ⟨⟨cause | counter, after⟩, m₂, s₂⟩ <;> simp only [take, noting_read read]
          · exact (looked false).trans ⟨_, rfl, rfl⟩
          · split <;> exact (looked false).trans ⟨_, rfl, rfl⟩

theorem readMany_passes (fuel : Nat) (m : Mailbox) (log : List Call) (s : σ) :
    Passes log (readMany t.noting fuel m (log, s)).1
      (readMany t.noting fuel m (log, s)).2.2.1 := by
  induction fuel generalizing m log s with
  | zero => exact .refl log ()
  | succ fuel ih =>
      have one := readOne_passes t m log s
      rw [readMany]
      generalize readOne t.noting m (log, s) = result at one ⊢
      rcases result with ⟨cause | _ | _, m₁, log₁, s₁⟩
      · exact one
      · exact one
      · exact one.trans (ih m₁ log₁ s₁)

theorem poll_passes (now : Nat) (m : Mailbox) (log : List Call) (s : σ) :
    Passes log (poll t.noting now m (log, s)).1 (poll t.noting now m (log, s)).2.2.1 := by
  unfold poll
  split
  · exact readMany_passes t _ _ log s
  · exact .refl log ()

theorem writeRepeatedly_passes (data : Bytes) (attempts failures : Nat) (m : Mailbox)
    (log : List Call) (s : σ) :
    Passes log (writeRepeatedly t.noting data attempts failures m (log, s)).1.result
      (writeRepeatedly t.noting data attempts failures m (log, s)).2.2.1 := by
  induction attempts generalizing failures m log s with
  | zero => exact .refl log none
  | succ attempts ih =>
      rw [writeRepeatedly]
      rcases write : t.write data m s with ⟨cause | counter, m₁, s₁⟩ <;> rw [noting_write write]
      · exact ⟨_, rfl, rfl⟩
      · have wrote : Passes log (.ok ()) (log ++ [⟨m, .write data (.ok counter)⟩]) :=
          ⟨_, rfl, rfl⟩
        dsimp only
        split
        · exact wrote.trans (ih (failures + 1) m₁ _ s₁)
        · exact ⟨_, rfl, rfl⟩

theorem writeMessage_passes (p : Protocol) (b : Buffer) (m : Mailbox) (log : List Call) (s : σ) :
    Passes log (writeMessage t.noting p b m (log, s)).1
      (writeMessage t.noting p b m (log, s)).2.2.1 := by
  have written := writeRepeatedly_passes t
    ((m.stamp b).1.bytes.take (m.stamp b).2.slave.writeSlot.length.toNat)
    (max (m.stamp b).2.config.writeAttempts.toNat 1) 0 (m.stamp b).2 log s
  unfold writeMessage
  dsimp only
  generalize writeRepeatedly t.noting _ _ 0 (m.stamp b).2 (log, s) = result at written ⊢
  rcases result with ⟨⟨failures, cause | _ | counter⟩, m₁, log₁, s₁⟩ <;> exact written

theorem sendNext_passes (now : Nat) (m : Mailbox) (log : List Call) (s : σ) :
    Passes log (sendNext t.noting now m (log, s)).1
      (sendNext t.noting now m (log, s)).2.2.1 := by
  unfold sendNext
  rcases m.takeNext now with ⟨_ | ⟨p, b⟩, m₁⟩
  · exact .refl log ()
  · dsimp only
    rcases look : t.slotState m₁.slave.writeSlot m₁ s with ⟨cause | state, m₂, s₂⟩ <;>
      rw [noting_slotState look]
    · exact ⟨_, rfl, rfl⟩
    · have looked : Passes log (.ok ()) (log ++ [⟨m₁, .look m₁.slave.writeSlot (.ok state)⟩]) :=
        ⟨_, rfl, rfl⟩
      cases state with
      | full => exact looked
      | empty => exact looked.trans (writeMessage_passes t p b m₂ _ s₂)

theorem turn_errors {m : Mailbox} (opened : m.closed = false) (d : SlotDevice σ) (now : Nat)
    (s : σ) :
    (m.calls d now s).filterMap Call.error? = errors (m.turn d.transport now s).1 := by
  have noted := turn_noting d.transport now m [] s
  have result : (m.turn d.transport now s).1 = (m.turn d.transport.noting now ([], s)).1 := by
    rw [← noted]
    rfl
  have passes : Passes [] (m.turn d.transport.noting now ([], s)).1
      (m.turn d.transport.noting now ([], s)).2.2.1 := by
    have polled := poll_passes d.transport now (m.expire now) [] s
    unfold turn
    rw [if_neg (by simp [opened])]
    generalize poll d.transport.noting now (m.expire now) ([], s) = result at polled ⊢
    rcases result with ⟨cause | _, m₁, log₁, s₁⟩
    · exact polled
    · exact polled.trans (sendNext_passes d.transport now m₁ log₁ s₁)
  obtain ⟨calls, logged, same⟩ := passes
  rw [result, Mailbox.calls, logged]
  exact same

/-! ## Requests that are not taken -/

/-- A request was chosen, and the slave did not take its message: the slot was full or could not be
looked at, no attempt to write was acknowledged, or one had an error. -/
inductive Fails (calls : List Call) : Prop
  | withheld {call : Call} {slot : SyncManager} {result : Except Error SlotState} :
      call ∈ calls → call.mailbox.handshake = .sendPending → call.access = .look slot result →
      result ≠ .ok .empty → Fails calls
  | unheeded {call : Call} : call ∈ calls → call.isWrite = true →
      (∀ call ∈ calls, ∀ data result, call.access = .write data result → result = .ok 0) →
      Fails calls
  | broken {call : Call} {data : Bytes} {cause : Error} :
      call ∈ calls → call.access = .write data (.error cause) → Fails calls

inductive PutsBack (m₁ : Mailbox) (p : Protocol) (b : Buffer) : Mailbox → Prop
  | withheld : PutsBack m₁ p b (m₁.requeue p b)
  | refused (failures : Nat) :
      PutsBack m₁ p b (((m₁.stamp b).2.retried failures).requeue p (m₁.stamp b).1)

variable {m m' m₁ : Mailbox} {held : List Buffer} {now : Nat} {calls polled : List Call}
  {p : Protocol} {b : Buffer}

theorem Fails.sent (fails : Fails (polled ++ calls))
    (idle : ∀ call ∈ polled, call.isWrite = false ∧ call.mailbox.handshake ≠ .sendPending) :
    Fails calls := by
  have sent {call : Call} (mem : call ∈ polled ++ calls)
      (active : call.isWrite = true ∨ call.mailbox.handshake = .sendPending) : call ∈ calls := by
    refine (List.mem_append.mp mem).resolve_left fun mem => ?_
    obtain ⟨reads, settled⟩ := idle call mem
    rcases active with writes | pending
    · rw [reads] at writes
      cases writes
    · exact settled pending
  cases fails with
  | withheld mem pending look full => exact .withheld (sent mem (.inr pending)) pending look full
  | unheeded mem writes zero =>
      exact .unheeded (sent mem (.inl writes)) writes fun call mem =>
        zero call (List.mem_append_right _ mem)
  | broken mem broke =>
      exact .broken (sent mem (.inl (by rw [Call.isWrite, broke]))) broke

theorem not_fails_nil : ¬Fails [] := by
  intro fails
  cases fails with
  | withheld mem => cases mem
  | unheeded mem => cases mem
  | broken mem => cases mem

theorem Attempted.not_fails {data : Bytes} {workCounter : UInt16}
    (attempted : m.Attempted data calls (.ok (some workCounter)))
    (passes : calls.filterMap Call.error? = []) :
    ¬Fails (⟨m₁, .look m₁.slave.writeSlot (.ok .empty)⟩ :: calls) := by
  intro fails
  cases fails with
  | withheld mem pending look full =>
      rcases List.mem_cons.mp mem with rfl | mem
      · cases look
        exact full rfl
      · obtain ⟨result, rfl⟩ := attempted.writes _ mem
        cases look
  | unheeded mem writes zero =>
      obtain ⟨counted, took⟩ := attempted.heeded
      obtain ⟨call, mem, exchanged⟩ := List.mem_filterMap.mp
        (took ▸ List.mem_singleton_self _ : _ ∈ calls.filterMap Call.exchange?)
      obtain ⟨result, rfl⟩ := attempted.writes call mem
      rw [zero _ (List.mem_cons_of_mem _ mem) _ _ rfl] at exchanged
      cases exchanged
  | @broken call _ cause mem broke =>
      rcases List.mem_cons.mp mem with rfl | mem
      · cases broke
      · have error : call.error? = some cause := by rw [Call.error?, broke]
        rw [List.filterMap_eq_nil_iff.mp passes call mem] at error
        cases error

theorem sendNext_putsBack (d : SlotDevice σ) (now : Nat) (m : Mailbox) (log : List Call) (s : σ) :
    ∃ sent, (sendNext d.transport.noting now m (log, s)).2.2.1 = log ++ sent ∧
      (Fails sent → ∃ m₀ p b m₁, Deeds now m [] m₀ ∧ m₀.Picks now p b m₁ ∧
        (∀ call ∈ sent, m₁.Serves b call) ∧
        m₁.PutsBack p b (sendNext d.transport.noting now m (log, s)).2.1) := by
  have chosen := takeNext_chosen now m
  unfold sendNext
  rcases hnext : m.takeNext now with ⟨_ | ⟨p, b⟩, m₁⟩ <;> rw [hnext] at chosen
  · exact ⟨[], (List.append_nil log).symm, fun fails => absurd fails not_fails_nil⟩
  · obtain ⟨m₀, path, picks⟩ := chosen
    dsimp only
    have looked (result : Except Error SlotState) :
        ∀ call ∈ [(⟨m₁, .look m₁.slave.writeSlot result⟩ : Call)], m₁.Serves b call := by
      simp [Serves]
    rcases hstate : d.slotState m₁.slave m₁.slave.writeSlot s with ⟨cause | state, s₁⟩ <;>
      rw [noting_slotState (transport_slotState hstate)]
    · exact ⟨_, rfl, fun _ => ⟨m₀, p, b, m₁, path, picks, looked _, .withheld⟩⟩
    · cases state with
      | full => exact ⟨_, rfl, fun _ => ⟨m₀, p, b, m₁, path, picks, looked _, .withheld⟩⟩
      | empty =>
          obtain ⟨calls, written, s', eq, attempted, -⟩ := writeRepeatedly_attempted d
            ((m₁.stamp b).1.bytes.take (m₁.stamp b).2.slave.writeSlot.length.toNat)
            (max (m₁.stamp b).2.config.writeAttempts.toNat 1) 0 (m₁.stamp b).2
            (log ++ [⟨m₁, .look m₁.slave.writeSlot (.ok .empty)⟩]) s₁
          obtain ⟨calls', logged, passes⟩ := writeRepeatedly_passes d.transport
            ((m₁.stamp b).1.bytes.take (m₁.stamp b).2.slave.writeSlot.length.toNat)
            (max (m₁.stamp b).2.config.writeAttempts.toNat 1) 0 (m₁.stamp b).2
            (log ++ [⟨m₁, .look m₁.slave.writeSlot (.ok .empty)⟩]) s₁
          rw [eq] at logged passes
          obtain rfl := List.append_cancel_left logged
          have serves : ∀ call ∈ ⟨m₁, .look m₁.slave.writeSlot (.ok .empty)⟩ :: calls,
              m₁.Serves b call := by
            intro call mem
            rcases List.mem_cons.mp mem with rfl | mem
            · exact looked _ _ (List.mem_singleton_self _)
            · exact .inr (attempted.writes call mem)
          refine ⟨⟨m₁, .look m₁.slave.writeSlot (.ok .empty)⟩ :: calls, ?_, fun fails =>
            ⟨m₀, p, b, m₁, path, picks, serves, ?_⟩⟩ <;>
            dsimp only [writeMessage] <;> rw [eq] <;>
            rcases written with ⟨failures, cause | _ | workCounter⟩
          · exact List.append_assoc ..
          · exact List.append_assoc ..
          · exact List.append_assoc ..
          · exact .refused failures
          · exact .refused failures
          · exact absurd fails (attempted.not_fails passes)

theorem Sending.putsBack {d : SlotDevice σ} (sending : m.Sending d now calls m')
    (fails : Fails calls) : ∃ m₀ p b m₁, Deeds now m [] m₀ ∧ m₀.Picks now p b m₁ ∧
      (∀ call ∈ calls, m₁.Serves b call) ∧ m₁.PutsBack p b m' := by
  cases sending with
  | failed => exact absurd fails not_fails_nil
  | @next log _ s logged =>
      obtain ⟨sent, again, putsBack⟩ := sendNext_putsBack d now m log s
      rw [sendNext_mailbox] at putsBack
      obtain rfl := List.append_cancel_left (logged.symm.trans again)
      exact putsBack fails

/-! ## What stands in line afterwards -/

theorem Move.capacity (move : Move now m m') : m'.sendPool.capacity = m.sendPool.capacity := by
  have requeued (m : Mailbox) (p : Protocol) (b : Buffer) :
      (m.requeue p b).sendPool.capacity = m.sendPool.capacity := by
    rcases m.requeue_cases p b with eq | ⟨flight, -, eq⟩ | ⟨flight, sendQueues, -, -, eq⟩ <;>
      rw [eq]
    · exact Pool.capacity_put ..
    · exact Pool.capacity_put ..
    · rfl
  have acknowledged (m : Mailbox) (b : Buffer) (workCounter : UInt16) :
      (m.acknowledge b workCounter).sendPool.capacity = m.sendPool.capacity := by
    rcases m.acknowledge_cases b workCounter with
      ⟨handshake, eq⟩ | ⟨flight, -, eq⟩ | ⟨flight, -, eq⟩ <;> rw [eq] <;>
      exact Pool.capacity_put ..
  have picked {m₁ : Mailbox} {p : Protocol} {b : Buffer} (picks : m.Picks now p b m₁) :
      m₁.sendPool.capacity = m.sendPool.capacity := by
    obtain ⟨sendQueues, request, -, -, -, -, rfl⟩ := picks
    rfl
  cases move with
  | expire =>
      rcases m.expire_cases now with eq | ⟨flight, -, -, -, eq⟩ <;> rw [eq]
  | schedule nextPoll => rfl
  | look slotState => rfl
  | spare data take short => rfl
  | @receive b receivePool data take short =>
      obtain ⟨_, _, _, _, _, _, _, eq⟩ := route_fields { m with receivePool, slotState := .empty }
        ((b.holding data).withLength m.slave.readSlot.length.toNat)
      rw [eq]
  | orphan ready next none => exact Pool.capacity_put ..
  | overdue ready next found late =>
      rw [resolve_eq]
      exact Pool.capacity_put ..
  | withhold picks => exact (requeued ..).trans (picked picks)
  | refuse failures picks =>
      have same := picked picks
      exact (requeued ..).trans same
  | accept failures picks counted =>
      have same := picked picks
      exact (acknowledged ..).trans same

theorem Moves.capacity (moves : Moves now m m') :
    m'.sendPool.capacity = m.sendPool.capacity := by
  induction moves with
  | refl => rfl
  | tail _ move ih => exact move.capacity.trans ih

def inLine (lines : Protocol → List (PendingRequest × Buffer)) : Nat :=
  (Protocol.all.flatMap lines).length

theorem Custody.available (h : m.Custody held) :
    m.sendPool.available + held.length + inLine m.lineup = m.sendPool.capacity := by
  have total := h.stock.lends.available
  have queued : m.sendQueues.everything.length = inLine m.lineup := by
    rw [ProtocolQueues.everything, List.length_flatMap, inLine, List.length_flatMap]
    refine congrArg List.sum (List.map_congr_left fun p _ => ?_)
    rw [← h.lineup p, List.length_map]
  rw [List.length_append] at total
  omega

theorem requeue_idle (m : Mailbox) (p : Protocol) (b : Buffer) :
    (m.requeue p b).inFlight = none ∧ (m.requeue p b).handshake = .idle := by
  rcases m.requeue_cases p b with eq | ⟨flight, -, eq⟩ | ⟨flight, sendQueues, -, -, eq⟩ <;>
    rw [eq] <;> exact ⟨rfl, rfl⟩

theorem PutsBack.restored (custody : m.Custody held) (picks : m.Picks now p b m₁)
    (back : m₁.PutsBack p b m') : ∃ r rest c, m.Front p (r, b) rest ∧
      m₁.inFlight = some ⟨b.index, r, false, 0⟩ ∧
      m'.lineup = Function.update m.lineup p ((r, c) :: rest) ∧ m.Unsent m' ∧
      c = { b with bytes := c.bytes } ∧ MessageHeader.Restamped b.bytes c.bytes ∧
      m'.inFlight = none ∧ m'.handshake = .idle := by
  obtain ⟨r, rest, front, -, chosen, -⟩ := picks.front custody
  have again {r' : PendingRequest} {rest' : List (PendingRequest × Buffer)}
      (front' : m.Front p (r', b) rest') : r' = r ∧ rest' = rest := by
    obtain ⟨same, rfl⟩ := List.cons_eq_cons.mp (front.lineup.symm.trans front'.lineup)
    cases same
    exact ⟨rfl, rfl⟩
  cases back with
  | withheld =>
      have quiet : m.Unsent m₁ := .of_journal (by obtain ⟨_, _, -, -, -, -, rfl⟩ := picks; rfl)
      obtain ⟨r', rest', front', -, lineup, unsent⟩ :=
        picks.requeue_lineup custody quiet rfl rfl rfl rfl rfl rfl
      obtain ⟨rfl, rfl⟩ := again front'
      exact ⟨r', rest', b, front, chosen, lineup, unsent, rfl, .refl _, requeue_idle ..⟩
  | refused failures =>
      obtain ⟨-, -, journal⟩ := picks.stamping (r := r) (by simp [flightTicket, chosen])
      have stamped : m.Unsent ((m₁.stamp b).2.retried failures) :=
        ⟨_, journal, by simpa using ⟨rfl, rfl⟩⟩
      obtain ⟨r', rest', front', -, lineup, unsent⟩ :=
        picks.requeue_lineup (c := (m₁.stamp b).1) custody stamped rfl rfl rfl rfl rfl rfl
      obtain ⟨rfl, rfl⟩ := again front'
      exact ⟨r', rest', (m₁.stamp b).1, front, chosen, lineup, unsent, rfl,
        MessageHeader.restamped_stamp _ _, requeue_idle ..⟩

/-- A turn chose the request `r` in the buffer `b` and made `calls`, and the request is back, in the
buffer `c`. The requests in `gone` were overdue when the turn looked for one to send. -/
structure Restores (now : Nat) (m : Mailbox) (calls : List Call) (p : Protocol)
    (r : PendingRequest) (b c : Buffer) (gone : Protocol → List (PendingRequest × Buffer))
    (m' : Mailbox) : Prop where
  chosen : ∀ call ∈ calls, call.isWrite = true ∨ call.mailbox.handshake = .sendPending →
    call.mailbox.inFlight = some ⟨b.index, r, false, 0⟩
  front : ∃ rest, m.lineup p = gone p ++ (r, b) :: rest ∧ m'.lineup p = (r, c) :: rest
  others : ∀ q, q ≠ p → m.lineup q = gone q ++ m'.lineup q
  overdue : ∀ q, ∀ entry ∈ gone q, entry.1.deadline ≤ now ∧ m.outcome? entry.1.ticket = none ∧
    m'.outcome? entry.1.ticket = some (.error .timeout)
  queued : ∀ q, (m.lineup q).map Prod.snd = m.sendQueues.entries q ∧
    (m'.lineup q).map Prod.snd = m'.sendQueues.entries q
  buffer : c = { b with bytes := c.bytes }
  restamped : MessageHeader.Restamped b.bytes c.bytes
  undecided : m'.outcome? r.ticket = none
  idle : m'.inFlight = none ∧ m'.handshake = .idle
  available : m'.sendPool.available = m.sendPool.available + inLine gone

theorem Sound.undecided (sound : m.Sound held) {r : PendingRequest} (lined : (r, b) ∈ m.lineup p) :
    m.outcome? r.ticket = none :=
  (sound.accounts.carried b.index r (.inl (mem_line.mp lined).2)).2.1

theorem turn_restores {m : Mailbox} (sound : m.Sound held) (opened : m.closed = false)
    (d : SlotDevice σ) (device : σ) (fails : Fails (m.calls d now device)) :
    ∃ p r b c gone,
      Restores now m (m.calls d now device) p r b c gone (m.turn d.transport now device).2.1 := by
  obtain ⟨n, m₂, m₃, polled, sent, split, begun, -, -, glances, sending⟩ :=
    turn_parts opened d now device
  have first := begun.moves.sound sound
  have settled (call : Call) (mem : call ∈ polled) :
      call.isWrite = false ∧ call.mailbox.handshake ≠ .sendPending :=
    ⟨glances.reads call mem, (glances.settled first call mem).1⟩
  rw [split] at fails ⊢
  obtain ⟨m₀, p, b, m₁, path, picks, serves, back⟩ := sending.putsBack (fails.sent settled)
  have whole := (begun.trans (glances.deeds now)).trans path
  obtain ⟨gone, sheds⟩ := whole.sheds sound (by simpa using glances.reads)
  have between := whole.moves.sound sound
  obtain ⟨r, rest, c, front, chosen, lineup, unsent, buffer, restamped, idle⟩ :=
    back.restored between.custody picks
  have after := (turn_moves d now m device).sound sound
  have lined : (m.turn d.transport now device).2.1.lineup p = (r, c) :: rest := by
    rw [lineup, Function.update_self]
  have others (q : Protocol) (other : q ≠ p) :
      m.lineup q = gone q ++ (m.turn d.transport now device).2.1.lineup q := by
    rw [sheds.lineup q, lineup, Function.update_of_ne other]
  have here : m.lineup p = gone p ++ (r, b) :: rest := by rw [sheds.lineup p, front.lineup]
  refine ⟨p, r, b, c, gone, ?_⟩
  constructor
  case chosen =>
    intro call mem active
    rcases List.mem_append.mp mem with mem | mem
    · obtain ⟨reads, pending⟩ := settled call mem
      rcases active with writes | active
      · rw [reads] at writes
        cases writes
      · exact absurd active pending
    · rcases serves call mem with ⟨result, rfl⟩ | ⟨result, rfl⟩ <;> exact chosen
  case front => exact ⟨rest, here, lined⟩
  case others => exact others
  case overdue =>
    intro q entry mem
    obtain ⟨late, ended⟩ := sheds.overdue q entry mem
    refine ⟨late, sound.undecided (p := q) (b := entry.2) ?_, unsent.outcome? ended⟩
    rw [sheds.lineup q]
    exact List.mem_append_left _ mem
  case queued => exact fun q => ⟨sound.custody.lineup q, after.custody.lineup q⟩
  case buffer => exact buffer
  case restamped => exact restamped
  case undecided => exact after.undecided (lined ▸ List.mem_cons_self)
  case idle => exact idle
  case available =>
    have total : inLine m.lineup =
        inLine gone + inLine (m.turn d.transport now device).2.1.lineup := by
      simp only [inLine, List.length_flatMap, ← List.sum_map_add]
      refine congrArg List.sum (List.map_congr_left fun q _ => ?_)
      by_cases same : q = p
      · rw [same, here, lined, List.length_append, List.length_cons, List.length_cons]
      · rw [others q same, List.length_append]
    have before := sound.custody.available
    have later := after.custody.available
    rw [(turn_moves d now m device).capacity] at later
    omega

end Mailbox

namespace Session

/-- A turn that chose a request which the slave did not take puts everything back, whatever failed,
and returns an error exactly if the transport had one. -/
theorem failed_turn {s : Session} (reached : s.Reachable) (opened : s.mailbox.closed = false)
    {σ : Type} (d : SlotDevice σ) (device : σ) (now : Nat)
    (fails : Mailbox.Fails (s.mailbox.calls d now device)) :
    (∃ p r b c gone, Mailbox.Restores now s.mailbox (s.mailbox.calls d now device) p r b c gone
      (s.mailbox.turn d.transport now device).2.1) ∧
    ∀ cause, (s.mailbox.turn d.transport now device).1 = .error cause ↔
      ∃ call ∈ s.mailbox.calls d now device, call.error? = some cause := by
  refine ⟨Mailbox.turn_restores (reached.sound opened).mailbox opened d device fails,
    fun cause => ?_⟩
  rw [← List.mem_filterMap, Mailbox.turn_errors opened]
  rcases (s.mailbox.turn d.transport now device).1 with other | answer
  · simp [errors, eq_comm]
  · simp [errors]

def severed : SlotDevice Unit where
  slotState _ _ device := (.ok .empty, device)
  write _ _ device := (.error .timeout, device)
  read _ _ device := ((.ok 0, []), device)

/-- Two requests wait, and the time of the first runs out at 1. -/
def waiting : Mailbox :=
  ((paired.submit .coe 0x1001 [1] false 1).2.submit .coe 0x1001 [2] false 1000000).2

/-- The first request ends, and the second is in line again after the write that failed. -/
theorem failed_turn_severed : ∃ s : Session, s.Reachable ∧ s.mailbox = waiting ∧
    s.mailbox.closed = false ∧ Mailbox.Fails (s.mailbox.calls severed 1 ()) ∧
    (∃ p r b c gone, Mailbox.Restores 1 s.mailbox (s.mailbox.calls severed 1 ()) p r b c gone
      (s.mailbox.turn severed.transport 1 ()).2.1) ∧
    (s.mailbox.turn severed.transport 1 ()).1 = .error .timeout ∧
    (s.mailbox.turn severed.transport 1 ()).2.1.outcome? 0 = some (.error .timeout) ∧
    ((s.mailbox.turn severed.transport 1 ()).2.1.lineup .coe).map (fun entry => entry.1.ticket) =
      [1] := by
  have start : Reachable ⟨paired, [], []⟩ := reachable_start _ _ _ _
  have first := submit_reachable start (by decide +kernel :
    (paired.submit .coe 0x1001 [1] false 1).1.toOption = some ⟨0, 0, 1⟩)
  have reached := submit_reachable first (by decide +kernel :
    ((paired.submit .coe 0x1001 [1] false 1).2.submit .coe 0x1001 [2] false 1000000).1.toOption =
      some ⟨1, 1, 1000000⟩)
  have fails : Mailbox.Fails (waiting.calls severed 1 ()) := by
    have written : (waiting.calls severed 1 ()).any
        (fun call => call.isWrite && call.error?.isSome) = true := by decide +kernel
    obtain ⟨call, mem, both⟩ := List.any_eq_true.mp written
    obtain ⟨writes, failed⟩ := Bool.and_eq_true_iff.mp both
    obtain ⟨mailbox, access⟩ := call
    cases access with
    | look => cases writes
    | read => cases writes
    | write data result =>
        rcases result with cause | workCounter
        · exact .broken mem rfl
        · cases failed
  obtain ⟨restores, error⟩ := failed_turn reached rfl severed () 1 fails
  exact ⟨_, reached, rfl, rfl, fails, restores, by decide +kernel, by decide +kernel,
    by decide +kernel⟩

end Session

end Fieldbus
