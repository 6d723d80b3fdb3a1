import Fieldbus.Mailbox.Turn
import Mathlib.Data.List.Basic

/-!
# What the journal of a mailbox says of its requests

The journal names every request that was queued, every wait that ran out and every outcome. A
request that has its outcome keeps it.
-/

namespace Fieldbus

namespace MailboxEvent

def admission? : MailboxEvent → Option (Nat × PendingRequest)
  | .enqueued index request => some (index, request)
  | _ => none

def withdrawal? : MailboxEvent → Option (Nat × Nat)
  | .withdrawn ticket waiter => some (ticket, waiter)
  | _ => none

structure Quiet (event : MailboxEvent) : Prop where
  admission : event.admission? = none
  withdrawal : event.withdrawal? = none
  outcome : ∀ ticket, Mailbox.outcomeOf? ticket event = none

theorem quiet_garbled (bytes : Bytes) : Quiet (.garbled bytes) := ⟨rfl, rfl, fun _ => rfl⟩

theorem quiet_routed (message : Message) (fate : Fate) : Quiet (.routed message fate) :=
  ⟨rfl, rfl, fun _ => rfl⟩

theorem quiet_requeued (ticket : Nat) : Quiet (.requeued ticket) := ⟨rfl, rfl, fun _ => rfl⟩

theorem quiet_stamped (ticket : Option Nat) (counter : UInt8) : Quiet (.stamped ticket counter) :=
  ⟨rfl, rfl, fun _ => rfl⟩

theorem quiet_acknowledged (ticket : Option Nat) (counter : UInt8) (workCounter : UInt16) :
    Quiet (.acknowledged ticket counter workCounter) := ⟨rfl, rfl, fun _ => rfl⟩

theorem quiet_fired (firing : Firing) : Quiet (.fired firing) := ⟨rfl, rfl, fun _ => rfl⟩

end MailboxEvent

namespace Mailbox

open MailboxEvent (admission? withdrawal?)

def admissions (m : Mailbox) : List (Nat × PendingRequest) := m.journal.filterMap admission?

/-- The requests that were withdrawn, each with the request that was waited for. -/
def withdrawals (m : Mailbox) : List (Nat × Nat) := m.journal.filterMap withdrawal?

def verdict (m : Mailbox) (ticket : Nat) (outcome : Except Error Reply) : List MailboxEvent :=
  if (m.outcome? ticket).isSome then [] else [.resolved ticket outcome]

theorem resolve_eq (m : Mailbox) (ticket : Nat) (outcome : Except Error Reply) :
    m.resolve ticket outcome = { m with journal := m.journal ++ m.verdict ticket outcome } := by
  unfold resolve verdict
  split
  · rw [List.append_nil]
  · rfl

theorem admission?_verdict (m : Mailbox) (ticket : Nat) (outcome : Except Error Reply) :
    (m.verdict ticket outcome).filterMap admission? = [] := by
  unfold verdict
  split <;> rfl

theorem withdrawal?_verdict (m : Mailbox) (ticket : Nat) (outcome : Except Error Reply) :
    (m.verdict ticket outcome).filterMap withdrawal? = [] := by
  unfold verdict
  split <;> rfl

/-! ## A longer journal -/

variable {m m' : Mailbox} {events : List MailboxEvent}

theorem admissions_append (h : m'.journal = m.journal ++ events) :
    m'.admissions = m.admissions ++ events.filterMap admission? := by
  rw [admissions, h, List.filterMap_append, admissions]

theorem withdrawals_append (h : m'.journal = m.journal ++ events) :
    m'.withdrawals = m.withdrawals ++ events.filterMap withdrawal? := by
  rw [withdrawals, h, List.filterMap_append, withdrawals]

theorem outcome?_append (h : m'.journal = m.journal ++ events) (ticket : Nat) :
    m'.outcome? ticket = (m.outcome? ticket).or (events.findSome? (outcomeOf? ticket)) := by
  rw [outcome?, h, List.findSome?_append, outcome?]

theorem outcome?_kept {ticket : Nat} {outcome : Except Error Reply}
    (journal : m'.journal = m.journal ++ events) (decided : m.outcome? ticket = some outcome) :
    m'.outcome? ticket = some outcome := by
  rw [outcome?_append journal, decided, Option.some_or]

structure Unmoved (m m' : Mailbox) : Prop where
  admissions : m'.admissions = m.admissions
  withdrawals : m'.withdrawals = m.withdrawals
  outcome : ∀ ticket, m'.outcome? ticket = m.outcome? ticket

theorem Unmoved.of_quiet (h : m'.journal = m.journal ++ events)
    (quiet : ∀ event ∈ events, event.Quiet) : Unmoved m m' where
  admissions := by
    rw [admissions_append h, List.filterMap_eq_nil_iff.mpr fun e he => (quiet e he).admission,
      List.append_nil]
  withdrawals := by
    rw [withdrawals_append h, List.filterMap_eq_nil_iff.mpr fun e he => (quiet e he).withdrawal,
      List.append_nil]
  outcome ticket := by
    rw [outcome?_append h, List.findSome?_eq_none_iff.mpr fun e he => (quiet e he).outcome ticket,
      Option.or_none]

theorem Unmoved.of_journal (h : m'.journal = m.journal) : Unmoved m m' :=
  .of_quiet (by simpa using h) (List.forall_mem_nil _)

structure Resolves (m : Mailbox) (ticket : Nat) (outcome : Except Error Reply) (m' : Mailbox) :
    Prop where
  admissions : m'.admissions = m.admissions
  withdrawals : m'.withdrawals = m.withdrawals
  outcome : m'.outcome? ticket = (m.outcome? ticket).or (some outcome)
  others : ∀ other, other ≠ ticket → m'.outcome? other = m.outcome? other

theorem findSome?_verdict (m : Mailbox) (ticket other : Nat) (outcome : Except Error Reply) :
    (m.verdict ticket outcome).findSome? (outcomeOf? other) =
      if ticket = other ∧ m.outcome? ticket = none then some outcome else none := by
  unfold verdict
  cases found : m.outcome? ticket with
  | none => simp [outcomeOf?]
  | some _ => simp

theorem Resolves.of_verdict {m₀ : Mailbox} {ticket : Nat} {outcome : Except Error Reply}
    (before : Unmoved m m₀) (h : m'.journal = m₀.journal ++ m₀.verdict ticket outcome) :
    Resolves m ticket outcome m' where
  admissions := by
    rw [admissions_append h, admission?_verdict, List.append_nil, before.admissions]
  withdrawals := by
    rw [withdrawals_append h, withdrawal?_verdict, List.append_nil, before.withdrawals]
  outcome := by
    rw [outcome?_append h, findSome?_verdict, before.outcome]
    cases m.outcome? ticket <;> simp
  others other ne := by
    rw [outcome?_append h, findSome?_verdict, if_neg fun both => ne both.1.symm, Option.or_none,
      before.outcome]

/-! ## One outcome each -/

def Decided (m : Mailbox) : Prop :=
  ∀ ticket, (m.journal.filterMap (outcomeOf? ticket)).length ≤ 1

theorem Decided.append (h : m.Decided) (journal : m'.journal = m.journal ++ events)
    (open' : ∀ event ∈ events, ∀ ticket, outcomeOf? ticket event = none) : m'.Decided := by
  intro ticket
  have silent : events.filterMap (outcomeOf? ticket) = [] :=
    List.filterMap_eq_nil_iff.mpr fun event mem => open' event mem ticket
  rw [journal, List.filterMap_append, silent, List.append_nil]
  exact h ticket

theorem Decided.of_quiet (h : m.Decided) (journal : m'.journal = m.journal ++ events)
    (quiet : ∀ event ∈ events, event.Quiet) : m'.Decided :=
  h.append journal fun event mem => (quiet event mem).outcome

theorem Decided.of_verdict {ticket : Nat} {outcome : Except Error Reply} (h : m.Decided)
    (quiet : ∀ event ∈ events, event.Quiet)
    (journal : m'.journal = m.journal ++ events ++ m.verdict ticket outcome) : m'.Decided := by
  have before : Decided { m with journal := m.journal ++ events } := h.of_quiet rfl quiet
  intro other
  rw [journal, List.filterMap_append]
  unfold verdict
  split
  · rw [List.filterMap_nil, List.append_nil]
    exact before other
  case isFalse undecided =>
    by_cases same : ticket = other
    · subst same
      rw [Option.not_isSome_iff_eq_none, outcome?, List.findSome?_eq_none_iff] at undecided
      have none : (m.journal ++ events).filterMap (outcomeOf? ticket) = [] := by
        refine List.filterMap_eq_nil_iff.mpr fun event mem => ?_
        exact (List.mem_append.mp mem).elim (undecided event)
          fun mem => (quiet event mem).outcome ticket
      rw [none]
      simp [outcomeOf?]
    · simp only [List.filterMap_cons, outcomeOf?, if_neg same, List.filterMap_nil,
        List.append_nil]
      exact before other

theorem Decided.resolved {ticket : Nat} {outcome : Except Error Reply} (h : m.Decided)
    (journal : m'.journal = m.journal ++ m.verdict ticket outcome) : m'.Decided := by
  have alone : m'.journal = m.journal ++ [] ++ m.verdict ticket outcome := by
    rw [List.append_nil, journal]
  exact h.of_verdict (List.forall_mem_nil _) alone

end Mailbox

end Fieldbus
