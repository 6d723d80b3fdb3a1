import Fieldbus.Proofs.Mailbox.Ledger
import Fieldbus.Proofs.Mailbox.Messages
import Mathlib.Logic.Function.Iterate

/-!
# The counters of acknowledged messages

A turn that writes stamps the next counter, whether or not the slave takes the message, and the
counters repeat after seven. So two messages carry the same counter if the number of turns from one
to the other that wrote is a multiple of seven, and nothing keeps two messages from it that the
slave takes one after the other.
-/

namespace Fieldbus

theorem SequenceCounter.last_next (c : SequenceCounter) :
    c.next.last.toNat = if 7 ≤ c.last.toNat then 1 else c.last.toNat + 1 := by
  unfold next maximum
  dsimp only
  by_cases last : c.last ≥ 7
  · have top : 7 ≤ c.last.toNat := UInt8.le_iff_toNat_le.mp last
    rw [if_pos last, if_pos top]
    rfl
  · have below : ¬7 ≤ c.last.toNat := fun top => last (UInt8.le_iff_toNat_le.mpr top)
    rw [if_neg last, if_neg below, UInt8.toNat_add]
    simp
    omega

theorem SequenceCounter.last_iterate (n : Nat) :
    (next^[n + 1] {}).last.toNat = n % 7 + 1 := by
  induction n with
  | zero => rfl
  | succ n ih =>
      rw [Function.iterate_succ_apply', last_next, ih]
      split <;> omega

/-- The call writes a message with this counter, if the slot holds a header at all. -/
def Call.Carries (c : Call) (counter : UInt8) : Prop :=
  ∃ data result, c.access = .write data result ∧
    (Layout.mailboxHeader ≤ c.mailbox.slave.writeSlot.length.toNat →
      ∃ header, MessageHeader.decode? data = .ok header ∧ header.counter = counter)

theorem Call.Sends.carries {call : Call} {request : PendingRequest} {message : Bytes}
    {header : MessageHeader} (sends : call.Sends request message)
    (decoded : MessageHeader.decode? message = .ok header)
    (small : call.mailbox.counter.last.toNat < 8) : call.Carries call.mailbox.counter.last := by
  obtain ⟨result, access⟩ := sends.access
  refine ⟨_, result, access, fun whole => ?_⟩
  rw [MessageHeader.decode?_take _ whole, MessageHeader.decode?_stamp decoded small]
  exact ⟨_, rfl, rfl⟩

def Sight.writes : Sight → Bool
  | .turn _ calls => calls.any Call.isWrite
  | _ => false

/-- The number of turns that wrote. -/
def writings (trace : List Sight) : Nat := trace.countP Sight.writes

/-- The counters of the messages that the slave took, in that order. -/
def takenCounters (trace : List Sight) : List UInt8 :=
  ((callsOf trace).filter Call.acknowledged).map fun call => call.mailbox.counter.last

namespace Mailbox

variable {m m' : Mailbox} {held : List Buffer} {now : Nat} {calls : List Call}

theorem Deeds.unstamped (path : Deeds now m calls m')
    (reads : ∀ call ∈ calls, call.isWrite = false) : m'.counter = m.counter := by
  induction path with
  | refl => rfl
  | tail path deed ih =>
      have before := ih fun call mem => reads call (List.mem_append_left _ mem)
      have last := deed.unstamped fun call mem => reads call (List.mem_append_right _ mem)
      exact last.trans before

theorem turn_counter {σ : Type} (d : SlotDevice σ) (now : Nat) (m : Mailbox) (device : σ) :
    (m.turn d.transport now device).2.1.counter =
      if (m.calls d now device).any Call.isWrite then m.counter.next else m.counter := by
  obtain ⟨m₀, polled, sent, split, path, reads, final⟩ := turn_deeds d now m device
  have quiet : polled.any Call.isWrite = false := by simpa using reads
  rw [split, List.any_append, quiet, Bool.false_or, ← path.unstamped reads]
  rcases final with ⟨rfl, same⟩ | deed
  · rw [same]
    rfl
  · split
    case isTrue written => exact deed.stamped (List.any_eq_true.mp written)
    case isFalse unwritten => exact deed.unstamped (by simpa using unwritten)

theorem Undergoes.counter {sight : Sight} (undergoes : m.Undergoes sight m') :
    m'.counter = if sight.writes then m.counter.next else m.counter := by
  cases undergoes with
  | turn d device now => exact turn_counter d now m device
  | queue => rfl
  | close dismisses => exact dismisses.counter
  | aside idles => exact idles.counter

theorem counter_of_write {σ : Type} (d : SlotDevice σ) (device : σ) {call : Call}
    (mem : call ∈ m.calls d now device) (written : call.isWrite = true) :
    call.mailbox.counter = m.counter.next := by
  obtain ⟨polled, m₀, path, reads, p, b, m₁, result, picks, mailbox, -⟩ :=
    turn_writes d device mem written
  obtain ⟨sendQueues, request, -, -, -, -, stamped⟩ := picks.stamp
  rw [mailbox, stamped, ← path.unstamped reads]

theorem turn_takers {σ : Type} (s : m.Sound held) (d : SlotDevice σ) (device : σ) :
    ((m.calls d now device).filterMap Call.taker?).length ≤ 1 := by
  obtain ⟨m₀, polled, sent, split, path, reads, final⟩ := turn_deeds d now m device
  have untaken : polled.filterMap Call.taker? = [] :=
    List.filterMap_eq_nil_iff.mpr fun call mem => Call.taker?_of_read (reads call mem)
  rw [split, List.filterMap_append, untaken, List.nil_append]
  rcases final with ⟨rfl, -⟩ | deed
  · exact Nat.zero_le 1
  · have between := Moves.sound s path.moves
    have takers := deed.tells.takers
    rcases (deed.move.effect between.custody).2.1.holds_or_delivers with
      holds | ⟨index, request, workCounter, delivers⟩
    · rw [holds.takers, List.self_eq_append_right] at takers
      rw [takers]
      exact Nat.zero_le 1
    · rw [delivers.takers, List.append_cancel_left_eq] at takers
      rw [← takers]
      exact Nat.le_refl 1

end Mailbox

namespace Session

variable {s s₁ : Session} {trace : List Sight} {now : Nat} {calls : List Call} {call : Call}

theorem Traced.counter (traced : Traced trace s) :
    s.mailbox.counter = SequenceCounter.next^[writings trace] {} := by
  induction traced with
  | start => rfl
  | @step trace s s' sight traced shown ih =>
      rw [(shown.undergoes traced.reachable).counter, ih, writings, writings, List.countP_append,
        List.countP_singleton]
      split
      · rw [Function.iterate_succ_apply']
      · rfl

theorem Traced.counter_of_write (traced : Traced trace s) (shown : Shows s (.turn now calls) s₁)
    (mem : call ∈ calls) (written : call.isWrite = true) :
    call.mailbox.counter = SequenceCounter.next^[writings trace + 1] {} := by
  cases shown with
  | turn d device now =>
      rw [Function.iterate_succ_apply', ← traced.counter]
      exact Mailbox.counter_of_write d device mem written

theorem Traced.turn_once (traced : Traced trace s) (shown : Shows s (.turn now calls) s₁) :
    (calls.filterMap Call.taker?).length ≤ 1 := by
  rcases traced.reachable.sound_or_closed with sound | closed
  · cases shown with
    | turn d device now => exact Mailbox.turn_takers sound d device
  · cases shown with
    | turn d device now =>
        rw [Mailbox.calls_closed closed]
        exact Nat.zero_le 1

theorem writings_turn (before between : List Sight) (written : call.isWrite = true)
    (mem : call ∈ calls) :
    writings (before ++ .turn now calls :: between) = writings before + (writings between + 1) := by
  have writes : (Sight.turn now calls).writes = true := List.any_eq_true.mpr ⟨call, mem, written⟩
  rw [writings, List.countP_append, List.countP_cons_of_pos writes, writings, writings]

theorem last_counter_bounds (n : Nat) :
    1 ≤ (SequenceCounter.next^[n + 1] {}).last.toNat ∧
      (SequenceCounter.next^[n + 1] {}).last.toNat ≤ 7 := by
  rw [SequenceCounter.last_iterate]
  omega

theorem counter_eq_iff (n k : Nat) :
    SequenceCounter.next^[n + 1] {} = SequenceCounter.next^[n + k + 1] {} ↔ 7 ∣ k := by
  have fields (c c' : SequenceCounter) : c = c' ↔ c.last.toNat = c'.last.toNat := by
    rw [UInt8.toNat_inj]
    cases c
    cases c'
    simp
  rw [fields, SequenceCounter.last_iterate, SequenceCounter.last_iterate]
  omega

theorem mem_callsOf (mem : call ∈ callsOf trace) :
    ∃ before now calls after, trace = before ++ .turn now calls :: after ∧ call ∈ calls := by
  obtain ⟨sight, seen, here⟩ := List.mem_flatMap.mp mem
  obtain ⟨before, after, split⟩ := List.append_of_mem seen
  cases sight with
  | turn now calls => exact ⟨before, now, calls, after, split, here⟩
  | queue => cases here
  | close => cases here
  | aside => cases here

theorem Traced.carries (traced : Traced trace s) (mem : call ∈ callsOf trace)
    (taken : call.acknowledged = true) :
    call.Carries call.mailbox.counter.last ∧
      1 ≤ call.mailbox.counter.last.toNat ∧ call.mailbox.counter.last.toNat ≤ 7 := by
  have written := (Call.taker?_of_acknowledged taken).1
  obtain ⟨request, message, known, sends⟩ := traced.sends mem written
  obtain ⟨header, decoded⟩ := traced.decoded known
  obtain ⟨before, now, calls, after, rfl, own⟩ := mem_callsOf mem
  obtain ⟨s₀, s₁, led, shown⟩ := traced.split
  have bounds := last_counter_bounds (writings before)
  rw [← led.counter_of_write shown own written] at bounds
  exact ⟨sends.carries decoded (by omega), bounds⟩

theorem Traced.taken_once (traced : Traced trace s) (mem : .turn now calls ∈ trace) :
    calls.countP Call.acknowledged ≤ 1 := by
  have known : ∀ call ∈ calls, call ∈ callsOf trace :=
    fun call here => List.mem_flatMap.mpr ⟨_, mem, here⟩
  obtain ⟨before, after, rfl⟩ := List.append_of_mem mem
  obtain ⟨s₀, s₁, led, shown⟩ := traced.split
  refine Nat.le_trans ?_ (led.turn_once shown)
  rw [List.length_filterMap_eq_countP]
  refine List.countP_mono_left fun call here taken => ?_
  obtain ⟨written, taker⟩ := Call.taker?_of_acknowledged taken
  obtain ⟨request, message, -, sends⟩ := traced.sends (known call here) written
  rw [taker, sends.own]
  rfl

theorem Traced.repeats_iff {before between after : List Sight} {later : Nat} {calls' : List Call}
    {first second : Call}
    (traced : Traced (before ++ .turn now calls :: (between ++ .turn later calls' :: after)) s)
    (mem : first ∈ calls) (mem' : second ∈ calls') (written : first.isWrite = true)
    (written' : second.isWrite = true) :
    first.mailbox.counter = second.mailbox.counter ↔ 7 ∣ writings between + 1 := by
  obtain ⟨s₀, s₁, led, shown⟩ := traced.split
  rw [← List.cons_append, ← List.append_assoc] at traced
  obtain ⟨s₂, s₃, led', shown'⟩ := traced.split
  rw [led.counter_of_write shown mem written, led'.counter_of_write shown' mem' written',
    writings_turn before between written mem, counter_eq_iff]

/-- Whatever the slave takes carries a counter from 1 to 7, it takes one message in a turn at most,
and two messages carry the same counter just if the turns that wrote since the first are a multiple
of seven, the turn of the second being one of them. -/
theorem taken_counters (traced : Traced trace s) :
    (∀ call ∈ callsOf trace, call.acknowledged = true →
        call.Carries call.mailbox.counter.last ∧
          1 ≤ call.mailbox.counter.last.toNat ∧ call.mailbox.counter.last.toNat ≤ 7) ∧
      (∀ now calls, .turn now calls ∈ trace → calls.countP Call.acknowledged ≤ 1) ∧
      ∀ before between after now later calls calls' first second,
        trace = before ++ .turn now calls :: (between ++ .turn later calls' :: after) →
        first ∈ calls → second ∈ calls' → first.acknowledged = true →
        second.acknowledged = true →
        (first.mailbox.counter = second.mailbox.counter ↔ 7 ∣ writings between + 1) := by
  refine ⟨fun call => traced.carries, fun now calls => traced.taken_once, ?_⟩
  rintro before between after now later calls calls' first second rfl mem mem' taken taken'
  exact traced.repeats_iff mem mem' (Call.taker?_of_acknowledged taken).1
    (Call.taker?_of_acknowledged taken').1

/-! ## A counter that repeats -/

def deaf : SlotDevice Unit where
  slotState _ _ device := (.ok .empty, device)
  write _ _ device := (.ok 0, device)
  read _ _ device := ((.ok 0, []), device)

def rebuffed (m : Mailbox) : Nat → Mailbox
  | 0 => m
  | n + 1 => ((rebuffed m n).turn deaf.transport (n + 1) ()).2.1

def rebuffs (m : Mailbox) : Nat → List Sight
  | 0 => []
  | n + 1 => rebuffs m n ++ [.turn (n + 1) ((rebuffed m n).calls deaf (n + 1) ())]

theorem traced_rebuffed {m : Mailbox} {held : List Buffer} {pending : List Handle}
    (traced : Traced trace ⟨m, held, pending⟩) (n : Nat) :
    Traced (trace ++ rebuffs m n) ⟨rebuffed m n, held, pending⟩ := by
  induction n with
  | zero => rwa [rebuffs, List.append_nil]
  | succ n ih =>
      rw [rebuffs, ← List.append_assoc]
      exact ih.step (.turn deaf () (n + 1))

/-- The first of two messages is queued, then taken, and the second is queued. -/
def opening : Mailbox := (cramped.submit .coe 0x1001 [1] false 1000000).2

def halfway : Mailbox :=
  ((opening.turn mute.transport 0 ()).2.1.submit .coe 0x1001 [2] false 1000000).2

@[simp] theorem takenCounters_append (trace more : List Sight) :
    takenCounters (trace ++ more) = takenCounters trace ++ takenCounters more := by
  simp [takenCounters]

/-- Six turns in vain lie between the turns in which the slave took the two messages. -/
theorem repeating : ∃ before between s,
    Traced (before ++ .turn 0 (opening.calls mute 0 ()) ::
      (between ++ [.turn 7 ((rebuffed halfway 6).calls mute 7 ())])) s ∧
    takenCounters before = [] ∧ takenCounters between = [] ∧ writings between = 6 := by
  have start : Traced [] ⟨cramped, [], []⟩ := .start _ _ _ _
  have accepted : (cramped.submit .coe 0x1001 [1] false 1000000).1 = .ok ⟨0, 0, 1000000⟩ := by rfl
  have accepted' : ((opening.turn mute.transport 0 ()).2.1.submit .coe 0x1001 [2] false
      1000000).1 = .ok ⟨0, 1, 1000000⟩ := by rfl
  obtain ⟨first, queued⟩ := submit_traced start accepted
  have written : Traced _ ⟨(opening.turn mute.transport 0 ()).2.1, _, _⟩ :=
    queued.step (.turn mute () 0)
  obtain ⟨second, waiting⟩ := submit_traced written accepted'
  have again := (traced_rebuffed waiting 6).step (.turn mute () 7)
  have vain : takenCounters (rebuffs halfway 6) = [] ∧ writings (rebuffs halfway 6) = 6 := by
    decide +kernel
  simp only [List.nil_append, List.append_assoc, List.cons_append] at again
  rw [← List.append_assoc (submission ⟨1, false, 1000000⟩ second)] at again
  refine ⟨_, _, _, again, rfl, (takenCounters_append _ _).trans vain.1, ?_⟩
  rw [writings, List.countP_append]
  exact (Nat.zero_add _).trans vain.2

theorem taken_repeating : takenCounters [.turn 0 (opening.calls mute 0 ())] = [1] ∧
    takenCounters [.turn 7 ((rebuffed halfway 6).calls mute 7 ())] = [1] := by
  decide +kernel

/-- Two messages that a slave takes one after the other can carry the same counter. -/
theorem exists_repeated_counter :
    ∃ trace s, Traced trace s ∧ ¬(takenCounters trace).IsChain (· ≠ ·) := by
  obtain ⟨before, between, s, traced, none, none', -⟩ := repeating
  refine ⟨_, s, traced, ?_⟩
  rw [← List.singleton_append, takenCounters_append, takenCounters_append, takenCounters_append,
    none, none', taken_repeating.1, taken_repeating.2]
  decide

theorem taken_counters_repeating :
    ∃ before between calls calls' first second s,
      Traced (before ++ .turn 0 calls :: (between ++ [.turn 7 calls'])) s ∧
      takenCounters between = [] ∧ writings between = 6 ∧
      first ∈ calls ∧ first.acknowledged = true ∧ second ∈ calls' ∧ second.acknowledged = true ∧
      first.mailbox.counter = second.mailbox.counter := by
  obtain ⟨before, between, s, traced, -, none, six⟩ := repeating
  have taken : (opening.calls mute 0 ()).any Call.acknowledged = true ∧
      ((rebuffed halfway 6).calls mute 7 ()).any Call.acknowledged = true := by decide +kernel
  obtain ⟨first, mem, acknowledged⟩ := List.any_eq_true.mp taken.1
  obtain ⟨second, mem', acknowledged'⟩ := List.any_eq_true.mp taken.2
  obtain ⟨-, -, repeats⟩ := taken_counters traced
  have same := repeats before between [] 0 7 _ _ first second rfl mem mem' acknowledged
    acknowledged'
  exact ⟨before, between, _, _, first, second, s, traced, none, six, mem, acknowledged, mem',
    acknowledged', same.mpr (by omega)⟩

end Session

end Fieldbus
