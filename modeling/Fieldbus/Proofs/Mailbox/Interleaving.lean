import Fieldbus.Proofs.Mailbox.Beats

/-!
# Callers that act during a turn

Every call of the transport is a round trip, and callers use the mailbox meanwhile. Between two
calls a turn does nothing but beats, and so do callers at any time. So a turn is a path of beats,
whoever acts during it.

`Happens` has the steps of a session, and turns during whose calls callers act. It does not keep
account of what callers hold: an `Act` is an operation with any buffer and any handle.
-/

namespace Fieldbus

variable {σ : Type}

/-- Whatever a call of the transport does to the mailbox is in `R`. -/
structure Transport.Within (t : Transport σ) (R : Mailbox → Mailbox → Prop) : Prop where
  slotState : ∀ slot m s, R m (t.slotState slot m s).2.1
  write : ∀ data m s, R m (t.write data m s).2.1
  read : ∀ bytes m s, R m (t.read bytes m s).2.1

theorem Transport.Within.mono {t : Transport σ} {R R' : Mailbox → Mailbox → Prop}
    (h : t.Within R) (le : ∀ m m', R m m' → R' m m') : t.Within R' where
  slotState slot m s := le _ _ (h.slotState slot m s)
  write data m s := le _ _ (h.write data m s)
  read bytes m s := le _ _ (h.read bytes m s)

theorem SlotDevice.transport_within (d : SlotDevice σ) {R : Mailbox → Mailbox → Prop}
    (refl : ∀ m, R m m) : d.transport.Within R :=
  ⟨fun _ m _ => refl m, fun _ m _ => refl m, fun _ m _ => refl m⟩

def Buffer.received (b : Buffer) (bytes : Bytes) (length : Nat) : Buffer :=
  (b.holding (bytes.take length)).withLength length

/-- What the next look at the read slot takes out of it, and the mailbox that is to make something
of it when the read returns. -/
def Transport.inbound? (t : Transport σ) (m : Mailbox) (s : σ) : Option (Mailbox × Buffer) :=
  match t.slotState m.slave.readSlot m s with
  | (.ok .full, m, s) =>
      match m.receivePool.take? with
      | .error _ => none
      | .ok (b, receivePool) =>
          let length := m.slave.readSlot.length.toNat
          match t.read (b.bytes.take length) { m with slotState := .full, receivePool } s with
          | ((.ok counter, bytes), m, _) =>
              if counter = 0 then none
              else some ({ m with slotState := .empty }, b.received bytes length)
          | _ => none
  | _ => none

namespace Mailbox

variable {m m' : Mailbox} {held : List Buffer} {now : Nat}

def Leads (m m' : Mailbox) : Prop := ∀ held, Beats ⟨m, held⟩ ⟨m', held⟩

theorem look_beats (m : Mailbox) (held : List Buffer) (slotState : SlotState) :
    Beats ⟨m, held⟩ ⟨{ m with slotState }, held⟩ := same_beats rfl rfl rfl id

theorem schedule_beats (m : Mailbox) (held : List Buffer) (nextPoll : Option Nat) :
    Beats ⟨m, held⟩ ⟨{ m with readScheduled := false, nextPoll }, held⟩ :=
  same_beats rfl rfl rfl id

/-! ## Reading -/

section Read

variable {t : Transport σ} (within : t.Within Leads) (held : List Buffer)

include within in
theorem readOne_cases (m : Mailbox) (s : σ) :
    t.inbound? m s = none ∧ (readOne t m s).1 ≠ .ok true ∧
        Beats ⟨m, held⟩ ⟨(readOne t m s).2.1, held⟩ ∨
      ∃ m₁ c, t.inbound? m s = some (m₁, c) ∧ (readOne t m s).1 = .ok true ∧
        Beats ⟨m, held⟩ ⟨m₁, c :: held⟩ ∧
        (readOne t m s).2.1 = m₁.route c := by
  have looked := within.slotState m.slave.readSlot m s held
  unfold readOne Transport.inbound?
  rcases answered : t.slotState m.slave.readSlot m s with ⟨cause | state, m₁, s₁⟩ <;>
    simp only [answered] at looked ⊢
  · exact .inl ⟨trivial, by simp, looked⟩
  · have seen := looked.trans (look_beats m₁ held state)
    cases state with
    | empty => exact .inl ⟨rfl, by simp, seen⟩
    | full =>
        rcases taken : m₁.receivePool.take? with cause | ⟨b, receivePool⟩ <;> simp only [taken]
        · exact .inl ⟨trivial, by simp, seen⟩
        · have out := seen.tail (.take held taken)
          have called := out.trans (within.read (b.bytes.take m₁.slave.readSlot.length.toNat)
            { m₁ with slotState := .full, receivePool } s₁ (b :: held))
          rcases read : t.read (b.bytes.take m₁.slave.readSlot.length.toNat)
              { m₁ with slotState := .full, receivePool } s₁ with
            ⟨⟨cause | counter, bytes⟩, m₂, s₂⟩ <;> simp only [read] at called ⊢
          · have filled := called.tail (.fill m₂ held
              (c := b.holding (bytes.take m₁.slave.readSlot.length.toNat)) rfl rfl)
            exact .inl ⟨trivial, by simp, filled.tail (.spare m₂ held _)⟩
          · by_cases none : counter = 0
            · have filled := called.tail (.fill m₂ held
                (c := b.holding (bytes.take m₁.slave.readSlot.length.toNat)) rfl rfl)
              simp only [none, if_true]
              exact .inl ⟨trivial, by simp, filled.tail (.spare m₂ held _)⟩
            · simp only [none, if_false]
              have filled := called.tail (.fill m₂ held
                (c := b.received bytes m₁.slave.readSlot.length.toNat) rfl rfl)
              exact .inr ⟨_, _, rfl, trivial, filled.trans (look_beats m₂ _ .empty), rfl⟩

include within in
theorem readOne_beats (m : Mailbox) (s : σ) : Beats ⟨m, held⟩ ⟨(readOne t m s).2.1, held⟩ := by
  rcases readOne_cases within held m s with ⟨-, -, beats⟩ | ⟨m₁, c, -, -, beats, eq⟩
  · exact beats
  · rw [eq]
    exact beats.tail (.route m₁ held c)

include within in
theorem readMany_beats (fuel : Nat) (m : Mailbox) (s : σ) :
    Beats ⟨m, held⟩ ⟨(readMany t fuel m s).2.1, held⟩ := by
  induction fuel generalizing m s with
  | zero => exact .refl
  | succ fuel ih =>
      have first := readOne_beats within held m s
      rw [readMany]
      rcases read : readOne t m s with ⟨cause | taken, m₁, s₁⟩ <;> rw [read] at first
      · exact first
      · cases taken with
        | false => exact first
        | true => exact first.trans (ih m₁ s₁)

include within in
theorem poll_beats (now : Nat) (m : Mailbox) (s : σ) :
    Beats ⟨m, held⟩ ⟨(poll t now m s).2.1, held⟩ := by
  unfold poll
  split
  · exact (schedule_beats m held _).trans (readMany_beats within held _ _ s)
  · exact .refl

end Read

/-! ## Writing -/

theorem retry_beats (m : Mailbox) (held : List Buffer) (failures : Nat) :
    Beats ⟨m, held⟩ ⟨m.retried failures, held⟩ := same_beats rfl rfl rfl id

theorem Picks.stamp_beats {m₁ : Mailbox} {p : Protocol} {b : Buffer} (picks : m.Picks now p b m₁)
    (held : List Buffer) (failures : Nat) :
    Beats ⟨m, held⟩ ⟨(m₁.stamp b).2.retried failures, held⟩ :=
  ((picks.beats held).tail (.stamp m₁ held b)).trans (retry_beats _ held failures)

theorem Move.beats (move : Move now m m') (held : List Buffer) : Beats ⟨m, held⟩ ⟨m', held⟩ := by
  cases move with
  | expire => exact expire_beats m held now
  | schedule nextPoll => exact schedule_beats m held nextPoll
  | look slotState => exact look_beats m held slotState
  | @spare b receivePool data take short =>
      have taken : Beats ⟨m, held⟩ _ := .single (.take held take)
      have filled := taken.tail (.fill _ held (c := b.holding data) rfl rfl)
      exact filled.tail (.spare _ held _)
  | @receive b receivePool data take short =>
      let c := (b.holding data).withLength m.slave.readSlot.length.toNat
      have taken : Beats ⟨m, held⟩ _ := .single (.take held take)
      have filled := taken.tail (.fill _ held (c := c) rfl rfl)
      have emptied := filled.trans (look_beats _ _ .empty)
      exact emptied.tail (.route _ held c)
  | orphan ready next vacant => exact same_beats rfl rfl rfl id
  | overdue ready next found late => exact overdue_beats held _ found
  | withhold picks => exact (picks.beats held).trans (requeue_beats _ held _ _)
  | refuse failures picks =>
      exact (picks.stamp_beats held failures).trans (requeue_beats _ held _ _)
  | accept failures picks counted =>
      exact (picks.stamp_beats held failures).trans (acknowledge_beats _ held _ _)

theorem Moves.beats (moves : Moves now m m') (held : List Buffer) :
    Beats ⟨m, held⟩ ⟨m', held⟩ := by
  induction moves with
  | refl => exact .refl
  | tail _ move ih => exact ih.trans (move.beats held)

theorem takeNext_beats (now : Nat) (m : Mailbox) (held : List Buffer) :
    Beats ⟨m, held⟩ ⟨(m.takeNext now).2, held⟩ := by
  have chosen := takeNext_chosen now m
  generalize m.takeNext now = next at chosen ⊢
  rcases next with ⟨_ | ⟨p, b⟩, m₁⟩
  · exact chosen.moves.beats held
  · obtain ⟨m₀, path, picks⟩ := chosen
    exact (path.moves.beats held).trans (picks.beats held)

section Send

variable {t : Transport σ} (within : t.Within Leads) (held : List Buffer)

include within in
theorem writeRepeatedly_leads (data : Bytes) (attempts failures : Nat) (m : Mailbox) (s : σ) :
    Leads m (writeRepeatedly t data attempts failures m s).2.1 := by
  induction attempts generalizing failures m s with
  | zero => exact fun _ => .refl
  | succ attempts ih =>
      have called := within.write data m s
      rw [writeRepeatedly]
      rcases written : t.write data m s with ⟨cause | counter, m₁, s₁⟩ <;> rw [written] at called
      · exact called
      · dsimp only
        split
        · exact fun held => (called held).trans (ih _ m₁ s₁ held)
        · exact called

include within in
theorem writeMessage_beats (p : Protocol) (b : Buffer) (m : Mailbox) (s : σ) :
    Beats ⟨m, held⟩ ⟨(writeMessage t p b m s).2.1, held⟩ := by
  unfold writeMessage
  dsimp only
  have written := writeRepeatedly_leads within
    ((m.stamp b).1.bytes.take (m.stamp b).2.slave.writeSlot.length.toNat)
    (max (m.stamp b).2.config.writeAttempts.toNat 1) 0 (m.stamp b).2 s
  generalize writeRepeatedly t _ _ 0 (m.stamp b).2 s = result at written ⊢
  have called : Beats ⟨m, held⟩ _ := .head (.stamp m held b) (written held)
  rcases result with ⟨⟨failures, cause | _ | workCounter⟩, m₁, s₁⟩ <;>
    have retried := called.trans (retry_beats _ held failures)
  · exact retried.trans (requeue_beats _ held p _)
  · exact retried.trans (requeue_beats _ held p _)
  · exact retried.trans (acknowledge_beats _ held _ workCounter)

include within in
theorem sendNext_beats (now : Nat) (m : Mailbox) (s : σ) :
    Beats ⟨m, held⟩ ⟨(sendNext t now m s).2.1, held⟩ := by
  have chosen := takeNext_beats now m held
  unfold sendNext
  generalize m.takeNext now = next at chosen ⊢
  rcases next with ⟨_ | ⟨p, b⟩, m₁⟩
  · exact chosen
  · have called := chosen.trans (within.slotState m₁.slave.writeSlot m₁ s held)
    dsimp only at called ⊢
    generalize t.slotState m₁.slave.writeSlot m₁ s = answer at called ⊢
    rcases answer with ⟨cause | _ | _, m₂, s₂⟩
    · exact called.trans (requeue_beats m₂ held p b)
    · exact called.trans (writeMessage_beats within held p b m₂ s₂)
    · exact called.trans (requeue_beats m₂ held p b)

include within in
/-- A turn is a path of beats, whatever callers do meanwhile. -/
theorem turn_beats (now : Nat) (m : Mailbox) (s : σ) :
    Beats ⟨m, held⟩ ⟨(m.turn t now s).2.1, held⟩ := by
  have polled := (expire_beats m held now).trans
    (poll_beats within held now (m.expire now) s)
  unfold turn
  split
  · exact .refl
  · generalize poll t now (m.expire now) s = result at polled ⊢
    rcases result with ⟨cause | _, m₁, s₁⟩
    · exact polled
    · exact polled.trans (sendNext_beats within held now m₁ s₁)

end Send

/-! ## Runs -/

abbrev Acts : Mailbox → Mailbox → Prop := Relation.ReflTransGen Act

/-- A caller acts, or a turn passes during whose calls callers act. -/
inductive Happens : Mailbox → Mailbox → Prop
  | act {m m' : Mailbox} : Act m m' → Happens m m'
  | turn {σ : Type} {t : Transport σ} (now : Nat) (m : Mailbox) (s : σ) : t.Within Acts →
      Happens m (m.turn t now s).2.1

/-- A run leads to the mailbox, in which callers act between turns and during them. -/
def Reached (m : Mailbox) : Prop :=
  ∃ slave config sendId receiveId,
    Relation.ReflTransGen Happens (.create slave config sendId receiveId) m

theorem Acts.leads (acts : Acts m m') : Leads m m' := by
  induction acts with
  | refl => exact fun _ => .refl
  | tail _ act ih => exact fun held => (ih held).trans (act.beats held)

theorem Happens.beats (happens : Happens m m') (held : List Buffer) :
    Beats ⟨m, held⟩ ⟨m', held⟩ := by
  cases happens with
  | act act => exact act.beats held
  | turn now m s within => exact turn_beats (within.mono fun _ _ => Acts.leads) held now m s

theorem Reached.beats (reached : m.Reached) : ∃ slave config sendId receiveId,
    Beats ⟨.create slave config sendId receiveId, []⟩ ⟨m, []⟩ := by
  obtain ⟨slave, config, sendId, receiveId, run⟩ := reached
  refine ⟨slave, config, sendId, receiveId, ?_⟩
  induction run with
  | refl => exact .refl
  | tail _ happens ih => exact ih.trans (happens.beats [])

/-- The turn at `now` looks at the read slot when the mailbox is `m` and the transport is at
`s`. -/
inductive Polling (t : Transport σ) (now : Nat) (m₀ : Mailbox) : Mailbox → σ → Prop
  | first (s : σ) : m₀.closed = false → (m₀.expire now).readIsDue now = true →
      Polling t now m₀ { m₀.expire now with
        readScheduled := false
        nextPoll := some (now + (m₀.expire now).config.pollInterval) } s
  | next {m m' : Mailbox} {s s' : σ} : Polling t now m₀ m s →
      readOne t m s = (.ok true, m', s') → Polling t now m₀ m' s'

theorem Polling.beats_expired {t : Transport σ} {m₀ : Mailbox} {s : σ} (within : t.Within Leads)
    (polling : m₀.Polling t now m s) : Beats ⟨m₀.expire now, []⟩ ⟨m, []⟩ := by
  induction polling with
  | first s opened due => exact schedule_beats _ [] _
  | @next m m' s s' _ read ih =>
      have looked := readOne_beats within [] m s
      rw [read] at looked
      exact ih.trans looked

theorem Polling.beats {t : Transport σ} {m₀ : Mailbox} {s : σ} (within : t.Within Leads)
    (polling : m₀.Polling t now m s) : Beats ⟨m₀, []⟩ ⟨m, []⟩ :=
  (expire_beats m₀ [] now).trans (polling.beats_expired within)

end Mailbox

/-- Sessions are runs in which nothing happens during a call. -/
theorem Session.Reachable.reached {s : Session} (reachable : s.Reachable) : s.mailbox.Reached := by
  obtain ⟨slave, config, sendId, receiveId, run⟩ := reachable
  refine ⟨slave, config, sendId, receiveId, ?_⟩
  induction run with
  | refl => exact .refl
  | tail _ step ih =>
      cases step with
      | take take => exact ih.tail (.act (.take take))
      | change left => exact ih
      | giveBack left => exact ih.tail (.act (.giveBack _ _))
      | enqueue left front expectsResponse deadline => exact ih.tail (.act (.enqueue ..))
      | enqueueForeign front expectsResponse deadline => exact ih.tail (.act (.enqueue ..))
      | turn d device now =>
          have alone := d.transport_within (R := Mailbox.Acts) fun _ => .refl
          exact ih.tail (.turn now _ device alone)
      | wait left => exact ih.tail (.act (.wait _ _))
      | tryRead p => exact ih.tail (.act (.tryRead _ p))
      | requestRead p => exact ih.tail (.act (.requestRead _ p))
      | read p => exact ih.tail (.act (.read _ p))
      | scheduleRead => exact ih.tail (.act (.scheduleRead _))
      | close => exact ih.tail (.act (.close _))

end Fieldbus
