import Fieldbus.Proofs.Engine.Census

/-!
# What is counted on the way

Transactions are completed, packed and sent at three different points of a call, and each point has
counters of its own. What one call does to all of them is a posting, and postings add up. A frame
that the filter drops or the port fails to take has been packed and is not sent, so its datagrams
are lost to the counters.
-/

namespace Fieldbus.Engine

/-- Between two engines so many waiting transactions were refused, so many sent ones were completed,
so many transactions were packed, and so many datagrams were counted as sent. The queue has not
grown by more than the transactions that wait. -/
structure Posts (refused landed packed sent : Nat) (e e' : Engine) : Prop where
  received : e'.statistics.framesReceived = e.statistics.framesReceived
  matched : e'.statistics.datagramsMatched = e.statistics.datagramsMatched
  stale : e'.statistics.staleDatagrams = e.statistics.staleDatagrams
  timeouts : e'.statistics.datagramTimeouts = e.statistics.datagramTimeouts + refused
  counted : e'.statistics.datagramsSent = e.statistics.datagramsSent + sent
  completed : e'.logged .completed = e.logged .completed + refused + landed
  packings : e'.logged .packed = e.logged .packed + packed
  flying : e'.flying + landed = e.flying + packed
  backlog : e'.queue.length + e.waitingCount ≤ e.queue.length + e'.waitingCount

variable {e e' e'' : Engine} {index : UInt8} {t : Transaction}

namespace Posts

theorem trans {r l k d r' l' k' d' : Nat} (h : Posts r l k d e e') (h' : Posts r' l' k' d' e' e'') :
    Posts (r + r') (l + l') (k + k') (d + d') e e'' where
  received := h'.received.trans h.received
  matched := h'.matched.trans h.matched
  stale := h'.stale.trans h.stale
  timeouts := by rw [h'.timeouts, h.timeouts, Nat.add_assoc]
  counted := by rw [h'.counted, h.counted, Nat.add_assoc]
  completed := by
    rw [h'.completed, h.completed]
    omega
  packings := by rw [h'.packings, h.packings, Nat.add_assoc]
  flying := by
    have first := h.flying
    have second := h'.flying
    omega
  backlog := by
    have first := h.backlog
    have second := h'.backlog
    omega

theorem quiet (xs : List JournalEntry) (statistics : e'.statistics = e.statistics)
    (journal : e'.journal = e.journal ++ xs)
    (silent : ∀ x ∈ xs, x.kind ≠ .completed ∧ x.kind ≠ .packed)
    (flying : e'.flying = e.flying)
    (backlog : e'.queue.length + e.waitingCount ≤ e.queue.length + e'.waitingCount) :
    Posts 0 0 0 0 e e' := by
  have none (kind : JournalEntry.Kind) (other : ∀ x ∈ xs, x.kind ≠ kind) :
      e'.logged kind = e.logged kind := by
    rw [logged_append journal, Nat.add_eq_left, List.countP_eq_zero]
    exact fun x hx same => other x hx (of_decide_eq_true same)
  constructor
  case received => rw [statistics]
  case matched => rw [statistics]
  case stale => rw [statistics]
  case timeouts => rw [statistics, Nat.add_zero]
  case counted => rw [statistics, Nat.add_zero]
  case completed => exact none .completed fun x hx => (silent x hx).1
  case packings => exact none .packed fun x hx => (silent x hx).2
  case flying => exact flying
  case backlog => exact backlog

theorem still (statistics : e'.statistics = e.statistics) (slots : e'.slots = e.slots)
    (journal : e'.journal = e.journal) (queue : e'.queue.length ≤ e.queue.length) :
    Posts 0 0 0 0 e e' := by
  have census (p : Transaction → Bool) : e'.census p = e.census p := by
    rw [Engine.census, Engine.census, slots]
  have waiting : e'.waitingCount = e.waitingCount := census _
  refine quiet [] statistics (journal.trans (List.append_nil _).symm) (by simp)
    (census _) ?_
  omega

theorem refl (e : Engine) : Posts 0 0 0 0 e e := still rfl rfl rfl (Nat.le_refl _)

/-! ## Beginning -/

theorem prepare (leased : e.Leased) (r : Request) (followUps : List FollowUp) :
    Posts 0 0 0 0 e (e.prepare r followUps).2 := by
  rcases e.prepare_cases r followUps with
    ⟨_, leases, pool, failed, -⟩ | ⟨index, leases, pool, b, lease, prepared, -⟩
  · rw [failed]
    exact still rfl rfl rfl (Nat.le_refl _)
  · rw [prepared]
    have vacant := leased.vacant lease
    let t := Transaction.ofRequest r followUps e.nextGeneration index b
    let base : Engine :=
      ({ e with leases, pool, nextGeneration := t.generation + 1 } : Engine).record
        (.prepared t.generation t.index r)
    have filled (p : Transaction → Bool) : (base.setSlot index (some t)).census p =
        e.census p + (p t).toNat := census_fill (e := base) vacant p
    have waiting : (base.setSlot index (some t)).waitingCount = e.waitingCount := filled _
    refine quiet [.prepared t.generation t.index r] rfl rfl (fun x hx => ?_) (filled _) ?_
    · rw [List.mem_singleton.mp hx]
      exact ⟨nofun, nofun⟩
    · show e.queue.length + e.waitingCount ≤
        e.queue.length + (base.setSlot index (some t)).waitingCount
      exact Nat.add_le_add_left (Nat.le_of_eq waiting.symm) _

theorem schedule (e : Engine) (index : UInt8) : Posts 0 0 0 0 e (e.schedule index).2 := by
  cases slot : e.slot index with
  | none =>
      simp only [Engine.schedule, slot]
      exact refl e
  | some t =>
      cases unsent : t.isSent with
      | true =>
          simp only [Engine.schedule, slot, unsent, if_true]
          exact refl e
      | false =>
          cases idle : t.queued with
          | true =>
              simp only [Engine.schedule, slot, unsent, idle, if_true, Bool.false_eq_true, if_false]
              exact refl e
          | false =>
              rw [schedule_eq slot unsent idle]
              let longer : Engine := { e with queue := e.queue ++ [index] }
              have changed (p : Transaction → Bool) :=
                census_progress (e := longer) (u := { t with queued := true }) slot p
              have waiting := changed Transaction.queued
              rw [idle] at waiting
              refine quiet [] rfl (List.append_nil _).symm (by simp)
                (Nat.add_right_cancel (changed Transaction.isSent)) ?_
              have length : (e.queue ++ [index]).length = e.queue.length + 1 := by simp
              show (e.queue ++ [index]).length + e.waitingCount ≤ e.queue.length +
                (longer.setSlot index (some { t with queued := true })).waitingCount
              have grown : (longer.setSlot index (some { t with queued := true })).waitingCount =
                e.waitingCount + 1 := waiting
              omega

theorem submit (leased : e.Leased) (r : Request) (followUps : List FollowUp) :
    Posts 0 0 0 0 e (e.submit r followUps).2 := by
  have prepared := prepare leased r followUps
  unfold Engine.submit
  generalize e.prepare r followUps = result at prepared ⊢
  obtain ⟨result, e'⟩ := result
  cases result with
  | error cause => exact prepared
  | ok index =>
      have scheduled := schedule e' index
      dsimp only at prepared ⊢
      generalize e'.schedule index = result at scheduled ⊢
      obtain ⟨result, e''⟩ := result
      cases result with
      | error cause => exact prepared.trans scheduled
      | ok _ => exact prepared.trans scheduled

theorem follow (leased : e.Leased) (t : Transaction) : Posts 0 0 0 0 e (e.follow t) := by
  have noted (e : Engine) (id : Nat) (result : Except Error UInt8) :
      Posts 0 0 0 0 e (e.record (.followed id result)) := by
    refine quiet [.followed id result] rfl rfl (fun x hx => ?_) rfl (Nat.le_refl _)
    rw [List.mem_singleton.mp hx]
    cases result <;> exact ⟨nofun, nofun⟩
  unfold Engine.follow
  split
  · exact refl e
  · exact noted e _ _
  · exact (submit leased _ _).trans (noted _ _ _)

end Posts

/-! ## Ending -/

theorem settle_posts (leased : e.Leased) (slot : e.slot index = some t) (outcome : Outcome) :
    Posts 0 0 0 0 (e.detach index (.completed t.generation t.id outcome))
      (e.finish index outcome) := by
  have held : (e.detach index (.completed t.generation t.id outcome)).Leased := by
    intro other u there
    rw [slot_detach] at there
    split at there
    · cases there
    · exact leased there
  have followed := Posts.follow held t
  rw [finish_eq outcome slot]
  generalize (e.detach index (.completed t.generation t.id outcome)).follow t = e' at followed ⊢
  have released : Posts 0 0 0 0 e' (e'.release index t.buffer) :=
    .still rfl rfl rfl (Nat.le_refl _)
  exact followed.trans released

theorem Sound.finish_posts (h : e.Sound) (slot : e.slot index = some t) (sent : t.isSent = true)
    (outcome : Outcome) : Posts 0 1 0 0 e (e.finish index outcome) := by
  let x := JournalEntry.completed t.generation t.id outcome
  have idle := h.idle_of_sent slot sent
  have flying := census_detach slot x Transaction.isSent
  have waiting := census_detach slot x Transaction.queued
  rw [sent] at flying
  rw [idle] at waiting
  have left : Posts 0 1 0 0 e (e.detach index x) := by
    constructor
    case received => rfl
    case matched => rfl
    case stale => rfl
    case timeouts => rfl
    case counted => rfl
    case completed => exact logged_record (e.setSlot index none) x .completed
    case packings => exact logged_record (e.setSlot index none) x .packed
    case flying => exact flying
    case backlog => exact Nat.add_le_add_left (Nat.le_of_eq waiting.symm) _
  exact left.trans (settle_posts h.leased slot outcome)

theorem Sound.refuse_posts (h : ({ e with queue := index :: e.queue } : Engine).Sound)
    (slot : e.slot index = some t) (queued : t.queued = true) :
    Posts 1 0 0 0 { e with queue := index :: e.queue } (e.refuse index) := by
  let x := JournalEntry.completed t.generation t.id .timeout
  have unsent : t.isSent = false := h.unsent slot queued
  have flying := census_detach slot x Transaction.isSent
  have waiting := census_detach slot x Transaction.queued
  rw [unsent] at flying
  rw [queued] at waiting
  have leased : e.Leased := by
    intro other u there
    exact h.leased there
  have settled : Posts 0 0 0 0 (e.detach index x) (e.finish index .timeout) :=
    settle_posts leased slot .timeout
  have completed := logged_record (e.setSlot index none) x .completed
  have packed := logged_record (e.setSlot index none) x .packed
  constructor
  case received => exact settled.received
  case matched => exact settled.matched
  case stale => exact settled.stale
  case timeouts => exact congrArg (· + 1) settled.timeouts
  case counted => exact settled.counted
  case completed => exact settled.completed.trans completed
  case packings => exact settled.packings.trans packed
  case flying => exact settled.flying.trans flying
  case backlog =>
    have behind := settled.backlog
    show (e.finish index .timeout).queue.length + e.waitingCount ≤
      e.queue.length + 1 + (e.finish index .timeout).waitingCount
    have shorter : (e.detach index x).waitingCount + 1 = e.waitingCount := waiting
    have same : (e.detach index x).queue = e.queue := rfl
    rw [same] at behind
    omega

theorem Sound.markSent_posts (h : ({ e with queue := index :: e.queue } : Engine).Sound)
    (slot : e.slot index = some t) (queued : t.queued = true) (now : Nat) :
    Posts 0 0 1 0 { e with queue := index :: e.queue } (e.markSent now index t) := by
  let x := JournalEntry.packed t.generation index now
  have unsent : t.isSent = false := h.unsent slot queued
  have flying := census_progress (u := t.markSent now) slot Transaction.isSent
  have waiting := census_progress (u := t.markSent now) slot Transaction.queued
  rw [unsent] at flying
  rw [queued] at waiting
  constructor
  case received => rfl
  case matched => rfl
  case stale => rfl
  case timeouts => rfl
  case counted => rfl
  case completed => exact logged_record (e.setSlot index (some (t.markSent now))) x .completed
  case packings => exact logged_record (e.setSlot index (some (t.markSent now))) x .packed
  case flying => exact flying
  case backlog =>
    show e.queue.length + e.waitingCount ≤
      e.queue.length + 1 + (e.setSlot index (some (t.markSent now))).waitingCount
    have shorter : (e.setSlot index (some (t.markSent now))).waitingCount + 1 =
      e.waitingCount := waiting
    omega

/-! ## Answers and the clock -/

theorem Sound.answer_posts (h : e.Sound) (d : Datagram) :
    Posts 0 (e.answer d).1.toNat 0 0 e (e.answer d).2 := by
  cases slot : e.slot d.header.index with
  | none =>
      simp only [answer, slot]
      exact .refl e
  | some t =>
      cases awaits : t.awaits d with
      | false =>
          simp only [answer, slot, awaits, Bool.false_eq_true, if_false]
          exact .refl e
      | true =>
          simp only [answer, slot, awaits, if_true]
          exact h.finish_posts slot (Bool.and_eq_true_iff.mp awaits).1 _

theorem Sound.answerAll_posts (h : e.Sound) (items : List (Except Error Datagram)) :
    Posts 0 (e.answerAll items).1.1 0 0 e (e.answerAll items).2 := by
  induction items generalizing e with
  | nil => exact .refl e
  | cons item rest ih =>
      cases item with
      | error cause => exact .refl e
      | ok d =>
          have first := h.answer_posts d
          have others := ih ((answer_moves h d).sound h)
          have total := first.trans others
          rw [Nat.add_comm (e.answer d).1.toNat] at total
          exact total

theorem Sound.expire_posts (h : e.Sound) (now : Nat) (index : UInt8) :
    Posts 0 (e.expire now index).1.toNat 0 0 e (e.expire now index).2 := by
  cases slot : e.slot index with
  | none =>
      simp only [expire, slot]
      exact .refl e
  | some t =>
      cases expired : t.isExpired now with
      | false =>
          simp only [expire, slot, expired, Bool.false_eq_true, if_false]
          exact .refl e
      | true =>
          have sent : t.isSent = true := by
            cases due : t.deadline with
            | none => simp [Transaction.isExpired, due] at expired
            | some deadline => simp [Transaction.isSent, due]
          simp only [expire, slot, expired, if_true]
          exact h.finish_posts slot sent _

theorem Sound.expireAll_posts (h : e.Sound) (now : Nat) (places : List UInt8) :
    Posts 0 (e.expireAll now places).1 0 0 e (e.expireAll now places).2 := by
  induction places generalizing e with
  | nil => exact .refl e
  | cons index rest ih =>
      have first := h.expire_posts now index
      have others := ih ((expire_moves h now index).sound h)
      have total := first.trans others
      rw [Nat.add_comm (e.expire now index).1.toNat] at total
      exact total

/-! ## Packing -/

theorem PackStep.sound {now : Nat} {p p' : Packing} (step : PackStep now p p')
    (h : p.whole.Sound) : p'.whole.Sound :=
  (step.moves h fun _ => rfl).1.sound h

theorem PackStep.posts {now : Nat} {p p' : Packing} (step : PackStep now p p')
    (h : p.whole.Sound) :
    ∃ refused packed, Posts refused 0 packed 0 p.whole p'.whole ∧
      p'.packed = p.packed + packed := by
  unfold Packing.whole at h ⊢
  cases step with
  | @skip index e taken idle =>
      rw [dequeue_eq_some taken]
      exact ⟨0, 0, .still rfl rfl rfl (Nat.le_succ _), rfl⟩
  | @refuse index e t taken slot queued large bare =>
      rw [dequeue_eq_some taken] at h ⊢
      exact ⟨1, 0, h.refuse_posts slot queued, rfl⟩
  | @place index e t frame taken slot queued appended =>
      rw [dequeue_eq_some taken] at h ⊢
      exact ⟨0, 1, h.markSent_posts slot queued now, rfl⟩

theorem PackEnd.posts {p : Packing} {result : Except Error Unit × Packing}
    (ending : PackEnd p result) :
    Posts 0 0 0 0 p.whole result.2.whole ∧ result.2.packed = p.packed := by
  unfold Packing.whole
  cases ending with
  | spent => exact ⟨.refl _, rfl⟩
  | drained nothing =>
      obtain ⟨carry, -⟩ := dequeue_eq_none nothing
      rw [carry]
      exact ⟨.refl _, rfl⟩
  | full taken =>
      rw [dequeue_eq_some taken]
      exact ⟨.refl _, rfl⟩
  | @failed index e t cause taken slot room appended =>
      rw [dequeue_eq_some taken]
      refine ⟨.still rfl rfl rfl ?_, rfl⟩
      show (e.queue ++ [index]).length ≤ (index :: e.queue).length
      rw [List.length_append]
      exact Nat.le_refl _

theorem pack_posts (now fuel : Nat) (p : Packing) (h : p.whole.Sound) :
    ∃ refused packed, Posts refused 0 packed 0 p.whole (pack now fuel p).2.whole ∧
      (pack now fuel p).2.packed = p.packed + packed := by
  obtain ⟨p', path, ending⟩ := pack_path now fuel p
  have led : p'.whole.Sound ∧ ∃ refused packed, Posts refused 0 packed 0 p.whole p'.whole ∧
      p'.packed = p.packed + packed := by
    clear ending
    induction path with
    | refl => exact ⟨h, 0, 0, .refl _, rfl⟩
    | tail _ step ih =>
        obtain ⟨sound, r, k, posts, count⟩ := ih
        obtain ⟨r', k', posts', count'⟩ := step.posts sound
        exact ⟨step.sound sound, r + r', k + k', posts.trans posts',
          by rw [count', count, Nat.add_assoc]⟩
  obtain ⟨-, refused, packed, posts, count⟩ := led
  obtain ⟨ended, kept⟩ := ending.posts
  exact ⟨refused, packed, posts.trans ended, kept.trans count⟩

/-! ## Sending -/

namespace Transmission

variable {π φ : Type} [FramePort π] [FrameFilter φ]

def wasted (s s' : Transmission π φ) : Nat :=
  if s'.frames = s.frames then s'.engine.logged .packed - s.engine.logged .packed else 0

def losses (now : Nat) : Nat → Transmission π φ → Nat
  | 0, _ => 0
  | fuel + 1, s =>
      match s.step now with
      | (some _, s') => s.wasted s'
      | (none, s') => s.wasted s' + losses now fuel s'

/-- The datagrams of a frame are counted if the number of frames goes up, and are lost if not. -/
inductive Counts (packed frames frames' : Nat) : Nat → Prop
  | sent (more : frames' = frames + 1) : Counts packed frames frames' packed
  | lost (same : frames' = frames) : Counts packed frames frames' 0

theorem send_posts (s : Transmission π φ) (frame : FrameBuilder) (packed : Nat) :
    ∃ sent, Posts 0 0 0 sent s.whole (s.send frame packed).2.whole ∧
      Counts packed s.frames (s.send frame packed).2.frames sent := by
  simp only [send]
  split
  · split
    · refine ⟨0, ?_, .lost rfl⟩
      exact ⟨rfl, rfl, rfl, rfl, rfl, rfl, rfl, rfl, Nat.le_refl _⟩
    · refine ⟨packed, ?_, .sent rfl⟩
      let e := s.whole
      let x := JournalEntry.sent
        (((frame.buffer.overwrite 0 (refit frame.frame
          (FrameFilter.onSend frame.frame s.filter).1.2))).take frame.length)
      exact ⟨rfl, rfl, rfl, rfl, rfl, logged_record e x .completed, logged_record e x .packed, rfl,
        Nat.le_refl _⟩
  · exact ⟨0, .refl _, .lost rfl⟩

theorem fill_posts (s : Transmission π φ) (now : Nat) (frame : FrameBuilder) (h : s.whole.Sound) :
    ∃ refused packed sent, Posts refused 0 packed sent s.whole (s.fill now frame).2.whole ∧
      Counts packed s.frames (s.fill now frame).2.frames sent := by
  obtain ⟨refused, packed, posts, count⟩ :=
    pack_posts now (s.engine.workload + 1) ⟨s.engine, frame, s.carry, 0⟩ h
  simp only [fill]
  generalize pack now _ _ = ended at posts count ⊢
  obtain ⟨result, p⟩ := ended
  cases result with
  | error cause => exact ⟨refused, packed, 0, posts, .lost rfl⟩
  | ok _ =>
      dsimp only at count ⊢
      split
      · exact ⟨refused, packed, 0, posts, .lost rfl⟩
      · obtain ⟨sent, posts', counts⟩ :=
          send_posts { s with engine := p.engine, carry := p.carry } p.frame p.packed
        rw [count, Nat.zero_add] at counts
        have total := posts.trans posts'
        simp only [Nat.zero_add, Nat.add_zero] at total
        rw [count, Nat.zero_add] at total ⊢
        generalize @send π φ _ _ _ p.frame packed = sending at total counts ⊢
        obtain ⟨result, s'⟩ := sending
        cases result <;> exact ⟨refused, packed, sent, total, counts⟩

theorem step_posts (s : Transmission π φ) (now : Nat) (h : s.whole.Sound) :
    ∃ refused sent, Posts refused 0 (sent + s.wasted (s.step now).2) sent s.whole
      (s.step now).2.whole := by
  have counted : ∃ refused packed sent, Posts refused 0 packed sent s.whole (s.step now).2.whole ∧
      Counts packed s.frames (s.step now).2.frames sent := by
    simp only [step]
    split
    · exact ⟨0, 0, 0, .refl _, .lost rfl⟩
    · split
      · exact ⟨0, 0, 0, .refl _, .lost rfl⟩
      · split
        · exact ⟨0, 0, 0, ⟨rfl, rfl, rfl, rfl, rfl, rfl, rfl, rfl, Nat.le_refl _⟩, .lost rfl⟩
        · rename_i buffer port' lent
          split
          · exact ⟨0, 0, 0, .refl _, .lost rfl⟩
          · rename_i frame created
            exact fill_posts { s with port := port' } now frame h
  obtain ⟨refused, packed, sent, posts, counts⟩ := counted
  refine ⟨refused, sent, ?_⟩
  have balance : packed = sent + s.wasted (s.step now).2 := by
    have packings : (s.step now).2.engine.logged .packed = s.engine.logged .packed + packed :=
      posts.packings
    cases counts with
    | sent more =>
        rw [wasted, if_neg (by omega), Nat.add_zero]
    | lost same =>
        rw [wasted, if_pos same]
        omega
  rw [← balance]
  exact posts

omit [FramePort π] [FrameFilter φ] in
theorem stop_posts (s : Transmission π φ) (result : Except Error Nat) :
    Posts 0 0 0 0 s.whole (s.stop result).engine := by
  refine .still rfl rfl rfl ?_
  have length : (s.engine.queue ++ s.carry.toList).length =
      (s.carry.toList ++ s.engine.queue).length := by
    rw [List.length_append, List.length_append, Nat.add_comm]
  exact Nat.le_of_eq length

theorem run_posts (now fuel : Nat) (s : Transmission π φ) (h : s.whole.Sound) :
    ∃ refused sent, Posts refused 0 (sent + losses now fuel s) sent s.whole
      (run now fuel s).engine := by
  induction fuel generalizing s with
  | zero => exact ⟨0, 0, stop_posts s _⟩
  | succ fuel ih =>
      obtain ⟨refused, sent, posts⟩ := step_posts s now h
      have sound := (step_moves s h (.refl : Leads now s s)).sound h
      rw [run, losses]
      generalize s.step now = result at posts sound ⊢
      obtain ⟨ending, s'⟩ := result
      cases ending with
      | some ending => exact ⟨refused, sent, posts.trans (stop_posts s' ending)⟩
      | none =>
          obtain ⟨refused', sent', posts'⟩ := ih s' sound
          have total := posts.trans posts'
          refine ⟨refused + refused', sent + sent', ?_⟩
          rw [Nat.add_add_add_comm] at total
          exact total

end Transmission

/-- The datagrams that a call packs into frames that are not sent. -/
def forfeits {π φ : Type} [FramePort π] [FrameFilter φ] (e : Engine) (port : π) (filter : φ)
    (now : Nat) : Nat :=
  Transmission.losses now (e.workload + 1) (.opening e port filter)

theorem Sound.transmit_posts {π φ : Type} [FramePort π] [FrameFilter φ] (h : e.Sound) (port : π)
    (filter : φ) (now : Nat) :
    ∃ refused sent, Posts refused 0 (sent + e.forfeits port filter now) sent e
      (e.transmit port filter now).engine :=
  Transmission.run_posts now (e.workload + 1) (.opening e port filter) h

end Fieldbus.Engine
