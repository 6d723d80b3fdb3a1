import Mathlib.Data.List.Dedup
import Fieldbus.Proofs.Engine.Watching

/-!
# The line of those that wait

As long as nothing is called off, each index in the queue stands for one transaction that waits. Who
joins the line joins it at its end, and who leaves it leaves from its front. So the line, and all
that went before it, are in the order in which each joined last.
-/

namespace Fieldbus

open scoped List

/-! ## Last joinings -/

namespace Turns

variable {joined gone rest : List Nat} {a b g : Nat}

theorem dedup_concat (joined : List Nat) (g : Nat) :
    (joined ++ [g]).dedup = joined.dedup.erase g ++ [g] := by
  induction joined with
  | nil => rfl
  | cons a joined ih =>
      rw [List.cons_append]
      by_cases again : a ∈ joined
      · rw [List.dedup_cons_of_mem (List.mem_append_left _ again), ih,
          List.dedup_cons_of_mem again]
      · rw [List.dedup_cons_of_notMem again]
        by_cases same : a = g
        · subst same
          rw [List.dedup_cons_of_mem (by simp), ih, List.erase_cons_head,
            List.erase_of_not_mem fun here => again (List.mem_dedup.mp here)]
        · rw [List.dedup_cons_of_notMem (by simp [again, same]), ih,
            List.erase_cons_tail (by simpa using same), List.cons_append]

theorem dedup_concat_new (new : g ∉ joined) : (joined ++ [g]).dedup = joined.dedup ++ [g] := by
  rw [dedup_concat, List.erase_of_not_mem fun here => new (List.mem_dedup.mp here)]

theorem dedup_concat_again (order : joined.dedup = gone ++ g :: rest) :
    (joined ++ [g]).dedup = gone ++ (rest ++ [g]) := by
  have distinct := List.nodup_dedup joined
  rw [order] at distinct
  have apart : g ∉ gone := fun here =>
    (List.nodup_append.mp distinct).2.2 g here g List.mem_cons_self rfl
  rw [dedup_concat, order, List.erase_append_right _ apart, List.erase_cons_head,
    List.append_assoc]

theorem pair_sublist_dedup : [a, b] <+ joined.dedup ↔
    ∃ before after, joined = before ++ a :: after ∧ a ∉ after ∧ b ∈ after := by
  induction joined with
  | nil => simp
  | cons x joined ih =>
      by_cases again : x ∈ joined
      · rw [List.dedup_cons_of_mem again, ih]
        constructor
        · rintro ⟨before, after, rfl, last, behind⟩
          exact ⟨x :: before, after, rfl, last, behind⟩
        · rintro ⟨before, after, split, last, behind⟩
          cases before with
          | nil =>
              cases split
              exact (last again).elim
          | cons y before =>
              cases split
              exact ⟨before, after, rfl, last, behind⟩
      · rw [List.dedup_cons_of_notMem again, List.cons_sublist_cons', ih, List.singleton_sublist,
          List.mem_dedup]
        constructor
        · rintro (⟨before, after, rfl, last, behind⟩ | ⟨rfl, behind⟩)
          · exact ⟨x :: before, after, rfl, last, behind⟩
          · exact ⟨[], joined, rfl, again, behind⟩
        · rintro ⟨before, after, split, last, behind⟩
          cases before with
          | nil =>
              cases split
              exact .inr ⟨rfl, behind⟩
          | cons y before =>
              cases split
              exact .inl ⟨before, after, rfl, last, behind⟩

theorem pair_sublist_total {packed : List Nat} (ha : a ∈ packed) (hb : b ∈ packed) (ne : a ≠ b) :
    [a, b] <+ packed ∨ [b, a] <+ packed := by
  induction packed with
  | nil => cases ha
  | cons x packed ih =>
      simp only [List.cons_sublist_cons', List.singleton_sublist]
      rcases List.mem_cons.mp ha with rfl | ha'
      · exact .inl (.inr ⟨rfl, (List.mem_cons.mp hb).resolve_left ne.symm⟩)
      · rcases List.mem_cons.mp hb with rfl | hb'
        · exact .inr (.inr ⟨rfl, ha'⟩)
        · exact (ih ha' hb').imp .inl .inl

theorem pair_sublist_asymm {order : List Nat} (distinct : order.Nodup) (ne : a ≠ b)
    (first : [a, b] <+ order) : ¬[b, a] <+ order := by
  induction order with
  | nil => cases first
  | cons x order ih =>
      obtain ⟨once, distinct⟩ := List.nodup_cons.mp distinct
      simp only [List.cons_sublist_cons', List.singleton_sublist] at first ⊢
      rintro (second | ⟨rfl, here⟩)
      · rcases first with first | ⟨rfl, -⟩
        · exact ih distinct first second
        · exact once (second.subset (by simp))
      · rcases first with first | ⟨rfl, -⟩
        · exact once (first.subset (by simp))
        · exact ne rfl

theorem pair_sublist_iff {packed order : List Nat} (part : packed <+ order)
    (distinct : order.Nodup) (ha : a ∈ packed) (hb : b ∈ packed) (ne : a ≠ b) :
    [a, b] <+ packed ↔ [a, b] <+ order := by
  refine ⟨fun first => first.trans part, fun first => ?_⟩
  rcases pair_sublist_total ha hb ne with here | other
  · exact here
  · exact absurd (other.trans part) (pair_sublist_asymm distinct ne first)

theorem split_of_pair (once : joined.count a ≤ 1) (first : [a, b] <+ joined) :
    ∃ before after, joined = before ++ a :: after ∧ a ∉ after ∧ b ∈ after := by
  obtain ⟨front, behind, rfl, here, later⟩ := List.cons_sublist_iff.mp first
  obtain ⟨before, between, rfl⟩ := List.append_of_mem here
  refine ⟨before, between ++ behind, by simp, ?_,
    List.mem_append_right _ (List.singleton_sublist.mp later)⟩
  rw [← List.count_eq_zero]
  simp only [List.count_append, List.count_cons_self] at once ⊢
  omega

end Turns

namespace JournalEntry

def prepared? : JournalEntry → Option Nat
  | .prepared generation .. => some generation
  | _ => none

def packed? : JournalEntry → Option Nat
  | .packed generation .. => some generation
  | _ => none

end JournalEntry

namespace Engine

open JournalEntry (prepared? packed?)

/-! ## The line -/

/-- The transactions that wait, as they stand in the queue. -/
def line (e : Engine) : List Nat := e.queue.filterMap e.generation?

def entrants (e : Engine) : List Nat := e.journal.filterMap prepared?

def packOrder (e : Engine) : List Nat := e.journal.filterMap packed?

/-- These have joined the line, some of them again after they were put back. The line is in the
order in which each joined last, and so are those that have left it. -/
structure Orderly (joined back : List Nat) (e : Engine) : Prop where
  sound : e.Sound
  live : ∀ index ∈ e.queue, ∃ t, e.slot index = some t ∧ t.queued = true
  distinct : e.queue.Nodup
  order : ∃ gone, joined.dedup = gone ++ e.line ∧ e.packOrder <+ gone
  idle : ∀ {index t}, e.slot index = some t → t.deadline = none → t.queued = false →
    t.generation ∉ joined
  known : ∀ g ∈ joined, g < e.nextGeneration
  once : ∀ g, joined.count g ≤ 1 + back.count g

variable {joined back : List Nat} {e e' : Engine} {index : UInt8} {t : Transaction}

theorem generation?_eq (slot : e.slot index = some t) :
    e.generation? index = some t.generation := by
  rw [generation?, slot, Option.map_some]

theorem filterMap_generation? {queue : List UInt8}
    (kept : ∀ other ∈ queue, e'.slot other = e.slot other) :
    queue.filterMap e'.generation? = queue.filterMap e.generation? :=
  List.filterMap_congr fun other here => by rw [generation?, generation?, kept other here]

theorem Orderly.not_mem_queue (h : Orderly joined back e) (slot : e.slot index = some t)
    (idle : t.queued = false) : index ∉ e.queue := by
  intro here
  obtain ⟨u, slot', queued⟩ := h.live index here
  rw [slot, Option.some.injEq] at slot'
  rw [← slot', idle] at queued
  cases queued

theorem Orderly.known_concat (h : Orderly joined back e) (slot : e.slot index = some t) :
    ∀ g ∈ joined ++ [t.generation], g < e.nextGeneration := by
  intro g here
  rcases List.mem_append.mp here with old | last
  · exact h.known g old
  · exact List.mem_singleton.mp last ▸ h.sound.generation_lt slot

theorem Orderly.shrink (h : Orderly joined back e) (sound : e'.Sound) {front : List UInt8}
    {packed : List Nat} (queue : e.queue = front ++ e'.queue)
    (slots : ∀ other, e'.slot other = e.slot other ∨
      other ∉ e'.queue ∧ ∀ u, e'.slot other = some u → u.deadline ≠ none)
    (next : e'.nextGeneration = e.nextGeneration) (order : e'.packOrder = e.packOrder ++ packed)
    (left : packed <+ front.filterMap e.generation?) : Orderly joined back e' := by
  have kept (other : UInt8) (here : other ∈ e'.queue) : e'.slot other = e.slot other :=
    (slots other).resolve_right fun out => out.1 here
  have distinct := h.distinct
  rw [queue, List.nodup_append] at distinct
  refine ⟨sound, fun other here => ?_, distinct.2.1, ?_, fun {other u} slot unsent idle => ?_,
    next ▸ h.known, h.once⟩
  · rw [kept other here]
    exact h.live other (queue ▸ List.mem_append_right _ here)
  · obtain ⟨gone, order', packs⟩ := h.order
    have line : e.line = front.filterMap e.generation? ++ e'.line := by
      rw [line, line, queue, List.filterMap_append, filterMap_generation? kept]
    refine ⟨gone ++ front.filterMap e.generation?, ?_, ?_⟩
    · rw [order', line, List.append_assoc]
    · rw [order]
      exact packs.append left
  · rcases slots other with same | ⟨-, sent⟩
    · exact h.idle (same ▸ slot) unsent idle
    · exact absurd unsent (sent u slot)

theorem Orderly.pass (h : Orderly joined back e) (sound : e'.Sound) (queue : e'.queue = e.queue)
    (slots : ∀ other, e'.slot other = e.slot other) (next : e'.nextGeneration = e.nextGeneration)
    (order : e'.packOrder = e.packOrder) : Orderly joined back e' := by
  have all : e.queue = [] ++ e'.queue := queue.symm
  exact h.shrink sound all (fun other => .inl (slots other)) next
    (order.trans (List.append_nil _).symm) (List.nil_sublist _)

theorem Orderly.enqueue (h : Orderly joined back e) (slot : e.slot index = some t)
    (unsent : t.deadline = none) (idle : t.queued = false) :
    Orderly (joined ++ [t.generation]) back
      ({ e with queue := e.queue ++ [index] }.setSlot index (some { t with queued := true })) := by
  have new : t.generation ∉ joined := h.idle slot unsent idle
  -- An index in the queue waits already, so this one is new to it.
  have distinct := List.Nodup.concat (h.not_mem_queue slot idle) h.distinct
  rw [List.concat_eq_append] at distinct
  have move : Move e [] ({ e with queue := e.queue ++ [index] }.setSlot index
      (some { t with queued := true })) :=
    .enqueue slot (by rw [Transaction.isSent, unsent]; rfl) idle
  have slots (other : UInt8) : ({ e with queue := e.queue ++ [index] }.setSlot index
      (some { t with queued := true })).slot other =
        if other = index then some { t with queued := true } else e.slot other :=
    slot_setSlot _ index other _
  have gens (other : UInt8) : ({ e with queue := e.queue ++ [index] }.setSlot index
      (some { t with queued := true })).generation? other = e.generation? other := by
    rw [generation?, slots]
    split
    · rename_i here
      rw [here, generation?_eq slot]
      rfl
    · rfl
  refine ⟨(move.sound h.sound).1, fun other here => ?_, distinct, ?_,
    fun {other u} slot' unsent' idle' => ?_, h.known_concat slot, fun g => ?_⟩
  · rw [slots]
    split
    · exact ⟨_, rfl, rfl⟩
    · rename_i ne
      exact h.live other ((List.mem_append.mp here).resolve_right (by simpa using ne))
  · obtain ⟨gone, order, packs⟩ := h.order
    refine ⟨gone, ?_, packs⟩
    rw [Turns.dedup_concat_new new, order, List.append_assoc]
    congr 1
    show e.queue.filterMap e.generation? ++ [t.generation] = (e.queue ++ [index]).filterMap _
    rw [List.filterMap_append, funext gens, List.filterMap_cons_some (generation?_eq slot)]
    rfl
  · rw [slots] at slot'
    split at slot'
    · cases slot'
      cases idle'
    · rename_i ne
      rw [List.mem_append, List.mem_singleton, not_or]
      exact ⟨h.idle slot' unsent' idle', fun same => ne (h.sound.index_unique slot' slot same)⟩
  · have once := h.once g
    rw [List.count_append, List.count_singleton]
    split
    · rename_i same
      have none : joined.count g = 0 := List.count_eq_zero.mpr (beq_iff_eq.mp same ▸ new)
      omega
    · omega

theorem Orderly.rotate (h : Orderly joined back (e.delay [index]))
    (slot : e.slot index = some t) :
    Orderly (joined ++ [t.generation]) (back ++ [t.generation]) (e.requeue (some index)) := by
  have move : Move (e.delay [index]) [] (e.requeue (some index)) :=
    @Move.rotate (e.delay [index]) index e.queue rfl
  obtain ⟨u, slot', queued⟩ := h.live index List.mem_cons_self
  have there : e.generation? index = some t.generation := generation?_eq slot
  obtain rfl : t = u := Option.some.inj (slot.symm.trans slot')
  obtain ⟨apart, distinct⟩ := List.nodup_cons.mp h.distinct
  have again := List.Nodup.concat apart distinct
  rw [List.concat_eq_append] at again
  refine ⟨(move.sound h.sound).1, fun other here => h.live other ?_, again, ?_,
    fun {other u} slot' unsent idle => ?_, h.known_concat slot, fun g => ?_⟩
  · exact List.mem_cons.mpr (by simpa [Engine.requeue, or_comm] using here)
  · obtain ⟨gone, order, packs⟩ := h.order
    have ahead : (e.delay [index]).line = t.generation :: e.line :=
      List.filterMap_cons_some there
    have behind : (e.requeue (some index)).line = e.line ++ [t.generation] := by
      show (e.queue ++ [index]).filterMap e.generation? = _
      rw [List.filterMap_append, List.filterMap_cons_some there]
      rfl
    rw [ahead] at order
    exact ⟨gone, by rw [Turns.dedup_concat_again order, behind], packs⟩
  · rw [List.mem_append, List.mem_singleton, not_or]
    refine ⟨h.idle slot' unsent idle, fun same => ?_⟩
    have here : other = index := h.sound.index_unique slot' slot same
    obtain rfl : u = t := Option.some.inj (slot'.symm.trans (here ▸ slot))
    rw [queued] at idle
    cases idle
  · have once := h.once g
    rw [List.count_append, List.count_append]
    omega

theorem Orderly.enroll (h : Orderly joined back e) {r : Request} {leases : Leases} {pool : Pool}
    (sound : ({ e with leases, pool }.enroll r t).Sound)
    (lease : e.leases.lease? = some (t.index, leases))
    (generation : t.generation = e.nextGeneration) :
    Orderly joined back ({ e with leases, pool }.enroll r t) := by
  have free := (Leases.lease?_eq_some lease).1
  have slots (other : UInt8) : ({ e with leases, pool }.enroll r t).slot other =
      if other = t.index then some t else e.slot other := slot_enroll _ r t other
  -- Whoever waits holds its index, and the newcomer gets one that nobody holds.
  have kept (other : UInt8) (here : other ∈ e.queue) :
      ({ e with leases, pool }.enroll r t).slot other = e.slot other := by
    rw [slots, if_neg]
    rintro rfl
    obtain ⟨u, slot, -⟩ := h.live _ here
    rw [h.sound.leased slot] at free
    cases free
  refine ⟨sound, fun other here => ?_, h.distinct, ?_, fun {other u} slot unsent idle' => ?_,
    fun g here => ?_, h.once⟩
  · rw [kept other here]
    exact h.live other here
  · obtain ⟨gone, order, packs⟩ := h.order
    refine ⟨gone, ?_, ?_⟩
    · rw [order]
      exact congrArg (gone ++ ·) (filterMap_generation? kept).symm
    · have same : ({ e with leases, pool }.enroll r t).packOrder = e.packOrder := by
        simp [packOrder, Engine.enroll, setSlot, record, packed?]
      rw [same]
      exact packs
  · rw [slots] at slot
    split at slot
    · cases slot
      rw [generation]
      exact fun here => Nat.lt_irrefl _ (h.known _ here)
    · exact h.idle slot unsent idle'
  · have before := h.known g here
    show g < t.generation + 1
    omega

theorem Orderly.prepare (h : Orderly joined back e) (r : Request) (followUps : List FollowUp) :
    Orderly joined back (e.prepare r followUps).2 := by
  have sound : (e.prepare r followUps).2.Sound := (prepare_moves e r followUps).sound h.sound
  rcases e.prepare_cases r followUps with
    ⟨cause, leases, pool, prepared, -, -⟩ | ⟨index, leases, pool, b, lease, prepared, -⟩
  · rw [prepared] at sound ⊢
    exact h.pass sound rfl (fun _ => rfl) rfl rfl
  · rw [prepared] at sound ⊢
    exact h.enroll sound lease rfl

def called (e : Engine) (index : UInt8) : List Nat :=
  match e.slot index with
  | none => []
  | some t => if t.isSent || t.queued then [] else [t.generation]

theorem Orderly.schedule (h : Orderly joined back e) (index : UInt8) :
    Orderly (joined ++ e.called index) back (e.schedule index).2 := by
  cases slot : e.slot index with
  | none =>
      rw [called, Engine.schedule, slot, List.append_nil]
      exact h
  | some t =>
      cases sent : t.isSent with
      | true => simpa [called, Engine.schedule, slot, sent] using h
      | false =>
          cases queued : t.queued with
          | true => simpa [called, Engine.schedule, slot, sent, queued] using h
          | false =>
              have unsent : t.deadline = none := by simpa [Transaction.isSent] using sent
              have new : e.called index = [t.generation] := by simp [called, slot, sent, queued]
              rw [schedule_eq slot sent queued, new]
              exact h.enqueue slot unsent queued

/-! ## Completions -/

structure Continues (e e' : Engine) : Prop where
  orderly : ∀ {joined back}, Orderly joined back e →
    ∃ new, e'.entrants = e.entrants ++ new ∧ Orderly (joined ++ new) back e'

namespace Continues

theorem refl (e : Engine) : Continues e e where
  orderly h := ⟨[], (List.append_nil _).symm, by rwa [List.append_nil]⟩

theorem trans {e'' : Engine} (h : Continues e e') (h' : Continues e' e'') : Continues e e'' := by
  refine ⟨fun orderly => ?_⟩
  obtain ⟨new, entrants, orderly⟩ := h.orderly orderly
  obtain ⟨more, entrants', orderly⟩ := h'.orderly orderly
  exact ⟨new ++ more, by rw [entrants', entrants, List.append_assoc],
    by rwa [List.append_assoc] at orderly⟩

theorem of_pass (pass : ∀ {joined back}, Orderly joined back e → Orderly joined back e')
    (entrants : e'.entrants = e.entrants) : Continues e e' where
  orderly h := ⟨[], by rw [entrants, List.append_nil], by rw [List.append_nil]; exact pass h⟩

theorem submit (e : Engine) (r : Request) (followUps : List FollowUp) :
    Continues e (e.submit r followUps).2 := by
  refine ⟨fun {joined back} h => ?_⟩
  rcases e.prepare_cases r followUps with
    ⟨cause, leases, pool, prepared, -, -⟩ | ⟨index, leases, pool, b, lease, prepared, -⟩
  · have passed := h.prepare r followUps
    rw [prepared] at passed
    rw [Engine.submit, prepared]
    exact ⟨[], (List.append_nil _).symm, by rwa [List.append_nil]⟩
  · have passed := h.prepare r followUps
    rw [prepared] at passed
    have slot : ({ e with leases, pool }.enroll r
        (.ofRequest r followUps e.nextGeneration index b)).slot index =
          some (.ofRequest r followUps e.nextGeneration index b) := by
      rw [slot_enroll]
      exact if_pos rfl
    rw [Engine.submit, prepared]
    dsimp only
    rw [schedule_eq slot rfl rfl]
    refine ⟨[e.nextGeneration], ?_, passed.enqueue slot rfl rfl⟩
    simp [entrants, Engine.enroll, setSlot, record, prepared?, Transaction.ofRequest]

theorem record (e : Engine) {x : JournalEntry} (general : x.generation? = none) :
    Continues e (e.record x) := by
  have plain : prepared? x = none ∧ packed? x = none := by
    cases x <;> first | exact ⟨rfl, rfl⟩ | cases general
  refine of_pass (fun h => h.pass ((Move.note general).sound h.sound).1 rfl (fun _ => rfl) rfl ?_)
    ?_
  · simp [packOrder, Engine.record, plain.2]
  · simp [entrants, Engine.record, plain.1]

theorem count (e : Engine) (statistics : TrafficStatistics) :
    Continues e { e with statistics } :=
  of_pass (fun h => h.pass ((Move.count _).sound h.sound).1 rfl (fun _ => rfl) rfl rfl) rfl

theorem follow (e : Engine) (t : Transaction) : Continues e (e.follow t) := by
  unfold Engine.follow
  split
  · exact .refl e
  · exact .record e rfl
  · exact (submit e _ _).trans (.record _ rfl)

end Continues

theorem packOrder_detach (e : Engine) (index : UInt8) (generation id : Nat) (outcome : Outcome) :
    (e.detach index (.completed generation id outcome)).packOrder = e.packOrder := by
  simp [packOrder, detach, setSlot, record, packed?]

theorem Orderly.finish {front : List UInt8} (h : Orderly joined back (e.delay front))
    (slot : e.slot index = some t) (only : ∀ other ∈ front, other = index)
    (away : index ∉ e.queue) (outcome : Outcome) :
    ∃ new, (e.finish index outcome).entrants = e.entrants ++ new ∧
      Orderly (joined ++ new) back (e.finish index outcome) := by
  have ended : Move (e.delay front) [.completed t.generation t.id outcome]
      (e.detach index (.completed t.generation t.id outcome)) :=
    @Move.finish (e.delay front) index t outcome slot e.queue fun other here ne =>
      (List.mem_append.mp here).resolve_left fun first => ne (only other first)
  have path : Moves (Along fun _ _ => True) (e.delay front) (e.finish index outcome) :=
    finish_moves slot (h.sound.leased slot) ended trivial
  have sound := path.sound h.sound
  have queue : (e.delay front).queue =
      front ++ (e.detach index (.completed t.generation t.id outcome)).queue := rfl
  have detached : Orderly joined back (e.detach index (.completed t.generation t.id outcome)) := by
    refine h.shrink (ended.sound h.sound).1 queue (fun other => ?_) rfl
      ((packOrder_detach ..).trans (List.append_nil _).symm) (List.nil_sublist _)
    rw [slot_detach]
    split
    · rename_i here
      exact .inr ⟨here ▸ away, fun u none => by cases none⟩
    · exact .inl rfl
  obtain ⟨new, entrants, orderly⟩ := (Continues.follow _ t).orderly detached
  have same : (e.detach index (.completed t.generation t.id outcome)).entrants = e.entrants := by
    simp [Engine.entrants, detach, setSlot, record, prepared?]
  rw [same] at entrants
  rw [finish_eq outcome slot] at sound ⊢
  exact ⟨new, entrants, orderly.pass sound rfl (fun _ => rfl) rfl rfl⟩

namespace Continues

theorem finish (slot : e.slot index = some t) (sent : t.isSent = true) (outcome : Outcome) :
    Continues e (e.finish index outcome) := by
  refine ⟨fun {joined back} h => ?_⟩
  have away : index ∉ e.queue := h.not_mem_queue slot (h.sound.idle_of_sent slot sent)
  have all : Orderly joined back (e.delay []) := h
  exact all.finish slot (by simp) away outcome

theorem answerAll (e : Engine) (items : List (Except Error Datagram)) :
    Continues e (e.answerAll items).2 := by
  induction items generalizing e with
  | nil => exact .refl e
  | cons item rest ih =>
      cases item with
      | error cause => exact .refl e
      | ok d =>
          have first : Continues e (e.answer d).2 := by
            unfold answer
            split
            · exact .refl e
            · rename_i t slot
              split
              · rename_i awaited
                exact .finish slot (Bool.and_eq_true_iff.mp awaited).1 _
              · exact .refl e
          exact first.trans (ih _)

theorem receive (e : Engine) (bytes : Bytes) : Continues e (e.receive bytes).2 := by
  simp only [Engine.receive]
  split
  · exact .count e _
  · rename_i frame _
    have counted : Continues e
        (e.tally fun s => { s with framesReceived := s.framesReceived + 1 }) := .count e _
    exact (counted.trans (answerAll _ frame.chain.toList)).trans (.count _ _)

theorem expireAll (e : Engine) (now : Nat) (places : List UInt8) :
    Continues e (e.expireAll now places).2 := by
  induction places generalizing e with
  | nil => exact .refl e
  | cons index rest ih =>
      have first : Continues e (e.expire now index).2 := by
        unfold expire
        split
        · exact .refl e
        · rename_i t slot
          split
          · rename_i late
            have sent : t.isSent = true := by
              unfold Transaction.isExpired at late
              unfold Transaction.isSent
              split at late
              · cases late
              · rename_i known
                rw [known]
                rfl
            exact .finish slot sent _
          · exact .refl e
      exact first.trans (ih _)

theorem sweep (e : Engine) (now : Nat) : Continues e (e.sweep now).2 :=
  (expireAll e now e.leases.leased).trans (.count _ _)

end Continues

end Engine

end Fieldbus
