import Fieldbus.Proofs.Buffer.Returning
import Fieldbus.Proofs.Engine.Verdicts

/-!
# Answers and what they hang on

What a datagram does hangs on the sent transaction of its index, and on nothing else. So the answers
of a frame are the same in all engines that await the same under the indices of the frame: the same
transactions end, in the same order and with the same outcomes. A callback may still begin something
new, which hangs on what is free at that moment. Without that, ended transactions only give up what
they have, and it does not matter which one is the first. All this is about callbacks that at most
submit a request. One that cancels another transaction decides whether that one ends.
-/

namespace Fieldbus

def JournalEntry.completed? : JournalEntry → Option (Nat × Nat × Outcome)
  | .completed generation id outcome => some (generation, id, outcome)
  | _ => none

theorem JournalEntry.IsSequel.completed? {x : JournalEntry} (h : x.IsSequel) :
    x.completed? = none := by
  cases h <;> rfl

/-- The callback of the transaction submits nothing. -/
def Transaction.Passive (t : Transaction) : Prop :=
  ∀ next others, t.followUps ≠ .submit next :: others

namespace Leases

theorem release_leased {l : Leases} {i : UInt8} (leased : l.isLeased i = true) :
    (l.release i).2 = { l with used := l.used &&& ~~~bit i.toNat, count := l.count - 1 } := by
  rw [release, if_pos leased]

theorem release_free {l : Leases} {i : UInt8} (free : l.isLeased i = false) :
    (l.release i).2 = l := by
  rw [release, if_neg (by rw [free]; exact Bool.false_ne_true)]

theorem release_comm (l : Leases) (i j : UInt8) :
    ((l.release i).2.release j).2 = ((l.release j).2.release i).2 := by
  by_cases same : i = j
  · rw [same]
  · -- What is given back does not change whether the other one is leased.
    have first : (l.release i).2.isLeased j = l.isLeased j := by
      rw [isLeased_release, bne_iff_ne.mpr (Ne.symm same), Bool.and_true]
    have second : (l.release j).2.isLeased i = l.isLeased i := by
      rw [isLeased_release, bne_iff_ne.mpr same, Bool.and_true]
    cases left : l.isLeased i with
    | false => rw [release_free left, release_free (second.trans left)]
    | true =>
        cases right : l.isLeased j with
        | false => rw [release_free right, release_free (first.trans right)]
        | true =>
            rw [release_leased (first.trans right), release_leased (second.trans left),
              release_leased left, release_leased right]
            simp only [BitVec.and_assoc, BitVec.and_comm (~~~bit i.toNat)]

end Leases

namespace Engine

variable {e e' e'' : Engine} {index : UInt8} {t : Transaction} {d : Datagram}
  {ends : List (Transaction × Outcome)}

/-- The callbacks that have fired, in order. -/
def firings (e : Engine) : List (Nat × Nat × Outcome) :=
  e.journal.filterMap JournalEntry.completed?

/-! ## Sent transactions -/

def awaited (e : Engine) (index : UInt8) : Option Transaction :=
  (e.slot index).filter Transaction.isSent

theorem awaited_eq_some : e.awaited index = some t ↔ e.slot index = some t ∧ t.isSent = true :=
  Option.filter_eq_some_iff

theorem Sound.index_awaited (h : e.Sound) (sent : e.awaited index = some t) : t.index = index := by
  obtain ⟨r, -, carries⟩ := (h.backed (awaited_eq_some.mp sent).1).prepared
  exact carries.place

theorem answer_stale (idle : ∀ t, e.awaited d.header.index = some t → t.awaits d = false) :
    e.answer d = (false, e) := by
  unfold answer
  cases slot : e.slot d.header.index with
  | none => rfl
  | some t =>
      dsimp only
      split
      · rename_i awaits
        have sent : t.isSent = true := (Bool.and_eq_true_iff.mp awaits).1
        rw [idle t (awaited_eq_some.mpr ⟨slot, sent⟩)] at awaits
        cases awaits
      · rfl

theorem answer_matched (sent : e.awaited d.header.index = some t) (awaits : t.awaits d = true) :
    e.answer d = (true, e.finish d.header.index (.response d.workCounter d.payload)) := by
  simp only [answer, (awaited_eq_some.mp sent).1, awaits, if_true]

theorem Sound.finish (h : e.Sound) (slot : e.slot index = some t) (outcome : Outcome) :
    (e.finish index outcome).Sound :=
  (h.finish_decides slot outcome).sound

/-- What a callback begins is not sent yet. -/
theorem Sound.awaited_finish (h : e.Sound) (slot : e.slot index = some t) (outcome : Outcome)
    (other : UInt8) :
    (e.finish index outcome).awaited other = if other = index then none else e.awaited other := by
  rcases slot_finish outcome slot other with same | ⟨free, u, waits, unsent, -⟩
  · rw [awaited, same]
    split
    · rfl
    · rfl
  · have vacant : e.slot other = none := by
      cases there : e.slot other with
      | none => rfl
      | some w =>
          rw [h.leased there] at free
          cases free
    have idle : u.isSent = false := by rw [Transaction.isSent, unsent, Option.isSome_none]
    have absent : e.awaited other = none := by rw [awaited, vacant, Option.filter_none]
    rw [absent, ite_self, awaited, waits]
    exact Option.filter_some_neg (Bool.not_eq_true _ ▸ idle)

/-! ## Ends one after the other -/

def settle (e : Engine) (ends : List (Transaction × Outcome)) : Engine :=
  ends.foldl (fun e x => e.finish x.1.index x.2) e

/-- The transactions are sent and wait for their answers, each under an index of its own. -/
structure Due (e : Engine) (ends : List (Transaction × Outcome)) : Prop where
  distinct : (ends.map fun x => x.1.index).Nodup
  sent : ∀ x ∈ ends, e.awaited x.1.index = some x.1

theorem Due.slot {x : Transaction × Outcome} (h : e.Due (x :: ends)) :
    e.slot x.1.index = some x.1 :=
  (awaited_eq_some.mp (h.sent x List.mem_cons_self)).1

theorem Due.tail {x : Transaction × Outcome} (sound : e.Sound) (h : e.Due (x :: ends)) :
    (e.finish x.1.index x.2).Due ends := by
  have distinct := h.distinct
  rw [List.map_cons, List.nodup_cons] at distinct
  refine ⟨distinct.2, fun y later => ?_⟩
  have ne : y.1.index ≠ x.1.index := fun same => distinct.1 (same ▸ List.mem_map_of_mem later)
  rw [sound.awaited_finish h.slot, if_neg ne]
  exact h.sent y (List.mem_cons_of_mem x later)

theorem Due.settled (sound : e.Sound) (due : e.Due ends) :
    (e.settle ends).Sound ∧ (e.settle ends).statistics = e.statistics ∧
      (e.settle ends).firings =
        e.firings ++ ends.map (fun x => (x.1.generation, x.1.id, x.2)) ∧
      ∀ other ∉ ends.map (fun x => x.1.index), (e.settle ends).awaited other = e.awaited other := by
  induction ends generalizing e with
  | nil => exact ⟨sound, rfl, (List.append_nil _).symm, fun _ _ => rfl⟩
  | cons x rest ih =>
      obtain ⟨sound', statistics, firings, elsewhere⟩ :=
        ih (sound.finish due.slot x.2) (due.tail sound)
      refine ⟨sound', statistics.trans (statistics_finish e _ _), firings.trans ?_,
        fun other absent => ?_⟩
      · obtain ⟨xs, journal, sequel⟩ := journal_finish x.2 due.slot
        have quiet : xs.filterMap JournalEntry.completed? = [] :=
          List.filterMap_eq_nil_iff.mpr fun y hy => (sequel y hy).completed?
        rw [Engine.firings, journal, List.filterMap_append, List.filterMap_append, quiet,
          List.append_nil, List.append_assoc]
        rfl
      · rw [List.map_cons, List.mem_cons, not_or] at absent
        rw [settle, List.foldl_cons]
        exact (elsewhere other absent.2).trans
          ((sound.awaited_finish due.slot x.2 other).trans (if_neg absent.1))

/-! ## The same answers in another engine -/

/-- What items do in every engine that awaits the same as `e` under their indices: they end these
transactions, and so many are matched and stale. -/
structure Replays (e : Engine) (items : List (Except Error Datagram)) (counts : Nat × Nat)
    (ends : List (Transaction × Outcome)) : Prop where
  due : e.Due ends
  answered : ∀ x ∈ ends, ∃ d, .ok d ∈ items ∧ d.header.index = x.1.index ∧ x.1.awaits d = true
  same : ∀ e' : Engine, e'.Sound →
    (∀ d, .ok d ∈ items → e'.awaited d.header.index = e.awaited d.header.index) →
    e'.answerAll items = (counts, e'.settle ends)

namespace Replays

variable {rest : List (Except Error Datagram)} {matched stale : Nat}

theorem nil (e : Engine) : e.Replays [] (0, 0) [] :=
  ⟨⟨List.nodup_nil, nofun⟩, nofun, fun _ _ _ => rfl⟩

theorem error (e : Engine) (cause : Error) (rest : List (Except Error Datagram)) :
    e.Replays (.error cause :: rest) (0, 0) [] :=
  ⟨⟨List.nodup_nil, nofun⟩, nofun, fun _ _ _ => rfl⟩

theorem ignore (h : e.Replays rest (matched, stale) ends)
    (idle : ∀ t, e.awaited d.header.index = some t → t.awaits d = false) :
    e.Replays (.ok d :: rest) (matched, stale + 1) ends where
  due := h.due
  answered x hx := by
    obtain ⟨c, carried, known⟩ := h.answered x hx
    exact ⟨c, List.mem_cons_of_mem _ carried, known⟩
  same e' sound agrees := by
    have first : e'.answer d = (false, e') :=
      answer_stale fun t sent => idle t (agrees d List.mem_cons_self ▸ sent)
    have others := h.same e' sound fun c carried => agrees c (List.mem_cons_of_mem _ carried)
    rw [answerAll, first]
    dsimp only
    rw [others]
    rfl

theorem finish (sound : e.Sound) (sent : e.awaited d.header.index = some t)
    (awaits : t.awaits d = true)
    (h : (e.finish t.index (.response d.workCounter d.payload)).Replays rest (matched, stale)
      ends) :
    e.Replays (.ok d :: rest) (matched + 1, stale)
      ((t, .response d.workCounter d.payload) :: ends) := by
  let outcome := Outcome.response d.workCounter d.payload
  have place : t.index = d.header.index := sound.index_awaited sent
  have slot : e.slot t.index = some t := place ▸ (awaited_eq_some.mp sent).1
  have left (x : Transaction × Outcome) (hx : x ∈ ends) :
      x.1.index ≠ t.index ∧ e.awaited x.1.index = some x.1 := by
    have due := h.due.sent x hx
    rw [sound.awaited_finish slot] at due
    split at due
    · cases due
    · exact ⟨‹_›, due⟩
  constructor
  case due =>
    refine ⟨List.nodup_cons.mpr ⟨fun here => ?_, h.due.distinct⟩, fun x hx => ?_⟩
    · obtain ⟨x, hx, same⟩ := List.mem_map.mp here
      exact (left x hx).1 same
    · rcases List.mem_cons.mp hx with rfl | later
      · exact place ▸ sent
      · exact (left x later).2
  case answered =>
    intro x hx
    rcases List.mem_cons.mp hx with rfl | later
    · exact ⟨d, List.mem_cons_self, place.symm, awaits⟩
    · obtain ⟨c, carried, known⟩ := h.answered x later
      exact ⟨c, List.mem_cons_of_mem _ carried, known⟩
  case same =>
    intro e' sound' agrees
    have sent' : e'.awaited d.header.index = some t := (agrees d List.mem_cons_self).trans sent
    have slot' : e'.slot t.index = some t := place ▸ (awaited_eq_some.mp sent').1
    have others := h.same (e'.finish t.index outcome) (sound'.finish slot' outcome)
      fun c carried => by
        rw [sound.awaited_finish slot, sound'.awaited_finish slot',
          agrees c (List.mem_cons_of_mem _ carried)]
    rw [answerAll, answer_matched sent' awaits, ← place]
    dsimp only
    rw [others]
    rfl

end Replays

theorem Sound.replays (h : e.Sound) (items : List (Except Error Datagram)) :
    ∃ counts ends, e.Replays items counts ends := by
  induction items generalizing e with
  | nil => exact ⟨_, _, .nil e⟩
  | cons item rest ih =>
      cases item with
      | error cause => exact ⟨_, _, .error e cause rest⟩
      | ok d =>
          by_cases matched : ∃ t, e.awaited d.header.index = some t ∧ t.awaits d = true
          · obtain ⟨t, sent, awaits⟩ := matched
            have slot := (awaited_eq_some.mp sent).1
            rw [← h.index_awaited sent] at slot
            obtain ⟨counts, ends, others⟩ :=
              ih (h.finish slot (.response d.workCounter d.payload))
            exact ⟨_, _, others.finish h sent awaits⟩
          · obtain ⟨counts, ends, others⟩ := ih h
            exact ⟨_, _, others.ignore fun t sent => Bool.eq_false_iff.mpr fun awaits =>
              matched ⟨t, sent, awaits⟩⟩

/-! ## Ends that begin nothing -/

/-- Two engines have the same transactions under way and the same to begin others with. They may
hand out their buffers in another order, and they may have counted and reported other things. -/
structure Alike (e e' : Engine) : Prop where
  config : e'.config = e.config
  pool : e.pool.Alike e'.pool
  leases : e'.leases = e.leases
  slots : ∀ index, e'.slot index = e.slot index
  queue : e'.queue = e.queue
  nextGeneration : e'.nextGeneration = e.nextGeneration

theorem Alike.refl (e : Engine) : e.Alike e := ⟨rfl, .refl _, rfl, fun _ => rfl, rfl, rfl⟩

theorem Alike.symm (h : e.Alike e') : e'.Alike e where
  config := h.config.symm
  pool := h.pool.symm
  leases := h.leases.symm
  slots index := (h.slots index).symm
  queue := h.queue.symm
  nextGeneration := h.nextGeneration.symm

theorem Alike.trans (h : e.Alike e') (h' : e'.Alike e'') : e.Alike e'' where
  config := h'.config.trans h.config
  pool := h.pool.trans h'.pool
  leases := h'.leases.trans h.leases
  slots index := (h'.slots index).trans (h.slots index)
  queue := h'.queue.trans h.queue
  nextGeneration := h'.nextGeneration.trans h.nextGeneration

def discharge (e : Engine) (t : Transaction) : Engine :=
  (e.setSlot t.index none).release t.index t.buffer

def dischargeAll (e : Engine) (ts : List Transaction) : Engine := ts.foldl discharge e

theorem slot_discharge (e : Engine) (t : Transaction) (other : UInt8) :
    (e.discharge t).slot other = if other = t.index then none else e.slot other :=
  slot_setSlot e t.index other none

theorem Alike.discharge (h : e.Alike e') (t : Transaction) :
    (e.discharge t).Alike (e'.discharge t) where
  config := h.config
  pool := h.pool.put t.buffer
  leases := congrArg (fun l => (Leases.release l t.index).2) h.leases
  slots other := by rw [slot_discharge, slot_discharge, h.slots]
  queue := h.queue
  nextGeneration := h.nextGeneration

theorem discharge_comm (e : Engine) (t u : Transaction) :
    ((e.discharge t).discharge u).Alike ((e.discharge u).discharge t) where
  config := rfl
  pool := e.pool.put_comm t.buffer u.buffer
  leases := e.leases.release_comm u.index t.index
  slots other := by
    simp only [slot_discharge]
    split <;> split <;> rfl
  queue := rfl
  nextGeneration := rfl

theorem Alike.dischargeAll (h : e.Alike e') (ts : List Transaction) :
    (e.dischargeAll ts).Alike (e'.dischargeAll ts) := by
  induction ts generalizing e e' with
  | nil => exact h
  | cons t rest ih => exact ih (h.discharge t)

theorem dischargeAll_perm {ts us : List Transaction} (same : ts.Perm us) (e : Engine) :
    (e.dischargeAll ts).Alike (e.dischargeAll us) := by
  induction same generalizing e with
  | nil => exact .refl e
  | cons t _ ih => exact ih (e.discharge t)
  | swap t u rest => exact (discharge_comm e u t).dischargeAll rest
  | trans _ _ first second => exact (first e).trans (second e)

theorem finish_passive (slot : e.slot t.index = some t) (passive : t.Passive) (outcome : Outcome) :
    (e.discharge t).Alike (e.finish t.index outcome) := by
  rw [finish_eq outcome slot]
  unfold follow
  split
  · exact ⟨rfl, .refl _, rfl, fun _ => rfl, rfl, rfl⟩
  · exact ⟨rfl, .refl _, rfl, fun _ => rfl, rfl, rfl⟩
  · rename_i next others known
    exact absurd known (passive next others)

theorem Due.discharged (sound : e.Sound) (due : e.Due ends)
    (passive : ∀ x ∈ ends, x.1.Passive) :
    (e.dischargeAll (ends.map Prod.fst)).Alike (e.settle ends) := by
  induction ends generalizing e with
  | nil => exact .refl e
  | cons x rest ih =>
      have first := finish_passive due.slot (passive x List.mem_cons_self) x.2
      have others := ih (sound.finish due.slot x.2) (due.tail sound) fun y later =>
        passive y (List.mem_cons_of_mem x later)
      exact (first.dischargeAll (rest.map Prod.fst)).trans others

end Engine

end Fieldbus
