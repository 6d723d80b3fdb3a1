import Fieldbus.Proofs.Engine.Packing
import Fieldbus.Proofs.Frame.Rewriting

/-!
# Hearing answers

Datagrams that answer the packed transactions come in, in any order and any number of times. The
first one for an index completes its transaction; those after it find the slot vacant.
-/

namespace Fieldbus

theorem countP_or_key {α κ : Type} [BEq κ] [LawfulBEq κ] {key : α → κ} {p : α → Bool} {a : α}
    {l : List α} (distinct : (l.map key).Nodup) (ha : a ∈ l) (fresh : p a = false) :
    l.countP (fun b => p b || key b == key a) = l.countP p + 1 := by
  induction l with
  | nil => cases ha
  | cons b rest ih =>
      rw [List.map_cons, List.nodup_cons] at distinct
      rw [List.countP_cons, List.countP_cons]
      rcases List.mem_cons.mp ha with rfl | later
      · have others : rest.countP (fun b => p b || key b == key a) = rest.countP p := by
          refine List.countP_congr fun b hb => ?_
          have ne : key b ≠ key a := fun same => distinct.1 (same ▸ List.mem_map_of_mem hb)
          rw [beq_false_of_ne ne, Bool.or_false]
        simp [others, fresh]
      · have ne : key b ≠ key a := fun same => distinct.1 (same ▸ List.mem_map_of_mem later)
        rw [ih distinct.2 later, beq_false_of_ne ne, Bool.or_false]
        omega

def Transaction.Matches (t : Transaction) (d : Datagram) : Prop :=
  d.header.index = t.index ∧ d.header.command = t.command

namespace Engine

open JournalEntry (completes)

def firstOf (ds : List Datagram) (index : UInt8) : Option Datagram :=
  ds.find? fun d => d.header.index == index

theorem firstOf_concat (ds : List Datagram) (d : Datagram) (index : UInt8) :
    firstOf (ds ++ [d]) index =
      (firstOf ds index).or (if d.header.index = index then some d else none) := by
  rw [firstOf, List.find?_append, List.find?_singleton, firstOf]
  simp only [beq_iff_eq]

theorem firstOf_index {ds : List Datagram} {index : UInt8} {d : Datagram}
    (first : firstOf ds index = some d) : d.header.index = index := by
  rw [firstOf] at first
  exact eq_of_beq (List.find?_some first :)

def found (ts : List Transaction) (ds : List Datagram) : Nat :=
  ts.countP fun t => (firstOf ds t.index).isSome

theorem found_nil (ts : List Transaction) : found ts [] = 0 :=
  List.countP_eq_zero.mpr fun t _ => by simp [firstOf]

theorem found_eq_length {ts : List Transaction} {ds : List Datagram}
    (all : ∀ t ∈ ts, ∃ d, firstOf ds t.index = some d) : found ts ds = ts.length := by
  refine List.countP_eq_length.mpr fun t ht => ?_
  obtain ⟨d, first⟩ := all t ht
  rw [first, Option.isSome_some]

theorem Took.first_matches {e₀ e : Engine} {now : Nat} {ts : List Transaction}
    {ds : List Datagram} (took : Took e₀ e now ts)
    (answers : ∀ d ∈ ds, ∃ u ∈ ts, Transaction.Matches u d) {t : Transaction} (ht : t ∈ ts)
    (answered : ∃ d ∈ ds, t.Matches d) :
    ∃ d, firstOf ds t.index = some d ∧ t.Matches d := by
  obtain ⟨d, hd, meant⟩ := answered
  have heard : (firstOf ds t.index).isSome :=
    List.find?_isSome.mpr ⟨d, hd, beq_iff_eq.mpr meant.1⟩
  obtain ⟨first, found⟩ := Option.isSome_iff_exists.mp heard
  obtain ⟨u, hu, known⟩ := answers first (List.mem_of_find?_eq_some found)
  have same : u = t := took.index_unique hu ht (known.1.symm.trans (firstOf_index found))
  exact ⟨first, found, same ▸ known⟩

theorem found_concat {ts : List Transaction} {t : Transaction} {ds : List Datagram} {d : Datagram}
    (distinct : (ts.map Transaction.index).Nodup) (ht : t ∈ ts) (index : d.header.index = t.index) :
    found ts (ds ++ [d]) = found ts ds + (firstOf ds t.index).isNone.toNat := by
  have grown : found ts (ds ++ [d]) =
      ts.countP fun u => (firstOf ds u.index).isSome || u.index == t.index := by
    refine List.countP_congr fun u _ => ?_
    rw [firstOf_concat, index]
    by_cases same : u.index = t.index
    · simp [same]
    · simp [same, Ne.symm same]
  rw [grown]
  cases known : firstOf ds t.index with
  | none => exact countP_or_key distinct ht (by rw [known]; rfl)
  | some earlier =>
      refine List.countP_congr fun u _ => ?_
      by_cases same : u.index = t.index <;> simp [same, known]

/-- After datagrams have been heard, the packed transactions they answer are complete, each with
the first of its answers. The others are as they were sent. What a completion submits may come to
use an index that was answered, but is not sent. -/
structure Heard (ts : List Transaction) (now : Nat) (e : Engine) (ds : List Datagram) : Prop where
  sound : e.Sound
  silent : ∀ t ∈ ts, firstOf ds t.index = none →
    e.slot t.index = some (t.markSent now)
  first : ∀ t ∈ ts, ∀ d, firstOf ds t.index = some d →
    (∀ u, e.slot t.index = some u → u.isSent = false) ∧ e.journal.filter (completes t.generation) =
      [.completed t.generation t.id (.response d.workCounter d.payload)]

namespace Heard

variable {ts : List Transaction} {now : Nat} {e e' : Engine} {ds : List Datagram} {d : Datagram}

theorem start (sound : e.Sound) (sent : ∀ t ∈ ts, e.slot t.index = some (t.markSent now)) :
    Heard ts now e [] :=
  ⟨sound, fun t ht _ => sent t ht, fun t _ d known => by cases known⟩

theorem tally (h : Heard ts now e ds) (change : TrafficStatistics → TrafficStatistics) :
    Heard ts now (e.tally change) ds :=
  ⟨h.sound.relax rfl rfl rfl h.sound.leased fun _ _ here => here, h.silent, h.first⟩

theorem filter_nil (h : Heard ts now e ds) {t : Transaction} (ht : t ∈ ts)
    (unheard : firstOf ds t.index = none) :
    e.journal.filter (completes t.generation) = [] := by
  have out : e.Outstanding t.generation := ⟨t.index, _, h.silent t ht unheard, rfl⟩
  have none := h.sound.pending out
  rw [endings_eq] at none
  refine List.filter_eq_nil_iff.mpr ?_
  exact List.countP_eq_zero.mp (show e.fired t.generation = 0 by omega)

theorem generation_unique {e₀ e₁ : Engine} (took : Took e₀ e₁ now ts) (sound : e₀.Sound)
    {t u : Transaction} (ht : t ∈ ts) (hu : u ∈ ts) (same : t.generation = u.generation) :
    t = u :=
  took.index_unique ht hu (sound.index_unique (took.taken t ht).1 (took.taken u hu).1 same)

theorem complete {e₀ e₁ : Engine} (took : Took e₀ e₁ now ts) (sound : e₀.Sound)
    (h : Heard ts now e ds) {t : Transaction} (ht : t ∈ ts) (index : d.header.index = t.index)
    (unheard : firstOf ds t.index = none) :
    Heard ts now (e.finish t.index (.response d.workCounter d.payload)) (ds ++ [d]) := by
  let outcome := Outcome.response d.workCounter d.payload
  have slot := h.silent t ht unheard
  have leased := h.sound.leased slot
  obtain ⟨xs, journal, sequel⟩ := journal_finish outcome slot
  have quiet (u : Transaction) : xs.filter (completes u.generation) = [] := by
    refine List.filter_eq_nil_iff.mpr fun x hx completed => ?_
    cases sequel x hx <;> cases completed
  have elsewhere {u : Transaction} (ne : t.index ≠ u.index) :
      firstOf (ds ++ [d]) u.index = firstOf ds u.index := by
    rw [firstOf_concat, index, if_neg ne, Option.or_none]
  constructor
  case sound =>
    have path : Moves (Along fun _ _ => True) e (e.finish t.index outcome) :=
      h.sound.finish_moves slot trivial
    exact path.sound h.sound
  case silent =>
    intro u hu unheard'
    have ne : t.index ≠ u.index := by
      intro same
      rw [firstOf_concat, index, if_pos same, Option.or_eq_none_iff] at unheard'
      cases unheard'.2
    have before := h.silent u hu (elsewhere ne ▸ unheard')
    rcases slot_finish outcome slot u.index with same | ⟨free, -⟩
    · rw [same, if_neg (Ne.symm ne), before]
    · rw [h.sound.leased before] at free
      cases free
  case first =>
    intro u hu d' found
    by_cases same : t.index = u.index
    · obtain rfl : u = t := took.index_unique hu ht same.symm
      rw [firstOf_concat, unheard, Option.none_or, if_pos index, Option.some.injEq] at found
      subst found
      have vacant := slot_finish_self outcome slot leased
      refine ⟨fun v here => ?_, ?_⟩
      · rw [vacant] at here
        cases here
      · rw [journal, List.filter_append, List.filter_append, h.filter_nil hu unheard, quiet]
        simp [Transaction.markSent, completes, outcome]
    · obtain ⟨unsent, once⟩ := h.first u hu d' (elsewhere same ▸ found)
      have other : completes u.generation (.completed t.generation t.id outcome) = false :=
        beq_false_of_ne fun equal => same (congrArg _ (generation_unique took sound ht hu equal))
      refine ⟨fun v here => ?_, ?_⟩
      · rcases slot_finish outcome slot u.index with kept | ⟨-, w, waits, idle, -⟩
        · rw [kept, if_neg (Ne.symm same)] at here
          exact unsent v here
        · rw [waits, Option.some.injEq] at here
          rw [← here, Transaction.isSent, idle, Option.isSome_none]
      · rw [journal, List.filter_append, List.filter_append, once, quiet]
        simp [Transaction.markSent, other]

theorem ignore (h : Heard ts now e ds) {earlier : Datagram}
    (known : firstOf ds d.header.index = some earlier) : Heard ts now e (ds ++ [d]) := by
  -- An index that has been heard keeps its first datagram.
  have same (i : UInt8) : firstOf (ds ++ [d]) i = firstOf ds i := by
    rw [firstOf_concat]
    split
    · rename_i here
      rw [← here, known, Option.some_or]
    · exact Option.or_none
  exact ⟨h.sound, fun u hu unheard => h.silent u hu ((same u.index).symm.trans unheard),
    fun u hu d' found => h.first u hu d' ((same u.index).symm.trans found)⟩

/-- The first answer completes a transaction, and later ones are stale. -/
theorem answer {e₀ e₁ : Engine} (took : Took e₀ e₁ now ts) (sound : e₀.Sound)
    (h : Heard ts now e ds) {t : Transaction} (ht : t ∈ ts) (meant : t.Matches d) :
    Heard ts now (e.answer d).2 (ds ++ [d]) ∧
      (e.answer d).1 = (firstOf ds t.index).isNone ∧
      (e.answer d).2.statistics = e.statistics := by
  obtain ⟨index, command⟩ := meant
  cases known : firstOf ds t.index with
  | some earlier =>
      have answered : e.answer d = (false, e) := by
        cases slot : e.slot t.index with
        | none => simp only [Engine.answer, index, slot]
        | some u =>
            have unsent := (h.first t ht earlier known).1 u slot
            simp [Engine.answer, index, slot, Transaction.awaits, unsent]
      rw [answered]
      exact ⟨h.ignore (index ▸ known), rfl, rfl⟩
  | none =>
      have awaits : (t.markSent now).awaits d = true := by
        simp [Transaction.awaits, Transaction.isSent, Transaction.markSent, command]
      have answered : e.answer d =
          (true, e.finish t.index (.response d.workCounter d.payload)) := by
        simp only [Engine.answer, index, h.silent t ht known, awaits, if_true]
      rw [answered]
      exact ⟨h.complete took sound ht index known, rfl, statistics_finish e _ _⟩

theorem answerAll {e₀ e₁ : Engine} (took : Took e₀ e₁ now ts) (sound : e₀.Sound)
    {new : List Datagram} (h : Heard ts now e ds) (answers : ∀ d ∈ new, ∃ t ∈ ts, t.Matches d) :
    Heard ts now (e.answerAll (new.map .ok)).2 (ds ++ new) ∧
      (e.answerAll (new.map .ok)).2.statistics = e.statistics ∧
      found ts ds + (e.answerAll (new.map .ok)).1.1 = found ts (ds ++ new) ∧
      (e.answerAll (new.map .ok)).1.1 + (e.answerAll (new.map .ok)).1.2 = new.length := by
  induction new generalizing e ds with
  | nil =>
      rw [List.append_nil]
      exact ⟨h, rfl, rfl, rfl⟩
  | cons d rest ih =>
      obtain ⟨t, ht, meant⟩ := answers d List.mem_cons_self
      obtain ⟨heard, known, kept⟩ := h.answer took sound ht meant
      obtain ⟨heard', kept', counted, total⟩ :=
        ih heard fun d' hd' => answers d' (List.mem_cons_of_mem d hd')
      have one := @found_concat ts t ds d took.distinct ht meant.1
      rw [List.append_assoc, List.singleton_append] at heard' counted
      rw [one, ← known] at counted
      simp only [List.map_cons, Engine.answerAll, List.length_cons]
      generalize (e.answer d).2.answerAll (rest.map .ok) = result at heard' kept' counted total ⊢
      obtain ⟨⟨matched, stale⟩, e'⟩ := result
      dsimp only at counted total ⊢
      have one : (e.answer d).1.toNat + (!(e.answer d).1).toNat = 1 := by
        cases (e.answer d).1 <;> rfl
      exact ⟨heard', kept'.trans kept, by omega, by omega⟩

theorem receive {e₀ e₁ : Engine} (took : Took e₀ e₁ now ts) (sound : e₀.Sound) {bytes : Bytes}
    (h : Heard ts now e ds)
    (parsed : ∃ frame, Frame.parse? bytes = .ok frame ∧
      frame.chain.toList = (Frame.decoded bytes).map .ok)
    (answers : ∀ d ∈ Frame.decoded bytes, ∃ t ∈ ts, t.Matches d) :
    Heard ts now (e.receive bytes).2 (ds ++ Frame.decoded bytes) ∧
      (e.receive bytes).2.statistics.datagramsMatched + found ts ds =
        e.statistics.datagramsMatched + found ts (ds ++ Frame.decoded bytes) ∧
      (e.receive bytes).2.statistics.staleDatagrams + found ts (ds ++ Frame.decoded bytes) =
        e.statistics.staleDatagrams + found ts ds + (Frame.decoded bytes).length := by
  obtain ⟨frame, parsed, items⟩ := parsed
  have counted := h.tally fun s => { s with framesReceived := s.framesReceived + 1 }
  obtain ⟨heard, kept, matched, total⟩ := counted.answerAll took sound answers
  simp only [Engine.receive, parsed, items]
  generalize (Engine.tally e _).answerAll ((Frame.decoded bytes).map .ok) = result
    at heard kept matched total ⊢
  obtain ⟨⟨hits, misses⟩, e'⟩ := result
  have kept' : e'.statistics =
      { e.statistics with framesReceived := e.statistics.framesReceived + 1 } := kept
  dsimp only at matched total
  refine ⟨heard.tally _, ?_, ?_⟩
  · simp only [Engine.tally, kept']
    omega
  · simp only [Engine.tally, kept']
    omega

end Heard

def receiveAll (e : Engine) (deliveries : List Bytes) : Engine :=
  deliveries.foldl (fun e bytes => (e.receive bytes).2) e

theorem Heard.receiveAll {e₀ e₁ e : Engine} {now : Nat} {ts : List Transaction}
    {ds : List Datagram} (took : Took e₀ e₁ now ts) (sound : e₀.Sound) {deliveries : List Bytes}
    (h : Heard ts now e ds)
    (answers : ∀ bytes ∈ deliveries, (∃ frame, Frame.parse? bytes = .ok frame ∧
      frame.chain.toList = (Frame.decoded bytes).map .ok) ∧
      ∀ d ∈ Frame.decoded bytes, ∃ t ∈ ts, t.Matches d) :
    Heard ts now (e.receiveAll deliveries) (ds ++ deliveries.flatMap Frame.decoded) ∧
      (e.receiveAll deliveries).statistics.datagramsMatched + found ts ds =
        e.statistics.datagramsMatched + found ts (ds ++ deliveries.flatMap Frame.decoded) ∧
      (e.receiveAll deliveries).statistics.staleDatagrams +
          found ts (ds ++ deliveries.flatMap Frame.decoded) =
        e.statistics.staleDatagrams + found ts ds +
          (deliveries.flatMap Frame.decoded).length := by
  induction deliveries generalizing e ds with
  | nil =>
      rw [List.flatMap_nil, List.append_nil]
      exact ⟨h, rfl, rfl⟩
  | cons bytes rest ih =>
      obtain ⟨parsed, all⟩ := answers bytes List.mem_cons_self
      obtain ⟨heard, matched, stale⟩ := h.receive took sound parsed all
      obtain ⟨heard', matched', stale'⟩ :=
        ih heard fun b hb => answers b (List.mem_cons_of_mem bytes hb)
      have onward : e.receiveAll (bytes :: rest) = (e.receive bytes).2.receiveAll rest := rfl
      rw [List.append_assoc] at heard' matched' stale'
      rw [onward, List.flatMap_cons]
      refine ⟨heard', by omega, ?_⟩
      rw [List.length_append]
      omega

end Engine

end Fieldbus
