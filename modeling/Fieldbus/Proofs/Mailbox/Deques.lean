import Fieldbus.Proofs.Buffer.Deque
import Fieldbus.Proofs.Buffer.Lending
import Fieldbus.Proofs.Mailbox.Closing

/-!
# Protocol queues as seven independent lists

The buffers of a pool are in the queues or in somebody's hands. No operation looks whether a buffer
is in another queue already; that it is not follows from its having been in hand. So the queues
answer any calls as one list for each protocol does, and no index is in two places.
-/

namespace Fieldbus

theorem Protocol.all_sorted : Protocol.all.Pairwise fun p q => p.toByte < q.toByte := by decide

namespace ProtocolQueues

open BufferQueue (indices)

/-- Queues, and the buffers of the pool that are in none of them. -/
structure Custody where
  queues : ProtocolQueues
  hands : List Buffer
  deriving DecidableEq, Repr

inductive Operation where
  | pushBack (p : Protocol) (k : Nat)
  | pushFront (p : Protocol) (k : Nat)
  | pop (p : Protocol)
  | next (order : List Protocol)
  | remove (index : Nat)
  | contains (index : Nat)
  | peek (order : List Protocol)
  | drain
  | length (p : Protocol)
  | totalLength
  | isEmpty
  | rewrite (k : Nat) (bytes : Bytes) (length : Nat) (callback : Option Nat)
  deriving DecidableEq, Repr

inductive Answer where
  | linked
  | refused (b : Buffer)
  | popped (b : Option Buffer)
  | taken (found : Option (Protocol × Buffer))
  | front (p : Option Protocol)
  | member (known : Bool)
  | drained (found : List (Protocol × Buffer))
  | count (n : Nat)
  | done
  | nothing
  deriving DecidableEq, Repr

/-! ## The same calls on queues and on lists -/

namespace Custody

def start (id capacity bufferSize : Nat) : Custody :=
  ⟨.empty capacity, (List.range capacity).map fun i => .fresh id i bufferSize⟩

def handing (s : Custody) (k : Nat) (use : Buffer → Answer × Custody) : Answer × Custody :=
  match s.hands[k]? with
  | none => (.nothing, s)
  | some b => use b

def pushed (s : Custody) (k : Nat) (b : Buffer) : Option ProtocolQueues → Answer × Custody
  | none => (.refused b, s)
  | some queues => (.linked, ⟨queues, s.hands.eraseIdx k⟩)

def taken (s : Custody) : Option (Protocol × Buffer × ProtocolQueues) → Answer × Custody
  | none => (.taken none, s)
  | some (p, b, queues) => (.taken (some (p, b)), ⟨queues, b :: s.hands⟩)

def apply (s : Custody) : Operation → Answer × Custody
  | .pushBack p k => s.handing k fun b => s.pushed k b (s.queues.pushBack? p b)
  | .pushFront p k => s.handing k fun b => s.pushed k b (s.queues.pushFront? p b)
  | .pop p =>
      match s.queues.pop? p with
      | none => (.popped none, s)
      | some (b, queues) => (.popped (some b), ⟨queues, b :: s.hands⟩)
  | .next order => s.taken (s.queues.next? order)
  | .remove i => s.taken (s.queues.remove? i)
  | .contains i => (.member (s.queues.contains i), s)
  | .peek order => (.front (s.queues.peek? order), s)
  | .drain =>
      let (found, queues) := s.queues.drain
      (.drained found, ⟨queues, found.map Prod.snd ++ s.hands⟩)
  | .length p => (.count (s.queues.length p), s)
  | .totalLength => (.count s.queues.totalLength, s)
  | .isEmpty => (.member s.queues.isEmpty, s)
  | .rewrite k bytes length callback => s.handing k fun b =>
      (.done, { s with hands := s.hands.set k (b.rewrite bytes length callback) })

def run (s : Custody) : List Operation → List Answer × Custody
  | [] => ([], s)
  | op :: ops =>
      let (answer, s) := s.apply op
      let (answers, s) := s.run ops
      (answer :: answers, s)

end Custody

/-- One list of buffers for each protocol, and the buffers that are in none of them. -/
structure Lines where
  line : Protocol → List Buffer
  hands : List Buffer

namespace Lines

def start (id capacity bufferSize : Nat) : Lines :=
  ⟨fun _ => [], (List.range capacity).map fun i => .fresh id i bufferSize⟩

def all (d : Lines) : List (Protocol × Buffer) :=
  Protocol.all.flatMap fun p => (d.line p).map fun b => (p, b)

def first? (d : Lines) (order : List Protocol) : Option (Protocol × Buffer) :=
  order.findSome? fun p => (d.line p).head?.map fun b => (p, b)

def setLine (d : Lines) (p : Protocol) (bs : List Buffer) : Lines :=
  { d with line := Function.update d.line p bs }

def handing (d : Lines) (k : Nat) (use : Buffer → Answer × Lines) : Answer × Lines :=
  match d.hands[k]? with
  | none => (.nothing, d)
  | some b => use b

def apply (d : Lines) : Operation → Answer × Lines
  | .pushBack p k => d.handing k fun b =>
      (.linked, { d.setLine p (d.line p ++ [b]) with hands := d.hands.eraseIdx k })
  | .pushFront p k => d.handing k fun b =>
      (.linked, { d.setLine p (b :: d.line p) with hands := d.hands.eraseIdx k })
  | .pop p =>
      match d.line p with
      | [] => (.popped none, d)
      | b :: rest => (.popped (some b), { d.setLine p rest with hands := b :: d.hands })
  | .next order =>
      match d.first? order with
      | none => (.taken none, d)
      | some (p, b) =>
          (.taken (some (p, b)), { d.setLine p (d.line p).tail with hands := b :: d.hands })
  | .remove i =>
      match d.all.find? (·.2.index == i) with
      | none => (.taken none, d)
      | some (p, b) =>
          (.taken (some (p, b)), ⟨fun p => (d.line p).filter (·.index != i), b :: d.hands⟩)
  | .contains i => (.member (d.all.any (·.2.index == i)), d)
  | .peek order => (.front ((d.first? order).map Prod.fst), d)
  | .drain => (.drained d.all, ⟨fun _ => [], d.all.map Prod.snd ++ d.hands⟩)
  | .length p => (.count (d.line p).length, d)
  | .totalLength => (.count d.all.length, d)
  | .isEmpty => (.member d.all.isEmpty, d)
  | .rewrite k bytes length callback => d.handing k fun b =>
      (.done, { d with hands := d.hands.set k (b.rewrite bytes length callback) })

def run (d : Lines) : List Operation → List Answer × Lines
  | [] => ([], d)
  | op :: ops =>
      let (answer, d) := d.apply op
      let (answers, d) := d.run ops
      (answer :: answers, d)

theorem mem_all {d : Lines} {p : Protocol} {b : Buffer} : (p, b) ∈ d.all ↔ b ∈ d.line p := by
  simp [all, Protocol.mem_all]

theorem all_eq_nil_iff {d : Lines} : d.all = [] ↔ ∀ p, d.line p = [] := by
  simp [all, Protocol.mem_all]

theorem first?_eq (d : Lines) (order : List Protocol) :
    d.first? order = (order.find? fun p => !(d.line p).isEmpty).bind fun p =>
      (d.line p).head?.map fun b => (p, b) := by
  induction order with
  | nil => rfl
  | cons p rest ih =>
      rw [first?, List.findSome?_cons, ← first?, ih, List.find?_cons]
      cases line : d.line p with
      | nil => rfl
      | cons b bs => simp [line]

end Lines

/-- The queues are the lists, and every index of the pool is in one place. -/
structure Tells (capacity : Nat) (s : Custody) (d : Lines) : Prop where
  sound : s.queues.Sound capacity
  entries : s.queues.entries = d.line
  hands : s.hands = d.hands
  once : (indices (d.all.map Prod.snd) ++ indices d.hands).Perm (List.range capacity)

namespace Tells

variable {capacity i k : Nat} {s : Custody} {d : Lines} {p : Protocol} {b : Buffer}
  {bs : List Buffer} {q' : ProtocolQueues}

theorem snd_all (d : Lines) : d.all.map Prod.snd = Protocol.all.flatMap d.line := by
  simp [Lines.all, List.map_flatMap, Function.comp_def]

theorem everything (h : Tells capacity s d) : s.queues.everything = d.all.map Prod.snd := by
  rw [snd_all, ProtocolQueues.everything, h.entries]

theorem distinct (h : Tells capacity s d) :
    (indices (d.all.map Prod.snd) ++ indices d.hands).Nodup :=
  h.once.nodup_iff.mpr List.nodup_range

theorem unique (h : Tells capacity s d) {p' : Protocol} {b' : Buffer} (hb : b ∈ d.line p)
    (hb' : b' ∈ d.line p') (same : b.index = b'.index) : p = p' ∧ b = b' := by
  have distinct : (d.all.map fun x => x.2.index).Nodup := by
    have queued := h.distinct.of_append_left
    rwa [indices, List.map_map] at queued
  have equal :=
    List.inj_on_of_nodup_map distinct (Lines.mem_all.mpr hb) (Lines.mem_all.mpr hb') same
  exact Prod.mk.inj equal

theorem free (h : Tells capacity s d) (hb : b ∈ d.hands) :
    b.index < capacity ∧ ∀ p, b.index ∉ indices (s.queues.entries p) := by
  have here : b.index ∈ indices d.hands := List.mem_map_of_mem hb
  refine ⟨List.mem_range.mp (h.once.subset (List.mem_append_right _ here)), fun p there => ?_⟩
  rw [h.entries] at there
  obtain ⟨c, hc, same⟩ := List.mem_map.mp there
  have queued : b.index ∈ indices (d.all.map Prod.snd) :=
    same ▸ List.mem_map_of_mem (List.mem_map_of_mem (f := Prod.snd) (Lines.mem_all.mpr hc))
  exact List.disjoint_of_nodup_append h.distinct queued here

/-! ## One list changes -/

theorem becomes (h : Tells capacity s d) (step : s.queues.Becomes capacity p bs q')
    {hands : List Buffer} (moved : (indices bs ++ indices hands).Perm
      (indices (d.line p) ++ indices d.hands)) :
    Tells capacity ⟨q', hands⟩ { d.setLine p bs with hands } := by
  have entries : q'.entries = Function.update d.line p bs := h.entries ▸ step.entries
  refine ⟨step.sound, entries, rfl, ?_⟩
  have swapped := (everything_perm step.entries).map Buffer.index
  have all : q'.everything = ({ d.setLine p bs with hands } : Lines).all.map Prod.snd := by
    rw [snd_all, ProtocolQueues.everything, entries]
    rfl
  rw [all, h.everything, h.entries] at swapped
  refine .trans ?_ h.once
  rw [List.perm_iff_count]
  intro n
  have before := swapped.count_eq n
  have after := moved.count_eq n
  simp only [List.map_append, List.count_append, indices] at before after ⊢
  omega

theorem pushed (h : Tells capacity s d) (found : d.hands[k]? = some b)
    (grown : bs.Perm (b :: d.line p)) {result : Option ProtocolQueues}
    (linked : ∃ q', result = some q' ∧ s.queues.Becomes capacity p bs q') :
    (s.pushed k b result).1 = .linked ∧
      Tells capacity (s.pushed k b result).2
        { d.setLine p bs with hands := d.hands.eraseIdx k } := by
  obtain ⟨q', rfl, step⟩ := linked
  obtain ⟨bound, rfl⟩ := List.getElem?_eq_some_iff.mp found
  have moved : (bs ++ d.hands.eraseIdx k).Perm (d.line p ++ d.hands) :=
    (grown.append_right _).trans
      (List.perm_middle.symm.trans
        (List.Perm.append_left _ (List.getElem_cons_eraseIdx_perm bound)))
  refine ⟨rfl, ?_⟩
  show Tells capacity ⟨q', s.hands.eraseIdx k⟩ _
  rw [h.hands]
  exact h.becomes step (by simpa [indices] using moved.map Buffer.index)

theorem handing (h : Tells capacity s d) {use : Buffer → Answer × Custody}
    {use' : Buffer → Answer × Lines}
    (known : ∀ b, d.hands[k]? = some b →
      (use b).1 = (use' b).1 ∧ Tells capacity (use b).2 (use' b).2) :
    (s.handing k use).1 = (d.handing k use').1 ∧
      Tells capacity (s.handing k use).2 (d.handing k use').2 := by
  rw [Custody.handing, Lines.handing, h.hands]
  cases found : d.hands[k]? with
  | none => exact ⟨rfl, h⟩
  | some b => exact known b found

theorem pushBack (h : Tells capacity s d) (p : Protocol) (k : Nat) :
    (s.apply (.pushBack p k)).1 = (d.apply (.pushBack p k)).1 ∧
      Tells capacity (s.apply (.pushBack p k)).2 (d.apply (.pushBack p k)).2 := by
  refine h.handing fun b found => ?_
  obtain ⟨bound, fresh⟩ := h.free (List.mem_of_getElem? found)
  have linked := h.sound.pushBack? p bound (fresh p)
  rw [h.entries] at linked
  exact h.pushed found (List.perm_append_singleton b _) linked

theorem pushFront (h : Tells capacity s d) (p : Protocol) (k : Nat) :
    (s.apply (.pushFront p k)).1 = (d.apply (.pushFront p k)).1 ∧
      Tells capacity (s.apply (.pushFront p k)).2 (d.apply (.pushFront p k)).2 := by
  refine h.handing fun b found => ?_
  obtain ⟨bound, fresh⟩ := h.free (List.mem_of_getElem? found)
  have linked := h.sound.pushFront? p bound (fresh p)
  rw [h.entries] at linked
  exact h.pushed found (.refl _) linked

theorem loses (h : Tells capacity s d) {before after : List Buffer}
    (split : d.line p = before ++ b :: after)
    (step : s.queues.Becomes capacity p (before ++ after) q') :
    Tells capacity ⟨q', b :: s.hands⟩
      { d.setLine p (before ++ after) with hands := b :: d.hands } := by
  have moved : (before ++ after ++ b :: d.hands).Perm (d.line p ++ d.hands) := by
    rw [split]
    have middle : (b :: (before ++ after)).Perm (before ++ b :: after) := List.perm_middle.symm
    exact List.perm_middle.trans (middle.append_right d.hands)
  rw [h.hands]
  exact h.becomes step (by simpa [indices] using moved.map Buffer.index)

/-! ## Fronts -/

theorem sheds (h : Tells capacity s d) (split : d.line p = b :: bs)
    (step : s.queues.Becomes capacity p bs q') :
    Tells capacity ⟨q', b :: s.hands⟩ { d.setLine p bs with hands := b :: d.hands } :=
  h.loses (show d.line p = [] ++ b :: bs from split) step

theorem pop?_nil (h : Tells capacity s d) (line : d.line p = []) : s.queues.pop? p = none := by
  have holds := h.sound.holds p
  rw [h.entries, line] at holds
  rw [ProtocolQueues.pop?, holds.popFront?_nil, Option.map_none]

theorem pop?_cons (h : Tells capacity s d) (line : d.line p = b :: bs) :
    ∃ q', s.queues.pop? p = some (b, q') ∧ s.queues.Becomes capacity p bs q' := by
  have holds := h.sound.holds p
  rw [h.entries, line] at holds
  obtain ⟨queue, popped, rest, cap⟩ := holds.popFront?
  exact ⟨_, by rw [ProtocolQueues.pop?, popped]; rfl, becomes_setQueue h.sound p rest cap⟩

theorem pop (h : Tells capacity s d) (p : Protocol) :
    (s.apply (.pop p)).1 = (d.apply (.pop p)).1 ∧
      Tells capacity (s.apply (.pop p)).2 (d.apply (.pop p)).2 := by
  cases line : d.line p with
  | nil => simp [Custody.apply, Lines.apply, h.pop?_nil line, line, h]
  | cons b rest =>
      obtain ⟨q', popped, step⟩ := h.pop?_cons line
      simp only [Custody.apply, Lines.apply, popped, line]
      exact ⟨trivial, h.sheds line step⟩

theorem isEmpty_queue (h : Tells capacity s d) (p : Protocol) :
    (s.queues.queue p).isEmpty = (d.line p).isEmpty := by
  rw [BufferQueue.isEmpty, (h.sound.holds p).length, h.entries]
  cases d.line p <;> rfl

theorem peek?_eq (h : Tells capacity s d) (order : List Protocol) :
    s.queues.peek? order = order.find? fun p => !(d.line p).isEmpty := by
  simp only [ProtocolQueues.peek?, h.isEmpty_queue]

theorem line_of_peek? (h : Tells capacity s d) {order : List Protocol}
    (found : s.queues.peek? order = some p) : ∃ b bs, d.line p = b :: bs := by
  rw [h.peek?_eq] at found
  have waits := List.find?_some found
  cases line : d.line p with
  | nil => simp [line] at waits
  | cons b bs => exact ⟨b, bs, rfl⟩

theorem peek (h : Tells capacity s d) (order : List Protocol) :
    (s.apply (.peek order)).1 = (d.apply (.peek order)).1 := by
  simp only [Custody.apply, Lines.apply, Lines.first?_eq, ← h.peek?_eq]
  cases found : s.queues.peek? order with
  | none => rfl
  | some p =>
      obtain ⟨b, bs, line⟩ := h.line_of_peek? found
      simp [line]

theorem next (h : Tells capacity s d) (order : List Protocol) :
    (s.apply (.next order)).1 = (d.apply (.next order)).1 ∧
      Tells capacity (s.apply (.next order)).2 (d.apply (.next order)).2 := by
  simp only [Custody.apply, Lines.apply, ProtocolQueues.next?, Lines.first?_eq, ← h.peek?_eq]
  cases found : s.queues.peek? order with
  | none => exact ⟨rfl, h⟩
  | some p =>
      obtain ⟨b, rest, line⟩ := h.line_of_peek? found
      obtain ⟨q', popped, step⟩ := h.pop?_cons line
      simp only [Option.bind_some, popped, Option.map_some, line, List.head?_cons, List.tail_cons]
      exact ⟨rfl, h.sheds line step⟩

/-! ## Any place -/

theorem find?_all (h : Tells capacity s d) (hb : b ∈ d.line p) :
    d.all.find? (·.2.index == b.index) = some (p, b) := by
  have isSome : (d.all.find? (·.2.index == b.index)).isSome :=
    List.find?_isSome.mpr ⟨(p, b), Lines.mem_all.mpr hb, by simp⟩
  obtain ⟨⟨p', b'⟩, found⟩ := Option.isSome_iff_exists.mp isSome
  have there : b' ∈ d.line p' := Lines.mem_all.mp (List.mem_of_find?_eq_some found)
  have same : b'.index = b.index := by simpa using List.find?_some found
  obtain ⟨rfl, rfl⟩ := h.unique there hb same
  exact found

theorem filter_lines (h : Tells capacity s d) {before after : List Buffer}
    (split : d.line p = before ++ b :: after) :
    (fun other => (d.line other).filter (·.index != b.index)) =
      Function.update d.line p (before ++ after) := by
  have here : b ∈ d.line p := split ▸ List.mem_append_right _ List.mem_cons_self
  funext other
  rw [Function.update_apply]
  split
  · rename_i same
    subst same
    have distinct := (h.sound.holds other).distinct
    rw [h.entries, split, indices, List.map_append, List.map_cons, List.nodup_middle,
      List.nodup_cons, List.mem_append, not_or] at distinct
    obtain ⟨⟨ahead, behind⟩, -⟩ := distinct
    rw [split, List.filter_append, List.filter_cons, BufferQueue.filter_absent ahead,
      BufferQueue.filter_absent behind]
    simp
  · rename_i ne
    refine BufferQueue.filter_absent fun there => ne ?_
    obtain ⟨c, hc, same⟩ := List.mem_map.mp there
    exact (h.unique hc here same).1

theorem not_mem_all_iff (h : Tells capacity s d) :
    i ∉ indices s.queues.everything ↔ d.all.find? (·.2.index == i) = none := by
  rw [h.everything, List.find?_eq_none]
  simp [indices]

theorem remove (h : Tells capacity s d) (i : Nat) :
    (s.apply (.remove i)).1 = (d.apply (.remove i)).1 ∧
      Tells capacity (s.apply (.remove i)).2 (d.apply (.remove i)).2 := by
  simp only [Custody.apply, Lines.apply]
  cases removed : s.queues.remove? i with
  | none =>
      have unknown := h.not_mem_all_iff.mp (h.sound.remove?_eq_none_iff.mp removed)
      rw [unknown]
      exact ⟨rfl, h⟩
  | some found =>
      obtain ⟨p, b, q'⟩ := found
      obtain ⟨before, after, split, rfl, step⟩ := h.sound.remove? removed
      rw [h.entries] at split
      have here : b ∈ d.line p := split ▸ List.mem_append_right _ List.mem_cons_self
      rw [h.find?_all here]
      refine ⟨rfl, ?_⟩
      rw [h.filter_lines split]
      exact h.loses split step

theorem contains (h : Tells capacity s d) (i : Nat) :
    s.queues.contains i = d.all.any (·.2.index == i) := by
  rw [Bool.eq_iff_iff, ProtocolQueues.contains, List.any_eq_true, List.any_eq_true]
  constructor
  · rintro ⟨p, -, known⟩
    have mem := ((h.sound.holds p).contains_iff i).mp known
    rw [h.entries] at mem
    obtain ⟨b, hb, rfl⟩ := List.mem_map.mp mem
    exact ⟨(p, b), Lines.mem_all.mpr hb, beq_self_eq_true _⟩
  · rintro ⟨⟨p, b⟩, here, same⟩
    refine ⟨p, Protocol.mem_all p, ((h.sound.holds p).contains_iff i).mpr ?_⟩
    rw [h.entries, ← eq_of_beq same]
    exact List.mem_map_of_mem (Lines.mem_all.mp here)

/-! ## All places -/

theorem drain (h : Tells capacity s d) :
    (s.apply .drain).1 = (d.apply .drain).1 ∧
      Tells capacity (s.apply .drain).2 (d.apply .drain).2 := by
  obtain ⟨-, sound, emptied⟩ := h.sound.drain
  have found : s.queues.drain.1 = d.all := by
    simp only [ProtocolQueues.drain, Lines.all, ← h.entries]
    congr 1
    funext p
    rw [(h.sound.holds p).drain.1]
  have entries : s.queues.drain.2.entries = fun _ => [] := by
    funext p
    refine List.eq_nil_iff_forall_not_mem.mpr fun b hb => ?_
    have mem := mem_everything.mpr ⟨p, hb⟩
    rw [emptied] at mem
    cases mem
  refine ⟨congrArg Answer.drained found, sound, entries, ?_, ?_⟩
  · show s.queues.drain.1.map Prod.snd ++ s.hands = d.all.map Prod.snd ++ d.hands
    rw [found, h.hands]
  · have none : (d.apply .drain).2.all = [] := Lines.all_eq_nil_iff.mpr fun _ => rfl
    rw [none]
    simpa [Lines.apply, indices] using h.once

theorem length (h : Tells capacity s d) (p : Protocol) :
    s.queues.length p = (d.line p).length := by
  rw [ProtocolQueues.length, (h.sound.holds p).length, h.entries]

theorem totalLength (h : Tells capacity s d) : s.queues.totalLength = d.all.length := by
  simp [ProtocolQueues.totalLength, h.length, Lines.all, Protocol.all, Nat.add_assoc]

theorem isEmpty (h : Tells capacity s d) : s.queues.isEmpty = d.all.isEmpty := by
  rw [Bool.eq_iff_iff, List.isEmpty_iff, Lines.all_eq_nil_iff, ProtocolQueues.isEmpty,
    List.all_eq_true]
  simp [h.isEmpty_queue, Protocol.mem_all]

theorem rewrite (h : Tells capacity s d) (k : Nat) (bytes : Bytes) (length : Nat)
    (callback : Option Nat) :
    (s.apply (.rewrite k bytes length callback)).1 =
        (d.apply (.rewrite k bytes length callback)).1 ∧
      Tells capacity (s.apply (.rewrite k bytes length callback)).2
        (d.apply (.rewrite k bytes length callback)).2 := by
  refine h.handing fun b found => ?_
  obtain ⟨bound, rfl⟩ := List.getElem?_eq_some_iff.mp found
  have same : indices (d.hands.set k (d.hands[k].rewrite bytes length callback)) =
      indices d.hands := by
    rw [indices, List.map_set, Buffer.rewrite_index, ← List.map_set, List.set_getElem_self]
  refine ⟨rfl, h.sound, h.entries, congrArg (fun hands => List.set hands k _) h.hands, ?_⟩
  show (indices (List.map Prod.snd d.all) ++ indices (d.hands.set k _)).Perm _
  rw [same]
  exact h.once

/-! ## Any calls -/

theorem apply (h : Tells capacity s d) (op : Operation) :
    (s.apply op).1 = (d.apply op).1 ∧ Tells capacity (s.apply op).2 (d.apply op).2 := by
  cases op with
  | pushBack p k => exact h.pushBack p k
  | pushFront p k => exact h.pushFront p k
  | pop p => exact h.pop p
  | next order => exact h.next order
  | remove i => exact h.remove i
  | contains i => exact ⟨congrArg Answer.member (h.contains i), h⟩
  | peek order => exact ⟨h.peek order, h⟩
  | drain => exact h.drain
  | length p => exact ⟨congrArg Answer.count (h.length p), h⟩
  | totalLength => exact ⟨congrArg Answer.count h.totalLength, h⟩
  | isEmpty => exact ⟨congrArg Answer.member h.isEmpty, h⟩
  | rewrite k bytes length callback => exact h.rewrite k bytes length callback

theorem run (h : Tells capacity s d) (ops : List Operation) :
    (s.run ops).1 = (d.run ops).1 ∧ Tells capacity (s.run ops).2 (d.run ops).2 := by
  induction ops generalizing s d with
  | nil => exact ⟨rfl, h⟩
  | cons op ops ih =>
      obtain ⟨answer, step⟩ := h.apply op
      obtain ⟨answers, rest⟩ := ih step
      exact ⟨congrArg₂ _ answer answers, rest⟩

theorem accepts (h : Tells capacity s d) (hb : b ∈ d.hands) (p : Protocol) :
    (s.queues.pushBack? p b).isSome ∧ (s.queues.pushFront? p b).isSome := by
  obtain ⟨bound, fresh⟩ := h.free hb
  obtain ⟨_, behind, -⟩ := h.sound.pushBack? p bound (fresh p)
  obtain ⟨_, ahead, -⟩ := h.sound.pushFront? p bound (fresh p)
  exact ⟨behind ▸ rfl, ahead ▸ rfl⟩

theorem next?_eq_none_iff (h : Tells capacity s d) (order : List Protocol) :
    s.queues.next? order = none ↔ ∀ p ∈ order, d.line p = [] := by
  cases found : s.queues.peek? order with
  | none =>
      have vacant := found
      rw [h.peek?_eq, List.find?_eq_none] at vacant
      simpa [ProtocolQueues.next?, found] using vacant
  | some p =>
      obtain ⟨b, bs, line⟩ := h.line_of_peek? found
      obtain ⟨q', popped, -⟩ := h.pop?_cons line
      have listed := List.mem_of_find?_eq_some ((h.peek?_eq order).symm.trans found)
      refine ⟨fun none => ?_, fun vacant => ?_⟩
      · simp [ProtocolQueues.next?, found, popped] at none
      · rw [vacant p listed] at line
        cases line

theorem spells (h : Tells capacity s d) (p : Protocol) :
    (s.queues.queue p).Spells capacity (d.line p) := by
  have spells := (h.sound.holds p).spells
  rwa [h.entries, h.sound.capacity] at spells

end Tells

theorem tells_start (id capacity bufferSize : Nat) :
    Tells capacity (.start id capacity bufferSize) (.start id capacity bufferSize) where
  sound := sound_empty capacity
  entries := funext (entries_empty capacity)
  hands := rfl
  once := by
    have none : (Lines.start id capacity bufferSize).all = [] :=
      Lines.all_eq_nil_iff.mpr fun _ => rfl
    rw [none]
    simp [Lines.start, indices, Buffer.fresh, Function.comp_def]

/-- Whatever is done with the buffers of a pool, the queues answer as one list for each protocol
does, and they are these lists in the end. -/
theorem run_deques (id capacity bufferSize : Nat) (ops : List Operation) :
    let ran := (Custody.start id capacity bufferSize).run ops
    let listed := (Lines.start id capacity bufferSize).run ops
    let s := ran.2
    let d := listed.2
    ran.1 = listed.1 ∧ s.hands = d.hands ∧
    (∀ p, (s.queues.queue p).Spells capacity (d.line p)) ∧
    (indices (d.all.map Prod.snd) ++ indices d.hands).Perm (List.range capacity) ∧
    (∀ b ∈ d.hands, ∀ p, (s.queues.pushBack? p b).isSome ∧ (s.queues.pushFront? p b).isSome) ∧
    (∀ order, s.queues.next? order = none ↔ ∀ p ∈ order, d.line p = []) ∧
    (∀ p, s.queues.length p = (d.line p).length) ∧
    s.queues.totalLength = (Protocol.all.flatMap d.line).length ∧
    (s.queues.isEmpty = true ↔ ∀ p, d.line p = []) ∧
    Protocol.all.Pairwise fun p q => p.toByte < q.toByte := by
  obtain ⟨answers, tells⟩ := (tells_start id capacity bufferSize).run ops
  refine ⟨answers, tells.hands, tells.spells, tells.once, fun b hb => tells.accepts hb,
    tells.next?_eq_none_iff, tells.length, ?_, ?_, Protocol.all_sorted⟩
  · rw [tells.totalLength, ← Tells.snd_all, List.length_map]
  · rw [tells.isEmpty, List.isEmpty_iff, Lines.all_eq_nil_iff]

end ProtocolQueues

end Fieldbus
