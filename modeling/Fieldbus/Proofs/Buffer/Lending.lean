import Fieldbus.Proofs.Buffer.Pool
import Mathlib.Data.List.Perm.Basic
import Mathlib.Logic.Function.Basic

/-!
# Lending buffers

The callers of a pool take buffers, write to them and give them back in any order, and among them
buffers of other pools. They are answered as by a double-ended queue of indices that knows which
bytes each buffer came back with.
-/

namespace Fieldbus

def Buffer.rewrite (b : Buffer) (bytes : Bytes) (length : Nat) (callback : Option Nat) : Buffer :=
  { b with bytes := bytes.take b.capacity ++ b.bytes.drop bytes.length, callback }.withLength length

@[simp] theorem Buffer.rewrite_index (b : Buffer) (bytes : Bytes) (length : Nat)
    (callback : Option Nat) : (b.rewrite bytes length callback).index = b.index := rfl

@[simp] theorem Buffer.rewrite_pool (b : Buffer) (bytes : Bytes) (length : Nat)
    (callback : Option Nat) : (b.rewrite bytes length callback).pool = b.pool := rfl

namespace Pool

open BufferQueue (indices)

theorem offer_owned {p : Pool} {b : Buffer} (own : p.owns b = true) :
    p.offer b = (.accepted, p.put b) := by
  unfold put offer giveBack
  rw [if_pos own]
  split
  · rfl
  · split <;> rfl

/-- A pool, and what its callers hold: buffers of the pool and of others. -/
structure Lending where
  pool : Pool
  hands : List Buffer
  deriving DecidableEq, Repr

inductive Operation where
  | take
  | remove (index : Nat)
  | peek
  | available
  /-- The buffer at place `k` of those in hand goes to the pool. -/
  | put (k : Nat)
  | putFront (k : Nat)
  | offer (k : Nat)
  | rewrite (k : Nat) (bytes : Bytes) (length : Nat) (callback : Option Nat)
  | bring (b : Buffer)
  deriving DecidableEq, Repr

inductive Answer where
  | lent (b : Buffer)
  | failed (error : Error)
  | index (i : Nat)
  | count (n : Nat)
  | done
  | refused (b : Buffer)
  | nothing
  deriving DecidableEq, Repr

/-! ## The same calls on a pool and on a queue of indices -/

namespace Lending

def start (id capacity bufferSize : Nat) : Lending := ⟨openWith id capacity bufferSize, []⟩

def handing (s : Lending) (k : Nat) (give : Buffer → Answer × Lending) : Answer × Lending :=
  match s.hands[k]? with
  | none => (.nothing, s)
  | some b => give b

def apply (s : Lending) : Operation → Answer × Lending
  | .take =>
      match s.pool.take? with
      | .error e => (.failed e, s)
      | .ok (b, pool) => (.lent b, ⟨pool, b :: s.hands⟩)
  | .remove i =>
      match s.pool.remove? i with
      | none => (.nothing, s)
      | some (b, pool) => (.lent b, ⟨pool, b :: s.hands⟩)
  | .peek =>
      match s.pool.peek? with
      | .error e => (.failed e, s)
      | .ok i => (.index i, s)
  | .available => (.count s.pool.available, s)
  | .put k => s.handing k fun b => (.done, ⟨s.pool.put b, s.hands.eraseIdx k⟩)
  | .putFront k => s.handing k fun b => (.done, ⟨s.pool.putFront b, s.hands.eraseIdx k⟩)
  | .offer k => s.handing k fun b =>
      match s.pool.offer b with
      | (.accepted, pool) => (.done, ⟨pool, s.hands.eraseIdx k⟩)
      | (.refused b, pool) => (.refused b, ⟨pool, s.hands.set k b⟩)
  | .rewrite k bytes length callback => s.handing k fun b =>
      (.done, { s with hands := s.hands.set k (b.rewrite bytes length callback) })
  | .bring b => if s.pool.owns b then (.nothing, s) else (.done, { s with hands := b :: s.hands })

def run (s : Lending) : List Operation → List Answer × Lending
  | [] => ([], s)
  | op :: ops =>
      let (answer, s) := s.apply op
      let (answers, s) := s.run ops
      (answer :: answers, s)

end Lending

/-- The free buffers of a pool as a double-ended queue of their indices. -/
structure Deque where
  free : List Nat
  /-- The bytes that each buffer came back with. -/
  left : Nat → Bytes
  hands : List Buffer

namespace Deque

def start (capacity bufferSize : Nat) : Deque :=
  ⟨List.range capacity, fun _ => Bytes.zeros bufferSize, []⟩

def buffer (d : Deque) (id i : Nat) : Buffer := ⟨id, i, d.left i, 0, none⟩

def held (d : Deque) (id : Nat) : List Buffer := d.hands.filter (·.pool == id)

def grant (d : Deque) (id i : Nat) (free : List Nat) : Answer × Deque :=
  (.lent (d.buffer id i), { d with free, hands := d.buffer id i :: d.hands })

def release (d : Deque) (k : Nat) : Deque := { d with hands := d.hands.eraseIdx k }

def settle (d : Deque) (k : Nat) (b : Buffer) (free : List Nat) : Deque :=
  { d.release k with free, left := Function.update d.left b.index b.bytes }

def handing (d : Deque) (k : Nat) (give : Buffer → Answer × Deque) : Answer × Deque :=
  match d.hands[k]? with
  | none => (.nothing, d)
  | some b => give b

def apply (id : Nat) (d : Deque) : Operation → Answer × Deque
  | .take =>
      match d.free with
      | [] => (.failed (.exhausted .poolBuffers), d)
      | i :: free => d.grant id i free
  | .remove i => if i ∈ d.free then d.grant id i (d.free.erase i) else (.nothing, d)
  | .peek =>
      match d.free with
      | [] => (.failed .empty, d)
      | i :: _ => (.index i, d)
  | .available => (.count d.free.length, d)
  | .put k => d.handing k fun b =>
      (.done, if b.pool = id then d.settle k b (d.free ++ [b.index]) else d.release k)
  | .putFront k => d.handing k fun b =>
      (.done, if b.pool = id then d.settle k b (b.index :: d.free) else d.release k)
  | .offer k => d.handing k fun b =>
      if b.pool = id then (.done, d.settle k b (d.free ++ [b.index])) else (.refused b, d)
  | .rewrite k bytes length callback => d.handing k fun b =>
      (.done, { d with hands := d.hands.set k (b.rewrite bytes length callback) })
  | .bring b => if b.pool = id then (.nothing, d) else (.done, { d with hands := b :: d.hands })

def run (id : Nat) (d : Deque) : List Operation → List Answer × Deque
  | [] => ([], d)
  | op :: ops =>
      let (answer, d) := d.apply id op
      let (answers, d) := d.run id ops
      (answer :: answers, d)

end Deque

/-- The pool and its callers stand as the queue says. -/
structure Mirrors (id capacity : Nat) (s : Lending) (d : Deque) : Prop where
  owner : s.pool.id = id
  places : s.pool.capacity = capacity
  hands : s.hands = d.hands
  idle : s.pool.idle = d.free.map (d.buffer id)
  lends : s.pool.Lends (d.held id)

namespace Mirrors

variable {id capacity i k : Nat} {s : Lending} {d : Deque} {b : Buffer} {p : Pool}
  {free : List Nat}

theorem indices_idle (h : Mirrors id capacity s d) : indices s.pool.idle = d.free := by
  rw [h.idle, indices, List.map_map]
  exact List.map_id d.free

theorem nodup_free (h : Mirrors id capacity s d) : d.free.Nodup := by
  rw [← h.indices_idle]
  exact h.lends.sound.holds.distinct

/-! ## What leaves the pool -/

theorem grant (h : Mirrors id capacity s d) (sound : p.Sound)
    (idle : p.idle = free.map (d.buffer id)) (split : d.free.Perm (i :: free))
    (owner : p.id = s.pool.id) (places : p.capacity = s.pool.capacity)
    (closed : p.closed = s.pool.closed) :
    Mirrors id capacity ⟨p, d.buffer id i :: s.hands⟩ (d.grant id i free).2 := by
  have held : (d.grant id i free).2.held id = d.buffer id i :: d.held id := by
    simp [Deque.grant, Deque.held, Deque.buffer]
  constructor
  case owner => exact owner.trans h.owner
  case places => exact places.trans h.places
  case hands => rw [Deque.grant, h.hands]
  case idle => exact idle
  case lends =>
    rw [held]
    refine h.lends.lend sound ?_ owner places closed
    rw [h.idle, idle]
    exact split.map _

theorem take (h : Mirrors id capacity s d) :
    (s.apply .take).1 = (d.apply id .take).1 ∧
      Mirrors id capacity (s.apply .take).2 (d.apply id .take).2 := by
  have idle := h.idle
  cases free : d.free with
  | nil =>
      rw [free, List.map_nil] at idle
      have nothing := (idle ▸ h.lends.sound.holds).popFront?_nil
      simp [Lending.apply, Deque.apply, take?, nothing, free, h]
  | cons i rest =>
      rw [free, List.map_cons] at idle
      obtain ⟨p, taken⟩ := h.lends.sound.take?_ok h.lends.opened idle
      obtain ⟨sound, left, owner, places, closed⟩ := h.lends.sound.take? taken
      rw [idle, List.cons.injEq] at left
      simp only [Lending.apply, Deque.apply, taken, free]
      exact ⟨rfl, h.grant sound left.2.symm (.of_eq free) owner places closed⟩

theorem remove (h : Mirrors id capacity s d) (i : Nat) :
    (s.apply (.remove i)).1 = (d.apply id (.remove i)).1 ∧
      Mirrors id capacity (s.apply (.remove i)).2 (d.apply id (.remove i)).2 := by
  by_cases known : i ∈ d.free
  · obtain ⟨before, after, split⟩ := List.append_of_mem known
    have ahead : i ∉ before := by
      have distinct := h.nodup_free
      rw [split, List.nodup_middle, List.nodup_cons, List.mem_append, not_or] at distinct
      exact distinct.1.1
    have rest : d.free.erase i = before ++ after := by
      rw [split, List.erase_append_right _ ahead, List.erase_cons_head]
    have idle := h.idle
    rw [split, List.map_append, List.map_cons] at idle
    obtain ⟨p, removed, sound, left, owner, places, closed⟩ := h.lends.sound.remove? _ _ idle
    have removed : s.pool.remove? i = some (d.buffer id i, p) := removed
    rw [← List.map_append] at left
    simp only [Lending.apply, Deque.apply, removed, known, if_true, rest]
    exact ⟨rfl, h.grant sound left (split ▸ List.perm_middle) owner places closed⟩
  · have nothing := h.lends.sound.remove?_eq_none (h.indices_idle ▸ known)
    simp [Lending.apply, Deque.apply, nothing, known, h]

theorem peek (h : Mirrors id capacity s d) :
    (s.apply .peek).1 = (d.apply id .peek).1 ∧
      Mirrors id capacity (s.apply .peek).2 (d.apply id .peek).2 := by
  have front := h.lends.sound.holds.front?
  rw [h.idle, List.head?_map] at front
  cases free : d.free with
  | nil => simp [Lending.apply, Deque.apply, peek?, front, free, h]
  | cons i rest => simp [Lending.apply, Deque.apply, peek?, front, free, h, Deque.buffer]

theorem available (h : Mirrors id capacity s d) : s.pool.available = d.free.length := by
  rw [h.lends.sound.available, h.idle, List.length_map]

/-! ## What comes back -/

theorem held_perm (found : d.hands[k]? = some b) (own : b.pool = id) :
    (d.held id).Perm (b :: (d.release k).held id) := by
  obtain ⟨bound, rfl⟩ := List.getElem?_eq_some_iff.mp found
  have split := (List.getElem_cons_eraseIdx_perm bound).symm
  have kept := split.filter (·.pool == id)
  rwa [List.filter_cons_of_pos (by simpa using own)] at kept

theorem held_release (found : d.hands[k]? = some b) (foreign : b.pool ≠ id) :
    ((d.release k).held id).Perm (d.held id) := by
  obtain ⟨bound, rfl⟩ := List.getElem?_eq_some_iff.mp found
  have split := List.getElem_cons_eraseIdx_perm bound
  have kept := split.filter (·.pool == id)
  rwa [List.filter_cons_of_neg (by simpa using foreign)] at kept

theorem lends_cons (h : Mirrors id capacity s d) (found : d.hands[k]? = some b)
    (own : b.pool = id) : s.pool.Lends (b :: (d.release k).held id) :=
  h.lends.perm (held_perm found own).symm

theorem settle (h : Mirrors id capacity s d) (found : d.hands[k]? = some b) (own : b.pool = id)
    (sound : p.Sound) (idle : p.idle = free.map ((d.settle k b free).buffer id))
    (grown : p.idle.Perm (b.retire :: s.pool.idle)) (owner : p.id = s.pool.id)
    (places : p.capacity = s.pool.capacity) (closed : p.closed = s.pool.closed) :
    Mirrors id capacity ⟨p, s.hands.eraseIdx k⟩ (d.settle k b free) where
  owner := owner.trans h.owner
  places := places.trans h.places
  hands := by rw [h.hands, Deque.settle, Deque.release]
  idle := idle
  lends := (h.lends_cons found own).settle sound grown owner places closed

theorem buffer_settle (d : Deque) (k : Nat) (free : List Nat) (own : b.pool = id) :
    (d.settle k b free).buffer id b.index = b.retire := by
  simp [Deque.buffer, Deque.settle, Buffer.retire, own]

theorem map_buffer_settle (h : Mirrors id capacity s d) (found : d.hands[k]? = some b)
    (own : b.pool = id) (free : List Nat) :
    d.free.map ((d.settle k b free).buffer id) = s.pool.idle := by
  rw [h.idle, List.map_inj_left]
  intro i known
  have other : i ≠ b.index := by
    rintro rfl
    exact (h.lends_cons found own).not_mem_idle (h.indices_idle ▸ known)
  simp [Deque.buffer, Deque.settle, Deque.release, other]

theorem put_own (h : Mirrors id capacity s d) (found : d.hands[k]? = some b)
    (own : b.pool = id) :
    Mirrors id capacity ⟨s.pool.put b, s.hands.eraseIdx k⟩
      (d.settle k b (d.free ++ [b.index])) := by
  have lent := h.lends_cons found own
  obtain ⟨sound, idle, owner, places, closed⟩ := h.lends.sound.put h.lends.opened
    (own.trans h.owner.symm) lent.bound lent.not_mem_idle
  refine h.settle found own sound ?_ ?_ owner places closed
  · rw [idle, List.map_append, h.map_buffer_settle found own, List.map_singleton,
      buffer_settle d k _ own]
  · rw [idle]
    exact List.perm_append_singleton _ _

theorem putFront_own (h : Mirrors id capacity s d) (found : d.hands[k]? = some b)
    (own : b.pool = id) :
    Mirrors id capacity ⟨s.pool.putFront b, s.hands.eraseIdx k⟩
      (d.settle k b (b.index :: d.free)) := by
  have lent := h.lends_cons found own
  obtain ⟨sound, idle, owner, places, closed⟩ := h.lends.sound.putFront h.lends.opened
    (own.trans h.owner.symm) lent.bound lent.not_mem_idle
  refine h.settle found own sound ?_ (.of_eq idle) owner places closed
  rw [idle, List.map_cons, h.map_buffer_settle found own, buffer_settle d k _ own]

theorem release (h : Mirrors id capacity s d) (found : d.hands[k]? = some b)
    (foreign : b.pool ≠ id) :
    Mirrors id capacity ⟨s.pool, s.hands.eraseIdx k⟩ (d.release k) where
  owner := h.owner
  places := h.places
  hands := by rw [h.hands, Deque.release]
  idle := h.idle
  lends := h.lends.perm (held_release found foreign)

theorem giveBack_foreign (h : Mirrors id capacity s d) (foreign : b.pool ≠ id)
    (push : BufferQueue → Buffer → Option BufferQueue) :
    s.pool.giveBack push b = (.refused b, s.pool) := by
  simp [giveBack, owns, h.owner, foreign]

theorem put (h : Mirrors id capacity s d) (k : Nat) :
    (s.apply (.put k)).1 = (d.apply id (.put k)).1 ∧
      Mirrors id capacity (s.apply (.put k)).2 (d.apply id (.put k)).2 := by
  simp only [Lending.apply, Deque.apply, Lending.handing, Deque.handing, h.hands]
  cases found : d.hands[k]? with
  | none => exact ⟨rfl, h⟩
  | some b =>
      refine ⟨rfl, ?_⟩
      rw [← h.hands]
      by_cases own : b.pool = id
      · simpa [own] using h.put_own found own
      · simpa [own, Pool.put, offer, h.giveBack_foreign own] using h.release found own

theorem putFront (h : Mirrors id capacity s d) (k : Nat) :
    (s.apply (.putFront k)).1 = (d.apply id (.putFront k)).1 ∧
      Mirrors id capacity (s.apply (.putFront k)).2 (d.apply id (.putFront k)).2 := by
  simp only [Lending.apply, Deque.apply, Lending.handing, Deque.handing, h.hands]
  cases found : d.hands[k]? with
  | none => exact ⟨rfl, h⟩
  | some b =>
      refine ⟨rfl, ?_⟩
      rw [← h.hands]
      by_cases own : b.pool = id
      · simpa [own] using h.putFront_own found own
      · simpa [own, Pool.putFront, h.giveBack_foreign own] using h.release found own

theorem offer (h : Mirrors id capacity s d) (k : Nat) :
    (s.apply (.offer k)).1 = (d.apply id (.offer k)).1 ∧
      Mirrors id capacity (s.apply (.offer k)).2 (d.apply id (.offer k)).2 := by
  simp only [Lending.apply, Deque.apply, Lending.handing, Deque.handing, h.hands]
  cases found : d.hands[k]? with
  | none => exact ⟨rfl, h⟩
  | some b =>
      by_cases own : b.pool = id
      · have taken : s.pool.offer b = (.accepted, s.pool.put b) :=
          offer_owned (by simp [owns, h.owner, own])
        have kept := h.put_own found own
        rw [h.hands] at kept
        simpa [taken, own] using kept
      · have back : s.pool.offer b = (.refused b, s.pool) := h.giveBack_foreign own _
        have same : d.hands.set k b = d.hands := by
          obtain ⟨bound, rfl⟩ := List.getElem?_eq_some_iff.mp found
          exact List.set_getElem_self bound
        have kept : Mirrors id capacity ⟨s.pool, d.hands⟩ d := h.hands ▸ h
        simpa [back, own, same] using kept

/-! ## What the holders do -/

theorem held_set (found : d.hands[k]? = some b) {c : Buffer} (index : c.index = b.index)
    (owner : c.pool = b.pool) :
    (indices (Deque.held ⟨d.free, d.left, d.hands.set k c⟩ id)).Perm (indices (d.held id)) := by
  obtain ⟨bound, rfl⟩ := List.getElem?_eq_some_iff.mp found
  have before := (List.getElem_cons_eraseIdx_perm bound).symm.filter (·.pool == id)
  have after := (List.set_perm_cons_eraseIdx bound c).filter (·.pool == id)
  have same : ((c :: d.hands.eraseIdx k).filter (·.pool == id)).map Buffer.index =
      ((d.hands[k] :: d.hands.eraseIdx k).filter (·.pool == id)).map Buffer.index := by
    by_cases own : d.hands[k].pool = id <;> simp [owner, own, index]
  exact ((after.map Buffer.index).trans (.of_eq same)).trans (before.map Buffer.index).symm

theorem rewrite (h : Mirrors id capacity s d) (k : Nat) (bytes : Bytes) (length : Nat)
    (callback : Option Nat) :
    (s.apply (.rewrite k bytes length callback)).1 =
        (d.apply id (.rewrite k bytes length callback)).1 ∧
      Mirrors id capacity (s.apply (.rewrite k bytes length callback)).2
        (d.apply id (.rewrite k bytes length callback)).2 := by
  simp only [Lending.apply, Deque.apply, Lending.handing, Deque.handing, h.hands]
  cases found : d.hands[k]? with
  | none => exact ⟨rfl, h⟩
  | some b =>
      refine ⟨rfl, h.owner, h.places, rfl, h.idle, ?_⟩
      refine h.lends.regrip (held_set found (by simp) (by simp)) fun c hc => ?_
      exact (by simpa using (List.mem_filter.mp hc).2 : c.pool = id).trans h.owner.symm

theorem bring (h : Mirrors id capacity s d) (b : Buffer) :
    (s.apply (.bring b)).1 = (d.apply id (.bring b)).1 ∧
      Mirrors id capacity (s.apply (.bring b)).2 (d.apply id (.bring b)).2 := by
  by_cases own : b.pool = id
  · simp [Lending.apply, Deque.apply, owns, h.owner, own, h]
  · have held : (⟨d.free, d.left, b :: d.hands⟩ : Deque).held id = d.held id := by
      simp [Deque.held, own]
    have kept : Mirrors id capacity ⟨s.pool, b :: s.hands⟩ ⟨d.free, d.left, b :: d.hands⟩ :=
      ⟨h.owner, h.places, by rw [h.hands], h.idle, held ▸ h.lends⟩
    simpa [Lending.apply, Deque.apply, owns, h.owner, own] using kept

/-! ## Any calls -/

theorem apply (h : Mirrors id capacity s d) (op : Operation) :
    (s.apply op).1 = (d.apply id op).1 ∧
      Mirrors id capacity (s.apply op).2 (d.apply id op).2 := by
  cases op with
  | take => exact h.take
  | remove i => exact h.remove i
  | peek => exact h.peek
  | available => exact ⟨congrArg Answer.count h.available, h⟩
  | put k => exact h.put k
  | putFront k => exact h.putFront k
  | offer k => exact h.offer k
  | rewrite k bytes length callback => exact h.rewrite k bytes length callback
  | bring b => exact h.bring b

theorem run (h : Mirrors id capacity s d) (ops : List Operation) :
    (s.run ops).1 = (d.run id ops).1 ∧ Mirrors id capacity (s.run ops).2 (d.run id ops).2 := by
  induction ops generalizing s d with
  | nil => exact ⟨rfl, h⟩
  | cons op ops ih =>
      obtain ⟨answer, step⟩ := h.apply op
      obtain ⟨answers, rest⟩ := ih step
      exact ⟨congrArg₂ _ answer answers, rest⟩

theorem once (h : Mirrors id capacity s d) :
    (d.free ++ indices (d.held id)).Perm (List.range capacity) := by
  have once := h.lends.once
  rwa [indices, List.map_append, ← indices, h.indices_idle, h.places] at once

theorem available_eq (h : Mirrors id capacity s d) :
    s.pool.available = capacity - (d.held id).length := by
  have total := h.lends.available
  rw [h.places] at total
  omega

theorem exhausted_iff (h : Mirrors id capacity s d) :
    s.pool.take? = .error (.exhausted .poolBuffers) ↔ d.free = [] := by
  have answer := h.take.1
  constructor
  · intro failed
    simp only [Lending.apply, failed, Deque.apply] at answer
    split at answer
    · assumption
    · cases answer
  · intro free
    have idle := h.idle
    rw [free, List.map_nil] at idle
    have nothing := (idle ▸ h.lends.sound.holds).popFront?_nil
    simp [take?, nothing]

end Mirrors

theorem mirrors_start (id capacity bufferSize : Nat) :
    Mirrors id capacity (.start id capacity bufferSize) (.start capacity bufferSize) where
  owner := rfl
  places := rfl
  hands := rfl
  idle := (sound_openWith id capacity bufferSize).2
  lends := lends_openWith id capacity bufferSize

/-- Whatever its callers do, an open pool answers them as the queue of its free indices does. Each
index is free or held once, the queue knows the bytes of what is free, and only where nothing is
free a caller gets nothing. -/
theorem run_mirrors (id capacity bufferSize : Nat) (ops : List Operation) :
    let (answers, s) := (Lending.start id capacity bufferSize).run ops
    let (queued, d) := (Deque.start capacity bufferSize).run id ops
    answers = queued ∧ s.hands = d.hands ∧ s.pool.idle = d.free.map (d.buffer id) ∧
      (d.free ++ indices (d.held id)).Perm (List.range capacity) ∧
      s.pool.available = capacity - (d.held id).length ∧
      (s.pool.take? = .error (.exhausted .poolBuffers) ↔ d.free = []) := by
  obtain ⟨answers, mirrors⟩ := (mirrors_start id capacity bufferSize).run ops
  exact ⟨answers, mirrors.hands, mirrors.idle, mirrors.once, mirrors.available_eq,
    mirrors.exhausted_iff⟩

end Pool

end Fieldbus
