import Fieldbus.Proofs.Buffer.Pool

/-!
# Buffers that come back in any order

Whether a pool takes a buffer back depends on which places of its queue are free, and not on how the
others are linked. So two buffers may come back in either order: the pool has as many as it would
have otherwise, and the same ones, though it may hand them out in another order.
-/

namespace Fieldbus

namespace BufferQueue

variable {q q' : BufferQueue} {b : Buffer}

theorem pushBack?_eq_none_iff : q.pushBack? b = none ↔ q.accepts b.index = false := by
  unfold pushBack? insertBetween?
  split <;> simp_all

theorem accepts_pushBack? (joined : q.pushBack? b = some q') :
    q.accepts b.index = true ∧ q'.length = q.length + 1 ∧
      ∀ i, q'.accepts i = (q.accepts i && i != b.index) := by
  unfold pushBack? insertBetween? at joined
  split at joined
  case isFalse => cases joined
  case isTrue accepted =>
    have bound : b.index < q.capacity := by
      rw [accepts, Bool.and_eq_true, decide_eq_true_eq] at accepted
      exact accepted.1
    obtain rfl := Option.some.inj joined
    let node : Node := ⟨b, q.back, none⟩
    obtain ⟨-, -, length, capacity⟩ :=
      q.relink_ends b.index (some node) q.back none (some b.index) (some b.index)
    refine ⟨accepted, congrArg (· + 1) length, fun i => ?_⟩
    have held := q.node?_relink bound (some node) q.back none (some b.index) (some b.index) i
    rw [accepts, accepts, contains, contains]
    refine (congrArg₂ (fun (n : Nat) (m : Option Node) => decide (i < n) && !m.isSome) capacity
      held).trans ?_
    by_cases here : b.index = i
    · simp [here]
    · simp [here, Ne.symm here]

end BufferQueue

namespace Pool

variable {p p' : Pool} {b : Buffer}

/-- Two pools have the same buffers to give, in whatever order. -/
structure Alike (p p' : Pool) : Prop where
  id : p'.id = p.id
  closed : p'.closed = p.closed
  available : p'.available = p.available
  accepts : ∀ i, p'.free.accepts i = p.free.accepts i

theorem Alike.refl (p : Pool) : p.Alike p := ⟨rfl, rfl, rfl, fun _ => rfl⟩

theorem Alike.symm (h : p.Alike p') : p'.Alike p :=
  ⟨h.id.symm, h.closed.symm, h.available.symm, fun i => (h.accepts i).symm⟩

theorem Alike.trans {p'' : Pool} (h : p.Alike p') (h' : p'.Alike p'') : p.Alike p'' where
  id := h'.id.trans h.id
  closed := h'.closed.trans h.closed
  available := h'.available.trans h.available
  accepts i := (h'.accepts i).trans (h.accepts i)

def admits (p : Pool) (b : Buffer) : Bool := p.owns b && !p.closed && p.free.accepts b.index

theorem put_refused (refused : p.admits b = false) : p.put b = p := by
  unfold put offer giveBack
  split
  · rename_i own
    split
    · rfl
    · rename_i opened
      split
      · rfl
      · rename_i free joined
        have room := (BufferQueue.accepts_pushBack? joined).1
        rw [Buffer.retire_index] at room
        simp [admits, own, opened, room] at refused
  · rfl

theorem put_admitted (admitted : p.admits b = true) :
    ∃ free, p.put b = { p with free } ∧ free.length = p.free.length + 1 ∧
      ∀ i, free.accepts i = (p.free.accepts i && i != b.index) := by
  simp only [admits, Bool.and_eq_true, Bool.not_eq_true'] at admitted
  obtain ⟨⟨own, opened⟩, room⟩ := admitted
  cases joined : p.free.pushBack? b.retire with
  | none =>
      have full := BufferQueue.pushBack?_eq_none_iff.mp joined
      rw [Buffer.retire_index, room] at full
      cases full
  | some free =>
      obtain ⟨-, length, accepts⟩ := BufferQueue.accepts_pushBack? joined
      exact ⟨free, by simp [put, offer, giveBack, own, opened, joined], length, accepts⟩

theorem put_counts (p : Pool) (b : Buffer) :
    (p.put b).id = p.id ∧ (p.put b).closed = p.closed ∧
      (p.put b).available = p.available + (p.admits b).toNat ∧
      ∀ i, (p.put b).free.accepts i = (p.free.accepts i && !(p.admits b && i == b.index)) := by
  cases admitted : p.admits b with
  | false =>
      rw [put_refused admitted]
      exact ⟨rfl, rfl, rfl, fun i => by rw [Bool.false_and, Bool.not_false, Bool.and_true]⟩
  | true =>
      obtain ⟨free, grown, length, accepts⟩ := put_admitted admitted
      rw [grown]
      exact ⟨rfl, rfl, length, fun i => by rw [Bool.true_and]; exact accepts i⟩

theorem Alike.admits (h : p.Alike p') (b : Buffer) : p'.admits b = p.admits b := by
  rw [Pool.admits, Pool.admits, owns, owns, h.id, h.closed, h.accepts]

theorem Alike.put (h : p.Alike p') (b : Buffer) : (p.put b).Alike (p'.put b) := by
  obtain ⟨id, closed, available, accepts⟩ := p.put_counts b
  obtain ⟨id', closed', available', accepts'⟩ := p'.put_counts b
  refine ⟨?_, ?_, ?_, fun i => ?_⟩
  · rw [id', h.id, id]
  · rw [closed', h.closed, closed]
  · rw [available', h.available, h.admits, available]
  · rw [accepts', h.accepts, h.admits, accepts]

theorem admits_put (p : Pool) (b c : Buffer) :
    (p.put b).admits c = (p.admits c && !(p.admits b && c.index == b.index)) := by
  obtain ⟨id, closed, -, accepts⟩ := p.put_counts b
  rw [admits, owns, id, closed, accepts, ← Bool.and_assoc]
  rfl

theorem put_comm (p : Pool) (b c : Buffer) : ((p.put b).put c).Alike ((p.put c).put b) := by
  obtain ⟨id, closed, available, accepts⟩ := p.put_counts b
  obtain ⟨id', closed', available', accepts'⟩ := p.put_counts c
  obtain ⟨id₁, closed₁, available₁, accepts₁⟩ := (p.put b).put_counts c
  obtain ⟨id₂, closed₂, available₂, accepts₂⟩ := (p.put c).put_counts b
  have same : (b.index == c.index) = (c.index == b.index) := Bool.beq_comm
  refine ⟨?_, ?_, ?_, fun i => ?_⟩
  · rw [id₂, id', id₁, id]
  · rw [closed₂, closed', closed₁, closed]
  · rw [available₂, available', available₁, available, admits_put, admits_put, same]
    cases p.admits b <;> cases p.admits c <;> cases c.index == b.index <;> rfl
  · rw [accepts₂, accepts', accepts₁, accepts, admits_put, admits_put, same]
    -- Where both have the same place, the second one does not join.
    by_cases shared : c.index = b.index
    · rw [shared]
      cases p.admits b <;> cases p.admits c <;> cases p.free.accepts i <;> cases i == b.index <;>
        simp
    · rw [beq_false_of_ne shared]
      cases p.admits b <;> cases p.admits c <;> cases p.free.accepts i <;> cases i == b.index <;>
        cases i == c.index <;> rfl

end Pool

end Fieldbus
