import Fieldbus.Proofs.Buffer.Lending

/-!
# What a closing pool counts

A pool that closes counts the buffers that its free queue lacks. The first time these are the
buffers on loan, those that were taken out and have not come back. After that nothing is free any
more, whatever comes back, so a pool that is closed again counts all its buffers.
-/

namespace Fieldbus

namespace Pool

inductive Call where
  | use (op : Operation)
  | close
  deriving DecidableEq, Repr

namespace Lending

def serve (s : Lending) : Call → Answer × Lending
  | .use op => s.apply op
  | .close => (.count s.pool.close.1, { s with pool := s.pool.close.2 })

def after (s : Lending) : List Call → Lending
  | [] => s
  | call :: calls => (s.serve call).2.after calls

/-! ## Loans -/

def takes (s : Lending) (call : Call) : Nat :=
  match (s.serve call).1 with
  | .lent _ => 1
  | _ => 0

def returns (s : Lending) : Call → Nat
  | .use (.put k) | .use (.putFront k) | .use (.offer k) =>
      s.hands[k]?.elim 0 fun b => (s.pool.owns b).toNat
  | _ => 0

def taken (s : Lending) : List Call → Nat
  | [] => 0
  | call :: calls => s.takes call + (s.serve call).2.taken calls

def returned (s : Lending) : List Call → Nat
  | [] => 0
  | call :: calls => s.returns call + (s.serve call).2.returned calls

/-- The buffers that these calls take out and do not give back. -/
def onLoan (s : Lending) (calls : List Call) : Nat := s.taken calls - s.returned calls

def lent (s : Lending) : Nat := s.hands.countP s.pool.owns

end Lending

variable {s s' : Lending} {id capacity k : Nat} {b : Buffer} {p p' : Pool} {shut : Bool}

theorem owns_eq (same : p'.id = p.id) : p'.owns = p.owns := by
  funext b
  rw [owns, owns, same]

theorem lent_eq (same : s'.pool.id = s.pool.id) : s'.lent = s'.hands.countP s.pool.owns := by
  rw [Lending.lent, owns_eq same]

/-! ## What a call does to the loans -/

theorem lent_cons (sound : s.pool.Sound) (idle : b ∈ s.pool.idle) (same : p.id = s.pool.id) :
    (⟨p, b :: s.hands⟩ : Lending).lent = s.lent + 1 := by
  have own : s.pool.owns b = true := beq_iff_eq.mpr (sound.owned b idle)
  rw [lent_eq (s := s) same, List.countP_cons_of_pos own, Lending.lent]

theorem lent_eraseIdx (found : s.hands[k]? = some b) (same : p.id = s.pool.id) :
    (⟨p, s.hands.eraseIdx k⟩ : Lending).lent + (s.pool.owns b).toNat = s.lent := by
  rw [lent_eq (s := s) same, Lending.lent]
  obtain ⟨bound, rfl⟩ := List.getElem?_eq_some_iff.mp found
  rw [← (List.getElem_cons_eraseIdx_perm bound).countP_eq, List.countP_cons]
  cases s.pool.owns s.hands[k] <;> rfl

theorem lent_set (found : s.hands[k]? = some b) {c : Buffer} (same : c.pool = b.pool) :
    (⟨s.pool, s.hands.set k c⟩ : Lending).lent = s.lent := by
  obtain ⟨bound, rfl⟩ := List.getElem?_eq_some_iff.mp found
  rw [Lending.lent, Lending.lent, (List.set_perm_cons_eraseIdx bound c).countP_eq,
    ← (List.getElem_cons_eraseIdx_perm bound).countP_eq, List.countP_cons, List.countP_cons,
    owns, owns, same]

theorem id_giveBack (p : Pool) (push : BufferQueue → Buffer → Option BufferQueue) (b : Buffer) :
    (p.giveBack push b).2.id = p.id := by
  unfold giveBack
  split
  · split
    · rfl
    · split <;> rfl
  · rfl

theorem lent_apply (sound : s.pool.Sound) (op : Operation) :
    (s.apply op).2.lent + s.returns (.use op) = s.lent + s.takes (.use op) := by
  cases op with
  | take =>
      rw [Lending.takes, Lending.serve, Lending.apply]
      cases taken : s.pool.take? with
      | error cause => rfl
      | ok found =>
          obtain ⟨-, idle, same, -⟩ := sound.take? taken
          exact lent_cons sound (idle ▸ List.mem_cons_self) same
  | remove i =>
      rw [Lending.takes, Lending.serve, Lending.apply]
      cases removed : s.pool.remove? i with
      | none => rfl
      | some found =>
          obtain ⟨-, idle, same, -⟩ := sound.of_remove? removed
          exact lent_cons sound (idle.mem_iff.mpr List.mem_cons_self) same
  | peek =>
      rw [Lending.takes, Lending.serve, Lending.apply]
      cases s.pool.peek? <;> rfl
  | available => rfl
  | put k | putFront k =>
      simp only [Lending.takes, Lending.serve, Lending.returns, Lending.apply, Lending.handing]
      cases found : s.hands[k]? with
      | none => rfl
      | some b => exact lent_eraseIdx found (id_giveBack ..)
  | offer k =>
      simp only [Lending.takes, Lending.serve, Lending.returns, Lending.apply, Lending.handing]
      cases found : s.hands[k]? with
      | none => rfl
      | some b =>
          by_cases own : s.pool.owns b = true
          · simp only [offer_owned own]
            exact lent_eraseIdx found (id_giveBack ..)
          · have back : s.pool.offer b = (.refused b, s.pool) := if_neg own
            simp only [back, Option.elim_some, Bool.eq_false_iff.mpr own]
            exact lent_set found rfl
  | rewrite k bytes length callback =>
      simp only [Lending.takes, Lending.serve, Lending.returns, Lending.apply, Lending.handing]
      cases found : s.hands[k]? with
      | none => rfl
      | some b => exact lent_set found (Buffer.rewrite_pool ..)
  | bring b =>
      simp only [Lending.takes, Lending.serve, Lending.returns, Lending.apply]
      split_ifs with own
      · rfl
      · exact List.countP_cons_of_neg own

theorem lent_serve (sound : s.pool.Sound) (call : Call) :
    (s.serve call).2.lent + s.returns call = s.lent + s.takes call := by
  cases call with
  | use op => exact lent_apply sound op
  | close => rfl

/-! ## Open and closed pools -/

structure Shut (p : Pool) : Prop where
  closed : p.closed = true
  sound : p.Sound
  empty : p.idle = []

theorem Sound.close (sound : p.Sound) : p.close.2.Shut := by
  obtain ⟨-, holds, capacity⟩ := sound.holds.drain
  have empty : p.close.2.idle = [] := holds.toList
  refine ⟨rfl, ⟨by rw [empty]; exact holds, capacity.trans sound.capacity, ?_⟩, empty⟩
  rw [empty]
  exact nofun

namespace Shut

theorem take? (h : p.Shut) : p.take? = .error (.exhausted .poolBuffers) := if_pos h.closed

theorem remove? (h : p.Shut) (i : Nat) : p.remove? i = none :=
  h.sound.remove?_eq_none (by rw [h.empty]; exact List.not_mem_nil)

theorem available (h : p.Shut) : p.available = 0 := by
  rw [h.sound.available, h.empty, List.length_nil]

theorem peek? (h : p.Shut) : p.peek? = .error .empty := by
  have front := h.sound.holds.front?
  rw [h.empty] at front
  rw [Pool.peek?, front]
  rfl

theorem giveBack (h : p.Shut) (push : BufferQueue → Buffer → Option BufferQueue) (b : Buffer) :
    (p.giveBack push b).2 = p := by
  unfold Pool.giveBack
  simp only [h.closed, if_true]
  split <;> rfl

theorem apply (h : s.pool.Shut) (op : Operation) :
    (s.apply op).2.pool = s.pool ∧ s.takes (.use op) = 0 := by
  cases op with
  | take => simp [Lending.takes, Lending.serve, Lending.apply, h.take?]
  | remove i => simp [Lending.takes, Lending.serve, Lending.apply, h.remove?]
  | peek => simp [Lending.takes, Lending.serve, Lending.apply, h.peek?]
  | available => exact ⟨rfl, rfl⟩
  | put k | putFront k =>
      simp only [Lending.takes, Lending.serve, Lending.apply, Lending.handing]
      cases s.hands[k]? with
      | none => exact ⟨rfl, rfl⟩
      | some b => exact ⟨h.giveBack .., rfl⟩
  | offer k =>
      simp only [Lending.takes, Lending.serve, Lending.apply, Lending.handing]
      cases s.hands[k]? with
      | none => exact ⟨rfl, rfl⟩
      | some b =>
          have same : (s.pool.offer b).2 = s.pool := h.giveBack ..
          cases back : s.pool.offer b with
          | mk answer p =>
              rw [back] at same
              cases answer <;> simp only [back] <;> exact ⟨same, trivial⟩
  | rewrite k bytes length callback =>
      simp only [Lending.takes, Lending.serve, Lending.apply, Lending.handing]
      cases s.hands[k]? <;> exact ⟨rfl, rfl⟩
  | bring b =>
      simp only [Lending.takes, Lending.serve, Lending.apply]
      split_ifs <;> exact ⟨rfl, rfl⟩

end Shut

/-- Between calls a pool is open and has what is not on loan, or it is closed. -/
inductive Stands (id capacity : Nat) : Bool → Lending → Prop
  | opened {s : Lending} {d : Deque} (mirrors : Mirrors id capacity s d) :
      Stands id capacity false s
  | closed {s : Lending} (shut : s.pool.Shut) (places : s.pool.capacity = capacity)
      (within : s.lent ≤ capacity) : Stands id capacity true s

namespace Stands

theorem sound (h : Stands id capacity shut s) : s.pool.Sound := by
  cases h with
  | opened mirrors => exact mirrors.lends.sound
  | closed shut => exact shut.sound

theorem lent_opened {d : Deque} (mirrors : Mirrors id capacity s d) :
    (d.held id).length = s.lent := by
  rw [Deque.held, ← List.countP_eq_length_filter, Lending.lent, mirrors.hands]
  congr 1
  funext b
  rw [owns, mirrors.owner]

theorem lent_le (h : Stands id capacity shut s) : s.lent ≤ capacity := by
  cases h with
  | opened mirrors =>
      have counted := mirrors.lends.available
      rw [lent_opened mirrors, mirrors.places] at counted
      omega
  | closed shut places within => exact within

theorem close (h : Stands id capacity shut s) :
    s.pool.close.1 = if shut then capacity else s.lent := by
  cases h with
  | opened mirrors => exact mirrors.lends.close.1.trans (lent_opened mirrors)
  | closed shut places within =>
      have none := shut.available
      rw [available] at none
      rw [Pool.close, none, places]
      rfl

theorem serve (h : Stands id capacity shut s) (call : Call) :
    Stands id capacity (shut || call == .close) (s.serve call).2 := by
  cases call with
  | use op =>
      have still : (shut || Call.use op == .close) = shut := Bool.or_false shut
      rw [still]
      cases h with
      | opened mirrors => exact .opened (mirrors.apply op).2
      | closed closed places within =>
          obtain ⟨same, nothing⟩ := closed.apply op
          have counted := lent_serve closed.sound (.use op)
          rw [nothing] at counted
          exact .closed (same ▸ closed) (same ▸ places) (by omega)
  | close =>
      have now : (shut || Call.close == .close) = true := Bool.or_true shut
      rw [now]
      refine .closed h.sound.close ?_ h.lent_le
      cases h with
      | opened mirrors => exact mirrors.places
      | closed closed places within => exact places

theorem after (h : Stands id capacity shut s) (calls : List Call) :
    Stands id capacity (shut || calls.contains .close) (s.after calls) := by
  induction calls generalizing s shut with
  | nil =>
      rw [List.contains_nil, Bool.or_false]
      exact h
  | cons call calls ih =>
      have rest := ih (h.serve call)
      rwa [Bool.or_assoc, Bool.beq_comm, ← List.contains_cons] at rest

/-- What is in hand at the end is what was at first and was taken, but for what was given back. -/
theorem lent_after (h : Stands id capacity shut s) (calls : List Call) :
    (s.after calls).lent + s.returned calls = s.lent + s.taken calls := by
  induction calls generalizing s shut with
  | nil => rfl
  | cons call calls ih =>
      have step := lent_serve h.sound call
      have rest := ih (h.serve call)
      rw [Lending.after, Lending.returned, Lending.taken]
      omega

end Stands

theorem stands_start (id capacity bufferSize : Nat) :
    Stands id capacity false (.start id capacity bufferSize) :=
  .opened (mirrors_start id capacity bufferSize)

/-- The first time a pool closes it counts the buffers that were taken out and not given back, and
every time after that all its buffers. Once it is closed it has nothing to give. -/
theorem close_counts (id capacity bufferSize : Nat) (calls : List Call) :
    let first := Lending.start id capacity bufferSize
    let last := first.after calls
    first.returned calls ≤ first.taken calls ∧ first.onLoan calls ≤ capacity ∧
      (last.serve .close).1 =
        .count (if .close ∈ calls then capacity else first.onLoan calls) ∧
      ((last.serve .close).1 = .count (first.onLoan calls) ↔
        .close ∉ calls ∨ first.onLoan calls = capacity) ∧
      (.close ∈ calls →
        last.pool.take? = .error (.exhausted .poolBuffers) ∧ last.pool.peek? = .error .empty ∧
          last.pool.available = 0 ∧ ∀ i, last.pool.remove? i = none) := by
  intro first last
  have start := stands_start id capacity bufferSize
  have stands : Stands id capacity (calls.contains .close) last := start.after calls
  have balance : last.lent + first.returned calls = 0 + first.taken calls :=
    start.lent_after calls
  have loans : last.lent = first.onLoan calls := by
    rw [Lending.onLoan]
    omega
  have within : last.lent ≤ capacity := stands.lent_le
  have counted : last.pool.close.1 = if .close ∈ calls then capacity else first.onLoan calls := by
    rw [stands.close, loans]
    simp
  refine ⟨by omega, loans ▸ within, congrArg Answer.count counted, ?_, ?_⟩
  · rw [Lending.serve, counted, Answer.count.injEq]
    split_ifs with closed
    · simp [closed, eq_comm]
    · simp [closed]
  · intro closed
    rw [List.contains_iff_mem.mpr closed] at stands
    cases stands with
    | closed shut => exact ⟨shut.take?, shut.peek?, shut.available, shut.remove?⟩

/-- Of three buffers that were taken out, two came back, one of them to the closed pool. -/
theorem close_counts_belated :
    let first := Lending.start 0 3 8
    let calls : List Call := [.use .take, .use (.remove 2), .use .take, .use (.offer 1), .close,
      .use (.putFront 0), .use .take]
    .close ∈ calls ∧ first.onLoan calls = 1 ∧
      (first.after calls).pool.take? = .error (.exhausted .poolBuffers) ∧
      ((first.after calls).serve .close).1 = .count 3 := by
  intro first calls
  obtain ⟨-, -, counted, -, nothing⟩ := close_counts 0 3 8 calls
  exact ⟨by decide, by decide, (nothing (by decide)).1, counted⟩

/-- One buffer is on loan, and a pool of three that is closed again counts three. -/
theorem exists_overcounted :
    let first := Lending.start 0 3 8
    let calls := [Call.use .take, .close]
    first.onLoan calls = 1 ∧ ((first.after calls).serve .close).1 = .count 3 := by
  decide

end Pool

end Fieldbus
