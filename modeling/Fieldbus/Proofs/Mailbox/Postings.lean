import Fieldbus.Proofs.Mailbox.Reception
import Fieldbus.Proofs.Mailbox.Stages

/-!
# Whose requests a mailbox carries

Every request that waits or is in flight was queued by a caller, in the buffer of its index and
with the message that it still has. At rest a request in flight awaits its reply; else it is the
one that the turn has in its hands.
-/

namespace Fieldbus

open BufferQueue (indices)
open Mailbox (SameMessage)

def Callers.Posted (c : Callers) (index : Nat) (r : PendingRequest) (bytes : Bytes) : Prop :=
  ∃ posting ∈ c.posted, posting.index = index ∧ posting.request = r ∧
    SameMessage bytes posting.message

theorem Callers.Posted.mono {c c' : Callers} {index : Nat} {r : PendingRequest} {bytes : Bytes}
    (h : c.Posted index r bytes) (more : ∀ posting ∈ c.posted, posting ∈ c'.posted) :
    c'.Posted index r bytes := by
  obtain ⟨posting, mem, known⟩ := h
  exact ⟨posting, more posting mem, known⟩

namespace Stage

/-- The requests that the mailbox carries at this moment are postings. -/
structure Booked (x : Stage) : Prop where
  numbered : ∀ posting ∈ x.callers.posted, posting.request.ticket < x.mailbox.nextTicket
  distinct : (x.callers.posted.map fun posting => posting.request.ticket).Nodup
  queued : ∀ p b r, b ∈ x.mailbox.sendQueues.entries p → x.mailbox.request? b.index = some r →
    x.callers.Posted b.index r b.bytes
  flying : ∀ flight, x.mailbox.inFlight = some flight → ∃ posting ∈ x.callers.posted,
    posting.index = flight.index ∧ posting.request = flight.request
  rest : x.errand = none → ∀ flight, x.mailbox.inFlight = some flight →
    x.mailbox.handshake = .awaitResponse
  busy : ∀ e, x.errand = some e → x.callers.Posted e.buffer.index e.request e.buffer.bytes ∧
    ∀ flight, x.mailbox.inFlight = some flight → x.mailbox.handshake ≠ .awaitResponse ∧
      flight.index = e.buffer.index ∧ flight.request = e.request

variable {m m' : Mailbox} {c c' : Callers} {errand : Option Errand}
  {reading reading' : List Buffer} {held : List Buffer} {b : Buffer} {slave : SlaveConfig}
  {now : Nat}

namespace Booked

theorem unique {x : Stage} (h : x.Booked) {posting other : Posting}
    (mem : posting ∈ x.callers.posted) (mem' : other ∈ x.callers.posted)
    (same : posting.request.ticket = other.request.ticket) : posting = other :=
  List.inj_on_of_nodup_map h.distinct mem mem' same

theorem waiting {x : Stage} (h : x.Booked) (custody : x.mailbox.Custody held) {i : Nat}
    {r : PendingRequest} (found : x.mailbox.request? i = some r) :
    ∃ posting ∈ x.callers.posted, posting.index = i ∧ posting.request = r := by
  have queued : i ∈ indices x.mailbox.sendQueues.everything := by
    rw [← custody.recorded, found]
    rfl
  obtain ⟨b, mem, rfl⟩ := List.mem_map.mp queued
  obtain ⟨p, mem⟩ := ProtocolQueues.mem_everything.mp mem
  obtain ⟨posting, known, index, request, -⟩ := h.queued p b r mem found
  exact ⟨posting, known, index, request⟩

theorem forgets (h : Booked ⟨m, c, errand, reading⟩) (forgets : m.Forgets m')
    (posted : c'.posted = c.posted) : Booked ⟨m', c', errand, reading'⟩ where
  numbered posting mem := by
    rw [forgets.nextTicket]
    exact h.numbered posting (posted ▸ mem)
  distinct := by
    rw [posted]
    exact h.distinct
  queued p b r mem found := by
    rw [Callers.Posted, posted]
    exact h.queued p b r (forgets.entries p b mem) (forgets.request _ r found)
  flying flight flying := by
    rw [posted]
    rcases forgets.flight with calm | ⟨-, old, abandoned, before, now⟩
    · cases calm.symm.trans flying
    · cases now.symm.trans flying
      exact h.flying old before
  rest free flight flying := by
    rcases forgets.flight with calm | ⟨same, old, abandoned, before, -⟩
    · cases calm.symm.trans flying
    · exact same.trans (h.rest free old before)
  busy e taken := by
    rw [Callers.Posted, posted]
    obtain ⟨known, own⟩ := h.busy e taken
    refine ⟨known, fun flight flying => ?_⟩
    rcases forgets.flight with calm | ⟨same, old, abandoned, before, now⟩
    · cases calm.symm.trans flying
    · cases now.symm.trans flying
      obtain ⟨writing, index, request⟩ := own old before
      exact ⟨fun awaiting => writing (same.symm.trans awaiting), index, request⟩

theorem lodge {p : Protocol} {bs : List Buffer} {sendQueues : ProtocolQueues}
    {expectsResponse : Bool} {deadline : Nat} (h : Booked ⟨m, c, errand, reading⟩)
    (custody : m.Custody (b :: held)) (perm : bs.Perm (b :: m.sendQueues.entries p))
    (becomes : m.sendQueues.Becomes m.sendPool.capacity p bs sendQueues)
    (posted : c'.posted =
      c.posted ++ [⟨b.index, ⟨m.nextTicket, expectsResponse, deadline⟩, b.bytes⟩]) :
    Booked ⟨m.lodge sendQueues b expectsResponse deadline, c', errand, reading⟩ := by
  have more : ∀ posting ∈ c.posted, posting ∈ c'.posted := fun posting mem =>
    posted ▸ List.mem_append_left _ mem
  constructor
  case numbered =>
    intro posting mem
    rw [posted] at mem
    rcases List.mem_append.mp mem with mem | mem
    · exact Nat.lt_succ_of_lt (h.numbered posting mem)
    · cases List.mem_singleton.mp mem
      exact Nat.lt_succ_self _
  case distinct =>
    rw [posted, List.map_append, List.nodup_append]
    refine ⟨h.distinct, by simp, ?_⟩
    rintro ticket old _ new rfl
    obtain ⟨posting, mem, rfl⟩ := List.mem_map.mp old
    have below : posting.request.ticket < m.nextTicket := h.numbered posting mem
    simp only [List.map_cons, List.map_nil, List.mem_singleton] at new
    omega
  case queued =>
    intro q d r mem found
    have found : (m.lodge sendQueues b expectsResponse deadline).request? d.index = some r := found
    rw [Mailbox.request?_lodge custody.index_lt] at found
    have old (mem : d ∈ m.sendQueues.entries q) : c'.Posted d.index r d.bytes := by
      have other : b.index ≠ d.index := fun same =>
        custody.stock.fresh q (same ▸ List.mem_map_of_mem mem)
      rw [if_neg other] at found
      exact (h.queued q d r mem found).mono more
    have mem : d ∈ sendQueues.entries q := mem
    rw [becomes.entries, Function.update_apply] at mem
    split at mem
    case isTrue here =>
      rcases List.mem_cons.mp (perm.mem_iff.mp mem) with rfl | mem
      · rw [if_pos rfl] at found
        cases found
        refine ⟨⟨_, _, d.bytes⟩, ?_, rfl, rfl, .refl d.bytes⟩
        rw [posted]
        exact List.mem_append_right _ (List.mem_singleton_self _)
      · exact old (here ▸ mem)
    case isFalse => exact old mem
  case flying =>
    intro flight flying
    obtain ⟨posting, mem, own⟩ := h.flying flight flying
    exact ⟨posting, more posting mem, own⟩
  case rest => exact h.rest
  case busy =>
    intro e taken
    exact ⟨(h.busy e taken).1.mono more, (h.busy e taken).2⟩

theorem pick {p : Protocol} {request : PendingRequest} (h : Booked ⟨m, c, none, reading⟩)
    (custody : m.Custody held) (picks : m.Picks now p b m')
    (found : m.request? b.index = some request) :
    Booked ⟨m', c, some ⟨p, b, request⟩, reading⟩ := by
  obtain ⟨rest, entries, -⟩ := picks.head custody
  have known : c.Posted b.index request b.bytes := h.queued p b request (by simp [entries]) found
  obtain ⟨sendQueues, same, -, next, again, -, rfl⟩ := picks
  cases found.symm.trans again
  obtain ⟨rest, entries, becomes⟩ := custody.stock.queued.next? next
  constructor
  case numbered => exact h.numbered
  case distinct => exact h.distinct
  case queued =>
    intro q d r mem waits
    have split : m.sendQueues.entries p = [] ++ b :: rest := entries
    have mem := (custody.stock.mem_dequeue split becomes q d).mp mem
    rcases Mailbox.request?_setRequest_eq_some waits with ⟨-, none⟩ | ⟨-, before⟩
    · cases none
    · exact h.queued q d r mem.1 before
  case flying =>
    intro flight flying
    cases flying
    obtain ⟨posting, mem, index, own, -⟩ := known
    exact ⟨posting, mem, index, own⟩
  case rest => exact nofun
  case busy =>
    intro e taken
    cases taken
    refine ⟨known, fun flight flying => ?_⟩
    cases flying
    exact ⟨nofun, rfl, rfl⟩

theorem stamp {e : Errand} (h : Booked ⟨m, c, some e, reading⟩) :
    Booked ⟨(m.stamp e.buffer).2, c, some { e with buffer := (m.stamp e.buffer).1 }, reading⟩ where
  numbered := h.numbered
  distinct := h.distinct
  queued := h.queued
  flying := h.flying
  rest := nofun
  busy e' taken := by
    cases taken
    obtain ⟨⟨posting, mem, index, request, same⟩, own⟩ := h.busy e rfl
    have stamped : SameMessage (m.stamp e.buffer).1.bytes e.buffer.bytes := fun counter =>
      MessageHeader.stamp_stamp ..
    refine ⟨⟨posting, mem, index, request, stamped.trans same⟩, fun flight flying => ?_⟩
    obtain ⟨writing, place⟩ := own flight flying
    refine ⟨fun awaiting => ?_, place⟩
    have awaiting : (if m.handshake = .sendPending then Handshake.awaitEcho else m.handshake) =
        .awaitResponse := awaiting
    split at awaiting
    · cases awaiting
    · exact writing awaiting

theorem requeue {e : Errand} (h : Booked ⟨m, c, some e, reading⟩)
    (kept : m.Kept slave (e.buffer :: held)) :
    Booked ⟨m.requeue e.protocol e.buffer, c, none, reading⟩ := by
  obtain ⟨known, own⟩ := h.busy e rfl
  rcases m.requeue_cases e.protocol e.buffer with
    eq | ⟨flight, flying, eq⟩ | ⟨flight, sendQueues, flying, push, eq⟩ <;> rw [eq]
  · exact ⟨h.numbered, h.distinct, h.queued, nofun, fun _ => nofun, nofun⟩
  · exact ⟨h.numbered, h.distinct, h.queued, nofun, fun _ => nofun, nofun⟩
  · rcases kept.state with ⟨-, stores⟩ | shut
    · obtain ⟨queues, again, becomes, -⟩ := stores.custody.stock.pushFront? e.protocol
      rw [push] at again
      cases again
      refine ⟨h.numbered, h.distinct, fun q d r mem found => ?_, nofun, fun _ => nofun, nofun⟩
      have mem : d ∈ sendQueues.entries q := mem
      have old (mem : d ∈ m.sendQueues.entries q) : c.Posted d.index r d.bytes := by
        have other : e.buffer.index ≠ d.index := fun same =>
          stores.custody.stock.fresh q (same ▸ List.mem_map_of_mem mem)
        rcases Mailbox.request?_setRequest_eq_some found with ⟨same, -⟩ | ⟨-, before⟩
        · exact absurd same other
        · exact h.queued q d r mem before
      rw [becomes.entries, Function.update_apply] at mem
      split at mem
      case isTrue here =>
        rcases List.mem_cons.mp mem with rfl | mem
        · rcases Mailbox.request?_setRequest_eq_some found with ⟨-, same⟩ | ⟨other, -⟩
          · rw [← Option.some.inj same, (own flight flying).2.2]
            exact known
          · exact absurd rfl other
        · exact old (here ▸ mem)
      case isFalse => exact old mem
    · rw [shut.calm] at flying
      cases flying

theorem acknowledge {e : Errand} (h : Booked ⟨m, c, some e, reading⟩) (workCounter : UInt16) :
    Booked ⟨m.acknowledge e.buffer workCounter, c, none, reading⟩ := by
  rcases m.acknowledge_cases e.buffer workCounter with
    ⟨handshake, eq⟩ | ⟨flight, flying, eq⟩ | ⟨flight, flying, eq⟩ <;> rw [eq]
  · exact ⟨h.numbered, h.distinct, h.queued, nofun, fun _ => nofun, nofun⟩
  · refine ⟨h.numbered, h.distinct, h.queued, fun own same => ?_, fun _ _ _ => rfl, nofun⟩
    cases same
    exact h.flying flight flying
  · exact ⟨h.numbered, h.distinct, h.queued, nofun, fun _ => nofun, nofun⟩

end Booked

end Stage

namespace Stride

variable {now : Nat} {x y : Stage} {slave : SlaveConfig}

theorem booked (kept : x.mailbox.Kept slave x.inHand) (h : x.Booked) (stride : Stride now x y) :
    y.Booked := by
  cases stride with
  | act errand reading act =>
      cases (act.alters kept).1 with
      | forgets forgets posted lapsed => exact h.forgets forgets posted
      | lodges expectsResponse deadline custody perm becomes =>
          exact h.lodge custody perm becomes rfl
  | aside c beside beats => exact h.forgets beside.forgets rfl
  | orphan c reading next vacant => exact (kept.occupied next vacant).elim
  | overdue c reading next found late => exact h.forgets (kept.overdue_forgets next) rfl
  | pick c reading picks found =>
      obtain ⟨_, _, _, next, -⟩ := id picks
      rcases kept.state with ⟨-, stores⟩ | shut
      · exact h.pick stores.custody picks found
      · rw [shut.next?] at next
        cases next
  | stamp m c reading errand => exact h.stamp
  | requeue m c reading errand failures =>
      exact Stage.Booked.requeue (h.forgets (m.retried_forgets failures) rfl)
        (kept.front.retried failures)
  | acknowledge m c reading errand failures workCounter =>
      exact Stage.Booked.acknowledge (h.forgets (m.retried_forgets failures) rfl) workCounter

end Stride

/-! ## Along a run -/

structure Stage.Sound (slave : SlaveConfig) (x : Stage) : Prop where
  kept : x.mailbox.Kept slave x.inHand
  booked : x.Booked
  orderly : Mailbox.Orderly ⟨x.mailbox, x.reading⟩

/-- The moment between two turns. -/
def Scene.atRest (x : Scene) (reading : List Buffer) : Stage :=
  ⟨x.mailbox, x.callers, none, reading⟩

theorem Mailbox.stores_create (slave : SlaveConfig) (config : Config) (sendId receiveId : Nat) :
    (create slave config sendId receiveId).Stores (bufferSize slave) [] := by
  refine ⟨⟨stock_openWith _ _ _, Array.size_replicate, fun i => ?_⟩, fun b mem => ?_⟩
  · rw [request?_create]
    simp [create]
  · have mem : b ∈ (Pool.openWith sendId config.mailboxPoolSize (bufferSize slave)).idle ++ [] ++
        (ProtocolQueues.empty config.mailboxPoolSize).everything := mem
    rw [(Pool.sound_openWith _ _ _).2] at mem
    simp only [List.append_nil, List.mem_append, List.mem_map, List.mem_range,
      ProtocolQueues.mem_everything, ProtocolQueues.entries_empty, List.not_mem_nil, exists_false,
      or_false] at mem
    obtain ⟨i, -, rfl⟩ := mem
    exact Bytes.length_zeros _

theorem Stage.sound_create (slave : SlaveConfig) (config : Config) (sendId receiveId : Nat) :
    Sound slave ⟨.create slave config sendId receiveId, ⟨[], [], []⟩, none, []⟩ where
  kept := ⟨rfl, List.forall_mem_nil _, .inl ⟨rfl, Mailbox.stores_create ..⟩⟩
  booked := by
    refine ⟨List.forall_mem_nil _, List.nodup_nil, fun p b r mem => ?_, nofun, fun _ => nofun,
      nofun⟩
    have mem : b ∈ (ProtocolQueues.empty config.mailboxPoolSize).entries p := mem
    simp at mem
  orderly := Mailbox.orderly_create ..

variable {now : Nat} {x y : Stage} {slave : SlaveConfig}

theorem Stride.sound (sound : x.Sound slave) (stride : Stride now x y) : y.Sound slave :=
  ⟨stride.kept sound.kept, stride.booked sound.kept sound.booked,
    stride.beats.orderly sound.orderly⟩

theorem Strides.sound (sound : x.Sound slave) (path : Strides now x y) : y.Sound slave := by
  induction path with
  | refl => exact sound
  | tail _ stride ih => exact stride.sound ih

namespace Scene

/-- A turn among callers is a path of strides, and so is what they do between turns. -/
theorem Happens.strides {x y : Scene} (happens : Happens x y) (reading : List Buffer) :
    ∃ now, Strides now (x.atRest reading) (y.atRest reading) := by
  cases happens with
  | act act => exact ⟨0, .single (.act none reading act)⟩
  | @turn σ t view now m s hosts =>
      refine ⟨now, ?_⟩
      cases closed : m.closed with
      | true => rw [Mailbox.turn, if_pos closed]
      | false =>
          exact .head (.aside (view s) (m.expire_beside now) (m.expire_beats reading now))
            (Mailbox.turn_strides hosts m s closed)

/-- What every stride keeps holds whenever no turn is under way. -/
theorem Reached.induction {P : Stage → Prop} {x : Scene} (reached : x.Reached)
    (start : ∀ slave config sendId receiveId,
      P ⟨.create slave config sendId receiveId, ⟨[], [], []⟩, none, []⟩)
    (stride : ∀ now x y, P x → Stride now x y → P y) : P (x.atRest []) := by
  obtain ⟨slave, config, sendId, receiveId, run⟩ := reached
  induction run with
  | refl => exact start slave config sendId receiveId
  | @tail y z _ happens ih =>
      obtain ⟨now, path⟩ := happens.strides []
      generalize z.atRest [] = goal at path
      induction path with
      | refl => exact ih
      | tail _ last before => exact stride now _ _ before last

theorem Reached.sound {x : Scene} (reached : x.Reached) :
    (x.atRest []).Sound x.mailbox.slave := by
  have some : ∃ slave, (x.atRest []).Sound slave :=
    reached.induction (P := fun y => ∃ slave, y.Sound slave)
      (fun slave config sendId receiveId => ⟨slave, Stage.sound_create ..⟩)
      fun now y z ⟨slave, sound⟩ stride => ⟨slave, stride.sound sound⟩
  obtain ⟨slave, sound⟩ := some
  obtain rfl : x.mailbox.slave = slave := sound.kept.served
  exact sound

section Turn

variable {σ : Type} {t : Transport σ} {view : σ → Callers} {m : Mailbox} {s : σ}
  (reached : Reached ⟨m, view s⟩)

include reached

theorem Reached.expires (now : Nat) :
    Strides now (atRest ⟨m, view s⟩ []) ⟨m.expire now, view s, none, []⟩ ∧
      Stage.Sound m.slave ⟨m.expire now, view s, none, []⟩ := by
  have expires : Stride now (atRest ⟨m, view s⟩ []) ⟨m.expire now, view s, none, []⟩ :=
    .aside (view s) (m.expire_beside now) (m.expire_beats [] now)
  exact ⟨.single expires, expires.sound reached.sound⟩

/-- What leads to the moment at which a turn takes a request from its queue. -/
theorem Reached.takes (hosts : t.Hosts view) {now : Nat} {taken : σ} {p : Protocol} {b : Buffer}
    {m₁ : Mailbox} (takes : m.Takes t now s p b m₁ taken) :
    ∃ request, m₁.inFlight = some ⟨b.index, request, false, 0⟩ ∧
      Strides now (atRest ⟨m, view s⟩ []) ⟨m₁, view taken, some ⟨p, b, request⟩, []⟩ := by
  obtain ⟨request, flying, -, path⟩ := takes.strides hosts []
  exact ⟨request, flying, (reached.expires now).1.trans path⟩

end Turn

end Scene

end Fieldbus
