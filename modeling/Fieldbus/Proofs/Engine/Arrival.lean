import Fieldbus.Proofs.Engine.RoundTrip
import Fieldbus.Proofs.Engine.Settling
import Fieldbus.Proofs.Engine.Turnover

/-!
# The order in which frames arrive

Frames whose datagrams have no index in common may arrive in either order: the same callbacks fire
with the same outcomes, and each frame has the same result. If none of the callbacks submits
anything the engine is also left the same. What a callback submits takes the index and the buffer
that are free at that moment, so it may notice who came first. Callbacks that call the engine for
anything else are not considered. Padding is never noticed.
-/

namespace Fieldbus

def TrafficStatistics.heard (s : TrafficStatistics) : Option (Nat × Nat) → TrafficStatistics
  | none => { s with foreignFrames := s.foreignFrames + 1 }
  | some (matched, stale) => { s with
      framesReceived := s.framesReceived + 1
      datagramsMatched := s.datagramsMatched + matched
      staleDatagrams := s.staleDatagrams + stale }

theorem TrafficStatistics.heard_comm (s : TrafficStatistics) (first second : Option (Nat × Nat)) :
    (s.heard first).heard second = (s.heard second).heard first := by
  cases first <;> cases second <;> simp only [heard, Nat.add_right_comm]

namespace Frame

/-- No datagram of the one has the index of a datagram of the other. -/
def Apart (f₁ f₂ : Bytes) : Prop :=
  ∀ d ∈ decoded f₁, ∀ d' ∈ decoded f₂, d.header.index ≠ d'.header.index

theorem mem_decoded_iff {bytes : Bytes} {frame : Frame} (parsed : parse? bytes = .ok frame)
    {d : Datagram} : d ∈ decoded bytes ↔ .ok d ∈ frame.chain.toList := by
  constructor
  · intro here
    obtain ⟨frame', parsed', carried⟩ := mem_decoded here
    rw [parsed, Except.ok.injEq] at parsed'
    exact parsed' ▸ carried
  · intro carried
    rw [decoded, parsed]
    exact List.mem_filterMap.mpr ⟨.ok d, carried, rfl⟩

/-! ## Padding -/

theorem decode?_lead {lead : Bytes} (length : lead.length = Layout.ethernetHeader) (rest : Bytes) :
    EthernetHeader.decode? (lead ++ rest) = EthernetHeader.decode? lead := by
  match lead, length with
  | [_, _, _, _, _, _, _, _, _, _, _, _, _, _], _ => rfl

theorem parse?_ok {bytes : Bytes} {frame : Frame} (parsed : parse? bytes = .ok frame) :
    ∃ lead w₀ w₁ rest, bytes = lead ++ w₀ :: w₁ :: rest ∧ lead.length = Layout.ethernetHeader ∧
      frame.header = FrameHeader.ofWord (Bytes.decodeWord w₀ w₁) ∧
      frame.header.length.toNat ≤ rest.length := by
  unfold parse? at parsed
  split at parsed
  case h_2 => cases parsed
  case h_1 w₀ w₁ rest dropped =>
    have long : Layout.ethernetHeader ≤ bytes.length := by
      have short := congrArg List.length dropped
      rw [List.length_drop, List.length_cons] at short
      omega
    refine ⟨bytes.take Layout.ethernetHeader, w₀, w₁, rest, ?_, List.length_take_of_le long, ?_⟩
    · rw [← dropped, List.take_append_drop]
    · cases decoded : EthernetHeader.decode? bytes with
      | error cause => simp [decoded, bind, Except.bind] at parsed
      | ok ethernet =>
          simp only [decoded, bind, Except.bind, pure, Except.pure] at parsed
          split at parsed
          · cases parsed
          · split at parsed
            · cases parsed
            · split at parsed
              · cases parsed
              · rename_i whole
                obtain rfl := Except.ok.inj parsed
                exact ⟨rfl, Nat.le_of_not_lt whole⟩

theorem parse?_padded {bytes : Bytes} {frame : Frame} (parsed : parse? bytes = .ok frame)
    (padding : Bytes) :
    parse? (bytes.take (headerLength + frame.header.length.toNat) ++ padding) = .ok frame := by
  obtain ⟨lead, w₀, w₁, rest, rfl, length, header, inside⟩ := parse?_ok parsed
  generalize size : frame.header.length.toNat = n at inside ⊢
  have cut : (lead ++ w₀ :: w₁ :: rest).take (headerLength + n) ++ padding =
      lead ++ w₀ :: w₁ :: (rest.take n ++ padding) := by
    have split : headerLength + n = lead.length + (n + 2) := by
      rw [length, headerLength, Layout.frameHeader]
      omega
    rw [split, List.take_length_add_append, List.take_succ_cons, List.take_succ_cons]
    simp only [List.append_assoc, List.cons_append]
  have front (tail : Bytes) : (lead ++ w₀ :: w₁ :: tail).drop Layout.ethernetHeader =
      w₀ :: w₁ :: tail := List.drop_left' length
  have whole : ¬(rest.take n ++ padding).length < n := by
    rw [List.length_append, List.length_take_of_le inside]
    omega
  have kept : (rest.take n ++ padding).take n = rest.take n :=
    List.take_left' (List.length_take_of_le inside)
  rw [cut, ← parsed]
  unfold parse?
  rw [front, front, decode?_lead length, decode?_lead length]
  dsimp only
  simp only [← header, size, kept, if_neg whole, if_neg (Nat.not_lt.mpr inside)]

end Frame

namespace Engine

variable {e e' : Engine} {index : UInt8} {t : Transaction} {bytes : Bytes}

theorem receive_accepted {frame : Frame} {matched stale : Nat}
    (parsed : Frame.parse? bytes = .ok frame)
    (answered : (e.tally fun s => { s with framesReceived := s.framesReceived + 1 }).answerAll
      frame.chain.toList = ((matched, stale), e')) :
    e.receive bytes = (.ok matched, e'.tally fun s => { s with
      datagramsMatched := s.datagramsMatched + matched
      staleDatagrams := s.staleDatagrams + stale }) := by
  simp only [receive, parsed, answered]

theorem receive_padded {frame : Frame} (parsed : Frame.parse? bytes = .ok frame) (padding : Bytes) :
    e.receive (bytes.take (Frame.headerLength + frame.header.length.toNat) ++ padding) =
      e.receive bytes := by
  rw [receive, receive, Frame.parse?_padded parsed, parsed]

/-! ## One frame -/

structure After (e : Engine) (counts : Option (Nat × Nat)) (ends : List (Transaction × Outcome))
    (e' : Engine) : Prop where
  sound : e'.Sound
  statistics : e'.statistics = e.statistics.heard counts
  firings : e'.firings = e.firings ++ ends.map fun x => (x.1.generation, x.1.id, x.2)
  elsewhere : ∀ other ∉ ends.map (fun x => x.1.index), e'.awaited other = e.awaited other
  alike : (∀ x ∈ ends, x.1.Passive) → (e.dischargeAll (ends.map Prod.fst)).Alike e'

theorem Sound.tally (h : e.Sound) (change : TrafficStatistics → TrafficStatistics) :
    (e.tally change).Sound :=
  h.relax rfl rfl rfl h.leased fun _ _ here => here

theorem Alike.tally (h : e.Alike e') (change : TrafficStatistics → TrafficStatistics) :
    e.Alike (e'.tally change) :=
  ⟨h.config, h.pool, h.leases, h.slots, h.queue, h.nextGeneration⟩

/-- A frame does the same in every engine that awaits the same under the indices of its
datagrams. -/
theorem Sound.receive_replays (h : e.Sound) (bytes : Bytes) :
    ∃ result counts ends,
      (∀ x ∈ ends, ∃ d ∈ Frame.decoded bytes, d.header.index = x.1.index ∧
        e.slot d.header.index = some x.1 ∧ x.1.awaits d = true) ∧
      ∀ e' : Engine, e'.Sound →
        (∀ d ∈ Frame.decoded bytes, e'.awaited d.header.index = e.awaited d.header.index) →
        (e'.receive bytes).1 = result ∧ e'.After counts ends (e'.receive bytes).2 := by
  cases parsed : Frame.parse? bytes with
  | error cause =>
      refine ⟨.error cause, none, [], nofun, fun e' sound _ => ?_⟩
      rw [receive_foreign parsed e']
      dsimp only
      exact ⟨rfl, sound.tally _, rfl, (List.append_nil _).symm, fun _ _ => rfl,
        fun _ => (Alike.refl e').tally _⟩
  | ok frame =>
      obtain ⟨⟨matched, stale⟩, ends, replays⟩ := h.replays frame.chain.toList
      refine ⟨.ok matched, some (matched, stale), ends, fun x hx => ?_, fun e' sound agrees => ?_⟩
      · obtain ⟨d, carried, index, awaits⟩ := replays.answered x hx
        have sent := awaited_eq_some.mp (replays.due.sent x hx)
        exact ⟨d, (Frame.mem_decoded_iff parsed).mpr carried, index, index ▸ sent.1, awaits⟩
      · let counted := e'.tally fun s => { s with framesReceived := s.framesReceived + 1 }
        have agrees' (d : Datagram) (carried : .ok d ∈ frame.chain.toList) :
            counted.awaited d.header.index = e.awaited d.header.index :=
          agrees d ((Frame.mem_decoded_iff parsed).mpr carried)
        have due : counted.Due ends := by
          refine ⟨replays.due.distinct, fun x hx => ?_⟩
          obtain ⟨d, carried, index, -⟩ := replays.answered x hx
          rw [← index, agrees' d carried, index]
          exact replays.due.sent x hx
        have started : counted.Sound := sound.tally _
        obtain ⟨sound', statistics, firings, elsewhere⟩ := due.settled started
        rw [receive_accepted parsed (replays.same counted started agrees')]
        dsimp only
        refine ⟨rfl, sound'.tally _, ?_, firings, elsewhere, fun passive => ?_⟩
        · rw [Engine.tally, statistics]
          rfl
        · have same : e'.Alike counted := (Alike.refl e').tally _
          exact ((same.dischargeAll _).trans (due.discharged started passive)).tally _

/-! ## Two frames -/

theorem reply?_eq_none_iff {ds : List Datagram} : t.reply? index ds = none ↔
    ∀ d ∈ ds, d.header.index = index → t.awaits d = false := by
  simp only [Transaction.reply?, Option.map_eq_none_iff, List.find?_eq_none, Bool.and_eq_true,
    beq_iff_eq, not_and, Bool.not_eq_true]

theorem Sound.receiveAll_stays (h : e.Sound) (slot : e.slot index = some t) (frames : List Bytes) :
    (e.receiveAll frames).slot index = some t ↔
      ∀ bytes ∈ frames, ∀ d ∈ Frame.decoded bytes, d.header.index = index → t.awaits d = false := by
  have decides := receiveAll_decides h frames
  have silent : t.reply? index (frames.flatMap Frame.decoded) = none ↔
      ∀ bytes ∈ frames, ∀ d ∈ Frame.decoded bytes, d.header.index = index →
        t.awaits d = false := by
    rw [reply?_eq_none_iff]
    constructor
    · intro quiet bytes hb d hd
      exact quiet d (List.mem_flatMap.mpr ⟨bytes, hb, hd⟩)
    · intro quiet d hd
      obtain ⟨bytes, hb, hd⟩ := List.mem_flatMap.mp hd
      exact quiet bytes hb d hd
  rw [← silent]
  refine ⟨fun stays => ?_, decides.kept slot⟩
  cases sent : t.isSent with
  | true => exact (decides.sent stays sent).2
  | false =>
      refine reply?_eq_none_iff.mpr fun d _ _ => ?_
      rw [Transaction.awaits, sent, Bool.false_and]

/-- It does not matter which of two frames arrives first. Each has its own result, and what fires
is what the one fires and what the other fires. If none of the callbacks submits anything, the
engine is left the same. -/
structure Commutes (e : Engine) (f₁ f₂ : Bytes) : Prop where
  first : ((e.receive f₂).2.receive f₁).1 = (e.receive f₁).1
  second : ((e.receive f₁).2.receive f₂).1 = (e.receive f₂).1
  firings : ∃ xs ys,
    (e.receive f₁).2.firings = e.firings ++ xs ∧ (e.receive f₂).2.firings = e.firings ++ ys ∧
    (e.receiveAll [f₁, f₂]).firings = e.firings ++ xs ++ ys ∧
    (e.receiveAll [f₂, f₁]).firings = e.firings ++ ys ++ xs
  statistics : (e.receiveAll [f₁, f₂]).statistics = (e.receiveAll [f₂, f₁]).statistics
  stays : ∀ index t, e.slot index = some t →
    ((e.receiveAll [f₁, f₂]).slot index = some t ↔ (e.receiveAll [f₂, f₁]).slot index = some t)
  alike : (∀ d ∈ Frame.decoded f₁ ++ Frame.decoded f₂, ∀ t, e.slot d.header.index = some t →
      t.awaits d = true → t.Passive) →
    (e.receiveAll [f₁, f₂]).Alike (e.receiveAll [f₂, f₁])

theorem Sound.commutes (h : e.Sound) {f₁ f₂ : Bytes} (apart : Frame.Apart f₁ f₂) :
    e.Commutes f₁ f₂ := by
  obtain ⟨result₁, counts₁, xs, answered₁, replays₁⟩ := h.receive_replays f₁
  obtain ⟨result₂, counts₂, ys, answered₂, replays₂⟩ := h.receive_replays f₂
  obtain ⟨same₁, after₁⟩ := replays₁ e h fun _ _ => rfl
  obtain ⟨same₂, after₂⟩ := replays₂ e h fun _ _ => rfl
  -- The one frame leaves alone what the other one hangs on.
  obtain ⟨same₂', after₁₂⟩ := replays₂ (e.receive f₁).2 after₁.sound fun d hd =>
    after₁.elsewhere _ fun here => by
      obtain ⟨x, hx, place⟩ := List.mem_map.mp here
      obtain ⟨d', hd', index, -⟩ := answered₁ x hx
      exact apart d' hd' d hd (index.trans place)
  obtain ⟨same₁', after₂₁⟩ := replays₁ (e.receive f₂).2 after₂.sound fun d hd =>
    after₂.elsewhere _ fun here => by
      obtain ⟨x, hx, place⟩ := List.mem_map.mp here
      obtain ⟨d', hd', index, -⟩ := answered₂ x hx
      exact apart d hd d' hd' (index.trans place).symm
  constructor
  case first => exact same₁'.trans same₁.symm
  case second => exact same₂'.trans same₂.symm
  case firings =>
    refine ⟨_, _, after₁.firings, after₂.firings, ?_, ?_⟩
    · exact after₁₂.firings.trans (by rw [after₁.firings])
    · exact after₂₁.firings.trans (by rw [after₂.firings])
  case statistics =>
    refine after₁₂.statistics.trans (Eq.trans ?_ after₂₁.statistics.symm)
    rw [after₁.statistics, after₂.statistics, TrafficStatistics.heard_comm]
  case stays =>
    intro index t slot
    rw [h.receiveAll_stays slot, h.receiveAll_stays slot]
    simp only [List.mem_cons, List.not_mem_nil, or_false, forall_eq_or_imp, forall_eq]
    exact and_comm
  case alike =>
    intro passive
    have passive₁ (x : Transaction × Outcome) (hx : x ∈ xs) : x.1.Passive := by
      obtain ⟨d, hd, -, slot, awaits⟩ := answered₁ x hx
      exact passive d (List.mem_append_left _ hd) x.1 slot awaits
    have passive₂ (y : Transaction × Outcome) (hy : y ∈ ys) : y.1.Passive := by
      obtain ⟨d, hd, -, slot, awaits⟩ := answered₂ y hy
      exact passive d (List.mem_append_right _ hd) y.1 slot awaits
    have left := ((after₁.alike passive₁).dischargeAll _).trans (after₁₂.alike passive₂)
    have right := ((after₂.alike passive₂).dischargeAll _).trans (after₂₁.alike passive₁)
    have order : (xs.map Prod.fst ++ ys.map Prod.fst).Perm (ys.map Prod.fst ++ xs.map Prod.fst) :=
      List.perm_append_comm
    have swapped := dischargeAll_perm order e
    rw [dischargeAll, dischargeAll, List.foldl_append, List.foldl_append] at swapped
    exact left.symm.trans (swapped.trans right)

/-- Frames that are apart may arrive in either order, and padding changes nothing. -/
theorem receive_comm (h : e.Reachable) :
    (∀ f₁ f₂, Frame.Apart f₁ f₂ → e.Commutes f₁ f₂) ∧
    ∀ bytes frame, Frame.parse? bytes = .ok frame → ∀ padding,
      e.receive (bytes.take (Frame.headerLength + frame.header.length.toNat) ++ padding) =
        e.receive bytes :=
  ⟨fun _ _ apart => h.sound.commutes apart, fun _ _ parsed padding => receive_padded parsed padding⟩

/-- Two errands are on their way under the indices 7 and 8, and the pool has no buffer left. The
first one has follow-ups. -/
def busy (followUps : List FollowUp) : Engine :=
  workshop.run [.prepare errand followUps, .schedule 7, .prepare errand [], .schedule 8,
    .transmit ({ near := { transmitBuffer := Bytes.zeros 64 } } : Loopback) PassThrough.mk 5]

def replyTo (index : UInt8) : Bytes :=
  Frame.image { destination := .broadcast, source := .broadcast }
    [(DatagramHeader.request .brd index (.physical 3 0) 2).encode ++ [17, 34] ++ Bytes.encodeWord 3]

theorem busy_reachable (followUps : List FollowUp) : (busy followUps).Reachable :=
  ⟨{}, .openWith 0 2 64, 7, _, rfl⟩

theorem replies_apart : Frame.Apart (replyTo 7) (replyTo 8) := by
  have first : ∀ d ∈ Frame.decoded (replyTo 7), d.header.index = 7 := by decide +kernel
  have second : ∀ d ∈ Frame.decoded (replyTo 8), d.header.index = 8 := by decide +kernel
  intro d hd d' hd' same
  rw [first d hd, second d' hd'] at same
  cases same

theorem receive_comm_two_replies :
    (busy []).Reachable ∧ Frame.Apart (replyTo 7) (replyTo 8) ∧
      (busy []).Commutes (replyTo 7) (replyTo 8) ∧
      ((busy []).receiveAll [replyTo 7, replyTo 8]).Alike
        ((busy []).receiveAll [replyTo 8, replyTo 7]) ∧
      ((busy []).receiveAll [replyTo 7, replyTo 8]).inFlight = 0 ∧
      (busy []).receive (replyTo 7 ++ [1, 2, 3]) = (busy []).receive (replyTo 7) := by
  obtain ⟨commutes, padded⟩ := receive_comm (busy_reachable [])
  have both := commutes (replyTo 7) (replyTo 8) replies_apart
  have plain : ∀ s ∈ (busy []).slots.toList, ∀ t ∈ s, t.followUps = [] := by decide +kernel
  have passive : ∀ index t, (busy []).slot index = some t → t.Passive := by
    intro index t slot next others
    have none := plain _ (Vector.mem_toList_iff.mpr (Vector.getElem_mem index.toNat_lt)) t slot
    rw [none]
    exact nofun
  refine ⟨busy_reachable [], replies_apart, both, both.alike fun d _ t slot _ => passive _ t slot,
    by decide +kernel, ?_⟩
  have known : (Frame.parse? (replyTo 7)).toOption.map (·.header.length) = some 14 := by
    decide +kernel
  have whole : (replyTo 7).take (Frame.headerLength + (14 : UInt16).toNat) = replyTo 7 := by
    decide +kernel
  obtain ⟨frame, accepted, length⟩ := Option.map_eq_some_iff.mp known
  have parsed : Frame.parse? (replyTo 7) = .ok frame := by
    cases result : Frame.parse? (replyTo 7) with
    | error cause => simp [result, Except.toOption] at accepted
    | ok frame' =>
        rw [result, Except.toOption, Option.some.injEq] at accepted
        rw [accepted]
  have same := padded (replyTo 7) frame parsed [1, 2, 3]
  rw [length, whole] at same
  exact same

/-- The follow-up of the first errand finds a buffer only if the second one has ended before. -/
theorem exists_order_noticed : ∃ e f₁ f₂, Reachable e ∧ Frame.Apart f₁ f₂ ∧
    (e.receiveAll [f₁, f₂]).pool.available ≠ (e.receiveAll [f₂, f₁]).pool.available ∧
    (e.receiveAll [f₁, f₂]).queue ≠ (e.receiveAll [f₂, f₁]).queue ∧
    (e.receiveAll [f₁, f₂]).inFlight ≠ (e.receiveAll [f₂, f₁]).inFlight := by
  refine ⟨busy [.submit errand], replyTo 7, replyTo 8, busy_reachable _, replies_apart, ?_⟩
  decide +kernel

end Engine

end Fieldbus
