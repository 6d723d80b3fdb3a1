import Mathlib.Data.List.Forall2
import Fieldbus.Proofs.Frame.Builder

/-!
# Frames that come back

On its way round the bus a frame keeps its headers and its chain of datagrams: slaves may change
addresses, interrupts, circulating flags, payloads and work counters, and bytes may be appended.
What comes back is read as the datagrams that the slaves left.
-/

namespace Fieldbus

/-- What the bus may make of a datagram. -/
structure Datagram.Rewritten (d d' : Datagram) : Prop where
  command : d'.header.command = d.header.command
  index : d'.header.index = d.header.index
  length : d'.header.length = d.header.length
  more : d'.header.more = d.header.more
  payload : d'.payload.length = d.payload.length
  offset : d'.offset = d.offset

theorem Datagram.Rewritten.refl (d : Datagram) : d.Rewritten d := ⟨rfl, rfl, rfl, rfl, rfl, rfl⟩

/-- What the bus may make of a frame. -/
def Frame.Returns (sent received : Bytes) : Prop :=
  ∃ ds padding, List.Forall₂ Datagram.Rewritten (Frame.decoded sent) ds ∧
    received = sent.take Frame.headerLength ++ Chain.wire ds ++ padding

namespace Chain

theorem Laid.rewritten {ds ds' : List Datagram} (changed : List.Forall₂ Datagram.Rewritten ds ds')
    {offset : Nat} (laid : Laid offset ds) :
    Laid offset ds' ∧ (wire ds').length = (wire ds).length := by
  induction changed generalizing offset with
  | nil => exact ⟨laid, rfl⟩
  | @cons d d' rest rest' first others ih =>
      obtain ⟨⟨length, bound⟩, place, more, laid⟩ := laid
      have stop : d'.stop = d.stop := by
        rw [Datagram.stop, Datagram.stop, first.offset, DatagramHeader.datagramLength,
          DatagramHeader.datagramLength, first.length]
      have end_ : rest'.isEmpty = rest.isEmpty := by
        cases others <;> rfl
      obtain ⟨laid', size⟩ := ih laid
      refine ⟨⟨⟨?_, ?_⟩, first.offset.trans place, ?_, stop ▸ laid'⟩, ?_⟩
      · rw [first.length, first.payload, length]
      · rw [first.payload]
        exact bound
      · rw [first.more, more, end_]
      · simp only [wire, List.flatMap_cons, List.length_append, Datagram.length_bytes,
          first.payload] at size ⊢
        rw [size]

end Chain

namespace Frame

open Chain (wire Laid toList_laid)

theorem Returns.decoded {ethernet : EthernetHeader} {ds : List Datagram} {received : Bytes}
    (laid : Laid 0 ds) (type : ethernet.etherType = Layout.etherType)
    (size : (wire ds).length ≤ 2047)
    (back : Returns (ethernet.encode ++ sizeWord (wire ds).length ++ wire ds) received) :
    (∃ frame, parse? received = .ok frame ∧
      frame.chain.toList = (Frame.decoded received).map .ok) ∧
      List.Forall₂ Datagram.Rewritten ds (Frame.decoded received) := by
  obtain ⟨ds', padding, changed, rfl⟩ := back
  have sent := (decoded_sized laid type size []).2
  rw [List.append_nil] at sent
  rw [sent] at changed
  obtain ⟨laid', same⟩ := laid.rewritten changed
  have sixteen : (ethernet.encode ++ sizeWord (wire ds).length).length = headerLength := by
    simp [sizeWord, headerLength, Layout.ethernetHeader, Layout.frameHeader]
  have kept : (ethernet.encode ++ sizeWord (wire ds).length ++ wire ds).take headerLength =
      ethernet.encode ++ sizeWord (wire ds').length := by
    rw [← sixteen, List.take_left, same]
  obtain ⟨parsed, read⟩ := decoded_sized laid' type (same ▸ size) padding
  rw [kept, read]
  exact ⟨⟨_, parsed, toList_laid laid'⟩, changed⟩

end Frame

end Fieldbus
