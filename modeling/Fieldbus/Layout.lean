/-!
# Sizes and fixed numbers of the wire format

A frame is an Ethernet header, a frame header and a chain of datagrams. A datagram is a header,
its payload and a work counter. Sizes are in bytes.
-/

namespace Fieldbus.Layout

def etherType : UInt16 := 0x88A4

def udpPort : UInt16 := 0x88A4

def ethernetHeader : Nat := 14

def frameHeader : Nat := 2

def datagramHeader : Nat := 10

def workCounter : Nat := 2

def mailboxHeader : Nat := 6

/-- The longest Ethernet frame, without its check sequence. -/
def ethernetFrame : Nat := 1518

def defaultMtu : Nat := 1500

def defaultBuffer : Nat := 1600

def indexCount : Nat := 256

/-- The length field of a datagram has eleven bits. -/
def maxPayload : Nat := 2047

/-- Sizes and counters are held in words of this many values. -/
def wordCount : Nat := UInt64.size

end Fieldbus.Layout
