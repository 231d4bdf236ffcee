import Homework.Shared.ByteOrder
import Homework.Shared.CString

/-!
# Analyzing a packet

`analyze_packet` of `dpdk-analyzer/main.c` on a little-endian host. The types of the headers are
DPDK's; where their fields are is a parameter. A packet is what stands in memory from where
`rte_pktmbuf_mtod` points to, also behind its end.
-/

namespace Homework.Analyzer

set_option autoImplicit false

/-! ## The headers -/

/-- A field of a header, which is read as a number of the host. -/
structure Field where
  offset : Nat
  size : Nat

/-- The field of a header that begins at `base`. -/
def Field.after (field : Field) (base : Nat) : Field := { field with offset := base + field.offset }

def Field.offsets (field : Field) : List Nat := List.range' field.offset field.size

/-- The size of DPDK's header types and those of their fields that are read, and what they are
compared with. -/
structure Headers where
  rteEtherTypeIpv4 : Nat
  rteCpuToBe16 : Nat → Nat
  etherSize : Nat
  etherType : Field
  ipv4Size : Nat
  nextProtoId : Field
  ipv4SrcAddr : Field
  ipv4DstAddr : Field
  tcpSrcPort : Field
  tcpDstPort : Field
  udpSrcPort : Field
  udpDstPort : Field

/-- As DPDK documents them: packed, with the fields in the order of the protocols. -/
def packedHeaders : Headers where
  rteEtherTypeIpv4 := 0x0800
  rteCpuToBe16 := byteSwap 2
  etherSize := 14
  etherType := ⟨12, 2⟩
  ipv4Size := 20
  nextProtoId := ⟨9, 1⟩
  ipv4SrcAddr := ⟨12, 4⟩
  ipv4DstAddr := ⟨16, 4⟩
  tcpSrcPort := ⟨0, 2⟩
  tcpDstPort := ⟨2, 2⟩
  udpSrcPort := ⟨0, 2⟩
  udpDstPort := ⟨2, 2⟩

def ipprotoIcmp : Nat := 1
def ipprotoTcp : Nat := 6
def ipprotoUdp : Nat := 17

def ntohl (x : Nat) : Nat := byteSwap 4 x

/-! ## The packet -/

structure RteMbuf where
  pktLen : UInt32
  data : Nat → UInt8

namespace RteMbuf

def bytes (pkt : RteMbuf) (offset size : Nat) : List UInt8 :=
  (List.range size).map fun i => pkt.data (offset + i)

def load (pkt : RteMbuf) (field : Field) : Nat := leValue (pkt.bytes field.offset field.size)

end RteMbuf

/-! ## The message -/

def logMsgstrlen : Nat := 2048
def inetAddrstrlen : Nat := 16

/-- What `snprintf` leaves of a text in an array of this size. -/
def snprintf (size : Nat) (text : List UInt8) : List UInt8 := text.take (size - 1)

def decimal (n : Nat) : List UInt8 := ascii (toString n)

def be32ToIpString (beIp strSize : Nat) : List UInt8 :=
  let hostIp := ntohl beIp
  snprintf strSize (decimal ((hostIp >>> 24) &&& 0xFF) ++ ascii "." ++
    decimal ((hostIp >>> 16) &&& 0xFF) ++ ascii "." ++
    decimal ((hostIp >>> 8) &&& 0xFF) ++ ascii "." ++ decimal (hostIp &&& 0xFF))

/-- The four formats, which differ in the name of the protocol. -/
def message (srcAddr : List UInt8) (srcPort : Nat) (dstAddr : List UInt8) (dstPort : Nat)
    (proto : String) : List UInt8 :=
  snprintf logMsgstrlen (srcAddr ++ ascii ":" ++ decimal srcPort ++ ascii " > " ++
    dstAddr ++ ascii ":" ++ decimal dstPort ++ ascii " proto " ++ ascii proto)

/-! ## Analysis -/

structure TrafficStats where
  totalPackets : UInt64
  totalBytes : UInt64
  ethPackets : UInt64
  ipPackets : UInt64
  tcpPackets : UInt64
  udpPackets : UInt64
  icmpPackets : UInt64
  otherPackets : UInt64
  deriving DecidableEq

def zeroStats : TrafficStats := ⟨0, 0, 0, 0, 0, 0, 0, 0⟩

/-- The counters after a packet, the message that is logged, and the fields that were read. -/
structure Analysis where
  stats : TrafficStats
  logMsg : List UInt8
  reads : List Field

def analyzePacket (dpdk : Headers) (stats : TrafficStats) (pkt : RteMbuf) : Analysis :=
  let stats := { stats with
    totalPackets := stats.totalPackets + 1
    totalBytes := stats.totalBytes + pkt.pktLen.toUInt64 }
  if pkt.load dpdk.etherType = dpdk.rteCpuToBe16 dpdk.rteEtherTypeIpv4 then
    let stats := { stats with ipPackets := stats.ipPackets + 1 }
    let ipHdr := dpdk.etherSize
    let srcAddr := be32ToIpString (pkt.load (dpdk.ipv4SrcAddr.after ipHdr)) inetAddrstrlen
    let dstAddr := be32ToIpString (pkt.load (dpdk.ipv4DstAddr.after ipHdr)) inetAddrstrlen
    let nextProtoId := pkt.load (dpdk.nextProtoId.after ipHdr)
    let reads := [dpdk.etherType, dpdk.ipv4SrcAddr.after ipHdr, dpdk.ipv4DstAddr.after ipHdr,
      dpdk.nextProtoId.after ipHdr]
    -- the transport header is taken to begin behind an IPv4 header without options
    let transport := ipHdr + dpdk.ipv4Size
    if nextProtoId = ipprotoTcp then
      { stats := { stats with tcpPackets := stats.tcpPackets + 1 }
        logMsg := message srcAddr (pkt.load (dpdk.tcpSrcPort.after transport))
          dstAddr (pkt.load (dpdk.tcpDstPort.after transport)) "TCP"
        reads := reads ++ [dpdk.tcpSrcPort.after transport, dpdk.tcpDstPort.after transport] }
    else if nextProtoId = ipprotoUdp then
      { stats := { stats with udpPackets := stats.udpPackets + 1 }
        logMsg := message srcAddr (pkt.load (dpdk.udpSrcPort.after transport))
          dstAddr (pkt.load (dpdk.udpDstPort.after transport)) "UDP"
        reads := reads ++ [dpdk.udpSrcPort.after transport, dpdk.udpDstPort.after transport] }
    else if nextProtoId = ipprotoIcmp then
      { stats := { stats with icmpPackets := stats.icmpPackets + 1 }
        logMsg := message srcAddr 0 dstAddr 0 "ICMP"
        reads := reads }
    else
      { stats := { stats with otherPackets := stats.otherPackets + 1 }
        logMsg := message srcAddr 0 dstAddr 0 "???"
        reads := reads }
  else
    { stats := { stats with otherPackets := stats.otherPackets + 1 }
      logMsg := snprintf logMsgstrlen (ascii "???")
      reads := [dpdk.etherType] }

end Homework.Analyzer
