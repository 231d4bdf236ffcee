import Homework.Analyzer.Packet

/-!
# What is logged of a frame

A frame by its parts, and the line that shows its addresses and ports, against what
`analyze_packet` logs. The ports are read in the byte order of the host, and in front of the
options if there are any.
-/

namespace Homework.Analyzer

set_option autoImplicit false

/-! ## Frames -/

inductive Transport where
  | tcp
  | udp
  deriving DecidableEq

namespace Transport

def number : Transport → UInt8
  | tcp => 6
  | udp => 17

def name : Transport → String
  | tcp => "TCP"
  | udp => "UDP"

def headerSize : Transport → Nat
  | tcp => 20
  | udp => 8

end Transport

/-- An Ethernet frame with the whole header of an IPv4 packet, which has up to ten words of
options, and the whole header of a TCP segment or of a UDP datagram. -/
structure Frame where
  etherDst : Vector UInt8 6
  etherSrc : Vector UInt8 6
  typeOfService : UInt8
  totalLength : Vector UInt8 2
  packetId : Vector UInt8 2
  fragmentOffset : Vector UInt8 2
  timeToLive : UInt8
  transport : Transport
  hdrChecksum : Vector UInt8 2
  srcAddr : Vector UInt8 4
  dstAddr : Vector UInt8 4
  optionWords : Fin 11
  options : Vector UInt8 (4 * optionWords)
  srcPort : Vector UInt8 2
  dstPort : Vector UInt8 2
  transportRest : Vector UInt8 (transport.headerSize - 4)
  payload : List UInt8

namespace Frame

def ihl (frame : Frame) : Nat := 5 + frame.optionWords

def etherHeader (frame : Frame) : List UInt8 :=
  frame.etherDst.toList ++ frame.etherSrc.toList ++ [0x08, 0x00]

/-- The IPv4 header up to the protocol. -/
def ipv4Start (frame : Frame) : List UInt8 :=
  [0x40 + UInt8.ofNat frame.ihl, frame.typeOfService] ++ frame.totalLength.toList ++
    frame.packetId.toList ++ frame.fragmentOffset.toList ++ [frame.timeToLive]

/-- What is behind the addresses. -/
def behindAddrs (frame : Frame) : List UInt8 :=
  frame.options.toList ++ frame.srcPort.toList ++ frame.dstPort.toList ++
    frame.transportRest.toList ++ frame.payload

def bytes (frame : Frame) : List UInt8 :=
  frame.etherHeader ++ (frame.ipv4Start ++ ([frame.transport.number] ++
    (frame.hdrChecksum.toList ++ (frame.srcAddr.toList ++ (frame.dstAddr.toList ++
      frame.behindAddrs)))))

@[simp] theorem length_etherHeader (frame : Frame) : frame.etherHeader.length = 14 := by
  simp [etherHeader]

@[simp] theorem length_ipv4Start (frame : Frame) : frame.ipv4Start.length = 9 := by
  simp [ipv4Start]

/-- What is in front of that. -/
def front (frame : Frame) : List UInt8 :=
  frame.etherHeader ++ frame.ipv4Start ++ [frame.transport.number] ++ frame.hdrChecksum.toList ++
    frame.srcAddr.toList ++ frame.dstAddr.toList

theorem bytes_eq_front (frame : Frame) : frame.bytes = frame.front ++ frame.behindAddrs := by
  simp only [bytes, front, List.append_assoc]

@[simp] theorem length_front (frame : Frame) : frame.front.length = 34 := by
  simp [front]

theorem length_behindAddrs (frame : Frame) : 4 ≤ frame.behindAddrs.length := by
  simp only [behindAddrs, List.length_append, Vector.length_toList]
  omega

end Frame

/-- The packet is the frame. What is in memory behind it is open. -/
structure Carries (pkt : RteMbuf) (frame : Frame) : Prop where
  length : pkt.pktLen.toNat = frame.bytes.length
  data : ∀ i b, frame.bytes[i]? = some b → pkt.data i = b

/-! ## The line -/

def dotted (addr : Vector UInt8 4) : List UInt8 :=
  decimal addr[0].toNat ++ ascii "." ++ decimal addr[1].toNat ++ ascii "." ++
    decimal addr[2].toNat ++ ascii "." ++ decimal addr[3].toNat

def line (srcAddr : List UInt8) (srcPort : Nat) (dstAddr : List UInt8) (dstPort : Nat)
    (proto : String) : List UInt8 :=
  srcAddr ++ ascii ":" ++ decimal srcPort ++ ascii " > " ++
    dstAddr ++ ascii ":" ++ decimal dstPort ++ ascii " proto " ++ ascii proto

/-- The addresses in dotted form, and the ports, which are stored big-endian. -/
def Frame.line (frame : Frame) : List UInt8 :=
  Analyzer.line (dotted frame.srcAddr) (beValue frame.srcPort.toList)
    (dotted frame.dstAddr) (beValue frame.dstPort.toList) frame.transport.name

theorem length_dotted_le (addr : Vector UInt8 4) : (dotted addr).length ≤ 15 := by
  have hoctet : ∀ b : UInt8, (decimal b.toNat).length ≤ 3 := by
    intro b
    have hb := b.toNat_lt
    exact length_ascii_toString_le (by decide) (by omega)
  have h₀ := hoctet addr[0]
  have h₁ := hoctet addr[1]
  have h₂ := hoctet addr[2]
  have h₃ := hoctet addr[3]
  have hdot : (ascii ".").length = 1 := rfl
  simp only [dotted, List.length_append, hdot]
  omega

theorem line_inj {src dst : List UInt8} {srcPort srcPort' dstPort dstPort' : Nat} {proto : String} :
    line src srcPort dst dstPort proto = line src srcPort' dst dstPort' proto ↔
      srcPort = srcPort' ∧ dstPort = dstPort' := by
  unfold line decimal
  simp only [List.append_assoc, List.append_cancel_left_eq]
  rw [ascii_toString_append_inj (by simp [ascii, isDigit]) (by simp [ascii, isDigit])]
  simp only [List.append_cancel_left_eq]
  rw [ascii_toString_append_inj (by simp [ascii, isDigit]) (by simp [ascii, isDigit])]
  simp

/-- `snprintf` cuts nothing off. -/
theorem message_eq_line {src dst : List UInt8} (hsrc : src.length ≤ 15) (hdst : dst.length ≤ 15)
    {srcPort dstPort : Nat} (hsrcPort : srcPort < 256 ^ 2) (hdstPort : dstPort < 256 ^ 2)
    {proto : String} (hproto : (ascii proto).length ≤ 4) :
    message src srcPort dst dstPort proto = line src srcPort dst dstPort proto := by
  have hnumber : ∀ port < 256 ^ 2, (decimal port).length ≤ 5 := by
    intro port hport
    exact length_ascii_toString_le (by decide) (by omega)
  have hfirst := hnumber srcPort hsrcPort
  have hsecond := hnumber dstPort hdstPort
  have hcolon : (ascii ":").length = 1 := rfl
  have harrow : (ascii " > ").length = 3 := rfl
  have hword : (ascii " proto ").length = 7 := rfl
  apply List.take_of_length_le
  simp only [List.length_append, hcolon, harrow, hword, logMsgstrlen]
  omega

theorem be32ToIpString_eq (addr : Vector UInt8 4) :
    be32ToIpString (leValue addr.toList) inetAddrstrlen = dotted addr := by
  have hhost : ntohl (leValue addr.toList) = leValue addr.toList.reverse := by
    have hswap := byteSwap_leValue addr.toList
    rwa [Vector.length_toList] at hswap
  have hoctet : ∀ i (hi : i < 4), (leValue addr.toList.reverse >>> (8 * i)) &&& 0xFF =
      addr[3 - i].toNat := by
    intro i hi
    rw [leValue_shiftRight_and (by simpa using hi)]
    simp
  have h₃ := hoctet 3 (by decide)
  have h₂ := hoctet 2 (by decide)
  have h₁ := hoctet 1 (by decide)
  have h₀ := hoctet 0 (by decide)
  have hfits := length_dotted_le addr
  unfold be32ToIpString
  dsimp only
  rw [hhost]
  rw [Nat.mul_zero, Nat.shiftRight_zero] at h₀
  rw [h₀, h₁, h₂, h₃]
  apply List.take_of_length_le
  exact hfits

/-! ## Reading the frame -/

namespace Carries
variable {pkt : RteMbuf} {frame : Frame}

theorem bytes_eq_take (hpkt : Carries pkt frame) {front back : List UInt8}
    (heq : frame.bytes = front ++ back) {size : Nat} (hsize : size ≤ back.length) :
    pkt.bytes front.length size = back.take size := by
  apply List.ext_getElem
  · simp [RteMbuf.bytes, hsize]
  · intro i hi hi'
    rw [List.length_take] at hi'
    simp only [RteMbuf.bytes, List.getElem_map, List.getElem_range, List.getElem_take]
    apply hpkt.data
    rw [heq, List.getElem?_append_right (Nat.le_add_right _ _), Nat.add_sub_cancel_left]
    exact List.getElem?_eq_getElem (by omega)

/-- A part of the frame is read where it stands. -/
theorem bytes_eq (hpkt : Carries pkt frame) {front part back : List UInt8}
    (heq : frame.bytes = front ++ (part ++ back)) :
    pkt.bytes front.length part.length = part := by
  rw [hpkt.bytes_eq_take heq (by simp), List.take_left]

end Carries

section Read
variable {pkt : RteMbuf} {frame : Frame} (hpkt : Carries pkt frame)
include hpkt

theorem bytes_etherType : pkt.bytes 12 2 = [0x08, 0x00] := by
  have hread := @Carries.bytes_eq pkt frame hpkt
    (frame.etherDst.toList ++ frame.etherSrc.toList) [0x08, 0x00] _ (List.append_assoc ..)
  simpa using hread

theorem bytes_nextProtoId : pkt.bytes 23 1 = [frame.transport.number] := by
  have hread := @Carries.bytes_eq pkt frame hpkt (frame.etherHeader ++ frame.ipv4Start)
    [frame.transport.number] _ (List.append_assoc ..).symm
  simpa using hread

theorem bytes_srcAddr : pkt.bytes 26 4 = frame.srcAddr.toList := by
  have hread := @Carries.bytes_eq pkt frame hpkt
    (frame.etherHeader ++ frame.ipv4Start ++ [frame.transport.number] ++ frame.hdrChecksum.toList)
    frame.srcAddr.toList (frame.dstAddr.toList ++ frame.behindAddrs)
    (by simp only [Frame.bytes, List.append_assoc])
  simpa using hread

theorem bytes_dstAddr : pkt.bytes 30 4 = frame.dstAddr.toList := by
  have hread := @Carries.bytes_eq pkt frame hpkt
    (frame.etherHeader ++ frame.ipv4Start ++ [frame.transport.number] ++ frame.hdrChecksum.toList ++
      frame.srcAddr.toList)
    frame.dstAddr.toList frame.behindAddrs (by simp only [Frame.bytes, List.append_assoc])
  simpa using hread

theorem bytes_ports : pkt.bytes 34 2 = frame.behindAddrs.take 2 ∧
    pkt.bytes 36 2 = (frame.behindAddrs.drop 2).take 2 := by
  have hlen := frame.length_behindAddrs
  constructor
  · have hread := @Carries.bytes_eq_take pkt frame hpkt frame.front frame.behindAddrs
      frame.bytes_eq_front 2 (by omega)
    simpa using hread
  · have hfront : frame.bytes =
        (frame.front ++ frame.behindAddrs.take 2) ++ frame.behindAddrs.drop 2 := by
      rw [List.append_assoc, List.take_append_drop, frame.bytes_eq_front]
    have hread := @Carries.bytes_eq_take pkt frame hpkt _ _ hfront 2
      (by rw [List.length_drop]; omega)
    have htwo : (frame.behindAddrs.take 2).length = 2 := List.length_take_of_le (by omega)
    simpa [htwo] using hread

theorem logMsg_eq_message (stats : TrafficStats) :
    (analyzePacket packedHeaders stats pkt).logMsg =
      message (be32ToIpString (leValue (pkt.bytes 26 4)) inetAddrstrlen) (leValue (pkt.bytes 34 2))
        (be32ToIpString (leValue (pkt.bytes 30 4)) inetAddrstrlen) (leValue (pkt.bytes 36 2))
        frame.transport.name := by
  have hether : leValue (pkt.bytes 12 2) = byteSwap 2 0x0800 := by
    rw [bytes_etherType hpkt]
    rfl
  have hid := congrArg leValue (bytes_nextProtoId hpkt)
  cases htransport : frame.transport with
  | tcp =>
    have htcp : leValue (pkt.bytes 23 1) = ipprotoTcp := by
      rw [hid, htransport]
      rfl
    simp [analyzePacket, RteMbuf.load, Field.after, packedHeaders, hether, htcp, Transport.name]
  | udp =>
    have hudp : leValue (pkt.bytes 23 1) = ipprotoUdp := by
      rw [hid, htransport]
      rfl
    have hne : ipprotoUdp ≠ ipprotoTcp := by decide
    simp [analyzePacket, RteMbuf.load, Field.after, packedHeaders, hether, hudp, hne,
      Transport.name]

/-- The addresses are right, and the ports are the next four bytes, read as the host does. -/
theorem logMsg_eq (stats : TrafficStats) : (analyzePacket packedHeaders stats pkt).logMsg =
    line (dotted frame.srcAddr) (leValue (frame.behindAddrs.take 2)) (dotted frame.dstAddr)
      (leValue ((frame.behindAddrs.drop 2).take 2)) frame.transport.name := by
  obtain ⟨hsrcPort, hdstPort⟩ := bytes_ports hpkt
  have hport : ∀ bytes : List UInt8, leValue (bytes.take 2) < 256 ^ 2 := by
    intro bytes
    have hlen : (bytes.take 2).length ≤ 2 := List.length_take_le ..
    exact (leValue_lt _).trans_le (Nat.pow_le_pow_right (by decide) hlen)
  rw [logMsg_eq_message hpkt, bytes_srcAddr hpkt, bytes_dstAddr hpkt, be32ToIpString_eq,
    be32ToIpString_eq, hsrcPort, hdstPort]
  have hname : (ascii frame.transport.name).length ≤ 4 := by
    cases frame.transport <;> decide
  exact message_eq_line (length_dotted_le _) (length_dotted_le _) (hport _) (hport _) hname

end Read

theorem take_four_eq_iff {bytes xs ys : List UInt8} (hbytes : 4 ≤ bytes.length)
    (hxs : xs.length = 2) :
    bytes.take 4 = xs ++ ys ↔ bytes.take 2 = xs ∧ (bytes.drop 2).take 2 = ys := by
  have htake : bytes.take 4 = bytes.take 2 ++ (bytes.drop 2).take 2 :=
    @List.take_add _ bytes 2 2
  have htwo : (bytes.take 2).length = xs.length := by
    rw [hxs, List.length_take_of_le (by omega)]
  rw [htake]
  constructor
  · intro h
    exact List.append_inj h htwo
  · rintro ⟨rfl, rfl⟩
    rfl

theorem leValue_eq_beValue_iff {bytes : List UInt8} (hbytes : bytes.length = 2)
    (port : Vector UInt8 2) :
    leValue bytes = beValue port.toList ↔ bytes = port.toList.reverse := by
  constructor
  · intro h
    apply leValue_inj _ h
    simp [hbytes]
  · rintro rfl
    rfl

/-- The ports come out right if the next four bytes hold them in the other order: without
options both bytes of a port are the same, and options have to begin with these bytes. -/
theorem line_is_logged_iff {dpdk : Headers} (hdpdk : dpdk = packedHeaders) {pkt : RteMbuf}
    {frame : Frame} (hpkt : Carries pkt frame) (stats : TrafficStats) :
    (analyzePacket dpdk stats pkt).logMsg = frame.line ↔ frame.behindAddrs.take 4 =
      frame.srcPort.toList.reverse ++ frame.dstPort.toList.reverse := by
  have hlen := frame.length_behindAddrs
  have hsrc : (frame.behindAddrs.take 2).length = 2 := List.length_take_of_le (by omega)
  have hdst : ((frame.behindAddrs.drop 2).take 2).length = 2 := by
    apply List.length_take_of_le
    rw [List.length_drop]
    omega
  rw [hdpdk, logMsg_eq hpkt, Frame.line, line_inj, leValue_eq_beValue_iff hsrc,
    leValue_eq_beValue_iff hdst, take_four_eq_iff hlen (by simp)]

/-- A segment without options and without data, from 10.0.0.1 to 10.0.0.2. -/
def segment (srcPort dstPort : Vector UInt8 2) : Frame where
  etherDst := #v[8, 0, 39, 0, 0, 2]
  etherSrc := #v[8, 0, 39, 0, 0, 1]
  typeOfService := 0
  totalLength := #v[0, 40]
  packetId := #v[0, 1]
  fragmentOffset := #v[0x40, 0]
  timeToLive := 64
  transport := .tcp
  hdrChecksum := #v[0, 0]
  srcAddr := #v[10, 0, 0, 1]
  dstAddr := #v[10, 0, 0, 2]
  optionWords := 0
  options := #v[]
  srcPort
  dstPort
  transportRest := Vector.replicate 16 0
  payload := []

def received (frame : Frame) : RteMbuf where
  pktLen := UInt32.ofNat frame.bytes.length
  data i := frame.bytes.getD i 0

theorem carries_received {frame : Frame} (h : frame.bytes.length < 2 ^ 32) :
    Carries (received frame) frame where
  length := by
    rw [received, UInt32.toNat_ofNat', Nat.mod_eq_of_lt h]
  data i b hb := by
    dsimp only [received]
    rw [List.getD_eq_getElem?_getD, hb, Option.getD_some]

theorem line_is_logged_iff_of_257 :
    (analyzePacket packedHeaders zeroStats (received (segment #v[1, 1] #v[80, 80]))).logMsg =
      (segment #v[1, 1] #v[80, 80]).line :=
  (line_is_logged_iff rfl (carries_received (by decide)) zeroStats).mpr (by decide)

/-- Port 80 is logged as 20480. -/
theorem port_80_is_swapped :
    (analyzePacket packedHeaders zeroStats (received (segment #v[0, 80] #v[1, 1]))).logMsg ≠
      (segment #v[0, 80] #v[1, 1]).line := by
  have hpkt : Carries (received (segment #v[0, 80] #v[1, 1])) (segment #v[0, 80] #v[1, 1]) :=
    carries_received (by decide)
  rw [logMsg_eq hpkt, Frame.line]
  intro h
  have hports := (line_inj.mp h).1
  revert hports
  decide

end Homework.Analyzer
