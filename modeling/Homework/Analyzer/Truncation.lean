import Homework.Analyzer.Decoding

/-!
# Packets that end too early

`analyze_packet` does not look at the length of a packet before it reads. It reads up to the end
of the Ethernet header, of the IPv4 header or of the ports, as the fields in front of that say.
-/

namespace Homework.Analyzer

set_option autoImplicit false

/-- No byte behind the end of the packet is read. -/
def ReadsInside (dpdk : Headers) (stats : TrafficStats) (pkt : RteMbuf) : Prop :=
  ∀ field ∈ (analyzePacket dpdk stats pkt).reads, ∀ offset ∈ field.offsets,
    offset < pkt.pktLen.toNat

def IsIpv4 (pkt : RteMbuf) : Prop := pkt.bytes 12 2 = [0x08, 0x00]

def HasPorts (pkt : RteMbuf) : Prop := pkt.data 23 = 6 ∨ pkt.data 23 = 17

instance (pkt : RteMbuf) : Decidable (IsIpv4 pkt) := inferInstanceAs (Decidable (_ = _))

instance (pkt : RteMbuf) : Decidable (HasPorts pkt) := inferInstanceAs (Decidable (_ ∨ _))

theorem etherType_eq_iff (pkt : RteMbuf) :
    leValue (pkt.bytes 12 2) = byteSwap 2 0x0800 ↔ IsIpv4 pkt := by
  have hipv4 : byteSwap 2 0x0800 = leValue [0x08, 0x00] := rfl
  rw [hipv4]
  constructor
  · intro h
    exact leValue_inj (by simp [RteMbuf.bytes]) h
  · intro h
    exact congrArg leValue h

theorem nextProtoId_eq (pkt : RteMbuf) : leValue (pkt.bytes 23 1) = (pkt.data 23).toNat := by
  simp [RteMbuf.bytes, leValue]

theorem reads_eq (stats : TrafficStats) (pkt : RteMbuf) :
    (analyzePacket packedHeaders stats pkt).reads =
      if IsIpv4 pkt then [⟨12, 2⟩, ⟨26, 4⟩, ⟨30, 4⟩, ⟨23, 1⟩] ++
        if HasPorts pkt then [⟨34, 2⟩, ⟨36, 2⟩] else []
      else [⟨12, 2⟩] := by
  have hports : HasPorts pkt ↔
      leValue (pkt.bytes 23 1) = ipprotoTcp ∨ leValue (pkt.bytes 23 1) = ipprotoUdp := by
    rw [nextProtoId_eq]
    exact or_congr UInt8.toNat_inj.symm UInt8.toNat_inj.symm
  have hudp : ipprotoUdp ≠ ipprotoTcp := by decide
  simp only [analyzePacket, RteMbuf.load, Field.after, packedHeaders, Nat.reduceAdd,
    etherType_eq_iff, hports]
  by_cases hipv4 : IsIpv4 pkt
  · simp only [if_pos hipv4]
    by_cases htcp : leValue (pkt.bytes 23 1) = ipprotoTcp
    · simp only [htcp, true_or, if_true]
    · by_cases hproto : leValue (pkt.bytes 23 1) = ipprotoUdp
      · simp only [hproto, if_neg hudp, or_true, if_true]
      · simp only [htcp, hproto, or_self, if_false, List.append_nil]
        by_cases hicmp : leValue (pkt.bytes 23 1) = ipprotoIcmp
        · simp only [hicmp, if_true]
        · simp only [hicmp, if_false]
  · simp only [if_neg hipv4]

theorem offsets_lt_iff {field : Field} (hsize : 0 < field.size) (n : Nat) :
    (∀ offset ∈ field.offsets, offset < n) ↔ field.offset + field.size ≤ n := by
  unfold Field.offsets
  constructor
  · intro h
    have hlast := h (field.offset + (field.size - 1)) (by
      rw [List.mem_range'_1]
      omega)
    omega
  · intro h offset hoffset
    rw [List.mem_range'_1] at hoffset
    omega

theorem readsInside_packed_iff (stats : TrafficStats) (pkt : RteMbuf) :
    ReadsInside packedHeaders stats pkt ↔ 14 ≤ pkt.pktLen.toNat ∧
      (IsIpv4 pkt → 34 ≤ pkt.pktLen.toNat ∧ (HasPorts pkt → 38 ≤ pkt.pktLen.toNat)) := by
  have hend (offset size : Nat) (hsize : 0 < size) :
      (∀ i ∈ Field.offsets ⟨offset, size⟩, i < pkt.pktLen.toNat) ↔
        offset + size ≤ pkt.pktLen.toNat := offsets_lt_iff hsize _
  rw [ReadsInside, reads_eq]
  by_cases hipv4 : IsIpv4 pkt
  · rw [if_pos hipv4, List.forall_mem_append, imp_iff_right hipv4]
    by_cases hports : HasPorts pkt
    · rw [if_pos hports, imp_iff_right hports]
      simp (disch := decide) only [List.forall_mem_cons, List.not_mem_nil, hend, IsEmpty.forall_iff,
        implies_true, and_true]
      omega
    · rw [if_neg hports, iff_false_intro hports]
      simp (disch := decide) only [List.forall_mem_cons, List.not_mem_nil, hend, IsEmpty.forall_iff,
        implies_true, and_true]
      omega
  · rw [if_neg hipv4]
    simp (disch := decide) only [List.forall_mem_cons, List.not_mem_nil, hend, IsEmpty.forall_iff,
      implies_true, and_true, hipv4]

/-- The packet has to go as far as its own fields say. -/
theorem reads_inside_iff {dpdk : Headers} (hdpdk : dpdk = packedHeaders) (stats : TrafficStats)
    (pkt : RteMbuf) :
    ReadsInside dpdk stats pkt ↔ 14 ≤ pkt.pktLen.toNat ∧
      (IsIpv4 pkt → 34 ≤ pkt.pktLen.toNat ∧ (HasPorts pkt → 38 ≤ pkt.pktLen.toNat)) := by
  rw [hdpdk]
  exact readsInside_packed_iff stats pkt

theorem reads_inside_iff_of_segment :
    ReadsInside packedHeaders zeroStats (received (segment #v[0, 80] #v[1, 1])) :=
  (reads_inside_iff rfl zeroStats _).mpr (by decide)

/-- An IPv4 header that announces a TCP segment, and nothing behind it. -/
def headerOnly : RteMbuf := { received (segment #v[0, 80] #v[1, 1]) with pktLen := 34 }

theorem header_only_is_read_past : ¬ ReadsInside packedHeaders zeroStats headerOnly := by
  rw [readsInside_packed_iff]
  decide

end Homework.Analyzer
