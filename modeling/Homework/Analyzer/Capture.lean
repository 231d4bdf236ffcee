import Homework.Analyzer.Decoding
import Homework.Logging.LogFile

/-!
# The capture loop

The loop of `main` in `dpdk-analyzer/main.c`, which logs a line for every packet with the logger
of `hw07-logger` and counts it, and looks at `force_quit` between two bursts. The counters that are
printed at the end can be counted again in the lines of `log.txt`.
-/

namespace Homework.Analyzer

open Logging
set_option autoImplicit false

/-! ## The loop -/

/-- The packets of a call of `rte_eth_rx_burst`, and whether a signal has set `force_quit` by the
time the loop looks at it again. -/
structure Burst where
  pkts : List RteMbuf
  forceQuit : Bool

/-- The counters, and what is in `log.txt`. -/
structure Capture where
  stats : TrafficStats
  log : List UInt8

/-- `logger_info` in `analyze_packet`. `file` is what `__FILE__` stands for. -/
def loggerInfo (file message : List UInt8) : Call where
  logType := info
  line := 158
  func := ascii "analyze_packet"
  file := file
  message := message
  strings := none

section Loop
variable (dpdk : Headers) (logger : Option Logger) (file : List UInt8)

def handlePacket (c : Capture) (pkt : RteMbuf) : Capture where
  stats := (analyzePacket dpdk c.stats pkt).stats
  log := c.log ++ left logger (loggerInfo file (analyzePacket dpdk c.stats pkt).logMsg)

/-- What there is when the loop ends, or `none` if it goes on behind these bursts. -/
def captureLoop (forceQuit : Bool) (c : Capture) : List Burst → Option Capture
  | [] => if forceQuit then some c else none
  | burst :: bursts =>
    if forceQuit then some c
    else captureLoop burst.forceQuit (run (handlePacket dpdk logger file) c burst.pkts) bursts

end Loop

/-! ## The lines -/

/-- How the messages end that are logged. -/
inductive Ending where
  | tcp
  | udp
  | icmp
  | unknownProto
  | notIp
  deriving DecidableEq

def Ending.text : Ending → List UInt8
  | tcp => ascii " proto TCP"
  | udp => ascii " proto UDP"
  | icmp => ascii " proto ICMP"
  | unknownProto => ascii " proto ???"
  | notIp => ascii "\t???"

def endsAs (e : Ending) (line : List UInt8) : Bool := e.text.isSuffixOf line

theorem endsAs_iff {e : Ending} {line : List UInt8} : endsAs e line = true ↔ e.text <:+ line :=
  List.isSuffixOf_iff_suffix

theorem ending_of_suffix {e e' : Ending} (h : e.text <:+ e'.text) : e = e' := by
  cases e <;> cases e' <;> first | rfl | exact absurd h (by decide)

/-- A line ends in one way. -/
theorem ending_unique {e e' : Ending} {line : List UInt8} (h : e.text <:+ line)
    (h' : e'.text <:+ line) : e = e' := by
  rcases Nat.le_total e.text.length e'.text.length with hle | hle
  · exact ending_of_suffix (List.suffix_of_suffix_length_le h h' hle)
  · exact (ending_of_suffix (List.suffix_of_suffix_length_le h' h hle)).symm

/-- The counters, counted in the lines. -/
def tally (lines : List (List UInt8)) (bytes : Nat) : TrafficStats where
  totalPackets := .ofNat lines.length
  totalBytes := .ofNat bytes
  ethPackets := 0
  ipPackets := .ofNat (lines.countP fun line => endsAs .tcp line || endsAs .udp line ||
    endsAs .icmp line || endsAs .unknownProto line)
  tcpPackets := .ofNat (lines.countP (endsAs .tcp))
  udpPackets := .ofNat (lines.countP (endsAs .udp))
  icmpPackets := .ofNat (lines.countP (endsAs .icmp))
  otherPackets := .ofNat (lines.countP fun line => endsAs .unknownProto line || endsAs .notIp line)

def count (stats : TrafficStats) (e : Ending) (bytes : UInt64) : TrafficStats where
  totalPackets := stats.totalPackets + 1
  totalBytes := stats.totalBytes + bytes
  ethPackets := stats.ethPackets
  ipPackets := stats.ipPackets + if e = .notIp then 0 else 1
  tcpPackets := stats.tcpPackets + if e = .tcp then 1 else 0
  udpPackets := stats.udpPackets + if e = .udp then 1 else 0
  icmpPackets := stats.icmpPackets + if e = .icmp then 1 else 0
  otherPackets := stats.otherPackets + if e = .unknownProto ∨ e = .notIp then 1 else 0

theorem endsAs_eq {e : Ending} {line : List UInt8} (h : e.text <:+ line) (e' : Ending) :
    endsAs e' line = decide (e' = e) := by
  rw [Bool.eq_iff_iff, endsAs_iff, decide_eq_true_iff]
  constructor
  · exact fun h' => ending_unique h' h
  · rintro rfl
    exact h

theorem tally_concat {e : Ending} {line : List UInt8} (h : e.text <:+ line)
    (lines : List (List UInt8)) (bytes n : Nat) :
    tally (lines ++ [line]) (bytes + n) = count (tally lines bytes) e (.ofNat n) := by
  simp only [tally, count, List.countP_append, List.countP_singleton, List.length_append,
    List.length_singleton, UInt64.ofNat_add, endsAs_eq h]
  cases e <;> simp

/-! ## The line of a packet -/

/-- What the logger writes in front of a message. -/
def lineStart (file : List UInt8) : List UInt8 :=
  ascii "[INFO ]\t" ++ file ++ ascii ":158\tfunction 'analyze_packet'\t\t"

def logLine (dpdk : Headers) (file : List UInt8) (pkt : RteMbuf) : List UInt8 :=
  lineStart file ++ (analyzePacket dpdk zeroStats pkt).logMsg

theorem left_loggerInfo (file message : List UInt8) :
    left (some ⟨true⟩) (loggerInfo file message) = lineStart file ++ message ++ [10] := by
  have hline : ascii (toString (158 : Int)) = ascii "158" := rfl
  have hcolon : ascii ":" ++ (ascii "158" ++ (ascii "\tfunction '" ++ (ascii "analyze_packet" ++
      ascii "'\t\t"))) = ascii ":158\tfunction 'analyze_packet'\t\t" := by decide
  have htexts : texts (loggerInfo file message) = [record (loggerInfo file message)] := rfl
  have hprefix : logPrefix info ++ ascii "\t" = ascii "[INFO ]\t" := by decide
  have hend : ascii "\n" = [10] := rfl
  rw [left, htexts, lineStart, ← hcolon, ← hprefix, ← hend]
  simp only [record, loggerInfo, hline, List.flatten_singleton, List.append_assoc, if_true]

theorem logMsg_eq_zeroStats (dpdk : Headers) (stats : TrafficStats) (pkt : RteMbuf) :
    (analyzePacket dpdk stats pkt).logMsg = (analyzePacket dpdk zeroStats pkt).logMsg := by
  unfold analyzePacket
  dsimp only
  split
  · split
    · rfl
    · split
      · rfl
      · split <;> rfl
  · rfl

theorem load_lt (pkt : RteMbuf) (field : Field) : pkt.load field < 256 ^ field.size := by
  have hlt := leValue_lt (pkt.bytes field.offset field.size)
  rwa [RteMbuf.bytes, List.length_map, List.length_range] at hlt

theorem length_be32ToIpString_le (beIp : Nat) :
    (be32ToIpString beIp inetAddrstrlen).length ≤ 15 := List.length_take_le ..

theorem newline_notMem_decimal (n : Nat) : 10 ∉ decimal n := by
  intro h
  exact absurd (isDigit_of_mem_ascii_toString h) (by decide)

theorem newline_notMem_be32ToIpString (beIp : Nat) :
    10 ∉ be32ToIpString beIp inetAddrstrlen := by
  intro h
  have hdot : (10 : UInt8) ∉ ascii "." := by decide
  have hmem := List.mem_of_mem_take h
  simp only [List.mem_append, newline_notMem_decimal, hdot, or_self] at hmem

/-- An IPv4 packet is logged with the name of its protocol at the end. -/
theorem message_suffix {srcAddr dstAddr srcPort dstPort : Nat} {proto : String} {e : Ending}
    {front : List UInt8} (he : e.text = ascii " proto " ++ ascii proto)
    (hproto : (ascii proto).length ≤ 4) (hsrcPort : srcPort < 256 ^ 2)
    (hdstPort : dstPort < 256 ^ 2) :
    e.text <:+ front ++ message (be32ToIpString srcAddr inetAddrstrlen) srcPort
      (be32ToIpString dstAddr inetAddrstrlen) dstPort proto := by
  rw [message_eq_line (length_be32ToIpString_le srcAddr) (length_be32ToIpString_le dstAddr) hsrcPort
    hdstPort hproto, line, List.append_assoc, ← he, ← List.append_assoc]
  exact List.suffix_append _ _

theorem newline_notMem_message {srcAddr dstAddr srcPort dstPort : Nat} {proto : String}
    (hproto : 10 ∉ ascii proto) :
    10 ∉ message (be32ToIpString srcAddr inetAddrstrlen) srcPort
      (be32ToIpString dstAddr inetAddrstrlen) dstPort proto := by
  intro h
  have hcolon : (10 : UInt8) ∉ ascii ":" := by decide
  have harrow : (10 : UInt8) ∉ ascii " > " := by decide
  have hword : (10 : UInt8) ∉ ascii " proto " := by decide
  have hmem := List.mem_of_mem_take h
  simp only [List.mem_append, newline_notMem_decimal, newline_notMem_be32ToIpString, hcolon,
    harrow, hword, hproto, or_self] at hmem

theorem notIp_suffix (file : List UInt8) :
    Ending.notIp.text <:+ lineStart file ++ snprintf logMsgstrlen (ascii "???") := by
  have htab : ascii ":158\tfunction 'analyze_packet'\t\t" =
      ascii ":158\tfunction 'analyze_packet'\t" ++ ascii "\t" := by decide
  have hwhole : snprintf logMsgstrlen (ascii "???") = ascii "???" := by decide
  have htext : Ending.notIp.text = ascii "\t" ++ ascii "???" := by decide
  rw [hwhole, htext, lineStart, htab, ← List.append_assoc, List.append_assoc]
  exact List.suffix_append _ _

/-- A packet is counted as its line says. -/
theorem analyzePacket_spec (file : List UInt8) (stats : TrafficStats) (pkt : RteMbuf) :
    10 ∉ (analyzePacket packedHeaders stats pkt).logMsg ∧
    ∃ e : Ending, e.text <:+ lineStart file ++ (analyzePacket packedHeaders stats pkt).logMsg ∧
      (analyzePacket packedHeaders stats pkt).stats = count stats e pkt.pktLen.toUInt64 := by
  have hport : ∀ field : Field, field.size = 2 → pkt.load field < 256 ^ 2 := by
    intro field hsize
    have hlt := load_lt pkt field
    rwa [hsize] at hlt
  have hzero : 0 < 256 ^ 2 := by decide
  unfold analyzePacket
  dsimp only
  split
  · split
    · dsimp only
      exact ⟨newline_notMem_message (by decide), .tcp,
        message_suffix (by decide) (by decide) (hport _ rfl) (hport _ rfl), by simp [count]⟩
    split
    · dsimp only
      exact ⟨newline_notMem_message (by decide), .udp,
        message_suffix (by decide) (by decide) (hport _ rfl) (hport _ rfl), by simp [count]⟩
    split
    · dsimp only
      exact ⟨newline_notMem_message (by decide), .icmp,
        message_suffix (by decide) (by decide) hzero hzero, by simp [count]⟩
    · dsimp only
      exact ⟨newline_notMem_message (by decide), .unknownProto,
        message_suffix (by decide) (by decide) hzero hzero, by simp [count]⟩
  · dsimp only
    exact ⟨by decide, .notIp, notIp_suffix file, by simp [count]⟩

/-! ## A whole capture -/

theorem newline_notMem_logLine {file : List UInt8} (hfile : 10 ∉ file) (pkt : RteMbuf) :
    10 ∉ logLine packedHeaders file pkt := by
  have hmessage := (analyzePacket_spec file zeroStats pkt).1
  have hfront : (10 : UInt8) ∉ ascii "[INFO ]\t" := by decide
  have hback : (10 : UInt8) ∉ ascii ":158\tfunction 'analyze_packet'\t\t" := by decide
  simp only [logLine, lineStart, List.mem_append, hfront, hfile, hback, hmessage, or_self,
    not_false_iff]

/-- What there is after these packets. -/
structure Agrees (opened : Bool) (file old : List UInt8) (pkts : List RteMbuf) (c : Capture) :
    Prop where
  log : c.log = old ++ if opened then
    (pkts.map (logLine packedHeaders file)).flatMap (fun line => line ++ [10]) else []
  stats : c.stats = tally (pkts.map (logLine packedHeaders file))
    (pkts.map fun pkt => pkt.pktLen.toNat).sum

theorem Agrees.handlePacket {opened : Bool} {file old : List UInt8} {pkts : List RteMbuf}
    {c : Capture} (h : Agrees opened file old pkts c) (pkt : RteMbuf) :
    Agrees opened file old (pkts ++ [pkt])
      (handlePacket packedHeaders (some ⟨opened⟩) file c pkt) := by
  obtain ⟨-, e, hends, hstats⟩ := analyzePacket_spec file c.stats pkt
  rw [logMsg_eq_zeroStats] at hends
  have hline : e.text <:+ logLine packedHeaders file pkt := hends
  constructor
  · rw [Analyzer.handlePacket, logMsg_eq_zeroStats, h.log]
    cases opened with
    | false => simp [left]
    | true =>
      rw [left_loggerInfo, List.map_append, List.flatMap_append, List.map_singleton,
        List.flatMap_singleton, if_pos rfl, if_pos rfl, List.append_assoc]
      rfl
  · have hlength : UInt64.ofNat pkt.pktLen.toNat = pkt.pktLen.toUInt64 := by simp
    rw [Analyzer.handlePacket, hstats, h.stats, List.map_append, List.map_append, List.sum_append,
      List.map_singleton, List.map_singleton, List.sum_singleton, tally_concat hline, hlength]

theorem Agrees.run {opened : Bool} {file old : List UInt8} {pkts : List RteMbuf} {c : Capture}
    (h : Agrees opened file old pkts c) (more : List RteMbuf) :
    Agrees opened file old (pkts ++ more)
      (run (Analyzer.handlePacket packedHeaders (some ⟨opened⟩) file) c more) := by
  induction more generalizing pkts c with
  | nil => rwa [List.append_nil]
  | cons pkt more ih =>
    have hrest := ih (h.handlePacket pkt)
    rwa [List.append_assoc] at hrest

section Loop
variable {dpdk : Headers} {logger : Option Logger} {file : List UInt8}

theorem captureLoop_eq_none {bursts : List Burst} (h : ∀ burst ∈ bursts, burst.forceQuit = false)
    (c : Capture) : captureLoop dpdk logger file false c bursts = none := by
  induction bursts generalizing c with
  | nil => rfl
  | cons burst bursts ih =>
    have hburst := h burst List.mem_cons_self
    have hrest := ih fun b hb => h b (List.mem_cons_of_mem _ hb)
    rw [captureLoop, hburst]
    exact hrest _

/-- The loop ends behind the burst during which the signal came. -/
theorem captureLoop_eq_some {before after : List Burst} {burst : Burst}
    (hbefore : ∀ b ∈ before, b.forceQuit = false) (hburst : burst.forceQuit = true) (c : Capture) :
    captureLoop dpdk logger file false c (before ++ burst :: after) =
      some (run (handlePacket dpdk logger file) c ((before ++ [burst]).flatMap Burst.pkts)) := by
  induction before generalizing c with
  | nil =>
    rw [List.nil_append, captureLoop, hburst, List.nil_append, List.flatMap_singleton]
    cases after <;> rfl
  | cons b before ih =>
    have hb := hbefore b List.mem_cons_self
    have hrest := ih fun b' hb' => hbefore b' (List.mem_cons_of_mem _ hb')
    rw [List.cons_append, captureLoop, hb, List.cons_append, List.flatMap_cons, run_append]
    exact hrest _

end Loop

/-- The loop goes on until a signal has come, and then handles the rest of the burst. The log has
a line for every packet of the bursts so far, in their order, and the counters are what can be
counted in these lines, whether or not they could be written. -/
theorem statistics_agree_with_log {dpdk : Headers} (hdpdk : dpdk = packedHeaders) (opened : Bool)
    (file : List UInt8) (hfile : 10 ∉ file) (old : List UInt8) (bursts : List Burst) :
    let ending := captureLoop dpdk (some ⟨opened⟩) file false ⟨zeroStats, old⟩ bursts
    (ending = none ↔ ∀ burst ∈ bursts, burst.forceQuit = false) ∧
    ∀ before burst after, bursts = before ++ burst :: after →
      (∀ b ∈ before, b.forceQuit = false) → burst.forceQuit = true →
      let pkts := (before ++ [burst]).flatMap Burst.pkts
      let lines := pkts.map (logLine dpdk file)
      ∃ c, ending = some c ∧
        c.log = old ++ (if opened then lines.flatMap (fun line => line ++ [10]) else []) ∧
        (∀ line ∈ lines, 10 ∉ line) ∧
        c.stats = tally lines (pkts.map fun pkt => pkt.pktLen.toNat).sum := by
  subst hdpdk
  have hstart : Agrees opened file old [] ⟨zeroStats, old⟩ := by
    refine ⟨?_, rfl⟩
    cases opened <;> exact (List.append_nil old).symm
  intro ending
  have hsome : ∀ before burst after, bursts = before ++ burst :: after →
      (∀ b ∈ before, b.forceQuit = false) → burst.forceQuit = true → ending =
        some (run (handlePacket packedHeaders (some ⟨opened⟩) file) ⟨zeroStats, old⟩
          ((before ++ [burst]).flatMap Burst.pkts)) := by
    rintro before burst after hbursts hbefore hburst
    exact (congrArg _ hbursts).trans (captureLoop_eq_some hbefore hburst _)
  constructor
  · constructor
    · intro hnone burst hmem
      cases hfirst : bursts.find? Burst.forceQuit with
      | none => simpa using List.find?_eq_none.mp hfirst burst hmem
      | some first =>
        obtain ⟨hquit, before, after, hbursts, hbefore⟩ :=
          List.find?_eq_some_iff_append.mp hfirst
        rw [hsome before first after hbursts (by simpa using hbefore) hquit] at hnone
        cases hnone
    · exact fun hall => captureLoop_eq_none hall _
  · intro before burst after hbursts hbefore hburst pkts lines
    have hagrees := hstart.run pkts
    rw [List.nil_append] at hagrees
    refine ⟨_, hsome before burst after hbursts hbefore hburst, hagrees.log, ?_, hagrees.stats⟩
    intro line hline
    obtain ⟨pkt, -, rfl⟩ := List.mem_map.mp hline
    exact newline_notMem_logLine hfile pkt

/-- A TCP segment, a packet without an Ethernet type, and a segment that comes behind the signal. -/
theorem statistics_agree_with_log_of_two :
    let tcp := received (segment #v[0, 80] #v[1, 1])
    let other : RteMbuf := ⟨60, fun _ => 0⟩
    let lines := [tcp, other].map (logLine packedHeaders (ascii "main.c"))
    ∃ c, captureLoop packedHeaders (some ⟨true⟩) (ascii "main.c") false ⟨zeroStats, []⟩
        [⟨[tcp], false⟩, ⟨[other], true⟩, ⟨[tcp], false⟩] = some c ∧
      c.log = [] ++ (if true then lines.flatMap (fun line => line ++ [10]) else []) ∧
      (∀ line ∈ lines, 10 ∉ line) ∧
      c.stats = tally lines ([tcp, other].map fun pkt => pkt.pktLen.toNat).sum := by
  intro tcp other lines
  exact (statistics_agree_with_log rfl true (ascii "main.c") (by decide) []
    [⟨[tcp], false⟩, ⟨[other], true⟩, ⟨[tcp], false⟩]).2 [⟨[tcp], false⟩] ⟨[other], true⟩ _ rfl
    (by simp) rfl

end Homework.Analyzer
