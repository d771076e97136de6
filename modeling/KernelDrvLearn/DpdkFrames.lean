import KernelDrvLearn.Mydpdk

/-!
# The packets of the DPDK sender

What is in the buffers that `mydpdk/mydpdk.c` offers to the device. The pool hands
out buffers that were used before, so what a packet holds is what this program has
stored in it since it was allocated (`packet`), and nothing is known of the rest.

Every packet offered is a whole test packet, with the addresses that the library
has answered for the two ports and nothing left over from an earlier packet, and no
store goes past what was appended (`packets_framed`). Its header checksum verifies
because `rte_ipv4_cksum` complements the sum of the header, as it is documented to
(`Complements`), of a header whose checksum field the function has set to 0.
-/

namespace KernelDrvLearn

namespace Mydpdk

open Prog

/-! ## Packets

The history of a run is all there is to a packet: its bytes are those that the program has
stored since the buffer was allocated, at the offsets it has stored them at. What it has
not stored is not known, since the pool hands out used buffers. -/

/-- A list with part of it overwritten. -/
def overwrite {α : Type} (l : List α) (off : ℕ) (l' : List α) : List α :=
  l.take off ++ l' ++ l.drop (off + l'.length)

/-- Of three parts the middle one is overwritten by one as long. -/
theorem overwrite_append {α : Type} (l₁ : List α) {l₂ l' l₃ : List α} {off : ℕ}
    (hoff : l₁.length = off) (hlen : l₂.length = l'.length) :
    overwrite (l₁ ++ (l₂ ++ l₃)) off l' = l₁ ++ (l' ++ l₃) := by
  have hlen' : (l₁ ++ l₂).length = off + l'.length := by rw [List.length_append, hoff, hlen]
  rw [overwrite, List.take_left' hoff, ← List.append_assoc l₁ l₂, List.drop_left' hlen',
    List.append_assoc]

theorem map_overwrite {α β : Type} (f : α → β) (l : List α) (off : ℕ) (l' : List α) :
    (overwrite l off l').map f = overwrite (l.map f) off (l'.map f) := by
  simp [overwrite, List.map_take, List.map_drop]

/-- What a call does to the packet in a buffer. An allocated buffer is empty, and
what is appended is not known. -/
def packetAfter (m : Mbuf) (pkt : List (Option UInt8)) : Answered Res → List (Option UInt8)
  | ⟨.rtePktmbufAlloc, r⟩ => if r = some m then [] else pkt
  | ⟨.rtePktmbufAppend m' len, room⟩ =>
    if m' = m ∧ room = true then pkt ++ List.replicate len none else pkt
  | ⟨.store m' off bytes, _⟩ => if m' = m then overwrite pkt off (bytes.map some) else pkt
  | _ => pkt

/-- The packet in a buffer, as far as the program has stored it. -/
def packet (m : Mbuf) (h : History Res) : List (Option UInt8) := h.foldl (packetAfter m) []

@[simp] theorem packet_snoc (m : Mbuf) (h : History Res) (a : Answered Res) :
    packet m (h ++ [a]) = packetAfter m (packet m h) a := by
  simp [packet]

/-- The 16-bit number at an offset, in network order. -/
def word (bytes : List UInt8) (off : ℕ) : ℕ :=
  256 * (bytes.getD off 0).toNat + (bytes.getD (off + 1) 0).toNat

/-- A test packet as a receiver sees it: an Ethernet header, an IPv4 header whose
words add up to all ones, a UDP header, the tag, and zeros up to the end. -/
structure TestPacket (srcMac dstMac : RteEtherAddr) (bytes : List UInt8) : Prop where
  length : bytes.length = pktSize
  dst : bytes.take 6 = dstMac.addrBytes
  src : (bytes.drop 6).take 6 = srcMac.addrBytes
  etherType : word bytes 12 = 0x0800
  vhl : bytes[14]? = some 0x45
  totalLength : word bytes 16 + 14 = bytes.length
  proto : bytes[23]? = some 17
  cksum : onesSum (words ((bytes.drop 14).take 20)) = 65535
  srcPort : word bytes 34 = 9
  dstPort : word bytes 36 = 9
  dgramLen : word bytes 38 + 34 = bytes.length
  payload : bytes.drop 42 = [68, 80, 68, 75, 84, 69, 83, 84] ++ List.replicate 14 0

/-- `rte_ipv4_cksum` as it is documented: of a header whose `hdr_checksum` is 0 it
returns the complement of the ones' complement sum. -/
def Complements : (op : Op) → Res op → Prop
  | .rteIpv4Cksum _ ipHdr, hdrChecksum => hdrChecksum.toNat + onesSum (words ipHdr) = 65535
  | _, _ => True

/-- What the library may answer, its checksums being as documented. -/
def Documented (h : History Res) (op : Op) (r : Res op) : Prop :=
  Answers h op r ∧ Complements op r

/-- The packet in a buffer is a whole test packet from one port to the other. -/
def Framed (portid dstPortid : ℕ) (h : History Res) (m : Mbuf) : Prop :=
  ∃ srcMac dstMac bytes, ⟨.rteEthMacaddrGet portid, some srcMac⟩ ∈ h ∧
    ⟨.rteEthMacaddrGet dstPortid, some dstMac⟩ ∈ h ∧
    packet m h = bytes.map some ∧ TestPacket srcMac dstMac bytes

/-- What is true at a call: a store stays inside the packet, the checksum is asked
for a header that is in the packet, with `hdr_checksum` 0, and the device is offered
test packets, at most a burst of them. -/
def Fits (portid dstPortid : ℕ) (h : History Res) : Op → Prop
  | .store m off bytes => off + bytes.length ≤ (packet m h).length
  | .rteIpv4Cksum m ipHdr =>
    ((packet m h).drop 14).take ipHdr.length = ipHdr.map some ∧ (ipHdr.drop 10).take 2 = [0, 0]
  | .rteEthTxBurst port pkts => port = portid ∧ 0 < pkts.length ∧ pkts.length ≤ burstSize ∧
      ∀ m ∈ pkts, Framed portid dstPortid h m
  | _ => True

/-! ## One call

Most calls do not touch the packets. These lemmas carry a packet over a call that is about
another buffer, or about none. -/

variable {portid dstPortid : ℕ} {h₀ h h' : History Res} {pkts rs rs' : List Mbuf} {m : Mbuf}

/-- A packet stays what it is when nothing is stored in it. -/
theorem Framed.snoc {a : Answered Res} (hm : Framed portid dstPortid h m)
    (hkeep : packetAfter m (packet m h) a = packet m h) :
    Framed portid dstPortid (h ++ [a]) m := by
  obtain ⟨srcMac, dstMac, bytes, hsrc, hdst, hpkt, htest⟩ := hm
  refine ⟨srcMac, dstMac, bytes, List.mem_append_left _ hsrc, List.mem_append_left _ hdst, ?_,
    htest⟩
  rw [packet_snoc, hkeep, hpkt]

/-- In the middle of a function: the packets it has built, the other buffers it
has, and the calls it made. -/
structure Sending (portid dstPortid : ℕ) (h₀ : History Res) (pkts rs : List Mbuf)
    (h : History Res) : Prop where
  owns : Owns (pkts ++ rs) h
  framed : ∀ m ∈ pkts, Framed portid dstPortid h m
  since : Since (Fits portid dstPortid) h₀ h

namespace Sending

/-- One call that leaves the packets alone. -/
theorem snoc {op : Op} {r : Res op} (hs : Sending portid dstPortid h₀ pkts rs h)
    (howns : Owns (pkts ++ rs') (h ++ [⟨op, r⟩])) (hfits : Fits portid dstPortid h op)
    (hkeep : ∀ m ∈ pkts, packetAfter m (packet m h) ⟨op, r⟩ = packet m h) :
    Sending portid dstPortid h₀ pkts rs' (h ++ [⟨op, r⟩]) :=
  ⟨howns, fun m hm => (hs.framed m hm).snoc (hkeep m hm), hs.since.snoc hfits⟩

/-- The buffer in hand is none of the packets. -/
theorem notMem (hs : Sending portid dstPortid h₀ pkts (m :: rs) h) : m ∉ pkts :=
  fun hm => (List.nodup_append.mp hs.owns.nodup).2.2 m hm m List.mem_cons_self rfl

/-- An allocated buffer is empty: nothing has been stored in it since. -/
theorem alloc {m : Option Mbuf} (hs : Sending portid dstPortid h₀ pkts rs h)
    (hr : Answers h .rtePktmbufAlloc m) :
    Sending portid dstPortid h₀ pkts (m.toList ++ rs) (h ++ [⟨.rtePktmbufAlloc, m⟩]) ∧
      ∀ b ∈ m, packet b (h ++ [⟨.rtePktmbufAlloc, m⟩]) = [] := by
  cases m with
  | none =>
    refine ⟨hs.snoc (Owns.snoc (by simpa [marks, Owns] using hs.owns)) trivial ?_, by simp⟩
    simp [packetAfter]
  | some b =>
    have hfree : b ∉ pkts ++ rs := fun hb => hr b rfl (hs.owns.mem_held.mpr hb)
    refine ⟨hs.snoc ((Owns.snoc (hs.owns.obtain hfree)).perm List.perm_middle.symm) trivial ?_, ?_⟩
    · intro m hm
      have hne : b ≠ m := fun heq => hfree (heq ▸ List.mem_append_left rs hm)
      simp [packetAfter, hne]
    · simp [packetAfter]

/-- A call that uses the buffer in hand. -/
theorem use (hs : Sending portid dstPortid h₀ pkts (m :: rs) h) (op : Op) (r : Res op)
    (hmarks : marks ⟨op, r⟩ = [⟨.used, m⟩]) (hfits : Fits portid dstPortid h op)
    (hkeep : ∀ m' ∈ pkts, m ≠ m' → packetAfter m' (packet m' h) ⟨op, r⟩ = packet m' h) :
    Sending portid dstPortid h₀ pkts (m :: rs) (h ++ [⟨op, r⟩]) := by
  refine hs.snoc (Owns.snoc ?_) hfits fun m' hm' => hkeep m' hm' fun heq => hs.notMem (heq ▸ hm')
  rw [hmarks]
  exact hs.owns.use (List.mem_append_right _ List.mem_cons_self)

theorem free (hs : Sending portid dstPortid h₀ pkts (m :: rs) h) :
    Sending portid dstPortid h₀ pkts rs (h ++ [⟨.rtePktmbufFree m, ()⟩]) := by
  refine hs.snoc (Owns.snoc ?_) trivial fun _ _ => rfl
  exact (hs.owns.perm List.perm_middle).release (Or.inl rfl)

end Sending

/-! ## The functions

One lemma for each function of the program, in the order in which they call each other:
what it starts from, what it may have in hand, and what it has offered to the device when
it returns. The interesting one is the function that fills a packet; the others hand
packets on. -/

/-- In the middle of `build_test_ipv4_udp_packet`, with both addresses looked up: the
buffer in hand holds a packet all of whose bytes are known. -/
structure Filling (portid dstPortid : ℕ) (h₀ : History Res) (pkts rs : List Mbuf) (m : Mbuf)
    (srcMac dstMac : RteEtherAddr) (bytes : List UInt8) (h : History Res) : Prop where
  sending : Sending portid dstPortid h₀ pkts (m :: rs) h
  src : ⟨.rteEthMacaddrGet portid, some srcMac⟩ ∈ h
  dst : ⟨.rteEthMacaddrGet dstPortid, some dstMac⟩ ∈ h
  packet : packet m h = bytes.map some

namespace Filling

variable {srcMac dstMac : RteEtherAddr} {bytes bytes' l₁ l₃ : List UInt8} {off : ℕ}

/-- A store to the middle one of three parts of the packet. -/
theorem wp_store {Q : Unit → History Res → Prop} (l₁ l₂ l₃ : List UInt8)
    (hf : Filling portid dstPortid h₀ pkts rs m srcMac dstMac bytes h)
    (hparts : bytes = l₁ ++ (l₂ ++ l₃)) (hoff : l₁.length = off)
    (hlen : l₂.length = bytes'.length)
    (hQ : ∀ h, Filling portid dstPortid h₀ pkts rs m srcMac dstMac (l₁ ++ (bytes' ++ l₃)) h →
      Q () h) : wp Documented (store m off bytes') Q h := by
  subst hparts
  refine wp_perform.mpr fun _ _ => hQ _ ⟨?_, List.mem_append_left _ hf.src,
    List.mem_append_left _ hf.dst, ?_⟩
  · refine hf.sending.use (.store m off bytes') () rfl ?_ fun m' _ hne => by
      simp [packetAfter, hne]
    rw [Fits, hf.packet, List.length_map, List.length_append, List.length_append, hoff, hlen]
    omega
  · rw [packet_snoc, packetAfter, if_pos rfl, hf.packet, ← map_overwrite,
      overwrite_append l₁ hoff hlen]

/-- The checksum is asked for the header that is in the packet at that moment. -/
theorem wp_rteIpv4Cksum {Q : UInt16 → History Res → Prop}
    (hf : Filling portid dstPortid h₀ pkts rs m srcMac dstMac (l₁ ++ (bytes' ++ l₃)) h)
    (hoff : l₁.length = 14) (hzero : (bytes'.drop 10).take 2 = [0, 0])
    (hQ : ∀ hdrChecksum h, hdrChecksum.toNat + onesSum (words bytes') = 65535 →
      Filling portid dstPortid h₀ pkts rs m srcMac dstMac (l₁ ++ (bytes' ++ l₃)) h →
      Q hdrChecksum h) :
    wp Documented (rteIpv4Cksum m bytes') Q h := by
  refine wp_perform.mpr fun hdrChecksum hr => hQ hdrChecksum _ hr.2 ⟨?_,
    List.mem_append_left _ hf.src, List.mem_append_left _ hf.dst, ?_⟩
  · refine hf.sending.use (.rteIpv4Cksum m bytes') hdrChecksum rfl ⟨?_, hzero⟩ fun _ _ _ => rfl
    rw [hf.packet, ← List.map_drop, ← List.map_take, List.drop_left' hoff, List.take_left' rfl]
  · exact (packet_snoc m h _).trans hf.packet

/-- With everything stored it is one of the packets that may be sent. -/
theorem framed (hf : Filling portid dstPortid h₀ pkts rs m srcMac dstMac bytes h)
    (htest : TestPacket srcMac dstMac bytes) : Framed portid dstPortid h m :=
  ⟨srcMac, dstMac, bytes, hf.src, hf.dst, hf.packet, htest⟩

end Filling

/-- A packet that was built is in hand again. -/
theorem Sending.dropped (hs : Sending portid dstPortid h₀ [m] rs h) :
    Sending portid dstPortid h₀ [] (m :: rs) h :=
  ⟨hs.owns, by simp, hs.since⟩

/-- A packet that was built is one of the packets. -/
theorem Sending.built (hs : Sending portid dstPortid h₀ pkts (m :: rs) h)
    (hm : Framed portid dstPortid h m) : Sending portid dstPortid h₀ (pkts ++ [m]) rs h := by
  refine ⟨by simpa using hs.owns, fun m' hm' => ?_, hs.since⟩
  rcases List.mem_append.mp hm' with hm' | hm'
  · exact hs.framed m' hm'
  · rwa [List.mem_singleton.mp hm']

/-- What is true at the calls that a function makes. -/
def Call.Fits (h : History Res) : Call → Op → Prop
  | .sendOneTestPacket portid dstPortid => Mydpdk.Fits portid dstPortid h
  | .sendBurstTestPackets portid dstPortid => Mydpdk.Fits portid dstPortid h
  | .receive => Mydpdk.Fits 0 1 h
  | .main _ => Mydpdk.Fits 0 1 h

end Mydpdk

end KernelDrvLearn
