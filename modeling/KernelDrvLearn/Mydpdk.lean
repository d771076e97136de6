import KernelDrvLearn.Ownership
import KernelDrvLearn.Prog
import Mathlib.Algebra.Ring.Nat
import Mathlib.Data.Finset.Lattice.Fold
import Mathlib.Order.Lattice.Nat

/-!
# The packet buffers of the DPDK sender

`src/mydpdk/mydpdk.c`: `send_one_test_packet`, `send_burst_test_packets` and the
loop of `main`, as programs that call the DPDK library. The library may fail any
allocation, any append and any lookup of a MAC address, may return any checksum,
takes any number of the packets offered to `rte_eth_tx_burst`, always the first
ones, and returns any number of buffers from `rte_eth_rx_burst` (`Answers`).

Whatever it answers, a function returns with the buffers it was called with
(`wp_sendOneTestPacket`, `wp_sendBurstTestPackets`, `wp_receive`), so each buffer
it obtained was handed to the device or freed, once, and not used after that
(`mbufs_conserved`).
-/

namespace KernelDrvLearn

namespace Mydpdk

open Prog

/-! ## The library

The calls the program makes, as operations with an answer each, and what a buffer goes
through in each of them. What a buffer holds is no matter of this module; the stores are
here as uses. -/

/-- A packet buffer (`struct rte_mbuf *`). -/
abbrev Mbuf : Type := ℕ

/-- `struct rte_ether_addr`, of exactly six bytes. -/
structure RteEtherAddr where
  /-- `addr_bytes` -/
  addrBytes : List UInt8
  /-- there are six -/
  length_eq : addrBytes.length = 6

/-- The calls, with their arguments. What they return is left to the library, within what
is documented of it. -/
inductive Op where
  /-- `rte_pktmbuf_alloc` from the pool -/
  | rtePktmbufAlloc
  /-- `rte_pktmbuf_append` -/
  | rtePktmbufAppend (m : Mbuf) (len : ℕ)
  /-- stores to the packet, from an offset on -/
  | store (m : Mbuf) (off : ℕ) (bytes : List UInt8)
  /-- `rte_eth_macaddr_get` -/
  | rteEthMacaddrGet (portid : ℕ)
  /-- `rte_ipv4_cksum` of the header in the packet -/
  | rteIpv4Cksum (m : Mbuf) (ipHdr : List UInt8)
  /-- `rte_eth_tx_burst` on queue 0 -/
  | rteEthTxBurst (portid : ℕ) (pkts : List Mbuf)
  /-- `rte_eth_rx_burst` on queue 0, of at most `n` packets -/
  | rteEthRxBurst (portid n : ℕ)
  /-- `rte_pktmbuf_pkt_len` -/
  | rtePktmbufPktLen (m : Mbuf)
  /-- `rte_pktmbuf_free` -/
  | rtePktmbufFree (m : Mbuf)

/-- What they return; `Option` where a call may fail. -/
@[reducible] def Res : Op → Type
  | .rtePktmbufAlloc => Option Mbuf
  | .rtePktmbufAppend .. => Bool
  | .store .. => Unit
  | .rteEthMacaddrGet _ => Option RteEtherAddr
  | .rteIpv4Cksum .. => UInt16
  | .rteEthTxBurst .. => ℕ
  | .rteEthRxBurst .. => List Mbuf
  | .rtePktmbufPktLen _ => ℕ
  | .rtePktmbufFree _ => Unit

/-- What a call does with the buffers. The device looks at all packets offered and
takes the first `nbTx`. -/
def marks : Answered Res → List (Mark Mbuf)
  | ⟨.rtePktmbufAlloc, none⟩ => []
  | ⟨.rtePktmbufAlloc, some m⟩ => [⟨.obtained, m⟩]
  | ⟨.rtePktmbufAppend m _, _⟩ => [⟨.used, m⟩]
  | ⟨.store m .., _⟩ => [⟨.used, m⟩]
  | ⟨.rteEthMacaddrGet _, _⟩ => []
  | ⟨.rteIpv4Cksum m _, _⟩ => [⟨.used, m⟩]
  | ⟨.rteEthTxBurst _ pkts, nbTx⟩ =>
    pkts.map (⟨.used, ·⟩) ++ (pkts.take nbTx).map (⟨.handed, ·⟩)
  | ⟨.rteEthRxBurst .., bufs⟩ => bufs.map (⟨.obtained, ·⟩)
  | ⟨.rtePktmbufPktLen m, _⟩ => [⟨.used, m⟩]
  | ⟨.rtePktmbufFree m, _⟩ => [⟨.freed, m⟩]

/-- What the program has done with the buffers, in order. -/
def trace (h : History Res) : List (Mark Mbuf) := h.flatMap marks

/-- What the library may answer: a buffer it returns is not one the program
holds. -/
def Answers (h : History Res) : (op : Op) → Res op → Prop
  | .rtePktmbufAlloc, m => ∀ b ∈ m, b ∉ held (trace h)
  | .rteEthTxBurst _ pkts, nbTx => nbTx ≤ pkts.length
  | .rteEthRxBurst _ n, bufs =>
    bufs.length ≤ n ∧ bufs.Nodup ∧ ∀ b ∈ bufs, b ∉ held (trace h)
  | _, _ => True

/-- `rte_pktmbuf_alloc`: a buffer, or none if the pool is empty. -/
def rtePktmbufAlloc : Prog Res (Option Mbuf) := perform Op.rtePktmbufAlloc

/-- `rte_pktmbuf_append`: whether there is room. -/
def rtePktmbufAppend (m : Mbuf) (len : ℕ) : Prog Res Bool :=
  perform (Op.rtePktmbufAppend m len)

/-- Stores to the packet, from an offset on. -/
def store (m : Mbuf) (off : ℕ) (bytes : List UInt8) : Prog Res Unit :=
  perform (Op.store m off bytes)

/-- `rte_eth_macaddr_get`: the address, unless it fails. -/
def rteEthMacaddrGet (portid : ℕ) : Prog Res (Option RteEtherAddr) :=
  perform (Op.rteEthMacaddrGet portid)

/-- `rte_ipv4_cksum`: the two bytes that it stores, as a number in network order. -/
def rteIpv4Cksum (m : Mbuf) (ipHdr : List UInt8) : Prog Res UInt16 :=
  perform (Op.rteIpv4Cksum m ipHdr)

/-- `rte_eth_tx_burst`: how many of the packets the device has taken. -/
def rteEthTxBurst (portid : ℕ) (pkts : List Mbuf) : Prog Res ℕ :=
  perform (Op.rteEthTxBurst portid pkts)

/-- `rte_eth_rx_burst`: the packets that have come in. -/
def rteEthRxBurst (portid n : ℕ) : Prog Res (List Mbuf) := perform (Op.rteEthRxBurst portid n)

/-- `rte_pktmbuf_pkt_len`, of a packet that was received. -/
def rtePktmbufPktLen (m : Mbuf) : Prog Res ℕ := perform (Op.rtePktmbufPktLen m)

/-- `rte_pktmbuf_free`, which gives a buffer back to the pool. -/
def rtePktmbufFree (m : Mbuf) : Prog Res Unit := perform (Op.rtePktmbufFree m)

/-! ## The program

The functions of `mydpdk.c`, statement by statement as far as they call the library. Their
printing is left out, and a lookup that fails leads to the same branch as there. -/

/-- `BURST_SIZE`, the number of packets of a burst. -/
abbrev burstSize : ℕ := 32

/-- `pkt_size`, the length of a test packet. -/
abbrev pktSize : ℕ := 64

/-- Two bytes in network order (`rte_cpu_to_be_16`). -/
def be16 (n : ℕ) : List UInt8 := [UInt8.ofNat (n / 256), UInt8.ofNat (n % 256)]

/-- `eth_hdr`: the addresses, and the type of IPv4. -/
def ethHdr (srcMac dstMac : RteEtherAddr) : List UInt8 :=
  dstMac.addrBytes ++ srcMac.addrBytes ++ be16 0x0800

/-- `ip_hdr`, with `hdr_checksum` still 0. -/
def ipHdr : List UInt8 :=
  [0x45, 0] ++ be16 (pktSize - 14) ++ be16 0 ++ be16 0 ++ [64, 17] ++ be16 0 ++
    [198, 18, 0, 1] ++ [198, 18, 0, 2]

/-- `udp_hdr`, from port 9 to port 9, without a checksum. -/
def udpHdr : List UInt8 := be16 9 ++ be16 9 ++ be16 (pktSize - 34) ++ be16 0

/-- `tag`, the letters `DPDKTEST`, by which a receiver knows a test packet. -/
def tag : List UInt8 := [68, 80, 68, 75, 84, 69, 83, 84]

/-- `build_test_ipv4_udp_packet`, from the addresses on. -/
def buildHeaders (m : Mbuf) (srcMac dstMac : RteEtherAddr) : Prog Res Unit := do
  store m 0 (ethHdr srcMac dstMac)
  store m 14 ipHdr
  let hdrChecksum ← rteIpv4Cksum m ipHdr
  store m 24 (be16 hdrChecksum.toNat)
  store m 34 udpHdr
  store m 42 tag

/-- `build_test_ipv4_udp_packet`: whether the packet is complete. -/
def buildTestIpv4UdpPacket (m : Mbuf) (portid dstPortid : ℕ) : Prog Res Int := do
  let payload ← rtePktmbufAppend m pktSize
  if payload then
    store m 0 (List.replicate pktSize 0)
    match ← rteEthMacaddrGet portid with
    | none => pure (-1)
    | some srcMac =>
      match ← rteEthMacaddrGet dstPortid with
      | none => pure (-1)
      | some dstMac =>
        buildHeaders m srcMac dstMac
        pure 0
  else pure (-1)

/-- `send_one_test_packet`: a packet is built, offered, and freed if it was not taken. -/
def sendOneTestPacket (portid dstPortid : ℕ) : Prog Res Unit := do
  match ← rtePktmbufAlloc with
  | none => pure ()
  | some m =>
    let ret ← buildTestIpv4UdpPacket m portid dstPortid
    if ret ≠ 0 then
      rtePktmbufFree m
    else
      match ← rteEthMacaddrGet portid with
      | none => rtePktmbufFree m
      | some _ =>
        match ← rteEthMacaddrGet dstPortid with
        | none => rtePktmbufFree m
        | some _ =>
          let nbTx ← rteEthTxBurst portid [m]
          if nbTx = 1 then pure () else rtePktmbufFree m

/-- The loop of `send_burst_test_packets` that builds the packets, with `n` turns
left; it returns `pkts[0..i)`. -/
def buildBurst (portid dstPortid : ℕ) : ℕ → List Mbuf → Prog Res (List Mbuf)
  | 0, pkts => pure pkts
  | n + 1, pkts => do
    match ← rtePktmbufAlloc with
    | none => pure pkts
    | some m =>
      let ret ← buildTestIpv4UdpPacket m portid dstPortid
      if ret ≠ 0 then
        rtePktmbufFree m
        pure pkts
      else buildBurst portid dstPortid n (pkts ++ [m])

/-- `send_burst_test_packets`: a burst is built and offered, and what was not taken is
freed. -/
def sendBurstTestPackets (portid dstPortid : ℕ) : Prog Res Unit := do
  match ← rteEthMacaddrGet portid with
  | none => pure ()
  | some _ =>
    match ← rteEthMacaddrGet dstPortid with
    | none => pure ()
    | some _ =>
      let pkts ← buildBurst portid dstPortid burstSize []
      if pkts.length = 0 then pure ()
      else
        let nbTx ← rteEthTxBurst portid pkts
        if nbTx < pkts.length then
          forEach rtePktmbufFree (pkts.drop nbTx)
        else pure ()

/-- The part of the loop of `main` that receives. -/
def receive : Prog Res Unit := do
  let bufs ← rteEthRxBurst 1 burstSize
  if bufs.length > 0 then
    forEach (fun m => do
      let _ ← rtePktmbufPktLen m
      rtePktmbufFree m) bufs
  else pure ()

/-- `main` once the ports are up, with its loop up to the end of a turn. -/
def main (turns : ℕ) : Prog Res Unit := do
  sendOneTestPacket 0 1
  forEach (fun _ => do
    sendOneTestPacket 0 1
    receive) (List.range turns)

/-! ## One call

Each call of the library has one rule: from the buffers the program has before to those it
has after. The rules of the functions are put together from these. -/

/-- The program has exactly the buffers `rs`. -/
def Owns (rs : List Mbuf) (h : History Res) : Prop := Owned rs (trace h)

variable {rs pkts : List Mbuf} {h : History Res} {m : Mbuf} {portid dstPortid : ℕ}

/-- A call changes what the program has by its marks. -/
theorem Owns.snoc {op : Op} {r : Res op} (hown : Owned rs (trace h ++ marks ⟨op, r⟩)) :
    Owns rs (h ++ [⟨op, r⟩]) := by
  simpa [Owns, trace] using hown

/-- A call that marks no buffer changes nothing about whose they are. -/
theorem wp_keep {op : Op} {Q : Res op → History Res → Prop} (hown : Owns rs h)
    (hkeep : ∀ r l, Owned rs l → Owned rs (l ++ marks ⟨op, r⟩))
    (hQ : ∀ r h', Owns rs h' → Q r h') : wp Answers (perform op) Q h :=
  wp_perform.mpr fun r _ => hQ r _ (Owns.snoc (hkeep r _ hown))

theorem wp_rtePktmbufAlloc {Q : Option Mbuf → History Res → Prop} (hown : Owns rs h)
    (hnone : ∀ h', Owns rs h' → Q none h')
    (hsome : ∀ m h', Owns (m :: rs) h' → Q (some m) h') : wp Answers rtePktmbufAlloc Q h := by
  refine wp_perform.mpr fun r hr => ?_
  cases r with
  | none => exact hnone _ (Owns.snoc (by simpa [marks, Owns] using hown))
  | some m =>
    have hfree : m ∉ rs := fun hm => hr m rfl (hown.mem_held.mpr hm)
    exact hsome m _ (Owns.snoc (hown.obtain hfree))

theorem wp_rtePktmbufAppend {Q : Bool → History Res → Prop} {len : ℕ} (hown : Owns rs h)
    (hm : m ∈ rs) (hQ : ∀ r h', Owns rs h' → Q r h') :
    wp Answers (rtePktmbufAppend m len) Q h :=
  wp_keep hown (fun _ _ hl => hl.use hm) hQ

theorem wp_store {Q : Unit → History Res → Prop} {off : ℕ} {bytes : List UInt8}
    (hown : Owns rs h) (hm : m ∈ rs) (hQ : ∀ r h', Owns rs h' → Q r h') :
    wp Answers (store m off bytes) Q h :=
  wp_keep hown (fun _ _ hl => hl.use hm) hQ

theorem wp_rteIpv4Cksum {Q : UInt16 → History Res → Prop} {ipHdr : List UInt8}
    (hown : Owns rs h) (hm : m ∈ rs) (hQ : ∀ r h', Owns rs h' → Q r h') :
    wp Answers (rteIpv4Cksum m ipHdr) Q h :=
  wp_keep hown (fun _ _ hl => hl.use hm) hQ

theorem wp_rteEthMacaddrGet {Q : Option RteEtherAddr → History Res → Prop} (hown : Owns rs h)
    (hQ : ∀ r h', Owns rs h' → Q r h') : wp Answers (rteEthMacaddrGet portid) Q h :=
  wp_keep hown (fun _ l hl => by simpa [marks] using hl) hQ

theorem wp_rtePktmbufPktLen {Q : ℕ → History Res → Prop} (hown : Owns rs h) (hm : m ∈ rs)
    (hQ : ∀ r h', Owns rs h' → Q r h') : wp Answers (rtePktmbufPktLen m) Q h :=
  wp_keep hown (fun _ _ hl => hl.use hm) hQ

theorem wp_rtePktmbufFree {Q : Unit → History Res → Prop} (hown : Owns (m :: rs) h)
    (hQ : ∀ h', Owns rs h' → Q () h') : wp Answers (rtePktmbufFree m) Q h :=
  wp_perform.mpr fun _ _ => hQ _ (Owns.snoc (hown.release (Or.inl rfl)))

theorem wp_freed (hown : Owns (m :: rs) h) :
    wp Answers (rtePktmbufFree m) (fun _ => Owns rs) h :=
  wp_rtePktmbufFree hown fun _ hown => hown

/-- The device takes the first packets, and the others stay. -/
theorem wp_rteEthTxBurst {Q : ℕ → History Res → Prop} (hown : Owns (pkts ++ rs) h)
    (hQ : ∀ nbTx h', nbTx ≤ pkts.length → Owns (pkts.drop nbTx ++ rs) h' → Q nbTx h') :
    wp Answers (rteEthTxBurst portid pkts) Q h := by
  refine wp_perform.mpr fun nbTx hle => hQ nbTx _ hle (Owns.snoc ?_)
  have hused := hown.useAll fun r hr => List.mem_append_left rs hr
  rw [← List.take_append_drop nbTx pkts, List.append_assoc] at hused
  rw [marks, ← List.append_assoc]
  refine Owned.releaseAll ?_ (Or.inr rfl)
  simpa using hused

theorem wp_rteEthRxBurst {Q : List Mbuf → History Res → Prop} {n : ℕ} (hown : Owns rs h)
    (hQ : ∀ bufs h', Owns (bufs ++ rs) h' → Q bufs h') :
    wp Answers (rteEthRxBurst portid n) Q h := by
  refine wp_perform.mpr fun bufs hr => hQ bufs _ (Owns.snoc ?_)
  obtain ⟨-, hnodup, hfree⟩ := hr
  exact hown.obtainAll hnodup fun r hr hrs => hfree r hr (hown.mem_held.mpr hrs)

/-- Clean-up: a loop that frees, whatever it does before with each buffer. -/
theorem wp_freeAll {f : Mbuf → Prog Res Unit}
    (hf : ∀ m rs h, Owns (m :: rs) h → wp Answers (f m) (fun _ => Owns rs) h)
    (hown : Owns (pkts ++ rs) h) : wp Answers (forEach f pkts) (fun _ => Owns rs) h :=
  wp_forEach (fun left => Owns (left ++ rs)) (fun m left h hI => hf m (left ++ rs) h hI) hown

/-! ## The functions

What each function owes: it returns with the buffers it was called with, whatever fails on
the way. Inside, a loop may have a growing list in hand; its rule says which. -/

theorem wp_buildHeaders {srcMac dstMac : RteEtherAddr} (hown : Owns rs h) (hm : m ∈ rs) :
    wp Answers (buildHeaders m srcMac dstMac) (fun _ => Owns rs) h := by
  rw [buildHeaders, wp_bind]
  refine wp_store hown hm fun _ h hown => ?_
  rw [wp_bind]
  refine wp_store hown hm fun _ h hown => ?_
  rw [wp_bind]
  refine wp_rteIpv4Cksum hown hm fun hdrChecksum h hown => ?_
  rw [wp_bind]
  refine wp_store hown hm fun _ h hown => ?_
  rw [wp_bind]
  refine wp_store hown hm fun _ h hown => ?_
  exact wp_store hown hm fun _ h hown => hown

/-- Building a packet keeps it, whether it fails or not. -/
theorem wp_buildTestIpv4UdpPacket {Q : Int → History Res → Prop} (hown : Owns rs h)
    (hm : m ∈ rs) (hQ : ∀ r h', Owns rs h' → Q r h') :
    wp Answers (buildTestIpv4UdpPacket m portid dstPortid) Q h := by
  rw [buildTestIpv4UdpPacket, wp_bind]
  refine wp_rtePktmbufAppend hown hm fun payload h hown => ?_
  cases payload with
  | false => exact hQ _ _ hown
  | true =>
    rw [if_pos rfl, wp_bind]
    refine wp_store hown hm fun _ h hown => ?_
    rw [wp_bind]
    refine wp_rteEthMacaddrGet hown fun srcMac h hown => ?_
    cases srcMac with
    | none => exact hQ _ _ hown
    | some srcMac =>
      rw [wp_bind]
      refine wp_rteEthMacaddrGet hown fun dstMac h hown => ?_
      cases dstMac with
      | none => exact hQ _ _ hown
      | some dstMac =>
        rw [wp_bind]
        exact wp_mono (fun _ h hown => hQ _ _ hown) (wp_buildHeaders hown hm)

theorem wp_sendOneTestPacket (hown : Owns rs h) :
    wp Answers (sendOneTestPacket portid dstPortid) (fun _ => Owns rs) h := by
  rw [sendOneTestPacket, wp_bind]
  refine wp_rtePktmbufAlloc hown (fun _ hown => hown) fun m h hown => ?_
  rw [wp_bind]
  refine wp_buildTestIpv4UdpPacket hown List.mem_cons_self fun ret h hown => ?_
  split
  · exact wp_freed hown
  rw [wp_bind]
  refine wp_rteEthMacaddrGet hown fun srcMac h hown => ?_
  cases srcMac with
  | none => exact wp_freed hown
  | some _ =>
    rw [wp_bind]
    refine wp_rteEthMacaddrGet hown fun dstMac h hown => ?_
    cases dstMac with
    | none => exact wp_freed hown
    | some _ =>
      rw [wp_bind]
      have hown : Owns ([m] ++ rs) h := hown
      refine wp_rteEthTxBurst hown fun nbTx h hle hown => ?_
      split
      · subst nbTx
        exact hown
      · obtain rfl : nbTx = 0 := by
          simp at hle
          omega
        exact wp_freed hown

/-- The loop keeps the packets it has built, and frees the one it could not. -/
theorem wp_buildBurst {n : ℕ} (hown : Owns (pkts ++ rs) h) :
    wp Answers (buildBurst portid dstPortid n pkts) (fun pkts => Owns (pkts ++ rs)) h := by
  induction n generalizing pkts h with
  | zero => exact wp_pure.mpr hown
  | succ n ih =>
    rw [buildBurst, wp_bind]
    refine wp_rtePktmbufAlloc hown (fun _ hown => hown) fun m h hown => ?_
    rw [wp_bind]
    refine wp_buildTestIpv4UdpPacket hown List.mem_cons_self fun ret h hown => ?_
    split
    · rw [wp_bind]
      exact wp_freed hown
    · refine ih ?_
      rw [List.append_assoc]
      exact hown.perm List.perm_middle.symm

theorem wp_sendBurstTestPackets (hown : Owns rs h) :
    wp Answers (sendBurstTestPackets portid dstPortid) (fun _ => Owns rs) h := by
  rw [sendBurstTestPackets, wp_bind]
  refine wp_rteEthMacaddrGet hown fun srcMac h hown => ?_
  cases srcMac with
  | none => exact wp_pure.mpr hown
  | some _ =>
    rw [wp_bind]
    refine wp_rteEthMacaddrGet hown fun dstMac h hown => ?_
    cases dstMac with
    | none => exact wp_pure.mpr hown
    | some _ =>
      rw [wp_bind]
      have hown : Owns ([] ++ rs) h := hown
      refine wp_mono (fun pkts h hown => ?_) (wp_buildBurst hown)
      split
      · next hlen =>
        obtain rfl := List.length_eq_zero_iff.mp hlen
        exact hown
      rw [wp_bind]
      refine wp_rteEthTxBurst hown fun nbTx h hle hown => ?_
      split
      · exact wp_freeAll (fun m rs h hown => wp_freed hown) hown
      · next hall =>
        rw [List.drop_of_length_le (Nat.le_of_not_lt hall)] at hown
        exact hown

theorem wp_receive (hown : Owns rs h) : wp Answers receive (fun _ => Owns rs) h := by
  rw [receive, wp_bind]
  refine wp_rteEthRxBurst hown fun bufs h hown => ?_
  split
  · refine wp_freeAll (fun m rs h hown => ?_) hown
    rw [wp_bind]
    exact wp_rtePktmbufPktLen hown List.mem_cons_self fun _ h hown => wp_freed hown
  · next hlen =>
    obtain rfl := List.length_eq_zero_iff.mp (Nat.eq_zero_of_not_pos hlen)
    exact hown

theorem wp_main {turns : ℕ} (hown : Owns rs h) :
    wp Answers (main turns) (fun _ => Owns rs) h := by
  rw [main, wp_bind]
  refine wp_mono (fun _ h hown => ?_) (wp_sendOneTestPacket hown)
  refine wp_forEach (fun _ => Owns rs) (fun _ _ h hown => ?_) hown
  rw [wp_bind]
  exact wp_mono (fun _ h hown => wp_receive hown) (wp_sendOneTestPacket hown)

/-! ## Conservation

From one call to all: the history of a run is cut at the calls of the functions, and
between them the program has nothing. So what happens to a buffer is a number of whole
lifetimes. -/

/-- A call of one of the functions, or of `main` for some turns of its loop. -/
inductive Call where
  /-- `send_one_test_packet` -/
  | sendOneTestPacket (portid dstPortid : ℕ)
  /-- `send_burst_test_packets` -/
  | sendBurstTestPackets (portid dstPortid : ℕ)
  /-- the receiving part of a turn -/
  | receive
  /-- `main` -/
  | main (turns : ℕ)

/-- What is called, as a program over the library's calls. -/
def Call.prog : Call → Prog Res Unit
  | .sendOneTestPacket portid dstPortid => Mydpdk.sendOneTestPacket portid dstPortid
  | .sendBurstTestPackets portid dstPortid => Mydpdk.sendBurstTestPackets portid dstPortid
  | .receive => Mydpdk.receive
  | .main turns => Mydpdk.main turns

/-- Every call returns with what it was called with. -/
theorem wp_prog (c : Call) (hown : Owns rs h) : wp Answers c.prog (fun _ => Owns rs) h := by
  cases c with
  | sendOneTestPacket => exact wp_sendOneTestPacket hown
  | sendBurstTestPackets => exact wp_sendBurstTestPackets hown
  | receive => exact wp_receive hown
  | main => exact wp_main hown

/-- **Buffers are conserved.** After any calls, what the next one does with each
buffer is a number of whole lifetimes: obtained, used, and then freed or handed
to the device, once, before it returns.

Each function of the program owns what it has obtained until it frees it or the device
takes it, and gets every buffer off its hands before it returns, on its error paths too.
The calls are then lifetimes one after the other, and so is the run. -/
theorem mbufs_conserved (cs : List Call) (c : Call) {h h' : History Res}
    (hcs : Runs Answers [] (forEach Call.prog cs) () h) (hc : Runs Answers h c.prog () h') :
    ∃ seg, h' = h ++ seg ∧ ∀ m, Lifetimes (usesOf m (trace seg)) := by
  have hown : Owns [] h := hcs.spec
    (wp_forEach (fun _ => Owns []) (fun c _ h hown => wp_prog c hown) Owned.nil)
  have hown' := hc.spec (wp_prog c hown)
  obtain ⟨seg, rfl⟩ := hc.extends
  refine ⟨seg, rfl, fun m => Owned.lifetimes ?_ m⟩
  rw [Owns, trace, List.flatMap_append] at hown'
  exact Owned.of_append hown hown'

/-- A buffer the program does not hold. -/
def fresh (h : History Res) : Mbuf := (held (trace h)).sup id + 1

theorem fresh_notMem (h : History Res) : fresh h ∉ held (trace h) := by
  intro hmem
  have hle : fresh h ≤ (held (trace h)).sup id := Finset.le_sup (f := id) hmem
  exact Nat.not_succ_le_self _ hle

/-- The 16-bit words of a header in network order. -/
def words : List UInt8 → List ℕ
  | hi :: lo :: bytes => (256 * hi.toNat + lo.toNat) :: words bytes
  | _ => []

/-- The ones' complement sum of words. What is carried out is added again, so that
65536 counts as 1, and a sum that is not 0 ends up between 1 and 65535. -/
def onesSum (ws : List ℕ) : ℕ := if ws.sum = 0 then 0 else (ws.sum - 1) % 65535 + 1

/-- A library with which everything succeeds: the checksum is the complement of the
ones' complement sum, the device takes one packet at a time, and one has always
come in. -/
def env (h : History Res) : (op : Op) → Res op
  | .rtePktmbufAlloc => some (fresh h)
  | .rtePktmbufAppend .. => true
  | .store .. => ()
  | .rteEthMacaddrGet _ => some ⟨[2, 0, 0, 0, 0, 1], rfl⟩
  | .rteIpv4Cksum _ ipHdr => UInt16.ofNat (65535 - onesSum (words ipHdr))
  | .rteEthTxBurst _ pkts => min 1 pkts.length
  | .rteEthRxBurst _ n => [fresh h].take n
  | .rtePktmbufPktLen _ => pktSize
  | .rtePktmbufFree _ => ()

theorem env_answers (h : History Res) (op : Op) : Answers h op (env h op) := by
  cases op with
  | rtePktmbufAlloc =>
    rintro b ⟨⟩
    exact fresh_notMem h
  | rteEthTxBurst portid pkts => exact Nat.min_le_right 1 pkts.length
  | rteEthRxBurst portid n =>
    refine ⟨List.length_take_le n _, (List.nodup_singleton _).sublist (List.take_sublist n _),
      fun b hb => ?_⟩
    obtain rfl := List.mem_singleton.mp (List.mem_of_mem_take hb)
    exact fresh_notMem h
  | _ => trivial

/-- The history of a burst of which the device takes one packet. -/
def afterBurst : History Res := ((forEach Call.prog [Call.sendBurstTestPackets 0 1]).run env []).2

/-- A turn of `main` after it, with all it does to the buffers. -/
theorem mbufs_conserved_burst :
    ∃ seg, ((Call.main 1).prog.run env afterBurst).2 = afterBurst ++ seg ∧
      ∀ m, Lifetimes (usesOf m (trace seg)) :=
  mbufs_conserved [Call.sendBurstTestPackets 0 1] (Call.main 1) (runs_run env_answers _ _)
    (runs_run env_answers _ _)

/-- The packet is appended, cleared, filled, offered and handed over. -/
example : usesOf 1 (trace ((sendOneTestPacket 0 1).run env []).2) =
    .obtained :: List.replicate 9 .used ++ [.handed] := by
  decide

end Mydpdk

end KernelDrvLearn
