import KernelDrvLearn.KernelApi
import KernelDrvLearn.Printf
import KernelDrvLearn.Transition

/-!
# The tunnelling hook

`hook_func_tunnel_in` of `mynfhook/nf_hook.c`, with the packet it is called for:
a `struct sk_buff` whose first bytes are in a buffer that clones of the packet
may share, the rest being in pages. The calls of the kernel are partial: one on a
packet already handed over, a push without room in front of the bytes and a put
of a device not held have no result.

The hook has a result for every packet and whatever allocations fail. It takes a
packet exactly when it is one to be tunnelled, sends it once, whole and behind
the Ethernet header, and otherwise leaves its bytes as they were; it releases the
device it looked up, and nobody who holds a clone sees a byte change
(`tunnel_stream`).
-/

namespace KernelDrvLearn

namespace NfHook

/-! ## Packets

A packet as the functions of `skbuff.h` treat it. A buffer can belong to several packets,
and whoever writes into it without having it to himself changes the others; a function
that is called where it may not be has no result. -/

/-- A network device, known by its name. -/
abbrev NetDevice : Type := List Byte

/-- `struct sk_buff`, with its bytes in two places. -/
structure SkBuff where
  /-- the buffer of its linear bytes -/
  head : ℕ
  /-- where they begin (`skb_headroom`) -/
  headroom : ℕ
  /-- their number (`skb_headlen`) -/
  headlen : ℕ
  /-- the bytes in pages -/
  frags : List Byte
  /-- `dev` -/
  dev : NetDevice
  /-- `protocol` -/
  protocol : BitVec 16
  /-- `pkt_type` -/
  pktType : ℕ

/-- What the device is given: a packet as it goes out. -/
structure Frame where
  /-- the device -/
  dev : NetDevice
  /-- the bytes -/
  bytes : List Byte
  /-- `protocol` -/
  protocol : BitVec 16
  /-- `pkt_type` -/
  pktType : ℕ
  deriving DecidableEq

/-- The kernel around the hook, while it is called for a packet. -/
structure World where
  /-- the buffers -/
  buffers : ℕ → ℕ → Byte
  /-- the packets that others hold -/
  clones : List SkBuff
  /-- the packet -/
  skb : SkBuff
  /-- is it still the hook's? -/
  owned : Bool
  /-- references held to the outgoing device -/
  refs : ℕ
  /-- what was sent -/
  sent : List Frame

/-- The bytes of a packet, wherever they are stored. -/
def SkBuff.bytes (buffers : ℕ → ℕ → Byte) (skb : SkBuff) : List Byte :=
  Mem.load (buffers skb.head) skb.headroom skb.headlen ++ skb.frags

/-- The bytes of the hook's packet, from its head to its end, linear or not. -/
def World.bytes (w : World) : List Byte := w.skb.bytes w.buffers

/-- `skb_header_cloned`: does another packet use the same buffer? -/
def World.cloned (w : World) : Prop := ∃ o ∈ w.clones, o.head = w.skb.head

instance (w : World) : Decidable w.cloned := inferInstanceAs (Decidable (∃ o ∈ w.clones, _))

/-- The linear bytes in a buffer of their own, `n`, with this room in front. -/
def World.expandHead (w : World) (n headroom : ℕ) (bytes frags : List Byte) : World :=
  { w with
    buffers := Function.update w.buffers n (Mem.store (w.buffers n) headroom bytes)
    skb := { w.skb with
      head := n
      headroom := headroom
      headlen := bytes.length
      frags := frags } }

/-- `pskb_may_pull`; `mem` is the buffer it gets if it needs one. -/
def pskbMayPull (w : World) (len : ℕ) (mem : Option ℕ) : Option (Bool × World) :=
  if w.owned = false then none
  else if len ≤ w.skb.headlen then some (true, w)
  else if w.bytes.length < len then some (false, w)
  else some <| mem.elim (false, w) fun n =>
    (true, w.expandHead n w.skb.headroom (w.bytes.take len) (w.bytes.drop len))

/-- `skb_cow_head`: room in front, in a buffer of its own; an error without memory. -/
def skbCowHead (w : World) (headroom : ℕ) (mem : Option ℕ) : Option (Int × World) :=
  if w.owned = false then none
  else if headroom ≤ w.skb.headroom ∧ ¬ w.cloned then some (0, w)
  else some <| mem.elim (enomem, w) fun n =>
    (0, w.expandHead n (max headroom w.skb.headroom)
      (Mem.load (w.buffers w.skb.head) w.skb.headroom w.skb.headlen) w.skb.frags)

/-- `skb_push`: the packet begins earlier, if there is room. -/
def skbPush (w : World) (len : ℕ) : Option World :=
  if w.owned = true ∧ len ≤ w.skb.headroom then
    some { w with skb := { w.skb with
      headroom := w.skb.headroom - len
      headlen := w.skb.headlen + len } }
  else none

/-- Stores to the linear bytes, from `off` on. -/
def storeBytes (w : World) (off : ℕ) (bytes : List Byte) : Option World :=
  if w.owned = true ∧ off + bytes.length ≤ w.skb.headlen then
    some { w with
      buffers := Function.update w.buffers w.skb.head
        (Mem.store (w.buffers w.skb.head) (w.skb.headroom + off) bytes) }
  else none

/-- `skb->dev`, `skb->protocol` and `skb->pkt_type`, which the hook sets. -/
def setMeta (w : World) (dev : NetDevice) (protocol : BitVec 16) (pktType : ℕ) : Option World :=
  if w.owned = true then
    some { w with skb := { w.skb with dev := dev, protocol := protocol, pktType := pktType } }
  else none

/-- `dev_queue_xmit`: the packet is the device's from now on. -/
def devQueueXmit (w : World) : Option World :=
  if w.owned = true then
    some { w with
      owned := false
      sent := w.sent ++ [⟨w.skb.dev, w.bytes, w.skb.protocol, w.skb.pktType⟩] }
  else none

/-- `dev_get_by_name`, which takes a reference to the device. -/
def devGetByName (w : World) (found : Bool) : Bool × World :=
  if found then (true, { w with refs := w.refs + 1 }) else (false, w)

/-- `dev_put`, which gives a reference back that is held. -/
def devPut (w : World) : Option World :=
  if 0 < w.refs then some { w with refs := w.refs - 1 } else none

/-! ## The hook

`hook_func_tunnel_in` in the order of the source, with every early return. What the kernel
answers along the way (allocations, the lookup) is given beforehand. -/

/-- A number of a dotted quad, in decimal, and the rest of the text; the loop of
`in_aton`. -/
def inAtonNumber (val : BitVec 32) : List Byte → BitVec 32 × List Byte
  | [] => (val, [])
  | c :: str =>
    if c = 46 ∨ c = 10 then (val, c :: str)
    else inAtonNumber (val * 10 + (c.setWidth 32 - 48)) str

/-- `in_aton` with `n` numbers still to come. -/
def inAtonLoop : ℕ → BitVec 32 → List Byte → BitVec 32
  | 0, l, _ => l
  | n + 1, l, str =>
    let (val, rest) := inAtonNumber 0 str
    inAtonLoop n ((l <<< 8) ||| val) rest.tail

/-- `in_aton`, the address as the number whose bytes in network order it is. -/
def inAton (str : List Byte) : BitVec 32 := inAtonLoop 4 0 str

/-- `in_ifname`, the device whose packets are taken. -/
def inIfname : NetDevice := ascii "veth_in_root"

/-- `out_ifname`, the device they are sent on. -/
def outIfname : NetDevice := ascii "veth_out_root"

/-- `target_ip`, as the text that `in_aton` reads. -/
def targetIp : BitVec 32 := inAton (ascii "10.0.10.1")

/-- `src_mac`, the source address of the new header. -/
def srcMac : List Byte := [0x02, 0x00, 0x00, 0x00, 0x00, 0x11]

/-- `dst_mac`, the destination address of the new header. -/
def dstMac : List Byte := [0x02, 0x00, 0x00, 0x00, 0x00, 0x22]

/-- `ETH_HLEN`, the length of an Ethernet header. -/
abbrev ethHlen : ℕ := 14

/-- `ETH_P_IP`, the type of an IPv4 packet. -/
abbrev ethPIp : BitVec 16 := 0x0800

/-- `PACKET_OUTGOING`, a packet on its way out. -/
abbrev packetOutgoing : ℕ := 4

/-- `sizeof(struct iphdr)`. -/
abbrev sizeofIphdr : ℕ := 20

/-- Byte `i` of the linear bytes. -/
def World.byte (w : World) (i : ℕ) : Byte := w.buffers w.skb.head (w.skb.headroom + i)

/-- `ip_header->version`, the upper half of the first byte. -/
def version (w : World) : BitVec 4 := (w.byte 0).extractLsb' 4 4

/-- `ip_header->daddr`, as a number in network order. -/
def daddr (w : World) : BitVec 32 := w.byte 16 ++ w.byte 17 ++ w.byte 18 ++ w.byte 19

/-- What the hook returns: the packet goes on, or was taken. -/
inductive Verdict where
  /-- `NF_ACCEPT` -/
  | accept
  /-- `NF_STOLEN` -/
  | stolen
  deriving DecidableEq

/-- What the kernel answers when it is asked for memory and for the device. -/
structure Env where
  /-- the buffer `pskb_may_pull` can get -/
  pull : Option ℕ
  /-- does the outgoing device exist? -/
  found : Bool
  /-- the buffer `skb_cow_head` can get -/
  cow : Option ℕ

/-- The header that `hook_func_tunnel_in` stores, field by field. -/
def storeEthhdr (w : World) : Option World := do
  let w ← storeBytes w 0 dstMac
  let w ← storeBytes w 6 srcMac
  storeBytes w 12 [0x08, 0x00]

/-- `hook_func_tunnel_in`: from `skb_push` on, where nothing fails any more. -/
def send (w : World) : Option World := do
  let w ← skbPush w ethHlen
  let w ← storeEthhdr w
  let w ← setMeta w outIfname ethPIp packetOutgoing
  devQueueXmit w

/-- `hook_func_tunnel_in` with a reference to the device. -/
def tunnel (w : World) (env : Env) : Option (Verdict × World) := do
  let (ret, w) ← skbCowHead w ethHlen env.cow
  if ret < 0 then return (.accept, ← devPut w)
  let w ← send w
  return (.stolen, ← devPut w)

/-- `hook_func_tunnel_in` for a packet that was received on `dev`, if there is
one. -/
def hookFuncTunnelIn (w : World) (dev : Option NetDevice) (env : Env) :
    Option (Verdict × World) :=
  match dev with
  | none => some (.accept, w)
  | some dev => do
    let (ok, w) ← pskbMayPull w sizeofIphdr env.pull
    if ok = false then return (.accept, w)
    if version w ≠ 4 then return (.accept, w)
    if dev = inIfname ∧ daddr w = targetIp then
      let (found, w) := devGetByName w env.found
      if found = false then return (.accept, w)
      tunnel w env
    else return (.accept, w)

/-! ## What it is for

Told without the hook: which packets are to be tunnelled, when they can be, and what then
goes out. The functions of the kernel are shown to do to the bytes what their names say,
and nothing to the packets of others. -/

/-- The packets to be tunnelled: received on `veth_in_root`, at least an IPv4
header long, and for 10.0.10.1. -/
def Wanted (dev : Option NetDevice) (bytes : List Byte) : Prop :=
  dev = some inIfname ∧ sizeofIphdr ≤ bytes.length ∧ (bytes.getD 0 0).extractLsb' 4 4 = 4 ∧
    (bytes.drop 16).take 4 = [10, 0, 10, 1]

instance (dev : Option NetDevice) (bytes : List Byte) : Decidable (Wanted dev bytes) :=
  inferInstanceAs (Decidable (_ ∧ _ ∧ _ ∧ _))

/-- The outgoing device is there, and there is memory where it is needed: for the
IP header if that is not linear, and for the Ethernet header if there is no room
for it or a clone uses the buffer. -/
def Served (w : World) (env : Env) : Prop :=
  (sizeofIphdr ≤ w.skb.headlen ∨ env.pull.isSome) ∧ env.found = true ∧
    (ethHlen ≤ w.skb.headroom ∧ (w.cloned → w.skb.headlen < sizeofIphdr) ∨ env.cow.isSome)

instance (w : World) (env : Env) : Decidable (Served w env) :=
  inferInstanceAs (Decidable (_ ∧ _ ∧ _))

/-- The Ethernet header: two addresses and the type. -/
def ethhdr : List Byte := dstMac ++ srcMac ++ [0x08, 0x00]

/-- What is sent for a packet: the header, and the packet as it came. -/
def frame (bytes : List Byte) : Frame := ⟨outIfname, ethhdr ++ bytes, ethPIp, packetOutgoing⟩

/-- Memory that is allocated is not in use by any packet. -/
structure Env.Valid (w : World) (env : Env) : Prop where
  /-- for the IP header -/
  pull : ∀ n ∈ env.pull, ∀ o ∈ w.clones, o.head ≠ n
  /-- for the Ethernet header -/
  cow : ∀ n ∈ env.cow, ∀ o ∈ w.clones, o.head ≠ n

/-- The others see no difference, and nothing was sent. -/
structure Same (w w' : World) : Prop where
  /-- the clones -/
  clones : w'.clones = w.clones
  /-- their bytes -/
  others : ∀ o ∈ w.clones, o.bytes w'.buffers = o.bytes w.buffers
  /-- the references -/
  refs : w'.refs = w.refs
  /-- what was sent -/
  sent : w'.sent = w.sent

variable {w w' : World} {env : Env} {mem : Option ℕ} {n : ℕ}

theorem Same.refl (w : World) : Same w w := ⟨rfl, fun _ _ => rfl, rfl, rfl⟩

/-- A buffer that no clone uses may change. -/
theorem bytes_update {o : SkBuff} (h : o.head ≠ n) (buffers : ℕ → ℕ → Byte) (m : ℕ → Byte) :
    o.bytes (Function.update buffers n m) = o.bytes buffers := by
  rw [SkBuff.bytes, Function.update_of_ne h, SkBuff.bytes]

theorem same_expandHead (h : ∀ o ∈ w.clones, o.head ≠ n) (headroom : ℕ)
    (bytes frags : List Byte) : Same w (w.expandHead n headroom bytes frags) :=
  ⟨rfl, fun o ho => bytes_update (h o ho) _ _, rfl, rfl⟩

theorem bytes_expandHead (w : World) (n headroom : ℕ) (bytes frags : List Byte) :
    (w.expandHead n headroom bytes frags).bytes = bytes ++ frags := by
  rw [World.bytes, SkBuff.bytes]
  dsimp only [World.expandHead]
  rw [Function.update_self, Mem.load_store]

theorem not_cloned_expandHead (h : ∀ o ∈ w.clones, o.head ≠ n) (headroom : ℕ)
    (bytes frags : List Byte) : ¬ (w.expandHead n headroom bytes frags).cloned := by
  rintro ⟨o, ho, heq⟩
  exact h o ho heq

theorem length_bytes (w : World) : w.bytes.length = w.skb.headlen + w.skb.frags.length := by
  simp [World.bytes, SkBuff.bytes]

/-- **`pskb_may_pull`** leaves the bytes alone. It succeeds when there are enough,
and if they are not linear it needs memory, which no clone uses. -/
theorem pskbMayPull_spec (len : ℕ) (howned : w.owned = true)
    (hmem : ∀ n ∈ mem, ∀ o ∈ w.clones, o.head ≠ n) :
    ∃ ok w', pskbMayPull w len mem = some (ok, w') ∧ Same w w' ∧ w'.owned = true ∧
      w'.bytes = w.bytes ∧ w'.skb.headroom = w.skb.headroom ∧
      (ok = true ↔ len ≤ w.bytes.length ∧ (len ≤ w.skb.headlen ∨ mem.isSome)) ∧
      (ok = true → len ≤ w'.skb.headlen ∧ (w'.cloned ↔ w.cloned ∧ len ≤ w.skb.headlen)) := by
  have hlength := length_bytes w
  rw [pskbMayPull, if_neg (by simp [howned])]
  by_cases hlin : len ≤ w.skb.headlen
  · rw [if_pos hlin]
    exact ⟨true, w, rfl, .refl w, howned, rfl, rfl, by simp [hlin]; omega,
      fun _ => ⟨hlin, by simp [hlin]⟩⟩
  rw [if_neg hlin]
  by_cases hshort : w.bytes.length < len
  · rw [if_pos hshort]
    exact ⟨false, w, rfl, .refl w, howned, rfl, rfl, by simp; omega, by simp⟩
  rw [if_neg hshort]
  cases mem with
  | none =>
    exact ⟨false, w, rfl, .refl w, howned, rfl, rfl, by simp [hlin], by simp⟩
  | some n =>
    have hfresh := hmem n rfl
    have htake : (w.bytes.take len).length = len := List.length_take_of_le (not_lt.mp hshort)
    refine ⟨true, _, rfl, same_expandHead hfresh _ _ _, howned, ?_, rfl, ?_, ?_⟩
    · rw [bytes_expandHead, List.take_append_drop]
    · simpa using not_lt.mp hshort
    · refine fun _ => ⟨htake.ge, ?_⟩
      exact iff_of_false (not_cloned_expandHead hfresh _ _ _) fun h => hlin h.2

/-- **`skb_cow_head`** leaves the bytes alone. When it succeeds there is room in
front of them, in a buffer that no clone uses. -/
theorem skbCowHead_spec (headroom : ℕ) (howned : w.owned = true)
    (hmem : ∀ n ∈ mem, ∀ o ∈ w.clones, o.head ≠ n) :
    ∃ ret w', skbCowHead w headroom mem = some (ret, w') ∧ Same w w' ∧ w'.owned = true ∧
      w'.bytes = w.bytes ∧
      (ret < 0 ↔ ¬ (headroom ≤ w.skb.headroom ∧ ¬ w.cloned ∨ mem.isSome)) ∧
      (¬ ret < 0 → headroom ≤ w'.skb.headroom ∧ ¬ w'.cloned) := by
  rw [skbCowHead, if_neg (by simp [howned])]
  by_cases hroom : headroom ≤ w.skb.headroom ∧ ¬ w.cloned
  · rw [if_pos hroom]
    exact ⟨0, w, rfl, .refl w, howned, rfl, by simp [hroom], fun _ => hroom⟩
  rw [if_neg hroom]
  cases mem with
  | none =>
    refine ⟨enomem, w, rfl, .refl w, howned, rfl, ?_, fun h => absurd (by decide) h⟩
    exact iff_of_true (by decide) (by simpa using hroom)
  | some n =>
    have hfresh := hmem n rfl
    refine ⟨0, _, rfl, same_expandHead hfresh _ _ _, howned, ?_, by simp, ?_⟩
    · rw [bytes_expandHead]
      rfl
    · exact fun _ => ⟨le_max_left _ _, not_cloned_expandHead hfresh _ _ _⟩

theorem storeBytes_eq {off : ℕ} {bytes : List Byte} (howned : w.owned = true)
    (h : off + bytes.length ≤ w.skb.headlen) :
    storeBytes w off bytes = some { w with
      buffers := Function.update w.buffers w.skb.head
        (Mem.store (w.buffers w.skb.head) (w.skb.headroom + off) bytes) } :=
  if_pos ⟨howned, h⟩

/-- The three stores make up the header. -/
theorem storeEthhdr_eq (howned : w.owned = true) (h : ethHlen ≤ w.skb.headlen) :
    storeEthhdr w = some { w with
      buffers := Function.update w.buffers w.skb.head
        (Mem.store (w.buffers w.skb.head) w.skb.headroom ethhdr) } := by
  have hdst : 0 + dstMac.length ≤ w.skb.headlen := le_trans (by decide) h
  have hsrc : 6 + srcMac.length ≤ w.skb.headlen := le_trans (by decide) h
  have hproto : 12 + [0x08, (0x00 : Byte)].length ≤ w.skb.headlen := le_trans (by decide) h
  rw [storeEthhdr, storeBytes_eq howned hdst, Option.bind_eq_bind, Option.bind_some,
    storeBytes_eq (by exact howned) (by exact hsrc), Option.bind_some,
    storeBytes_eq (by exact howned) (by exact hproto)]
  dsimp only
  simp only [Function.update_idem, Function.update_self, ethhdr, Mem.store_append]
  rfl

/-- **Push and header.** With room, and no clone in the buffer, the header stands
in front of the bytes. -/
theorem skbPush_storeEthhdr (howned : w.owned = true) (hroom : ethHlen ≤ w.skb.headroom)
    (hclone : ¬ w.cloned) :
    ∃ w', (skbPush w ethHlen >>= storeEthhdr) = some w' ∧ Same w w' ∧ w'.owned = true ∧
      w'.bytes = ethhdr ++ w.bytes := by
  have hpush : skbPush w ethHlen = some { w with skb := { w.skb with
      headroom := w.skb.headroom - ethHlen
      headlen := w.skb.headlen + ethHlen } } := if_pos ⟨howned, hroom⟩
  rw [hpush, Option.bind_eq_bind, Option.bind_some,
    storeEthhdr_eq (by exact howned) (by exact Nat.le_add_left _ _)]
  refine ⟨_, rfl, ⟨rfl, fun o ho => bytes_update (fun heq => hclone ⟨o, ho, heq⟩) _ _, rfl, rfl⟩,
    howned, ?_⟩
  rw [World.bytes, SkBuff.bytes, World.bytes, SkBuff.bytes]
  dsimp only
  rw [Function.update_self, Nat.add_comm w.skb.headlen, Mem.load_add, ← List.append_assoc]
  congr 2
  · exact Mem.load_store
  · refine (Mem.load_congr fun i _ => Mem.store_of_le ?_).trans ?_
    · exact Nat.le_add_right _ _
    · rw [Nat.sub_add_cancel hroom]

theorem append_inj {m k : ℕ} {x x' : BitVec m} {y y' : BitVec k} :
    x ++ y = x' ++ y' ↔ x = x' ∧ y = y' := by
  refine ⟨fun h => ?_, by rintro ⟨rfl, rfl⟩; rfl⟩
  have hlow : y = y' := by
    have hset := congrArg (BitVec.setWidth k) h
    simpa [BitVec.setWidth_append] using hset
  subst hlow
  exact ⟨(BitVec.append_left_inj y).mp h, rfl⟩

/-- With the IP header linear the hook reads it right. -/
theorem wanted_iff (hlin : sizeofIphdr ≤ w.skb.headlen) (dev : NetDevice) :
    Wanted (some dev) w.bytes ↔ version w = 4 ∧ dev = inIfname ∧ daddr w = targetIp := by
  have hlength := length_bytes w
  have hzero : w.bytes.getD 0 0 = w.byte 0 := by
    have hlt : 0 < w.skb.headlen := lt_of_lt_of_le (by decide) hlin
    rw [World.bytes, SkBuff.bytes, List.getD_eq_getElem?_getD,
      List.getElem?_append_left (by simpa using hlt), Mem.load_getElem? hlt]
    rfl
  have haddr : (w.bytes.drop 16).take 4 =
      [w.byte 16, w.byte 17, w.byte 18, w.byte 19] := by
    have hload : Mem.load (w.buffers w.skb.head) w.skb.headroom w.skb.headlen =
        Mem.load (w.buffers w.skb.head) w.skb.headroom 16 ++
          ([w.byte 16, w.byte 17, w.byte 18, w.byte 19] ++
            Mem.load (w.buffers w.skb.head) (w.skb.headroom + 20) (w.skb.headlen - 20)) := by
      obtain ⟨k, hk⟩ := Nat.exists_eq_add_of_le (show 20 ≤ w.skb.headlen from hlin)
      rw [hk, show 20 + k = 16 + (4 + k) by omega, Mem.load_add, Mem.load_add,
        show 16 + (4 + k) - 20 = k by omega]
      rfl
    rw [World.bytes, SkBuff.bytes, hload, List.append_assoc,
      List.drop_left' (by simp), List.append_assoc]
    rfl
  have htarget : targetIp = (10 : Byte) ++ (0 : Byte) ++ (10 : Byte) ++ (1 : Byte) := by decide
  rw [Wanted, hzero, haddr, version, daddr, htarget, append_inj, append_inj, append_inj]
  simp only [Option.some.injEq, List.cons.injEq, and_true]
  have hlen : sizeofIphdr ≤ w.bytes.length := by omega
  tauto

/-! ## What it does

By the early returns of the hook. A packet is accepted untouched wherever it is not
wanted, or cannot be served; otherwise it is sent and taken. The reference to the device
is put back on each way that has it. -/

/-- What a call of the hook leaves, for this packet and for the others. -/
structure Outcome (w : World) (dev : Option NetDevice) (env : Env) (v : Verdict) (w' : World) :
    Prop where
  /-- the references to the device are as before -/
  refs : w'.refs = w.refs
  /-- those who hold clones see no difference -/
  others : ∀ o ∈ w.clones, o.bytes w'.buffers = o.bytes w.buffers
  /-- a packet to be tunnelled is taken and sent, once -/
  stolen : Wanted dev w.bytes ∧ Served w env → v = .stolen ∧ w'.sent = w.sent ++ [frame w.bytes]
  /-- another goes on as it is -/
  accept : ¬ (Wanted dev w.bytes ∧ Served w env) →
    v = .accept ∧ w'.owned = true ∧ w'.bytes = w.bytes ∧ w'.sent = w.sent

/-- A packet that is not taken goes on as it came. -/
theorem Outcome.accepted {dev : Option NetDevice} (hsame : Same w w') (howned : w'.owned = true)
    (hbytes : w'.bytes = w.bytes) (hnot : ¬ (Wanted dev w.bytes ∧ Served w env)) :
    Outcome w dev env .accept w' where
  refs := hsame.refs
  others := hsame.others
  stolen h := absurd h hnot
  accept _ := ⟨rfl, howned, hbytes, hsame.sent⟩

/-- **Sending.** With room in front and a buffer of its own, the packet goes out whole
behind its header. -/
theorem send_spec (howned : w.owned = true) (hroom : ethHlen ≤ w.skb.headroom)
    (hclone : ¬ w.cloned) :
    ∃ w', send w = some w' ∧ (∀ o ∈ w.clones, o.bytes w'.buffers = o.bytes w.buffers) ∧
      w'.refs = w.refs ∧ w'.sent = w.sent ++ [frame w.bytes] := by
  obtain ⟨w₁, hstore, hsame, howned₁, hbytes⟩ := skbPush_storeEthhdr howned hroom hclone
  have hmeta : setMeta w₁ outIfname ethPIp packetOutgoing = some { w₁ with
      skb := { w₁.skb with dev := outIfname, protocol := ethPIp, pktType := packetOutgoing } } :=
    if_pos howned₁
  rw [send, ← bind_assoc, hstore, Option.bind_eq_bind, Option.bind_some, hmeta,
    Option.bind_some, devQueueXmit, if_pos (by exact howned₁)]
  refine ⟨_, rfl, hsame.others, hsame.refs, ?_⟩
  have hall : World.bytes { w₁ with skb := { w₁.skb with
      dev := outIfname, protocol := ethPIp, pktType := packetOutgoing } } = w₁.bytes := rfl
  rw [hall, hbytes, hsame.sent]
  rfl

theorem devPut_eq (h : 0 < w.refs) : devPut w = some { w with refs := w.refs - 1 } := if_pos h

/-- **With a reference to the device.** The packet is sent when there is room for
the header, or memory for it; the reference is released in any case. -/
theorem tunnel_spec (howned : w.owned = true) (hrefs : 0 < w.refs)
    (hmem : ∀ n ∈ env.cow, ∀ o ∈ w.clones, o.head ≠ n) :
    ∃ v w', tunnel w env = some (v, w') ∧ w'.refs = w.refs - 1 ∧
      (∀ o ∈ w.clones, o.bytes w'.buffers = o.bytes w.buffers) ∧
      (ethHlen ≤ w.skb.headroom ∧ ¬ w.cloned ∨ env.cow.isSome →
        v = .stolen ∧ w'.sent = w.sent ++ [frame w.bytes]) ∧
      (¬ (ethHlen ≤ w.skb.headroom ∧ ¬ w.cloned ∨ env.cow.isSome) →
        v = .accept ∧ w'.owned = true ∧ w'.bytes = w.bytes ∧ w'.sent = w.sent) := by
  obtain ⟨ret, w₁, hcow, hsame, howned₁, hbytes, hret, hroom⟩ :=
    skbCowHead_spec ethHlen howned hmem
  have hrefs₁ : 0 < w₁.refs := hsame.refs.symm ▸ hrefs
  rw [tunnel, hcow, Option.bind_eq_bind, Option.bind_some]
  by_cases hneg : ret < 0
  · dsimp only
    rw [if_pos hneg, devPut_eq hrefs₁]
    exact ⟨_, _, rfl, congrArg (· - 1) hsame.refs, hsame.others, fun h => absurd h (hret.mp hneg),
      fun _ => ⟨rfl, howned₁, hbytes, hsame.sent⟩⟩
  · obtain ⟨w₂, hsend, hothers, hrefs₂, hsent⟩ :=
      send_spec howned₁ (hroom hneg).1 (hroom hneg).2
    dsimp only
    rw [if_neg hneg, hsend, Option.bind_eq_bind, Option.bind_some, devPut_eq (by omega)]
    refine ⟨_, _, rfl, ?_, fun o ho => ?_, fun _ => ⟨rfl, ?_⟩, fun h => absurd (hret.mpr h) hneg⟩
    · change w₂.refs - 1 = w.refs - 1
      rw [hrefs₂, hsame.refs]
    · exact (hothers o (hsame.clones.symm ▸ ho)).trans (hsame.others o ho)
    · change w₂.sent = _
      rw [hsent, hsame.sent, hbytes]

/-- Once the IP header is linear and the device found, what is left to be served. -/
theorem served_iff (hpulled : sizeofIphdr ≤ w.skb.headlen ∨ env.pull.isSome)
    (hfound : env.found = true) (hroom : w'.skb.headroom = w.skb.headroom)
    (hcloned : w'.cloned ↔ w.cloned ∧ sizeofIphdr ≤ w.skb.headlen) :
    Served w env ↔ ethHlen ≤ w'.skb.headroom ∧ ¬ w'.cloned ∨ env.cow.isSome := by
  rw [Served, hcloned, hroom, not_and, not_le]
  exact ⟨fun h => h.2.2, fun h => ⟨hpulled, hfound, h⟩⟩

/-- **The hook.** It has a result, whatever the packet and whatever fails. -/
theorem hookFuncTunnelIn_spec (howned : w.owned = true) (hvalid : env.Valid w)
    (dev : Option NetDevice) :
    ∃ v w', hookFuncTunnelIn w dev env = some (v, w') ∧ Outcome w dev env v w' := by
  cases dev with
  | none => exact ⟨_, _, rfl, .accepted (.refl w) howned rfl fun h => by cases h.1.1⟩
  | some dev =>
    obtain ⟨ok, w₁, hpull, hsame, howned₁, hbytes, hroom, hok, hlin⟩ :=
      pskbMayPull_spec sizeofIphdr howned hvalid.pull
    rw [hookFuncTunnelIn, hpull, Option.bind_eq_bind, Option.bind_some]
    cases ok with
    | false =>
      refine ⟨_, _, rfl, .accepted hsame howned₁ hbytes fun h => ?_⟩
      exact absurd (hok.mpr ⟨h.1.2.1, h.2.1⟩) (by decide)
    | true =>
      obtain ⟨hlin₁, hcloned⟩ := hlin rfl
      have hwanted := wanted_iff hlin₁ dev
      rw [hbytes] at hwanted
      dsimp only
      rw [if_neg (by decide)]
      by_cases hversion : version w₁ = 4
      case neg =>
        rw [if_pos hversion]
        exact ⟨_, _, rfl, .accepted hsame howned₁ hbytes fun h => hversion (hwanted.mp h.1).1⟩
      rw [if_neg (not_not_intro hversion)]
      by_cases hmatch : dev = inIfname ∧ daddr w₁ = targetIp
      case neg =>
        rw [if_neg hmatch]
        exact ⟨_, _, rfl, .accepted hsame howned₁ hbytes fun h => hmatch (hwanted.mp h.1).2⟩
      rw [if_pos hmatch]
      cases hfound : env.found with
      | false =>
        refine ⟨_, _, rfl, .accepted hsame howned₁ hbytes fun h => ?_⟩
        exact absurd (hfound.symm.trans h.2.2.1) (by decide)
      | true =>
        -- the device is found, and its count goes up
        obtain ⟨v, w', htunnel, hrefs, hothers, hstolen, haccept⟩ :=
          @tunnel_spec { w₁ with refs := w₁.refs + 1 } env howned₁ (Nat.succ_pos _)
            fun n hn o ho => hvalid.cow n hn o (hsame.clones ▸ ho)
        have hserved := served_iff (hok.mp rfl).2 hfound hroom hcloned
        refine ⟨v, w', htunnel, hrefs.trans hsame.refs, fun o ho => ?_, fun h => ?_, fun h => ?_⟩
        · exact (hothers o (hsame.clones.symm ▸ ho)).trans (hsame.others o ho)
        · obtain ⟨hv, hsent⟩ := hstolen (hserved.mp h.2)
          refine ⟨hv, hsent.trans ?_⟩
          exact congrArg₂ (fun l b => l ++ [frame b]) hsame.sent hbytes
        · have hnot := mt hserved.mpr fun hs => h ⟨hwanted.mpr ⟨hversion, hmatch⟩, hs⟩
          obtain ⟨hv, howned', hbytes', hsent⟩ := haccept hnot
          exact ⟨hv, howned', hbytes'.trans hbytes, hsent.trans hsame.sent⟩

/-! ## A stream of packets

One packet after another, with everything the kernel answers in between being arbitrary.
What was sent is a function of what has arrived. -/

/-- What has happened so far: what was sent, and what was let go on. -/
structure Log where
  /-- references held to the outgoing device -/
  refs : ℕ
  /-- what was sent -/
  sent : List Frame
  /-- the packets that went on, as they were left -/
  passed : List (List Byte)
  /-- what the others read from their clones, after each call -/
  clones : List (List Byte)

/-- A packet arrives, with the kernel around it as it then is. -/
structure Arrival where
  /-- the buffers -/
  buffers : ℕ → ℕ → Byte
  /-- the packets that others hold -/
  clones : List SkBuff
  /-- the packet -/
  skb : SkBuff
  /-- the device it was received on -/
  dev : Option NetDevice
  /-- what the kernel answers -/
  env : Env

/-- The hook is called for it, with nothing held. -/
def Arrival.world (a : Arrival) (s : Log) : World :=
  ⟨a.buffers, a.clones, a.skb, true, s.refs, s.sent⟩

/-- Memory that is allocated is not in use. -/
def Arrival.Valid (a : Arrival) : Prop := a.env.Valid (a.world ⟨0, [], [], []⟩)

/-- The hook takes it: it is wanted, and can be served. -/
def Arrival.Taken (a : Arrival) : Prop :=
  Wanted a.dev (a.skb.bytes a.buffers) ∧ Served (a.world ⟨0, [], [], []⟩) a.env

instance (a : Arrival) : Decidable a.Taken := inferInstanceAs (Decidable (_ ∧ _))

/-- The packet, if it is sent through the tunnel. -/
def Arrival.tunnelled (a : Arrival) : Option Frame :=
  if a.Taken then some (frame (a.skb.bytes a.buffers)) else none

/-- Its bytes, if it goes on up the stack as if there were no hook. -/
def Arrival.untouched (a : Arrival) : Option (List Byte) :=
  if a.Taken then none else some (a.skb.bytes a.buffers)

/-- The hook, called for one packet after another. -/
def hook : Lts Log Arrival where
  init := ⟨0, [], [], []⟩
  step s a := (hookFuncTunnelIn (a.world s) a.dev a.env).map fun r =>
    ⟨r.2.refs, r.2.sent, s.passed ++ (if r.1 = .accept then [r.2.bytes] else []),
      s.clones ++ a.clones.map (SkBuff.bytes r.2.buffers)⟩

/-- One packet, by what the hook does to it. -/
theorem hook_step (s : Log) {a : Arrival} (ha : a.Valid) :
    hook.step s a = some ⟨s.refs, s.sent ++ a.tunnelled.toList,
      s.passed ++ a.untouched.toList, s.clones ++ a.clones.map (SkBuff.bytes a.buffers)⟩ := by
  obtain ⟨v, w, heq, hrefs, hothers, hstolen, haccept⟩ :=
    hookFuncTunnelIn_spec (w := a.world s) rfl ⟨ha.pull, ha.cow⟩ a.dev
  have hclones : a.clones.map (SkBuff.bytes w.buffers) = a.clones.map (SkBuff.bytes a.buffers) :=
    List.map_congr_left hothers
  have htaken : Wanted a.dev (a.world s).bytes ∧ Served (a.world s) a.env ↔ a.Taken := Iff.rfl
  change Option.map _ (hookFuncTunnelIn (a.world s) a.dev a.env) = _
  rw [heq, Option.map_some, hrefs, hclones, Arrival.tunnelled, Arrival.untouched]
  by_cases h : a.Taken
  · obtain ⟨rfl, hsent⟩ := hstolen (htaken.mpr h)
    rw [hsent, if_neg (show ¬ Verdict.stolen = .accept by decide), if_pos h, if_pos h,
      Option.toList_none, List.append_nil]
    rfl
  · obtain ⟨rfl, -, hbytes, hsent⟩ := haccept (mt htaken.mp h)
    rw [hsent, hbytes, if_pos rfl, if_neg h, if_neg h, Option.toList_none, List.append_nil]
    rfl

theorem exec_hook (s : Log) {as : List Arrival} (h : ∀ a ∈ as, a.Valid) :
    hook.exec s as = some ⟨s.refs, s.sent ++ as.filterMap Arrival.tunnelled,
      s.passed ++ as.filterMap Arrival.untouched,
      s.clones ++ as.flatMap fun a => a.clones.map (SkBuff.bytes a.buffers)⟩ := by
  induction as generalizing s with
  | nil => simp
  | cons a as ih =>
    rw [Lts.exec_cons, hook_step s (h a List.mem_cons_self), Option.bind_some,
      ih _ fun b hb => h b (List.mem_cons_of_mem _ hb)]
    rcases ht : a.tunnelled with _ | f <;> rcases hu : a.untouched with _ | b <;>
      simp [ht, hu]

/-- **A stream of packets.** However allocations and lookups fail, the hook never
uses a packet it has handed over, pushes without room or puts a device it does
not hold. It sends the packets to be tunnelled that can be served, each once, in
order, whole and behind the Ethernet header, and lets the others go on as they
are; clones do not change, and the device is released every time. -/
theorem tunnel_stream {as : List Arrival} (h : ∀ a ∈ as, a.Valid) :
    hook.exec hook.init as = some ⟨0, as.filterMap Arrival.tunnelled,
      as.filterMap Arrival.untouched,
      as.flatMap fun a => a.clones.map (SkBuff.bytes a.buffers)⟩ := by
  simpa [hook] using exec_hook ⟨0, [], [], []⟩ h

/-- The IP header of a packet for 10.0.10.1. -/
def exampleHeader : List Byte := 0x45 :: List.replicate 15 0 ++ [10, 0, 10, 1]

/-- It arrives without room in front, in a buffer that a clone shares. -/
def exampleArrival : Arrival where
  buffers _ i := exampleHeader.getD i 0
  clones := [⟨0, 0, 20, [], [], 0, 0⟩]
  skb := ⟨0, 0, 20, [], [], 0, 0⟩
  dev := some inIfname
  env := ⟨none, true, some 1⟩

theorem exampleArrival_valid : exampleArrival.Valid where
  pull n hn := by cases hn
  cow n hn := by
    obtain rfl := Option.some.inj hn
    simp [Arrival.world, exampleArrival]

/-- Sent once, the clone being left alone with its bytes. -/
theorem tunnel_stream_example : hook.exec hook.init [exampleArrival] =
    some ⟨0, [frame exampleHeader], [], [exampleHeader]⟩ :=
  tunnel_stream fun a ha => by
    obtain rfl := List.mem_singleton.mp ha
    exact exampleArrival_valid

end NfHook

end KernelDrvLearn
