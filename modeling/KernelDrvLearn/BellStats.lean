import KernelDrvLearn.KernelApi
import KernelDrvLearn.Ringbuf
import KernelDrvLearn.Transition

/-!
# `FB_GET_STATS`

The ioctl of `practice/myfakebell/myfakebell.c` that reports how many samples
the ring holds and how many it has dropped, against pushes by the interrupt
thread and pops by readers. It fetches the two numbers under the lock of the
ring, but one after the other (`FB_GET_STATUS` reads its three registers under
one lock).

A drop between the two fetches comes with a full ring, so the size fetched
before it may never have been there together with the new count. As long as no
push finds the ring full between the two fetches of a call, every pair reported
has existed; and once one does, after a first fetch that found room, the call
has only to go on for a pair that never existed (`stats_of_quiet`).
-/

namespace KernelDrvLearn

namespace BellStats

/-- `struct statmsg`. The ioctl fills in the first two counts, and leaves `irqcnt` zero.
-/
structure Statmsg where
  /-- `bufcnt` -/
  bufcnt : BitVec 32
  /-- `dropcnt` -/
  dropcnt : BitVec 32
  /-- `irqcnt` -/
  irqcnt : BitVec 32
  deriving DecidableEq

/-- The message made of what the two fetches return. -/
def statmsg (size lost : Int) : Statmsg := ⟨BitVec.ofInt 32 size, BitVec.ofInt 32 lost, 0⟩

/-- The value `myfbioctl` returns when `copy_to_user` leaves `uncopied` bytes. -/
def getStatsRet (uncopied : ℕ) : Int := if uncopied ≠ 0 then efault else 0

/-- One moment of the ring: its samples, and how many it had dropped by then. -/
structure Moment where
  /-- the ring -/
  ring : Ringbuf
  /-- the number of samples dropped so far -/
  drops : ℕ

/-- The message that tells of this moment. -/
def Moment.stats (m : Moment) : Statmsg :=
  statmsg (ringbufGetsize m.ring) (ringbufGetlost m.ring)

/-- How far a call has come, with what it has fetched so far in its local
`bufmsg`. -/
inductive Pc where
  /-- before `ringbuf_getsize` -/
  | entered
  /-- before `ringbuf_getlost` -/
  | gotSize (bufcnt : Int)
  /-- before `copy_to_user` -/
  | gotLost (bufcnt dropcnt : Int)

/-- A call in progress. The moments are a record for the statements only: the
ring at its entry and after every change since. -/
structure Call where
  /-- how far it has come -/
  pc : Pc
  /-- the moments since it began -/
  moments : List Moment

/-- A call goes on while the ring changes. -/
def Call.see (m : Moment) (c : Call) : Call := { c with moments := c.moments ++ [m] }

/-- Is the call between its two fetches? -/
def Call.Between (c : Call) : Prop :=
  match c.pc with
  | .gotSize _ => True
  | _ => False

/-- The ring and the calls in progress, by their process. -/
structure State where
  /-- `mydev->myrb` -/
  ring : Ringbuf
  /-- the number of samples dropped so far -/
  drops : ℕ
  /-- the calls -/
  calls : ℕ → Option Call

/-- What can happen: the ring changes, or a call takes a step. -/
inductive Act where
  /-- `ringbuf_push` by the interrupt thread -/
  | push (v : Rbdata)
  /-- `ringbuf_pop` by a reader -/
  | pop (v : Rbdata)
  /-- a process calls the ioctl -/
  | enter (i : ℕ)
  /-- its next fetch, `ringbuf_getsize` or `ringbuf_getlost` -/
  | fetch (i : ℕ)
  /-- its `copy_to_user`, and the return -/
  | ret (i uncopied : ℕ)

namespace State

/-- The moment it is, as the ring stands. -/
def now (s : State) : Moment := ⟨s.ring, s.drops⟩

/-- The ring changes, and every call sees it. -/
def change (s : State) (ring : Ringbuf) (dropped : Bool) : State :=
  let drops := if dropped then s.drops + 1 else s.drops
  ⟨ring, drops, fun i => (s.calls i).map (Call.see ⟨ring, drops⟩)⟩

/-- The call of a process, or none. -/
def setCall (s : State) (i : ℕ) (c : Option Call) : State :=
  { s with calls := Function.update s.calls i c }

end State

/-- The next fetch of a call. -/
def Call.fetch (s : State) (c : Call) : Option Call :=
  match c.pc with
  | .entered => some ⟨.gotSize (ringbufGetsize s.ring), c.moments⟩
  | .gotSize bufcnt => some ⟨.gotLost bufcnt (ringbufGetlost s.ring), c.moments⟩
  | .gotLost _ _ => none

/-- The message of a call, when it has fetched both. -/
def Call.message (c : Call) : Option Statmsg :=
  match c.pc with
  | .gotLost bufcnt dropcnt => some (statmsg bufcnt dropcnt)
  | _ => none

/-- The device, from its probe on: an empty ring and no call. -/
def bellStats : Lts State Act where
  init := ⟨ringbufInit, 0, fun _ => none⟩
  step := fun s a =>
    match a with
    | .push v => some (s.change (ringbufPush s.ring v) (decide (s.ring.size = (ringbufSize : ℕ))))
    | .pop v => some (s.change (ringbufPop s.ring v).ring false)
    | .enter i =>
      if (s.calls i).isNone then some (s.setCall i (some ⟨.entered, [s.now]⟩)) else none
    | .fetch i => ((s.calls i).bind (Call.fetch s)).map fun c => s.setCall i (some c)
    | .ret i _ => ((s.calls i).bind Call.message).map fun _ => s.setCall i none

/-- A call that returns 0 reports a moment since it began. -/
def Reported (s : State) : Act → Prop
  | .ret i uncopied => getStatsRet uncopied = 0 →
    ∀ c ∈ s.calls i, ∀ msg ∈ c.message, ∃ m ∈ c.moments, m.stats = msg
  | _ => True

/-- No push finds the ring full while a call is between its two fetches. -/
def Quiet (s : State) : Act → Prop
  | .push _ => s.ring.size = (ringbufSize : ℕ) → ∀ i, ∀ c ∈ s.calls i, ¬ c.Between
  | _ => True

instance Reported.decidable (s : State) : ∀ a, Decidable (Reported s a)
  | .ret _ _ => inferInstanceAs (Decidable (_ → _))
  | .push _ => isTrue trivial
  | .pop _ => isTrue trivial
  | .enter _ => isTrue trivial
  | .fetch _ => isTrue trivial

/-! ## What every run keeps

The moments of a call are moments of a well-formed ring, the last of them being
now, and none of them has more drops than now. This needs no condition on the
run, and it is what tells a pair that existed from one that did not. -/

/-- A moment of a ring that has counted its drops, as an `int` does. -/
structure Moment.Ok (m : Moment) : Prop where
  wf : m.ring.WF
  lost : m.ring.dropcount = wrap32 m.drops

/-- A call in progress has seen the ring up to `now`. -/
structure Call.Ok (now : Moment) (c : Call) : Prop where
  seen : ∀ m ∈ c.moments, m.Ok ∧ m.drops ≤ now.drops
  last : now ∈ c.moments

/-- The ring is well formed, and all calls have seen it up to now. -/
structure State.Ok (s : State) : Prop where
  now : s.now.Ok
  calls : ∀ i, ∀ c ∈ s.calls i, c.Ok s.now

variable {s t : State} {c c' : Call} {a : Act} {m now : Moment}

/-- A call sees a change, which drops a sample or none. -/
theorem Call.Ok.see (h : c.Ok now) (hok : m.Ok) (hle : now.drops ≤ m.drops) :
    (c.see m).Ok m := by
  refine ⟨fun m' hm => ?_, List.mem_append_right _ List.mem_cons_self⟩
  rcases List.mem_append.mp hm with hm | hm
  · exact ⟨(h.seen m' hm).1, Nat.le_trans (h.seen m' hm).2 hle⟩
  · rw [List.mem_singleton.mp hm]
    exact ⟨hok, Nat.le_refl _⟩

/-- All calls see a change, and stay right about the past. -/
theorem State.Ok.change (h : s.Ok) {ring : Ringbuf} {dropped : Bool}
    (hok : (s.change ring dropped).now.Ok) : (s.change ring dropped).Ok := by
  refine ⟨hok, fun i c hc => ?_⟩
  obtain ⟨c, hc', rfl⟩ := Option.map_eq_some_iff.mp hc
  refine (h.calls i c hc').see hok ?_
  simp only [State.change, State.now]
  split
  · exact Nat.le_succ _
  · exact Nat.le_refl _

/-- A push drops a sample, and counts it, if and only if it finds the ring full. -/
theorem State.Ok.push_now (h : s.Ok) (v : Rbdata) :
    (s.change (ringbufPush s.ring v) (decide (s.ring.size = (ringbufSize : ℕ)))).now.Ok ∧
      (s.ring.size ≠ (ringbufSize : ℕ) →
        (ringbufPush s.ring v).dropcount = s.ring.dropcount) := by
  have hwf : s.ring.WF := h.now.wf
  have hlost : s.ring.dropcount = wrap32 s.drops := h.now.lost
  have hlength := hwf.abs_length
  by_cases hfull : s.ring.size = (ringbufSize : ℕ)
  · have hlen : s.ring.abs.length = 64 := Int.ofNat.inj (hlength.trans hfull)
    refine ⟨⟨ringbufPush_wf hwf v, ?_⟩, fun hne => absurd hfull hne⟩
    rw [decide_eq_true hfull]
    change (ringbufPush s.ring v).dropcount = wrap32 ((s.drops + 1 : ℕ) : Int)
    rw [(ringbufPush_full hwf hlen v).2.2, hlost, wrap32_wrap32_add, Int.natCast_succ]
  · have hroom : s.ring.abs.length < 64 := by
      refine Nat.lt_of_le_of_ne hwf.abs_length_le fun hlen => hfull ?_
      rw [← hlength, hlen]
    have hkeep := (ringbufPush_room hwf hroom v).2.2
    refine ⟨⟨ringbufPush_wf hwf v, ?_⟩, fun _ => hkeep⟩
    rw [decide_eq_false hfull]
    exact hkeep.trans hlost

/-- A pop drops none: the count of the moment stays. -/
theorem State.Ok.pop_now (h : s.Ok) (v : Rbdata) :
    (s.change (ringbufPop s.ring v).ring false).now.Ok ∧
      (ringbufPop s.ring v).ring.dropcount = s.ring.dropcount := by
  have hwf : s.ring.WF := h.now.wf
  have hlost : s.ring.dropcount = wrap32 s.drops := h.now.lost
  rcases habs : s.ring.abs with _ | ⟨x, xs⟩
  · rw [ringbufPop_empty hwf habs]
    exact ⟨⟨hwf, hlost⟩, rfl⟩
  · obtain ⟨-, -, hwf', -, hdrop⟩ := ringbufPop_cons hwf habs v
    exact ⟨⟨hwf', hdrop.trans hlost⟩, hdrop⟩

/-- A call enters, goes on or leaves; the other calls stay as they are. -/
theorem forall_setCall {P : Call → Prop} (h : ∀ i, ∀ c ∈ s.calls i, P c) {i : ℕ}
    {o : Option Call} (ho : ∀ c ∈ o, P c) : ∀ j, ∀ c ∈ (s.setCall i o).calls j, P c := by
  intro j c hc
  by_cases hj : j = i
  · subst hj
    simp only [State.setCall, Function.update_self] at hc
    exact ho c hc
  · simp only [State.setCall, Function.update_of_ne hj] at hc
    exact h j c hc

/-- A fetch looks at the ring and leaves the record as it is. -/
theorem Call.fetch_moments (h : c.fetch s = some c') : c'.moments = c.moments := by
  obtain ⟨_ | _ | _, moments⟩ := c
  · obtain rfl := Option.some.inj h
    rfl
  · obtain rfl := Option.some.inj h
    rfl
  · cases h

/-- **Step lemma**, of every run, whether or not it is quiet. -/
theorem State.Ok.step (h : s.Ok) (hs : bellStats.step s a = some t) : t.Ok := by
  cases a with
  | push v =>
    obtain rfl := Option.some.inj hs
    exact h.change (h.push_now v).1
  | pop v =>
    obtain rfl := Option.some.inj hs
    exact h.change (h.pop_now v).1
  | enter i =>
    simp only [bellStats, Option.ite_none_right_eq_some] at hs
    obtain ⟨-, hs⟩ := hs
    obtain rfl := Option.some.inj hs
    refine ⟨h.now, forall_setCall h.calls fun c hc => ?_⟩
    obtain rfl := Option.some.inj hc
    refine ⟨fun m hm => ?_, List.mem_cons_self⟩
    rw [List.mem_singleton.mp hm]
    exact ⟨h.now, Nat.le_refl _⟩
  | fetch i =>
    obtain ⟨c', hc', rfl⟩ := Option.map_eq_some_iff.mp hs
    obtain ⟨c, hc, hfetch⟩ := Option.bind_eq_some_iff.mp hc'
    refine ⟨h.now, forall_setCall h.calls fun c'' hc'' => ?_⟩
    obtain rfl := Option.some.inj hc''
    obtain ⟨hseen, hlast⟩ := h.calls i c hc
    rw [← Call.fetch_moments hfetch] at hseen hlast
    exact ⟨hseen, hlast⟩
  | ret i uncopied =>
    obtain ⟨msg, -, rfl⟩ := Option.map_eq_some_iff.mp hs
    exact ⟨h.now, forall_setCall h.calls fun c hc => by cases hc⟩

theorem State.Ok.init : State.Ok bellStats.init :=
  ⟨⟨Ringbuf.WF.init, wrap32_zero.symm⟩, fun _ _ hc => by cases hc⟩

/-! ## What quiet runs keep

Between its fetches a call remembers the moment of the first one, which had the
size it fetched. As long as nothing is dropped, that moment has the drop count of
now as well, so the second fetch completes a pair that has been there. -/

/-- The call has seen a moment with what it has fetched, and, if it has not
fetched the drop count yet, with that of the ring. -/
def Call.Matched (ring : Ringbuf) (c : Call) : Prop :=
  match c.pc with
  | .entered => True
  | .gotSize bufcnt =>
    ∃ m ∈ c.moments, m.ring.size = bufcnt ∧ m.ring.dropcount = ring.dropcount
  | .gotLost bufcnt dropcnt =>
    ∃ m ∈ c.moments, m.ring.size = bufcnt ∧ m.ring.dropcount = dropcnt

/-- All calls have a moment to report. -/
structure State.Calm (s : State) : Prop where
  ok : s.Ok
  matched : ∀ i, ∀ c ∈ s.calls i, c.Matched s.ring

/-- The ring changes, and its drop count only if no call waits for it. -/
theorem Call.Matched.see {ring ring' : Ringbuf} (h : c.Matched ring)
    (hkeep : c.Between → ring'.dropcount = ring.dropcount) : (c.see m).Matched ring' := by
  obtain ⟨_ | bufcnt | ⟨bufcnt, dropcnt⟩, moments⟩ := c
  · trivial
  · obtain ⟨m', hm, hsize, hdrop⟩ := h
    exact ⟨m', List.mem_append_left _ hm, hsize, hdrop.trans (hkeep trivial).symm⟩
  · obtain ⟨m', hm, hsize, hdrop⟩ := h
    exact ⟨m', List.mem_append_left _ hm, hsize, hdrop⟩

/-- The ring changes, for all calls. -/
theorem State.Calm.change (h : s.Calm) {ring : Ringbuf} {dropped : Bool}
    (hok : (s.change ring dropped).now.Ok)
    (hkeep : ∀ i, ∀ c ∈ s.calls i, c.Between → ring.dropcount = s.ring.dropcount) :
    (s.change ring dropped).Calm := by
  refine ⟨h.ok.change hok, fun i c hc => ?_⟩
  obtain ⟨c, hc', rfl⟩ := Option.map_eq_some_iff.mp hc
  exact (h.matched i c hc').see (hkeep i c hc')

/-- A fetch takes what is there now. -/
theorem Call.Matched.fetch (h : c.Matched s.ring) (hok : c.Ok s.now)
    (hfetch : c.fetch s = some c') : c'.Matched s.ring := by
  obtain ⟨_ | bufcnt | ⟨bufcnt, dropcnt⟩, moments⟩ := c
  · obtain rfl := Option.some.inj hfetch
    exact ⟨s.now, hok.last, rfl, rfl⟩
  · obtain rfl := Option.some.inj hfetch
    exact h
  · cases hfetch

/-- **Step lemma**, of quiet runs: a push between two fetches finds room. -/
theorem State.Calm.step (h : s.Calm) (hquiet : Quiet s a) (hs : bellStats.step s a = some t) :
    t.Calm := by
  have hok := h.ok.step hs
  cases a with
  | push v =>
    obtain rfl := Option.some.inj hs
    obtain ⟨hnow, hroom⟩ := h.ok.push_now v
    refine h.change hnow fun i c hc hbetween => hroom fun hfull => ?_
    exact hquiet hfull i c hc hbetween
  | pop v =>
    obtain rfl := Option.some.inj hs
    obtain ⟨hnow, hkeep⟩ := h.ok.pop_now v
    exact h.change hnow fun _ _ _ _ => hkeep
  | enter i =>
    simp only [bellStats, Option.ite_none_right_eq_some] at hs
    obtain ⟨-, hs⟩ := hs
    obtain rfl := Option.some.inj hs
    refine ⟨hok, forall_setCall h.matched fun c hc => ?_⟩
    obtain rfl := Option.some.inj hc
    trivial
  | fetch i =>
    obtain ⟨c', hc', rfl⟩ := Option.map_eq_some_iff.mp hs
    obtain ⟨c, hc, hfetch⟩ := Option.bind_eq_some_iff.mp hc'
    refine ⟨hok, forall_setCall h.matched fun c'' hc'' => ?_⟩
    obtain rfl := Option.some.inj hc''
    exact (h.matched i c hc).fetch (h.ok.calls i c hc) hfetch
  | ret i uncopied =>
    obtain ⟨msg, -, rfl⟩ := Option.map_eq_some_iff.mp hs
    exact ⟨hok, forall_setCall h.matched fun c hc => by cases hc⟩

theorem State.Calm.init : State.Calm bellStats.init :=
  ⟨State.Ok.init, fun _ _ hc => by cases hc⟩

/-- The moment a call has seen is the one it reports. -/
theorem Call.Matched.reported {ring : Ringbuf} (h : c.Matched ring) {msg : Statmsg}
    (hmsg : msg ∈ c.message) : ∃ m ∈ c.moments, m.stats = msg := by
  obtain ⟨_ | bufcnt | ⟨bufcnt, dropcnt⟩, moments⟩ := c
  · cases hmsg
  · cases hmsg
  · obtain ⟨m, hm, rfl, rfl⟩ := h
    obtain rfl := Option.some.inj hmsg
    exact ⟨m, hm, rfl⟩

theorem State.Calm.reported (h : s.Calm) : Reported s a := by
  cases a with
  | ret i uncopied => exact fun _ c hc msg hmsg => (h.matched i c hc).reported hmsg
  | _ => trivial

/-! ## A drop between the fetches

The moment of the drop is the first one with its count, and it is one of a full
ring. A call that had fetched a smaller size and fetches the count right after
has no moment to report. -/

/-- Sizes and small counts are told apart by the message. -/
theorem statmsg_inj {size size' : Int} {drops drops' : ℕ} (hsize : 0 ≤ size ∧ size ≤ 64)
    (hsize' : 0 ≤ size' ∧ size' ≤ 64) (hdrops : drops < 4294967296) (hdrops' : drops' < 4294967296)
    (h : statmsg size (wrap32 drops) = statmsg size' (wrap32 drops')) :
    size = size' ∧ drops = drops' := by
  rw [statmsg, statmsg, Statmsg.mk.injEq, ofInt_wrap32, ofInt_wrap32, ofInt_eq_iff,
    ofInt_eq_iff] at h
  omega

/-- No moment up to a drop, and not the drop itself, is of a smaller ring with the
count after it. -/
theorem Call.Ok.not_reported (h : c.Ok now) (hok : m.Ok) (hdrops : m.drops = now.drops + 1)
    (hfew : m.drops < 4294967296) (hfull : m.ring.size = 64) {size : Int} (hpos : 0 ≤ size)
    (hlt : size < 64) :
    ∀ m' ∈ (c.see m).moments, m'.stats ≠ statmsg size (ringbufGetlost m.ring) := by
  intro m' hm heq
  have hm' : m'.Ok ∧ m'.drops ≤ m.drops ∧ (m'.drops = m.drops → m'.ring.size = 64) := by
    rcases List.mem_append.mp hm with hm | hm
    · obtain ⟨hok', hle⟩ := h.seen m' hm
      exact ⟨hok', by omega, by omega⟩
    · rw [List.mem_singleton.mp hm]
      exact ⟨hok, Nat.le_refl _, fun _ => hfull⟩
  obtain ⟨hok', hle, hsame⟩ := hm'
  rw [Moment.stats, ringbufGetsize, ringbufGetlost, ringbufGetlost, hok'.lost, hok.lost] at heq
  obtain ⟨hsize, hcount⟩ := statmsg_inj ⟨hok'.wf.size_nonneg, hok'.wf.size_le⟩
    ⟨hpos, Int.le_of_lt hlt⟩ (Nat.lt_of_le_of_lt hle hfew) hfew heq
  have := hsame hcount
  omega

/-- A push on a full ring leaves it full. -/
theorem State.Ok.push_full (h : s.Ok) (hfull : s.ring.size = 64) (v : Rbdata) :
    (ringbufPush s.ring v).size = 64 := by
  have hwf : (ringbufPush s.ring v).WF := ringbufPush_wf h.now.wf v
  have hlen : s.ring.abs.length = 64 := Int.ofNat.inj (h.now.wf.abs_length.trans hfull)
  have hle := hwf.abs_length_le
  have hge : s.ring.abs.length ≤ (ringbufPush s.ring v).abs.length :=
    ringbufPush_length_le h.now.wf v
  have hlength := hwf.abs_length
  omega

/-- A push finds the ring full between the fetches of a call whose first fetch found
room. When the call goes on, it reports a moment that never was. -/
theorem State.Calm.misreports (h : s.Calm) {i : ℕ} (hc : s.calls i = some c) {size : Int}
    (hpc : c.pc = .gotSize size) (hlt : size < 64) (hfull : s.ring.size = 64)
    (hfew : s.drops + 1 < 4294967296) (v : Rbdata) :
    ∃ t u, bellStats.step s (.push v) = some t ∧ bellStats.step t (.fetch i) = some u ∧
      (bellStats.step u (.ret i 0)).isSome ∧ ¬ Reported u (.ret i 0) := by
  obtain ⟨pc, moments⟩ := c
  obtain rfl : pc = .gotSize size := hpc
  have hpos : 0 ≤ size := by
    obtain ⟨m, hm, hsize, -⟩ := h.matched i _ hc
    rw [← hsize]
    exact ((h.ok.calls i _ hc).seen m hm).1.wf.size_nonneg
  have hdrops : decide (s.ring.size = (ringbufSize : ℕ)) = true := decide_eq_true hfull
  have hnow := (h.ok.push_now v).1
  rw [hdrops] at hnow
  have hnever := (h.ok.calls i _ hc).not_reported hnow rfl hfew (h.ok.push_full hfull v) hpos hlt
  -- after the push, and after the second fetch
  let t := s.change (ringbufPush s.ring v) true
  let last : Call := ⟨.gotLost size (ringbufGetlost t.ring), moments ++ [t.now]⟩
  have hcall : t.calls i = some ⟨.gotSize size, moments ++ [t.now]⟩ := by
    simp only [t, State.change, hc]
    rfl
  have hlast : (t.setCall i (some last)).calls i = some last := Function.update_self ..
  refine ⟨t, t.setCall i (some last), ?_, ?_, ?_, fun hrep => ?_⟩
  · simp only [bellStats, hdrops, t]
  · simp only [bellStats, hcall]
    rfl
  · simp only [bellStats, hlast]
    rfl
  · obtain ⟨m, hm, hstats⟩ := hrep rfl last hlast _ rfl
    exact hnever m hm hstats

/-! ## The pairs reported -/

/-- **The pairs reported have existed** in every run in which no push finds the ring
full between the two fetches of a call. Once one does, and the first fetch had found
room, the call has only to fetch the count and return for a pair that never existed,
as long as the count has not been all the way round. -/
theorem stats_of_quiet {as : List Act}
    (h : bellStats.Along (fun s a _ => Quiet s a) bellStats.init as) :
    bellStats.Along (fun s a _ => Reported s a) bellStats.init as ∧
      ∀ s i c size v, bellStats.exec bellStats.init as = some s → s.calls i = some c →
        c.pc = .gotSize size → size < 64 → s.ring.size = 64 → s.drops + 1 < 4294967296 →
        ∃ t u, bellStats.step s (.push v) = some t ∧ bellStats.step t (.fetch i) = some u ∧
          (bellStats.step u (.ret i 0)).isSome ∧ ¬ Reported u (.ret i 0) := by
  constructor
  · exact Lts.Along.imp State.Calm
      (fun _ _ _ hcalm hs hquiet => ⟨hcalm.reported, hcalm.step hquiet hs⟩) State.Calm.init h
  · intro s i c size v hexec hc hpc hlt hfull hfew
    have hreach : bellStats.Reach Quiet s := Lts.Reach.exec Lts.Reach.init h hexec
    have hcalm : s.Calm := hreach.invariant State.Calm.init
      fun _ _ _ hcalm hquiet hs => hcalm.step hquiet hs
    exact hcalm.misreports hc hpc hlt hfull hfew v

/-- Two calls at once, with a push between the fetches of each and a pop between
those of the second. -/
def twoCalls : List Act :=
  [.enter 0, .fetch 0, .push Rbdata.zero, .enter 1, .fetch 1, .fetch 0, .ret 0 0,
    .push Rbdata.zero, .pop Rbdata.zero, .fetch 1, .ret 1 0]

theorem stats_of_quiet_twoCalls :
    bellStats.Along (fun s a _ => Reported s a) bellStats.init twoCalls := by
  have hroom : ∀ {s : State}, s.ring.size = 0 ∨ s.ring.size = 1 →
      Quiet s (.push Rbdata.zero) := fun hsize hfull => by
    rw [hfull] at hsize
    exact absurd hsize (by decide)
  refine (stats_of_quiet ?_).1
  exact ⟨_, rfl, trivial, _, rfl, trivial, _, rfl, hroom (Or.inl rfl), _, rfl, trivial,
    _, rfl, trivial, _, rfl, trivial, _, rfl, trivial, _, rfl, hroom (Or.inr rfl), _, rfl, trivial,
    _, rfl, trivial, _, rfl, trivial, trivial⟩

/-- 65 pushes between the fetches: the pair (0, 1) is reported, of an empty ring
that has dropped a sample. -/
theorem drop_between_fetches :
    let run := [Act.enter 0, Act.fetch 0] ++ List.replicate 65 (Act.push Rbdata.zero) ++
      [Act.fetch 0, Act.ret 0 0]
    (bellStats.exec bellStats.init run).isSome ∧
      ¬ bellStats.Along (fun s a _ => Reported s a) bellStats.init run := by
  decide +kernel

end BellStats

end KernelDrvLearn
