import DahuaP2p.TunnelInterrupt
import Mathlib.Order.Monotone.Basic

/-! # The stall detector (`outboundStalled`)

A call of `outboundStalled` sees the statistics of the session and the clock (`Look`), and
remembers in `lastDrain` and `lastDrainTime` what it saw when the device last drained.

* `Rests look m n`: from call `m` to call `n` the device has taken nothing, while bytes were
  outstanding at every call after `m`.
* `Clock`: after any calls, the remembered value and time are those of the first call from
  which the device rests until now.
* `stall_detector_exact`: a call returns true exactly when the device rests since a call that is
  more than `outboundStallTimeout` ago.  `heartbeat_stalls` says the same of the calls that the
  heartbeat goroutine makes in a run of the tunnel. -/

namespace DahuaP2p.Tunnel

open BigEndian Ptcp Threads

/-- What a call of `outboundStalled` sees. -/
structure Look where
  stats : Stats
  time : Time
deriving DecidableEq, Repr

/-- The health record before the `n`-th call, where `h` is the one before the first. -/
def Health.before (h : Health) (look : ℕ → Look) : ℕ → Health
  | 0 => h
  | n + 1 => ((h.before look n).outboundStalled (look n).stats (look n).time).1

/-- The result of the `n`-th call. -/
def Health.stalledAt (h : Health) (look : ℕ → Look) (n : ℕ) : Bool :=
  ((h.before look n).outboundStalled (look n).stats (look n).time).2

/-- Bytes are outstanding and the device has received as much as at `l`. -/
def Look.Rests (l l' : Look) : Prop := 0 < l'.stats.outBytes ∧ l'.stats.peerRecv = l.stats.peerRecv

/-- At every call after `m`, up to `n`, the device rests. -/
def Rests (look : ℕ → Look) (m n : ℕ) : Prop := ∀ i, m < i → i ≤ n → (look m).Rests (look i)

variable {look : ℕ → Look} {h h' : Health} {l : Look} {k m n : ℕ}

theorem Rests.mono (hr : Rests look k n) (hm : m ≤ n) : Rests look k m :=
  fun i hk hi => hr i hk (hi.trans hm)

/-! ### One call -/

/-- The clock is set again: nothing is outstanding, or the device has drained, or this is the first
call. -/
def Health.Restarts (h : Health) (l : Look) : Prop :=
  l.stats.outBytes ≤ 0 ∨ l.stats.peerRecv ≠ h.lastDrain ∨ h.lastDrainTime = 0

theorem Health.outboundStalled_of_restarts (hl : h.Restarts l) :
    (h.outboundStalled l.stats l.time).1.lastDrain = l.stats.peerRecv ∧
      (h.outboundStalled l.stats l.time).1.lastDrainTime = l.time ∧
      (h.outboundStalled l.stats l.time).2 = false := by
  unfold Health.outboundStalled
  by_cases hout : l.stats.outBytes ≤ 0
  · simp [hout]
  · by_cases hdrain : l.stats.peerRecv = h.lastDrain
    · have hzero : h.lastDrainTime = 0 := by
        rcases hl with hl | hl | hl
        · exact absurd hl hout
        · exact absurd hdrain hl
        · exact hl
      simp [hout, hdrain, hzero]
    · simp [hout, hdrain]

theorem Health.outboundStalled_of_not_restarts (hl : ¬ h.Restarts l) :
    h.outboundStalled l.stats l.time =
      (h, decide (outboundStallTimeout < l.time - h.lastDrainTime)) := by
  simp only [Health.Restarts, not_or, ne_eq, not_not] at hl
  obtain ⟨hout, hdrain, hzero⟩ := hl
  simp [Health.outboundStalled, hout, hdrain, hzero]

/-! ### Whole histories -/

/-- The clock was set at call `m`, the first one from which the device rests until call `n`, which
comes next. -/
structure Clock (look : ℕ → Look) (h : Health) (m n : ℕ) : Prop where
  lt : m < n
  drain : h.lastDrain = (look m).stats.peerRecv
  time : h.lastDrainTime = (look m).time
  rests : ∀ i, m < i → i < n → (look m).Rests (look i)
  first : ∀ k, k < m → ¬ Rests look k m

theorem Clock.restart (h : ∀ k, k < n → ¬ Rests look k n)
    (hd : h'.lastDrain = (look n).stats.peerRecv) (ht : h'.lastDrainTime = (look n).time) :
    Clock look h' n (n + 1) :=
  ⟨Nat.lt_succ_self n, hd, ht, fun i hi hi' => by omega, h⟩

section clock
variable (hc : Clock look h m n)
include hc

theorem Clock.peerRecv_eq (hm : m ≤ k) (hn : k < n) :
    (look k).stats.peerRecv = (look m).stats.peerRecv := by
  rcases Nat.eq_or_lt_of_le hm with rfl | hlt
  · rfl
  · exact (hc.rests k hlt hn).2

/-- A rest that reaches the next call begins when the clock was set, or later. -/
theorem Clock.le_of_rests (hr : Rests look k n) : m ≤ k := by
  by_contra hlt
  exact hc.first k (by omega) (hr.mono hc.lt.le)

/-- The next call does not set the clock exactly when the device rests still. -/
theorem Clock.not_restarts_iff (hpos : 0 < (look m).time) :
    ¬ h.Restarts (look n) ↔ (look m).Rests (look n) := by
  have htime : h.lastDrainTime ≠ 0 := by
    rw [hc.time]
    exact Nat.ne_of_gt hpos
  simp only [Health.Restarts, Look.Rests, hc.drain, htime, or_false, not_or, ne_eq, not_not,
    not_le]

theorem Clock.restarts_first (hpos : 0 < (look m).time) (hr : h.Restarts (look n)) :
    ∀ k, k < n → ¬ Rests look k n := by
  intro k hk hrests
  have hle : m ≤ k := hc.le_of_rests hrests
  obtain ⟨hout, hrecv⟩ := hrests n hk le_rfl
  refine (hc.not_restarts_iff hpos).mpr ⟨hout, ?_⟩ hr
  rw [hrecv]
  exact hc.peerRecv_eq hle hk

/-- One more call. -/
theorem Clock.step (hpos : 0 < (look m).time) :
    ∃ m', Clock look (h.outboundStalled (look n).stats (look n).time).1 m' (n + 1) := by
  by_cases hr : h.Restarts (look n)
  · obtain ⟨hdrain, htime, _⟩ := Health.outboundStalled_of_restarts hr
    exact ⟨n, .restart (hc.restarts_first hpos hr) hdrain htime⟩
  · have hrests := (hc.not_restarts_iff hpos).mp hr
    rw [Health.outboundStalled_of_not_restarts hr]
    refine ⟨m, hc.lt.trans (Nat.lt_succ_self n), hc.drain, hc.time, fun i hi hi' => ?_, hc.first⟩
    rcases Nat.eq_or_lt_of_le (Nat.le_of_lt_succ hi') with rfl | hlt
    · exact hrests
    · exact hc.rests i hi hlt

/-- The next call returns true exactly when the device rests since a call that is too long ago. -/
theorem Clock.stalled_iff (hpos : 0 < (look m).time)
    (hmono : ∀ i j, i ≤ j → j ≤ n → (look i).time ≤ (look j).time) :
    (h.outboundStalled (look n).stats (look n).time).2 = true ↔
      ∃ k, k < n ∧ outboundStallTimeout < (look n).time - (look k).time ∧ Rests look k n := by
  constructor
  · intro hstalled
    by_cases hr : h.Restarts (look n)
    · rw [(Health.outboundStalled_of_restarts hr).2.2] at hstalled
      cases hstalled
    · rw [Health.outboundStalled_of_not_restarts hr] at hstalled
      have hlong := of_decide_eq_true hstalled
      rw [hc.time] at hlong
      refine ⟨m, hc.lt, hlong, fun i hi hi' => ?_⟩
      rcases Nat.eq_or_lt_of_le hi' with rfl | hlt
      · exact (hc.not_restarts_iff hpos).mp hr
      · exact hc.rests i hi hlt
  · rintro ⟨k, hk, hlong, hrests⟩
    have hle : m ≤ k := hc.le_of_rests hrests
    have hr : ¬ h.Restarts (look n) := fun hr => hc.restarts_first hpos hr k hk hrests
    have htime := hmono m k hle hk.le
    rw [Health.outboundStalled_of_not_restarts hr, hc.time]
    exact decide_eq_true (Nat.lt_of_lt_of_le hlong (Nat.sub_le_sub_left htime _))

end clock

/-- Before every call but the first the clock is set. -/
theorem Health.clock (hfresh : h.lastDrainTime = 0) (hpos : ∀ i, i ≤ n → 0 < (look i).time) :
    ∃ m, Clock look (h.before look (n + 1)) m (n + 1) := by
  induction n with
  | zero =>
      have hr : h.Restarts (look 0) := Or.inr (Or.inr hfresh)
      obtain ⟨hdrain, htime, _⟩ := Health.outboundStalled_of_restarts hr
      exact ⟨0, .restart (fun k hk => absurd hk (Nat.not_lt_zero k)) hdrain htime⟩
  | succ n ih =>
      obtain ⟨m, hc⟩ := ih fun i hi => hpos i (hi.trans (Nat.le_succ n))
      exact hc.step (hpos m hc.lt.le)

/-- The results of the calls on a tunnel that has made none yet. -/
theorem Health.stalledAt_iff (hfresh : h.lastDrainTime = 0)
    (hpos : ∀ i, i ≤ n → 0 < (look i).time)
    (hmono : ∀ i j, i ≤ j → j ≤ n → (look i).time ≤ (look j).time) :
    h.stalledAt look n = true ↔
      ∃ k, k < n ∧ outboundStallTimeout < (look n).time - (look k).time ∧ Rests look k n := by
  cases n with
  | zero =>
      have hr : h.Restarts (look 0) := Or.inr (Or.inr hfresh)
      have hfalse : h.stalledAt look 0 = false := (Health.outboundStalled_of_restarts hr).2.2
      simp [hfalse]
  | succ n =>
      obtain ⟨m, hc⟩ := Health.clock hfresh fun i hi => hpos i (hi.trans (Nat.le_succ n))
      exact hc.stalled_iff (hpos m hc.lt.le) hmono

/-! ### Calls on one session -/

/-- The session at the `n`-th call, when `events i` happen before the `i`-th one. -/
def sessionAt (s : Session) (events : ℕ → List Event) : ℕ → Session
  | 0 => (s.run (events 0)).1
  | n + 1 => ((sessionAt s events n).run (events (n + 1))).1

/-- What the `n`-th call sees. -/
def lookAt (s : Session) (events : ℕ → List Event) (t : ℕ → Time) (n : ℕ) : Look :=
  ⟨(sessionAt s events n).stats, t n⟩

/-- **The stall detector is exact.**  On a new tunnel with any session, for calls at non-decreasing
times with any sends and receives in between, the `n`-th call returns true exactly when there is an
earlier call, longer ago than the timeout, such that at every call after it bytes were outstanding
and the device had received as much as at that call.  So the first call never returns true, and no
call does whose window has a call at which the device had drained or nothing was outstanding. -/
theorem stall_detector_exact (s : Session) (events : ℕ → List Event) (t : ℕ → Time)
    (hpos : 0 < t 0) (hmono : Monotone t) (n : ℕ) :
    let stats i := (sessionAt s events i).stats
    let stalled i := ({} : Health).stalledAt (lookAt s events t) i
    (stalled n = true ↔ ∃ m, m < n ∧ outboundStallTimeout < t n - t m ∧
      ∀ i, m < i → i ≤ n → 0 < (stats i).outBytes ∧ (stats i).peerRecv = (stats m).peerRecv) ∧
    stalled 0 = false ∧
    (∀ i, i < n → t n - t (i + 1) ≤ outboundStallTimeout →
      (stats (i + 1)).peerRecv ≠ (stats i).peerRecv → stalled n = false) ∧
    (∀ i, i ≤ n → t n - t i ≤ outboundStallTimeout → (stats i).outBytes ≤ 0 →
      stalled n = false) := by
  intro stats stalled
  have htimes : ∀ i, 0 < (lookAt s events t i).time :=
    fun i => Nat.lt_of_lt_of_le hpos (hmono (Nat.zero_le i))
  have hiff : ∀ n, stalled n = true ↔ ∃ m, m < n ∧ outboundStallTimeout < t n - t m ∧
      ∀ i, m < i → i ≤ n → 0 < (stats i).outBytes ∧ (stats i).peerRecv = (stats m).peerRecv :=
    fun n => Health.stalledAt_iff rfl (fun i _ => htimes i) fun _ _ hij _ => hmono hij
  -- a call in the window comes after the call since which the device rests
  have hafter : ∀ {i m : ℕ}, t n - t i ≤ outboundStallTimeout → outboundStallTimeout < t n - t m →
      m < i := by
    intro i m hi hm
    by_contra hle
    have htime := hmono (Nat.le_of_not_lt hle)
    exact Nat.not_lt_of_le ((Nat.sub_le_sub_left htime (t n)).trans hi) hm
  refine ⟨hiff n, ?_, fun i hi hwindow hchanged => ?_, fun i hi hwindow hacked => ?_⟩
  · rw [Bool.eq_false_iff, ne_eq, hiff 0]
    rintro ⟨m, hm, _⟩
    omega
  · rw [Bool.eq_false_iff, ne_eq, hiff n]
    rintro ⟨m, _, hlong, hrests⟩
    have hlt := hafter hwindow hlong
    have hnew := (hrests (i + 1) hlt hi).2
    rcases Nat.eq_or_lt_of_le (Nat.le_of_lt_succ hlt) with rfl | hmi
    · exact hchanged hnew
    · exact hchanged (hnew.trans (hrests i hmi hi.le).2.symm)
  · rw [Bool.eq_false_iff, ne_eq, hiff n]
    rintro ⟨m, _, hlong, hrests⟩
    have := (hrests i (hafter hwindow hlong) hi).1
    omega

/-- Heartbeats every five seconds that the device does not take: the sixth call is the first that
is more than twenty seconds after the first one. -/
theorem stall_detector_exact_silent :
    let stalled i := ({} : Health).stalledAt
      (lookAt newSession (fun _ => [.send newHeartbeatBody]) fun i => 5000000000 * (i + 1)) i
    ((List.range 6).map stalled = [false, false, false, false, false, true]) ∧
      (stalled 5 = true ↔ ∃ m, m < 5 ∧
        outboundStallTimeout < 5000000000 * (5 + 1) - 5000000000 * (m + 1) ∧
        ∀ i, m < i → i ≤ 5 →
          0 < (sessionAt newSession (fun _ => [.send newHeartbeatBody]) i).stats.outBytes ∧
            (sessionAt newSession (fun _ => [.send newHeartbeatBody]) i).stats.peerRecv =
              (sessionAt newSession (fun _ => [.send newHeartbeatBody]) m).stats.peerRecv) := by
  intro stalled
  refine ⟨by decide +kernel, ?_⟩
  exact (stall_detector_exact newSession (fun _ => [.send newHeartbeatBody])
    (fun i => 5000000000 * (i + 1)) (by decide)
    (fun i j hij => Nat.mul_le_mul_left _ (Nat.succ_le_succ hij)) 5).1

/-! ### The calls of the heartbeat goroutine -/

/-- A call and its result are recorded when the heartbeat goroutine makes it. -/
def stallNote (ls : List (Look × Bool)) (_ : ℕ) (s : Shared) (pc : Pc) (_ : Shared) (_ : Pc) :
    List (Look × Bool) :=
  if pc = .heartbeat .stalled then
    ls ++ [(⟨s.session.stats, s.now⟩, (s.health.outboundStalled s.session.stats s.now).2)]
  else ls

/-- The tunnel with the record of its stall checks. -/
def stallSystem : System (World Shared Pc × List (Look × Bool)) (Label Choice Time) :=
  recorded stallNote []

/-- What the recorded calls saw. -/
def lookOf (ls : List (Look × Bool)) (n : ℕ) : Look :=
  (ls[n]?.map Prod.fst).getD ⟨newSession.stats, 0⟩

variable {s s' : Shared} {pc pc' : Pc} {w : World Shared Pc} {ls : List (Look × Bool)}
  {x : Look × Bool} {ok : World Shared Pc → Label Choice Time → Prop}

theorem lookOf_of_getElem? (hx : ls[n]? = some x) : lookOf ls n = x.1 := by
  simp [lookOf, hx]

theorem lookOf_append (hn : n < ls.length) : lookOf (ls ++ [x]) n = lookOf ls n := by
  rw [lookOf, lookOf, List.getElem?_append_left hn]

theorem lookOf_last : lookOf (ls ++ [x]) ls.length = x.1 :=
  lookOf_of_getElem? List.getElem?_concat_length

/-- The calls to come do not matter. -/
theorem Health.before_congr {look' : ℕ → Look} (hl : ∀ i, i < n → look i = look' i) :
    h.before look n = h.before look' n := by
  induction n with
  | zero => rfl
  | succ n ih =>
      rw [Health.before, Health.before, ih fun i hi => hl i (hi.trans (Nat.lt_succ_self n)),
        hl n (Nat.lt_succ_self n)]

/-- Two health records that remember the same drain. -/
def Health.SameDrain (h h' : Health) : Prop :=
  h.lastDrain = h'.lastDrain ∧ h.lastDrainTime = h'.lastDrainTime

theorem Health.SameDrain.outboundStalled (hs : h.SameDrain h') (st : Stats) (now : Time) :
    (h.outboundStalled st now).1.SameDrain (h'.outboundStalled st now).1 ∧
      (h.outboundStalled st now).2 = (h'.outboundStalled st now).2 := by
  unfold Health.outboundStalled
  rw [hs.1, hs.2]
  split_ifs
  · exact ⟨⟨rfl, rfl⟩, rfl⟩
  · exact ⟨⟨rfl, rfl⟩, rfl⟩
  · exact ⟨⟨rfl, rfl⟩, rfl⟩
  · exact ⟨hs, rfl⟩

/-- Only the heartbeat goroutine's check changes what is remembered. -/
theorem Acts.sameDrain (h : Acts s pc s' pc') (hpc : pc ≠ .heartbeat .stalled) :
    s'.health.SameDrain s.health := by
  rcases h with ⟨rfl, _⟩ | h
  · exact ⟨rfl, rfl⟩
  · cases h with
    | heartbeatDrains | heartbeatStalled => exact absurd rfl hpc
    | _ => exact ⟨rfl, rfl⟩

theorem Acts.stalled (h : Acts s (.heartbeat .stalled) s' pc') :
    s'.health = (s.health.outboundStalled s.session.stats s.now).1 := by
  rcases h with ⟨_, h⟩ | h
  · cases h
  · cases h with
    | heartbeatDrains h' he => rw [he]
    | heartbeatStalled h' he => rw [he]

/-- The record accounts for what is remembered, its results are those of the calls in sequence, and
its times are those of a clock. -/
structure Watched (s : Shared) (ls : List (Look × Bool)) : Prop where
  drain : s.health.SameDrain (({} : Health).before (lookOf ls) ls.length)
  results : ∀ n x, ls[n]? = some x → x.2 = ({} : Health).stalledAt (lookOf ls) n
  pos : ∀ n, n < ls.length → 0 < (lookOf ls n).time
  mono : ∀ i j, i ≤ j → j < ls.length → (lookOf ls i).time ≤ (lookOf ls j).time
  now : ∀ n, n < ls.length → (lookOf ls n).time ≤ s.now

theorem Watched.frame (hw : Watched s ls) (hd : s'.health.SameDrain s.health)
    (hnow : s.now ≤ s'.now) : Watched s' ls :=
  ⟨⟨hd.1.trans hw.drain.1, hd.2.trans hw.drain.2⟩, hw.results, hw.pos, hw.mono,
    fun n hn => (hw.now n hn).trans hnow⟩

theorem Watched.call (hw : Watched s ls) (hnow : 0 < s.now) (hs : s'.now = s.now)
    (hh : s'.health = (s.health.outboundStalled s.session.stats s.now).1)
    (hx : x = (⟨s.session.stats, s.now⟩, (s.health.outboundStalled s.session.stats s.now).2)) :
    Watched s' (ls ++ [x]) := by
  have hlast : lookOf (ls ++ [x]) ls.length = ⟨s.session.stats, s.now⟩ := by
    rw [lookOf_last, hx]
  have hbefore : ∀ n, n ≤ ls.length →
      ({} : Health).before (lookOf (ls ++ [x])) n = ({} : Health).before (lookOf ls) n :=
    fun n hn => Health.before_congr fun i hi => lookOf_append (Nat.lt_of_lt_of_le hi hn)
  have hsame := hw.drain.outboundStalled s.session.stats s.now
  have hcases : ∀ {n : ℕ}, n < (ls ++ [x]).length → n < ls.length ∨ n = ls.length := by
    intro n hn
    rw [List.length_append, List.length_singleton] at hn
    omega
  refine ⟨?_, fun n y hy => ?_, fun n hn => ?_, fun i j hij hj => ?_, fun n hn => ?_⟩
  · rw [List.length_append, List.length_singleton, Health.before, hbefore _ le_rfl, hlast, hh]
    exact hsame.1
  · rcases getElem?_concat_cases hy with ⟨hn, hy⟩ | ⟨rfl, rfl⟩
    · rw [hw.results n y hy, Health.stalledAt, Health.stalledAt, hbefore n hn.le,
        lookOf_append hn]
    · rw [Health.stalledAt, hbefore _ le_rfl, hlast, ← hsame.2, hx]
  · rcases hcases hn with hn | rfl
    · rw [lookOf_append hn]
      exact hw.pos n hn
    · rw [hlast]
      exact hnow
  · rcases hcases hj with hj | rfl
    · rw [lookOf_append (Nat.lt_of_le_of_lt hij hj), lookOf_append hj]
      exact hw.mono i j hij hj
    · rw [hlast]
      rcases Nat.eq_or_lt_of_le hij with rfl | hlt
      · rw [hlast]
      · rw [lookOf_append hlt]
        exact hw.now i hlt
  · rw [hs]
    rcases hcases hn with hn | rfl
    · rw [lookOf_append hn]
      exact hw.now n hn
    · rw [hlast]

theorem watched (h : stallSystem.Reach (fun p => ok p.1) (w, ls)) : Watched w.shared ls := by
  refine recorded_invariant (I := fun w ls => Watched w.shared ls) ?_ ?_ ?_ h
  · intro now session _
    exact ⟨⟨rfl, rfl⟩, fun n x hx => by simp at hx, fun n hn => absurd hn (Nat.not_lt_zero n),
      fun i j _ hj => absurd hj (Nat.not_lt_zero j), fun n hn => absurd hn (Nat.not_lt_zero n)⟩
  · intro w ls t c s pc hr hi _ _ ha
    by_cases hpc : w.thr t = .heartbeat .stalled
    · rw [hpc] at ha
      rw [stallNote, if_pos hpc]
      exact hi.call (now_pos hr) ha.now_eq ha.stalled rfl
    · rw [stallNote, if_neg hpc]
      exact hi.frame (ha.sameDrain hpc) (Nat.le_of_eq ha.now_eq.symm)
  · intro w ls d _ hi
    exact hi.frame ⟨rfl, rfl⟩ (Nat.le_add_right _ _)

/-- **Stall checks of a tunnel.**  In every run of the tunnel, whatever its goroutines send and
receive, a check of the heartbeat goroutine finds the tunnel stalled exactly when the device rests
since an earlier check that is longer ago than the timeout. -/
theorem heartbeat_stalls (h : stallSystem.Reach (fun p => ok p.1) (w, ls))
    (hx : ls[n]? = some x) :
    x.2 = true ↔ ∃ m y, m < n ∧ ls[m]? = some y ∧
      outboundStallTimeout < x.1.time - y.1.time ∧
      ∀ i z, m < i → i ≤ n → ls[i]? = some z → y.1.Rests z.1 := by
  have hw := watched h
  have hn : n < ls.length := (List.getElem?_eq_some_iff.mp hx).1
  rw [hw.results n x hx, Health.stalledAt_iff rfl (fun i hi => hw.pos i (Nat.lt_of_le_of_lt hi hn))
    fun i j hij hj => hw.mono i j hij (Nat.lt_of_le_of_lt hj hn), lookOf_of_getElem? hx]
  constructor
  · rintro ⟨m, hm, hlong, hrests⟩
    obtain ⟨y, hy⟩ : ∃ y, ls[m]? = some y := ⟨_, List.getElem?_eq_getElem (hm.trans hn)⟩
    rw [lookOf_of_getElem? hy] at hlong
    refine ⟨m, y, hm, hy, hlong, fun i z hmi hi hz => ?_⟩
    have := hrests i hmi hi
    rwa [lookOf_of_getElem? hy, lookOf_of_getElem? hz] at this
  · rintro ⟨m, y, hm, hy, hlong, hrests⟩
    rw [← lookOf_of_getElem? hy] at hlong
    refine ⟨m, hm, hlong, fun i hmi hi => ?_⟩
    obtain ⟨z, hz⟩ : ∃ z, ls[i]? = some z :=
      ⟨_, List.getElem?_eq_getElem (Nat.lt_of_le_of_lt hi hn)⟩
    rw [lookOf_of_getElem? hy, lookOf_of_getElem? hz]
    exact hrests i z hmi hi hz

end DahuaP2p.Tunnel
