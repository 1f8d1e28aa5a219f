import DahuaP2p.PtcpCodec

/-! # The PTCP session (`ptcp/session.go`)

The counters of a session and the two operations that move them.  All counters are `uint32`
and wrap.  `Session.send` builds the packet of a body from the counters before it and
`Session.recv` takes the counters of a received packet; both run under the session's mutex, so
a session's life is a list of `Event`s and `Session.run` its result with the packets sent.
`session_counters` says what the counters are after any run and what every packet carries, and
`gaps_exact` when the differences in the statistics are those of the totals that do not wrap.

Packets that are not syncs take their PIDs from the low half of the packet counter:
`pids_unique` says which of them share one.  The receive counter is advanced by the length of
the *parsed* body: `recv_accounting` gives the exact datagrams for which this is the length
received on the wire, and proves the account of whole runs that receive only such datagrams. -/

namespace DahuaP2p.Ptcp

open BigEndian

/-- The session state. -/
structure Session where
  sent : UInt32 := 0
  recv : UInt32 := 0
  count : UInt32 := 0
  id : UInt32 := 0
  rmid : UInt32 := 0
  peerSent : UInt32 := 0
  peerRecv : UInt32 := 0
  peerRMID : UInt32 := 0
deriving DecidableEq, Repr

def newSession : Session := {}

/-- The PID of the next packet: fixed for a sync, else counting down in the low half. -/
def Session.nextPID (s : Session) (body : Body) : UInt32 :=
  match body.type with
  | .sync => 0x0002FFFF
  | _ => 0x0000FFFF - (s.count &&& 0xFFFF)

/-- The packet of a body and the session after it. -/
def Session.send (s : Session) (body : Body) : Session × Packet :=
  let header : Header :=
    { sent := s.sent, recv := s.recv, pid := s.nextPID body, lmid := s.id, rmid := s.rmid }
  ({ s with
      sent := s.sent + UInt32.ofNat body.len
      id := s.id + 1
      count := if body.type ≠ .sync then s.count + 1 else s.count },
    ⟨header, body⟩)

def Session.recvPacket (s : Session) (packet : Packet) : Session :=
  { s with
    recv := s.recv + UInt32.ofNat packet.body.len
    rmid := packet.header.lmid
    peerSent := packet.header.sent
    peerRecv := packet.header.recv
    peerRMID := packet.header.rmid }

/-! ### Statistics -/

/-- A snapshot of both endpoints' counters. -/
structure Stats where
  sent : UInt32
  recv : UInt32
  lmid : UInt32
  peerSent : UInt32
  peerRecv : UInt32
  peerRMID : UInt32
deriving DecidableEq, Repr

def Session.stats (s : Session) : Stats :=
  { sent := s.sent, recv := s.recv, lmid := s.id, peerSent := s.peerSent,
    peerRecv := s.peerRecv, peerRMID := s.peerRMID }

/-- The difference of two wrapping counters as a signed value: `int64(int32(a - b))`. -/
def delta (a b : UInt32) : ℤ := (a - b).toInt32.toInt

def Stats.outBytes (t : Stats) : ℤ := delta t.sent t.peerRecv
def Stats.outMsgs (t : Stats) : ℤ := delta t.lmid t.peerRMID
def Stats.inBytes (t : Stats) : ℤ := delta t.peerSent t.recv

/-! ### Runs -/

/-- An operation on the session. -/
inductive Event where
  | send (body : Body)
  | recv (packet : Packet)
deriving DecidableEq, Repr

/-- One operation: the session after it and the packet it sent, if any. -/
def Session.step (s : Session) : Event → Session × Option Packet
  | .send body => ((s.send body).1, some (s.send body).2)
  | .recv packet => (s.recvPacket packet, none)

/-- A sequence of operations: the session after it and the packets sent, in order. -/
def Session.run (s : Session) : List Event → Session × List Packet
  | [] => (s, [])
  | e :: es =>
      let r := (s.step e).1.run es
      (r.1, (s.step e).2.toList ++ r.2)

@[simp] theorem Session.run_nil (s : Session) : s.run [] = (s, []) := rfl

theorem Session.run_append (s : Session) (es fs : List Event) :
    s.run (es ++ fs) = (((s.run es).1.run fs).1, (s.run es).2 ++ ((s.run es).1.run fs).2) := by
  induction es generalizing s with
  | nil => simp
  | cons e es ih => simp [Session.run, ih]

@[simp] theorem Session.send_recv (s : Session) (body : Body) : (s.send body).1.recv = s.recv := rfl

/-! ### Packets in step -/

/-- An entry of a list with one more at its end is an entry of the list, or that one. -/
theorem getElem?_concat_cases {α : Type} {l : List α} {a b : α} {i : ℕ}
    (h : (l ++ [a])[i]? = some b) :
    (i < l.length ∧ l[i]? = some b) ∨ (i = l.length ∧ b = a) := by
  rcases Nat.lt_trichotomy i l.length with hi | rfl | hi
  · rw [List.getElem?_append_left hi] at h
    exact Or.inl ⟨hi, h⟩
  · rw [List.getElem?_concat_length, Option.some.injEq] at h
    exact Or.inr ⟨rfl, h.symm⟩
  · have hlen := (List.getElem?_eq_some_iff.mp h).1
    simp only [List.length_append, List.length_singleton] at hlen
    omega

/-- Serialized body bytes of the packets. -/
def bodyBytes (ps : List Packet) : ℕ := (ps.map fun p => p.body.serialize.length).sum

/-- Each packet carries the counters of a session that sent exactly the packets before it since
it was `s`: consecutive LMIDs, and in `Sent` the body bytes before it. -/
def InStep (s : Session) (ps : List Packet) : Prop :=
  ∀ i p, ps[i]? = some p →
    p.header.lmid = s.id + UInt32.ofNat i ∧
      p.header.sent = s.sent + UInt32.ofNat (bodyBytes (ps.take i))

/-- Since it was `s`, the session has sent exactly `ps`. -/
structure SentSince (s s' : Session) (ps : List Packet) : Prop where
  id : s'.id = s.id + UInt32.ofNat ps.length
  sent : s'.sent = s.sent + UInt32.ofNat (bodyBytes ps)
  inStep : InStep s ps

variable {s s' : Session} {ps qs : List Packet}

theorem InStep.of_prefix (h : InStep s ps) (hpre : qs <+: ps) : InStep s qs := by
  obtain ⟨rest, rfl⟩ := hpre
  intro i p hp
  have hi : i < qs.length := (List.getElem?_eq_some_iff.mp hp).1
  have htake : (qs ++ rest).take i = qs.take i := List.take_append_of_le_length hi.le
  have h' := h i p (by rw [List.getElem?_append_left hi, hp])
  rwa [htake] at h'

theorem SentSince.refl (s : Session) : SentSince s s [] :=
  ⟨by simp, by simp [bodyBytes], fun i p hp => by simp at hp⟩

theorem SentSince.recvPacket (h : SentSince s s' ps) (p : Packet) :
    SentSince s (s'.recvPacket p) ps :=
  ⟨h.id, h.sent, h.inStep⟩

theorem SentSince.send (h : SentSince s s' ps) (body : Body) :
    SentSince s (s'.send body).1 (ps ++ [(s'.send body).2]) := by
  refine ⟨?_, ?_, fun i p hp => ?_⟩
  · simp [Session.send, h.id, UInt32.ofNat_add, UInt32.add_assoc]
  · simp [Session.send, h.sent, bodyBytes, UInt32.ofNat_add, UInt32.add_assoc,
      Body.serialize_length]
  · rcases getElem?_concat_cases hp with ⟨hi, hp⟩ | ⟨rfl, rfl⟩
    · rw [List.take_append_of_le_length hi.le]
      exact h.inStep i p hp
    · rw [List.take_left]
      exact ⟨h.id, h.sent⟩

/-! ### Counters over runs -/

/-- The bodies sent in a sequence of operations, in order. -/
def sentBodies (es : List Event) : List Body :=
  es.filterMap fun
    | .send body => some body
    | .recv _ => none

/-- The packets received in a sequence of operations, in order. -/
def received (es : List Event) : List Packet :=
  es.filterMap fun
    | .send _ => none
    | .recv packet => some packet

/-- Serialized bytes of all bodies sent. -/
def sentBytes (es : List Event) : ℕ := ((sentBodies es).map fun b => b.serialize.length).sum

/-- Length, as `Body.len` has it, of all bodies received. -/
def recvBytes (es : List Event) : ℕ := ((received es).map fun p => p.body.len).sum

/-- The last header received; all its fields are `0` if there was none. -/
def lastHeader (es : List Event) : Header :=
  ((received es).getLast?.map Packet.header).getD ⟨0, 0, 0, 0, 0⟩

/-- The counters of the session account for the operations since `newSession`. -/
structure Account (s : Session) (es : List Event) : Prop where
  sent : s.sent = UInt32.ofNat (sentBytes es)
  id : s.id = UInt32.ofNat (sentBodies es).length
  recv : s.recv = UInt32.ofNat (recvBytes es)
  rmid : s.rmid = (lastHeader es).lmid
  peerSent : s.peerSent = (lastHeader es).sent
  peerRecv : s.peerRecv = (lastHeader es).recv
  peerRMID : s.peerRMID = (lastHeader es).rmid

theorem Account.new : Account newSession [] := ⟨rfl, rfl, rfl, rfl, rfl, rfl, rfl⟩

theorem Account.send {es : List Event} (h : Account s es) (body : Body) :
    Account (s.send body).1 (es ++ [.send body]) := by
  -- a send is no packet received
  have hrecv : received (es ++ [.send body]) = received es := by simp [received]
  refine ⟨?_, ?_, ?_, ?_, ?_, ?_, ?_⟩
  · simp [Session.send, h.sent, sentBytes, sentBodies, UInt32.ofNat_add, Body.serialize_length]
  · simp [Session.send, h.id, sentBodies, UInt32.ofNat_add]
  · rw [recvBytes, hrecv]
    exact h.recv
  · rw [lastHeader, hrecv]
    exact h.rmid
  · rw [lastHeader, hrecv]
    exact h.peerSent
  · rw [lastHeader, hrecv]
    exact h.peerRecv
  · rw [lastHeader, hrecv]
    exact h.peerRMID

theorem Account.recvPacket {es : List Event} (h : Account s es) (p : Packet) :
    Account (s.recvPacket p) (es ++ [.recv p]) := by
  have hsent : sentBodies (es ++ [.recv p]) = sentBodies es := by simp [sentBodies]
  have hlast : lastHeader (es ++ [.recv p]) = p.header := by simp [lastHeader, received]
  refine ⟨?_, ?_, ?_, ?_, ?_, ?_, ?_⟩
  · rw [sentBytes, hsent]
    exact h.sent
  · rw [hsent]
    exact h.id
  · simp [Session.recvPacket, h.recv, recvBytes, received, UInt32.ofNat_add]
  · rw [hlast]
    rfl
  · rw [hlast]
    rfl
  · rw [hlast]
    rfl
  · rw [hlast]
    rfl

theorem Account.run {es : List Event} (h : Account s es) (fs : List Event) :
    Account (s.run fs).1 (es ++ fs) := by
  induction fs generalizing s es with
  | nil => simpa using h
  | cons e fs ih =>
      cases e with
      | send body => simpa [Session.run, Session.step] using ih (h.send body)
      | recv p => simpa [Session.run, Session.step] using ih (h.recvPacket p)

theorem account (es : List Event) : Account (newSession.run es).1 es := Account.new.run es

/-- A run sends one packet for each body, in order. -/
theorem Session.run_bodies (s : Session) (es : List Event) :
    (s.run es).2.map Packet.body = sentBodies es := by
  induction es generalizing s with
  | nil => rfl
  | cons e es ih =>
      cases e with
      | send body => simp [Session.run, Session.step, Session.send, sentBodies, ih]
      | recv p => simpa [Session.run, Session.step, sentBodies] using ih (s.recvPacket p)

/-- The packet of a send is in the list of all packets sent at the place where the send is. -/
theorem Session.run_getElem? (s : Session) (pre post : List Event) (body : Body) :
    (s.run (pre ++ .send body :: post)).2[(sentBodies pre).length]? =
      some ((s.run pre).1.send body).2 := by
  have hlen : (s.run pre).2.length = (sentBodies pre).length := by
    rw [← s.run_bodies pre, List.length_map]
  rw [s.run_append, List.getElem?_append_right (Nat.le_of_eq hlen), hlen, Nat.sub_self]
  simp [Session.run, Session.step]

/-- **Session counters.**  In every sequence of sends and receives on a new session, the packet of
each send carries the totals of the operations before it, modulo `2 ^ 32`, and the LMID of the
last packet received; and at every time the statistics are these totals, together with the
counters in the last header received. -/
theorem session_counters (es : List Event) :
    (newSession.run es).2.map Packet.body = sentBodies es ∧
    (∀ pre body post, es = pre ++ .send body :: post →
      ∃ p, (newSession.run es).2[(sentBodies pre).length]? = some p ∧ p.body = body ∧
        p.header.sent = UInt32.ofNat (sentBytes pre) ∧
        p.header.lmid = UInt32.ofNat (sentBodies pre).length ∧
        p.header.recv = UInt32.ofNat (recvBytes pre) ∧
        p.header.rmid = (lastHeader pre).lmid) ∧
    (newSession.run es).1.stats =
      { sent := UInt32.ofNat (sentBytes es)
        recv := UInt32.ofNat (recvBytes es)
        lmid := UInt32.ofNat (sentBodies es).length
        peerSent := (lastHeader es).sent
        peerRecv := (lastHeader es).recv
        peerRMID := (lastHeader es).rmid } := by
  refine ⟨newSession.run_bodies es, ?_, ?_⟩
  · rintro pre body post rfl
    have hacc := account pre
    exact ⟨_, newSession.run_getElem? pre post body, rfl, hacc.sent, hacc.id, hacc.recv,
      hacc.rmid⟩
  · have hacc := account es
    rw [Session.stats, hacc.sent, hacc.recv, hacc.id, hacc.peerSent, hacc.peerRecv,
      hacc.peerRMID]

/-! ### Loss gaps -/

/-- What a peer has really done: the body bytes it has sent and received, and the messages that it
has acknowledged. -/
structure PeerTotals where
  sent : ℕ := 0
  recv : ℕ := 0
  rmid : ℕ := 0

/-- A peer, by its totals when it built the `k`-th packet received from it.  Before the first, the
session has nothing from it. -/
structure Peer where
  totals : ℕ → PeerTotals
  start : totals 0 = {}

/-- Every packet carries the totals of its peer, modulo `2 ^ 32`. -/
def Peer.Reports (peer : Peer) (ps : List Packet) : Prop :=
  ∀ k p, ps[k]? = some p →
    p.header.sent = UInt32.ofNat (peer.totals (k + 1)).sent ∧
      p.header.recv = UInt32.ofNat (peer.totals (k + 1)).recv ∧
      p.header.rmid = UInt32.ofNat (peer.totals (k + 1)).rmid

/-- The differences that a signed 32-bit number can tell apart. -/
def InRange (d : ℤ) : Prop := -2 ^ 31 ≤ d ∧ d < 2 ^ 31

theorem Peer.Reports.last {peer : Peer} {es : List Event} (h : peer.Reports (received es)) :
    let totals := peer.totals (received es).length
    (lastHeader es).sent = UInt32.ofNat totals.sent ∧
      (lastHeader es).recv = UInt32.ofNat totals.recv ∧
      (lastHeader es).rmid = UInt32.ofNat totals.rmid := by
  cases hlast : (received es).getLast? with
  | none =>
      have hnil : received es = [] := List.getLast?_eq_none_iff.mp hlast
      simp [lastHeader, hnil, peer.start]
  | some p =>
      have hpos : 0 < (received es).length :=
        List.length_pos_of_mem (List.mem_of_getLast? hlast)
      have hp := h _ p (List.getLast?_eq_getElem?.symm.trans hlast)
      rw [Nat.sub_add_cancel hpos] at hp
      simpa [lastHeader, hlast] using hp

/-- The difference of two totals that have been wrapped is the true one modulo `2 ^ 32`, around
zero. -/
theorem delta_ofNat (a b : ℕ) :
    delta (UInt32.ofNat a) (UInt32.ofNat b) = ((a : ℤ) - b).bmod (2 ^ 32) := by
  have h : delta (UInt32.ofNat a) (UInt32.ofNat b) =
      (BitVec.ofNat 32 a - BitVec.ofNat 32 b).toInt := rfl
  have hnat (n : ℕ) : (BitVec.ofNat 32 n).toInt = (n : ℤ).bmod (2 ^ 32) := BitVec.toInt_ofNat' ..
  rw [h, BitVec.toInt_sub, hnat, hnat, ← Int.sub_bmod]

theorem delta_ofNat_eq_iff (a b : ℕ) :
    delta (UInt32.ofNat a) (UInt32.ofNat b) = (a : ℤ) - b ↔ InRange ((a : ℤ) - b) := by
  rw [delta_ofNat]
  constructor
  · intro h
    rw [← h]
    exact ⟨Int.le_bmod (by norm_num), Int.bmod_lt (by norm_num)⟩
  · rintro ⟨hlo, hhi⟩
    exact Int.bmod_eq_of_le hlo hhi

/-- **Loss gaps.**  In every run against a peer that reports its totals modulo `2 ^ 32`, each of
the three gaps is the difference of the true totals exactly when that difference is a signed 32-bit
number, however often the counters have wrapped: bytes and messages sent less those acknowledged,
and bytes the peer sent less those counted. -/
theorem gaps_exact (es : List Event) (peer : Peer) (h : peer.Reports (received es)) :
    let stats := (newSession.run es).1.stats
    let theirs := peer.totals (received es).length
    (InRange ((sentBytes es : ℤ) - theirs.recv) ↔
      stats.outBytes = (sentBytes es : ℤ) - theirs.recv) ∧
    (InRange (((sentBodies es).length : ℤ) - theirs.rmid) ↔
      stats.outMsgs = ((sentBodies es).length : ℤ) - theirs.rmid) ∧
    (InRange ((theirs.sent : ℤ) - recvBytes es) ↔
      stats.inBytes = (theirs.sent : ℤ) - recvBytes es) := by
  intro stats theirs
  have hacc := account es
  obtain ⟨hsent, hrecv, hrmid⟩ := h.last
  refine ⟨?_, ?_, ?_⟩
  · rw [← delta_ofNat_eq_iff, ← hrecv, ← hacc.sent, ← hacc.peerRecv]
    rfl
  · rw [← delta_ofNat_eq_iff, ← hrmid, ← hacc.id, ← hacc.peerRMID]
    rfl
  · rw [← delta_ofNat_eq_iff, ← hsent, ← hacc.recv, ← hacc.peerSent]
    rfl

/-- A session sends `n` heartbeats and then receives one with the given header. -/
def beats (n : ℕ) (header : Header) : List Event :=
  List.replicate n (.send newHeartbeatBody) ++ [.recv ⟨header, newHeartbeatBody⟩]

theorem received_beats (n : ℕ) (header : Header) :
    received (beats n header) = [⟨header, newHeartbeatBody⟩] := by
  simp [beats, received]

theorem beats_totals (n : ℕ) (header : Header) :
    sentBytes (beats n header) = 12 * n ∧ (sentBodies (beats n header)).length = n ∧
      recvBytes (beats n header) = 12 := by
  have hsent : sentBodies (beats n header) = List.replicate n newHeartbeatBody := by
    simp [beats, sentBodies]
  refine ⟨?_, ?_, ?_⟩
  · simp [sentBytes, hsent, newHeartbeatBody, Body.serialize_length, Body.len, Nat.mul_comm]
  · rw [hsent, List.length_replicate]
  · simp [recvBytes, received_beats, newHeartbeatBody, Body.len]

/-- `3 * 2 ^ 32` bytes in `2 ^ 30` heartbeats: the peer has acknowledged all but the last two, and
its heartbeat is counted before it reports it. -/
theorem gaps_exact_wrapped :
    let header : Header := ⟨0, 0xFFFFFFE8, 0xFFFF, 0, 0x3FFFFFFE⟩
    let stats := (newSession.run (beats (2 ^ 30) header)).1.stats
    stats.outBytes = 24 ∧ stats.outMsgs = 2 ∧ stats.inBytes = -12 := by
  intro header stats
  let peer : Peer :=
    { totals := fun k => if k = 0 then {} else ⟨0, 3 * 2 ^ 32 - 24, 2 ^ 30 - 2⟩, start := rfl }
  have hreports : peer.Reports (received (beats (2 ^ 30) header)) := by
    intro k p hp
    rw [received_beats] at hp
    rw [List.getElem?_singleton, Option.ite_none_right_eq_some] at hp
    obtain ⟨rfl, hp⟩ := hp
    cases hp
    exact ⟨by decide, by decide, by decide⟩
  obtain ⟨hout, hmsg, hin⟩ := gaps_exact (beats (2 ^ 30) header) peer hreports
  obtain ⟨hsent, hmsgs, hrecv⟩ := beats_totals (2 ^ 30) header
  have hbytes : ((12 * 2 ^ 30 : ℕ) : ℤ) - (peer.totals 1).recv = 24 := by decide
  have hlag : ((2 ^ 30 : ℕ) : ℤ) - (peer.totals 1).rmid = 2 := by decide
  have hahead : ((peer.totals 1).sent : ℤ) - (12 : ℕ) = -12 := by decide
  rw [hsent, received_beats, List.length_singleton, hbytes] at hout
  rw [hmsgs, received_beats, List.length_singleton, hlag] at hmsg
  rw [hrecv, received_beats, List.length_singleton, hahead] at hin
  exact ⟨hout.mp ⟨by decide, by decide⟩, hmsg.mp ⟨by decide, by decide⟩,
    hin.mp ⟨by decide, by decide⟩⟩

/-! ### Packet IDs -/

/-- The packets that are not syncs, in order. -/
def nonSync (ps : List Packet) : List Packet := ps.filter fun p => p.body.type ≠ .sync

/-- The PID of the packet sent when the packet counter is `c`. -/
def pidAt (c : UInt32) : UInt32 := 0x0000FFFF - (c &&& 0xFFFF)

theorem Session.nextPID_sync {body : Body} (s : Session) (h : body.type = .sync) :
    s.nextPID body = 0x0002FFFF := by
  simp [Session.nextPID, h]

theorem Session.nextPID_of_ne {body : Body} (s : Session) (h : body.type ≠ .sync) :
    s.nextPID body = pidAt s.count := by
  unfold Session.nextPID pidAt
  split
  · exact absurd ‹_› h
  · rfl

theorem pidAt_toNat (c : UInt32) : (pidAt c).toNat = 65535 - c.toNat % 65536 := by
  have hmask : (c &&& 0xFFFF).toNat = c.toNat % 65536 :=
    (UInt32.toNat_and c 0xFFFF).trans (Nat.and_two_pow_sub_one_eq_mod c.toNat 16)
  have hle : c &&& 0xFFFF ≤ 0x0000FFFF := by
    rw [UInt32.le_iff_toNat_le, hmask]
    exact Nat.le_of_lt_succ (Nat.mod_lt _ (by norm_num))
  rw [pidAt, UInt32.toNat_sub_of_le _ _ hle, hmask]
  rfl

/-- Two counts give one PID exactly when they agree in their low half. -/
theorem pidAt_eq_iff (c d : UInt32) : pidAt c = pidAt d ↔ c.toNat % 65536 = d.toNat % 65536 := by
  rw [← UInt32.toNat_inj, pidAt_toNat, pidAt_toNat]
  omega

/-- Since its packet counter was `s.count`, the session has sent exactly `ps`: the counter counts
the packets that are not syncs, and gave each of them its PID. -/
structure Numbered (s s' : Session) (ps : List Packet) : Prop where
  count : s'.count = s.count + UInt32.ofNat (nonSync ps).length
  pid : ∀ i p, (nonSync ps)[i]? = some p → p.header.pid = pidAt (s.count + UInt32.ofNat i)
  sync : ∀ p ∈ ps, p.body.type = .sync → p.header.pid = 0x0002FFFF

theorem Numbered.refl (s : Session) : Numbered s s [] :=
  ⟨by simp [nonSync], fun i p hp => by simp [nonSync] at hp, fun p hp => by simp at hp⟩

theorem Numbered.recvPacket (h : Numbered s s' ps) (p : Packet) :
    Numbered s (s'.recvPacket p) ps :=
  ⟨h.count, h.pid, h.sync⟩

theorem Numbered.send (h : Numbered s s' ps) (body : Body) :
    Numbered s (s'.send body).1 (ps ++ [(s'.send body).2]) := by
  by_cases hsync : body.type = .sync
  -- A sync is not counted and leaves the numbering of the others as it was.
  · have hsame : nonSync (ps ++ [(s'.send body).2]) = nonSync ps := by
      simp [nonSync, Session.send, hsync]
    refine ⟨?_, ?_, ?_⟩
    · rw [hsame, ← h.count]
      simp [Session.send, hsync]
    · rw [hsame]
      exact h.pid
    · intro p hp hps
      rcases List.mem_append.mp hp with hp | hp
      · exact h.sync p hp hps
      · obtain rfl := List.mem_singleton.mp hp
        exact s'.nextPID_sync hsync
  · have hnext : nonSync (ps ++ [(s'.send body).2]) = nonSync ps ++ [(s'.send body).2] := by
      simp [nonSync, Session.send, hsync]
    refine ⟨?_, ?_, ?_⟩
    · rw [hnext]
      simp [Session.send, hsync, h.count, UInt32.ofNat_add, UInt32.add_assoc]
    · intro i p hp
      rw [hnext] at hp
      rcases getElem?_concat_cases hp with ⟨_, hp⟩ | ⟨rfl, rfl⟩
      · exact h.pid i p hp
      · rw [← h.count]
        exact s'.nextPID_of_ne hsync
    · intro p hp hps
      rcases List.mem_append.mp hp with hp | hp
      · exact h.sync p hp hps
      · obtain rfl := List.mem_singleton.mp hp
        exact absurd hps hsync

theorem Numbered.run (h : Numbered s s' ps) (es : List Event) :
    Numbered s (s'.run es).1 (ps ++ (s'.run es).2) := by
  induction es generalizing s' ps with
  | nil => simpa using h
  | cons e es ih =>
      cases e with
      | send body => simpa [Session.run, Session.step] using ih (h.send body)
      | recv p => simpa [Session.run, Session.step] using ih (h.recvPacket p)

/-- **Unique packet IDs.**  In every run, of any length and from any session, so also once the
packet counter has wrapped, two packets that are not syncs have the same PID exactly when their
positions among those packets agree modulo `65536`; every such PID is at most `0xFFFF`, and none
is the PID of the syncs. -/
theorem pids_unique (s : Session) (es : List Event) (i j : ℕ) (p q : Packet)
    (hp : (nonSync (s.run es).2)[i]? = some p) (hq : (nonSync (s.run es).2)[j]? = some q) :
    (p.header.pid = q.header.pid ↔ i % 65536 = j % 65536) ∧
      p.header.pid ≤ 0xFFFF ∧ p.header.pid ≠ 0x0002FFFF ∧
      ∀ r ∈ (s.run es).2, r.body.type = .sync → r.header.pid = 0x0002FFFF := by
  have hnum := (Numbered.refl s).run es
  have hle : p.header.pid ≤ 0xFFFF := by
    rw [hnum.pid i p hp, UInt32.le_iff_toNat_le, pidAt_toNat]
    exact Nat.sub_le _ _
  refine ⟨?_, hle, ?_, hnum.sync⟩
  · rw [hnum.pid i p hp, hnum.pid j q hq, pidAt_eq_iff]
    -- `2 ^ 32` is a multiple of `65536`: the wrap of the counter does not show in its low half.
    simp only [UInt32.toNat_add, UInt32.toNat_ofNat']
    omega
  · rintro heq
    rw [heq] at hle
    exact absurd hle (by decide)

/-- The counter wraps between the two payloads, and the sync between them is not counted. -/
theorem pids_unique_wrapped :
    let s : Session := { newSession with count := 0xFFFFFFFF }
    let es : List Event := [.send newHeartbeatBody, .send newSyncBody, .send newHeartbeatBody]
    ((nonSync (s.run es).2).map fun p => p.header.pid) = [0, 0xFFFF] ∧
      ∀ p q, (nonSync (s.run es).2)[0]? = some p → (nonSync (s.run es).2)[1]? = some q →
        p.header.pid ≠ q.header.pid := by
  intro s es
  refine ⟨by decide, fun p q hp hq h => ?_⟩
  exact absurd ((pids_unique s es 0 1 p q hp hq).1.mp h) (by decide)

/-! ### Receive accounting -/

/-- What reaches a session: bodies to send, and datagrams from the wire. -/
inductive WireEvent where
  | send (body : Body)
  | datagram (data : Bytes)
deriving DecidableEq, Repr

/-- The session operations of wire events; a datagram that does not parse reaches no session. -/
def WireEvent.events : WireEvent → List Event
  | .send body => [.send body]
  | .datagram data =>
      match parsePacket data with
      | .ok p => [.recv p]
      | .error _ => []

/-- Body bytes that an event receives on the wire: those of an accepted datagram after its
header. -/
def WireEvent.bodyBytes : WireEvent → ℕ
  | .send _ => 0
  | .datagram data =>
      match parsePacket data with
      | .ok _ => data.length - headerSize
      | .error _ => 0

/-- Body bytes received on the wire in a sequence of events. -/
def wireBytes (ws : List WireEvent) : ℕ := (ws.map WireEvent.bodyBytes).sum

/-- The session after a sequence of wire events. -/
def Session.onWire (s : Session) (ws : List WireEvent) : Session :=
  (s.run (ws.flatMap WireEvent.events)).1

/-- The event is not a datagram whose body is decoded leniently. -/
def WireEvent.Exact : WireEvent → Prop
  | .send _ => True
  | .datagram data => (∃ p, parsePacket data = .ok p) → LenExact (data.drop headerSize)

theorem parsePacket_len_eq_iff {data : Bytes} {p : Packet} (h : parsePacket data = .ok p) :
    p.body.len = data.length - headerSize ↔ LenExact (data.drop headerSize) := by
  obtain ⟨_, _, hb⟩ := parsePacket_eq_ok h
  rw [← parseBody_len_eq_iff hb, List.length_drop]

theorem Session.onWire_cons (s : Session) (w : WireEvent) (ws : List WireEvent) :
    s.onWire (w :: ws) = (s.onWire [w]).onWire ws := by
  simp [Session.onWire, Session.run_append]

/-- One exact event advances the receive counter by the body bytes it received. -/
theorem Session.onWire_single_recv (s : Session) {w : WireEvent} (hw : w.Exact) :
    (s.onWire [w]).recv = s.recv + UInt32.ofNat w.bodyBytes := by
  cases w with
  | send body =>
      simp [Session.onWire, WireEvent.events, WireEvent.bodyBytes, Session.run, Session.step]
  | datagram data =>
      cases hp : parsePacket data with
      | error e =>
          simp [Session.onWire, WireEvent.events, WireEvent.bodyBytes, hp]
      | ok p =>
          have hlen := (parsePacket_len_eq_iff hp).mpr (hw ⟨p, hp⟩)
          simp [Session.onWire, WireEvent.events, WireEvent.bodyBytes, hp, Session.run,
            Session.step, Session.recvPacket, hlen]

/-- A run of exact events advances the receive counter by all the body bytes it received. -/
theorem Session.onWire_recv (s : Session) {ws : List WireEvent} (hw : ∀ w ∈ ws, w.Exact) :
    (s.onWire ws).recv = s.recv + UInt32.ofNat (wireBytes ws) := by
  induction ws generalizing s with
  | nil => simp [Session.onWire, wireBytes]
  | cons w ws ih =>
      have hcons := List.forall_mem_cons.mp hw
      rw [Session.onWire_cons, ih _ hcons.2, Session.onWire_single_recv s hcons.1]
      simp only [wireBytes, List.map_cons, List.sum_cons, UInt32.ofNat_add, UInt32.add_assoc]

/-- A parsed body is at most 20 bytes long or no longer than the received one. -/
theorem parseBody_len_le {body : Bytes} {b : Body} (h : parseBody body = .ok b) :
    b.len ≤ max 20 body.length := by
  have hdrop : (body.drop 12).length = body.length - 12 := List.length_drop
  have htrim := trimZeros_length_le (body.drop 12)
  cases parsed_of_parseBody h with
  | payload h12 =>
      simp only [newPayloadBody, Body.len]
      omega
  | status h12 =>
      simp only [newStatusBody, Body.len]
      omega
  | command => exact Nat.le_max_right 20 body.length
  | _ => simp [newEmptyBody, newSyncBody, newBindBody, newHeartbeatBody, Body.len]

/-- The receive buffer of the UDP client. -/
def recvBuffer : ℕ := 65535

/-- The datagram fits the receive buffer. -/
def WireEvent.Fits : WireEvent → Prop
  | .send _ => True
  | .datagram data => data.length ≤ recvBuffer

/-- An event that fits the buffer and advances the counter by the bytes it received is exact. -/
theorem WireEvent.exact_of_recv (s : Session) {w : WireEvent} (hf : w.Fits)
    (h : (s.onWire [w]).recv = s.recv + UInt32.ofNat w.bodyBytes) : w.Exact := by
  cases w with
  | send body => trivial
  | datagram data =>
      rintro ⟨p, hp⟩
      obtain ⟨hsize, _, hb⟩ := parsePacket_eq_ok hp
      refine (parsePacket_len_eq_iff hp).mp ?_
      simp only [Session.onWire, WireEvent.events, WireEvent.bodyBytes, hp, Session.run,
        Session.step, Session.recvPacket, List.flatMap_cons, List.flatMap_nil,
        List.append_nil] at h
      have hnat := congrArg UInt32.toNat ((UInt32.add_right_inj _).mp h)
      have hle := parseBody_len_le hb
      simp only [WireEvent.Fits, recvBuffer] at hf
      simp only [UInt32.toNat_ofNat', List.length_drop, headerSize] at hnat hle ⊢
      omega

/-- **Receive accounting.**  The parsed body of an accepted datagram has the length of the
received body exactly when the datagram is `LenExact`.  In every run of sends and datagrams in
which every accepted datagram is, the `Recv` field of whatever is sent next is the number of
body bytes received on the wire, modulo `2 ^ 32`; and for datagrams that fit the receive buffer
the account is right throughout a run only then. -/
theorem recv_accounting (data : Bytes) (p : Packet) (ws : List WireEvent) :
    (parsePacket data = .ok p → (p.body.len = data.length - 24 ↔ LenExact (data.drop 24))) ∧
    ((∀ w ∈ ws, w.Exact) →
      (newSession.onWire ws).recv = UInt32.ofNat (wireBytes ws) ∧
        ∀ body, ((newSession.onWire ws).send body).2.header.recv = UInt32.ofNat (wireBytes ws)) ∧
    ((∀ w ∈ ws, w.Fits) →
      ((∀ pre, pre <+: ws → (newSession.onWire pre).recv = UInt32.ofNat (wireBytes pre)) ↔
        ∀ w ∈ ws, w.Exact)) := by
  have hrun : ∀ ws : List WireEvent, (∀ w ∈ ws, w.Exact) →
      (newSession.onWire ws).recv = UInt32.ofNat (wireBytes ws) := by
    intro ws hw
    rw [Session.onWire_recv newSession hw]
    simp [newSession]
  refine ⟨fun h => parsePacket_len_eq_iff h, fun hw => ⟨hrun ws hw, fun _ => hrun ws hw⟩,
    fun hf => ⟨fun hall w hw => ?_, fun hw pre hpre => ?_⟩⟩
  · obtain ⟨pre, post, rfl⟩ := List.append_of_mem hw
    have h₁ := hall pre (List.prefix_append _ _)
    have h₂ := hall (pre ++ [w]) ⟨post, by simp⟩
    refine WireEvent.exact_of_recv (newSession.onWire pre) (hf w hw) ?_
    have e : newSession.onWire (pre ++ [w]) = (newSession.onWire pre).onWire [w] := by
      simp [Session.onWire, Session.run_append]
    rw [← e, h₂, h₁, ← UInt32.ofNat_add]
    simp [wireBytes]
  · exact hrun pre fun w hmem => hw w (hpre.subset hmem)

/-- A 12-byte heartbeat is exact, and a session that received it counts its 12 bytes. -/
theorem recv_accounting_heartbeat :
    let packet : Packet := ⟨⟨0, 0, 0xFFFF, 0, 0⟩, newHeartbeatBody⟩
    LenExact (packet.serialize.drop 24) ∧ packet.body.len = packet.serialize.length - 24 ∧
      (newSession.onWire [.datagram packet.serialize]).recv = 12 := by
  intro packet
  obtain ⟨hlen, hrun, _⟩ := recv_accounting packet.serialize packet [.datagram packet.serialize]
  have hexact : LenExact (packet.serialize.drop 24) := by decide
  refine ⟨hexact, (hlen (by decide)).mpr hexact, (hrun ?_).1⟩
  intro w hw
  obtain rfl := List.mem_singleton.mp hw
  exact fun _ => hexact

/-- A status datagram whose text is padded with one zero byte. -/
def paddedDisc : Bytes :=
  (⟨0, 0, 0xFFFF, 0, 0⟩ : Header).serialize ++ [0x12, 0, 0, 5, 0, 0, 0, 7, 0, 0, 0, 0] ++
    statusDisconnect ++ [0]

/-- The padded datagram is accepted, its parsed body is one byte shorter than the received one,
and a session that received it reports one byte too few. -/
theorem recv_accounting_padded :
    parsePacket paddedDisc = .ok ⟨⟨0, 0, 0xFFFF, 0, 0⟩, newStatusBody 7 statusDisconnect⟩ ∧
      (newStatusBody 7 statusDisconnect).len ≠ paddedDisc.length - 24 ∧
      (newSession.onWire [.datagram paddedDisc]).recv ≠
        UInt32.ofNat (wireBytes [.datagram paddedDisc]) := by
  decide

end DahuaP2p.Ptcp
