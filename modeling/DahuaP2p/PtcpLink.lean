import DahuaP2p.Session
import DahuaP2p.Threads
import DahuaP2p.Wires

/-! # Two PTCP sessions and the network between them (`ptcp/session.go`)

PTCP runs over UDP.  Here both ends of a tunnel keep a `Session`, and the datagrams go over two
wires that lose, reorder and copy them.  Every datagram is parsed where it arrives and passed to
`Session.recvPacket`, as the readers of the tunnel do it.

The statistics of a session are differences of counters that the two ends have at different times.
`gaps_accounted` says what they measure in every run: bytes lost and under way less bytes copied,
and what the last packet heard could not report.  `outMsgs_forgets` says what the message gap does
not measure: when a body and the answer to it have got through it is `1`, whatever was lost
before. -/

namespace DahuaP2p.Ptcp.Link

open BigEndian Threads Wires

inductive Side where
  | client
  | device
deriving DecidableEq, Repr

def Side.other : Side → Side
  | .client => .device
  | .device => .client

@[simp] theorem Side.other_other (a : Side) : a.other.other = a := by
  cases a <;> rfl

@[simp] theorem Side.other_ne (a : Side) : a.other ≠ a := by
  cases a <;> simp [other]

theorem Side.eq_of_ne_other {a b : Side} (h : b ≠ a.other) : b = a := by
  cases a <;> cases b <;> simp_all [other]

/-- A packet under way, with its number and the true totals of its sender before it. -/
structure Letter where
  packet : Packet
  number : ℕ
  before : PeerTotals

/-- Body bytes of some letters. -/
def bytes (l : List Letter) : ℕ := Wire.weight (fun x => x.packet.body.len) l

@[simp] theorem bytes_append (l l' : List Letter) : bytes (l ++ l') = bytes l + bytes l' :=
  Wire.weight_append _ l l'

@[simp] theorem bytes_singleton (x : Letter) : bytes [x] = x.packet.body.len :=
  Wire.weight_singleton _ x

/-- Both sessions, and from each side the wire to the other one. -/
structure Net where
  session : Side → Session
  wire : Side → Wire Letter

namespace Net

variable (n : Net) (a : Side)

/-- The letters that a side has heard, in order. -/
def heardBy : List Letter := (n.wire a.other).delivered

/-- What a side has really done: the bytes it has sent and counted, and the number of the letter
heard last. -/
def totals : PeerTotals :=
  { sent := bytes (n.wire a).sent
    recv := bytes (n.heardBy a)
    rmid := ((n.heardBy a).getLast?.map Letter.number).getD 0 }

/-- What a side knows of its peer: the totals behind the letter heard last. -/
def reported : PeerTotals := ((n.heardBy a).getLast?.map Letter.before).getD {}

end Net

/-- A datagram comes in: what cannot be parsed is dropped. -/
def receive (s : Session) (data : Bytes) : Session :=
  match parsePacket data with
  | .error _ => s
  | .ok packet => s.recvPacket packet

/-- What can happen: a side sends a body, or the network does something with a letter from it. -/
inductive Event where
  | send (a : Side) (body : Body)
  | meet (a : Side) (i : ℕ) (fate : Fate)

def step (n : Net) : Event → Option Net
  | .send a body =>
      let r := (n.session a).send body
      some
        { session := Function.update n.session a r.1
          wire := Function.update n.wire a
            ((n.wire a).send ⟨r.2, (n.wire a).sent.length, n.totals a⟩) }
  | .meet a i fate =>
      match h : (n.wire a).flight[i]? with
      | none => none
      | some x =>
          some
            { session :=
                if fate = .deliver then
                  Function.update n.session a.other
                    (receive (n.session a.other) x.packet.serialize)
                else n.session
              wire := Function.update n.wire a ((n.wire a).meet i x h fate) }

def start : Net := { session := fun _ => newSession, wire := fun _ => .unused }

def system : System Net Event := { init := fun n => n = start, step := step }

/-- The bodies sent are those that the wire format can carry. -/
def Carried (_ : Net) : Event → Prop
  | .send _ body => WellFormed body
  | .meet _ _ _ => True

/-! ### What the headers say -/

/-- A letter carries the totals of its sender modulo `2 ^ 32`, and these did not shrink. -/
structure Stamped (now : PeerTotals) (x : Letter) : Prop where
  wellFormed : WellFormed x.packet.body
  lmid : x.packet.header.lmid = UInt32.ofNat x.number
  sent : x.packet.header.sent = UInt32.ofNat x.before.sent
  recv : x.packet.header.recv = UInt32.ofNat x.before.recv
  rmid : x.packet.header.rmid = UInt32.ofNat x.before.rmid
  sent_le : x.before.sent ≤ now.sent
  recv_le : x.before.recv ≤ now.recv

theorem Stamped.mono {now later : PeerTotals} {x : Letter} (h : Stamped now x)
    (hsent : now.sent ≤ later.sent) (hrecv : now.recv ≤ later.recv) : Stamped later x :=
  { h with sent_le := h.sent_le.trans hsent, recv_le := h.recv_le.trans hrecv }

/-- The counters of a session are the totals of its side and what the peer reported, all modulo
`2 ^ 32`. -/
structure Counts (s : Session) (count : ℕ) (mine theirs : PeerTotals) : Prop where
  id : s.id = UInt32.ofNat count
  sent : s.sent = UInt32.ofNat mine.sent
  recv : s.recv = UInt32.ofNat mine.recv
  rmid : s.rmid = UInt32.ofNat mine.rmid
  peerSent : s.peerSent = UInt32.ofNat theirs.sent
  peerRecv : s.peerRecv = UInt32.ofNat theirs.recv
  peerRMID : s.peerRMID = UInt32.ofNat theirs.rmid

structure Sound (n : Net) : Prop where
  counts (a : Side) : Counts (n.session a) (n.wire a).sent.length (n.totals a) (n.reported a)
  stamped (a : Side) : ∀ x ∈ (n.wire a).sent, Stamped (n.totals a) x

theorem Sound.start : Sound start := by
  refine ⟨fun a => ?_, fun a x hx => ?_⟩
  · exact ⟨rfl, rfl, rfl, rfl, rfl, rfl, rfl⟩
  · simp [Link.start, Wire.unused] at hx

theorem receive_serialize (s : Session) {p : Packet} (h : WellFormed p.body) :
    receive s p.serialize = s.recvPacket p := by
  rw [receive, Packet.parse_serialize h]

section send
variable {n : Net} {a : Side} {body : Body} {n' : Net} (h : step n (.send a body) = some n')
include h

theorem send_session : n'.session = Function.update n.session a ((n.session a).send body).1 := by
  cases h
  rfl

theorem send_wire : n'.wire = Function.update n.wire a
    ((n.wire a).send ⟨((n.session a).send body).2, (n.wire a).sent.length, n.totals a⟩) := by
  cases h
  rfl

/-- A send is not heard yet. -/
theorem send_heardBy (b : Side) : n'.heardBy b = n.heardBy b := by
  rw [Net.heardBy, Net.heardBy, send_wire h]
  by_cases hb : b.other = a
  · subst hb
    rw [Function.update_self]
    rfl
  · rw [Function.update_of_ne hb]

theorem send_totals_of_ne {b : Side} (hb : b ≠ a) : n'.totals b = n.totals b := by
  rw [Net.totals, send_heardBy h, send_wire h, Function.update_of_ne hb]
  rfl

theorem send_totals : n'.totals a = { n.totals a with sent := (n.totals a).sent + body.len } := by
  rw [Net.totals, send_heardBy h, send_wire h, Function.update_self]
  simp [Wire.send, Session.send, Net.totals]

theorem send_reported (b : Side) : n'.reported b = n.reported b := by
  rw [Net.reported, Net.reported, send_heardBy h]

theorem Sound.send (hs : Sound n) (hbody : WellFormed body) : Sound n' := by
  have hcounts := hs.counts a
  refine ⟨fun b => ?_, fun b x hx => ?_⟩
  · rw [send_reported h, send_session h, send_wire h]
    by_cases hb : b = a
    · subst hb
      rw [send_totals h, Function.update_self, Function.update_self]
      refine ⟨?_, ?_, hcounts.recv, hcounts.rmid, hcounts.peerSent, hcounts.peerRecv,
        hcounts.peerRMID⟩
      · simp [Session.send, Wire.send, hcounts.id, UInt32.ofNat_add]
      · simp [Session.send, hcounts.sent, UInt32.ofNat_add]
    · rw [send_totals_of_ne h hb, Function.update_of_ne hb, Function.update_of_ne hb]
      exact hs.counts b
  · rw [send_wire h] at hx
    by_cases hb : b = a
    · subst hb
      rw [send_totals h]
      rw [Function.update_self] at hx
      rcases List.mem_append.mp hx with hold | hnew
      · exact (hs.stamped b x hold).mono (Nat.le_add_right _ _) le_rfl
      · obtain rfl := List.mem_singleton.mp hnew
        exact ⟨hbody, hcounts.id, hcounts.sent, hcounts.recv, hcounts.rmid,
          Nat.le_add_right _ _, le_rfl⟩
    · rw [send_totals_of_ne h hb]
      rw [Function.update_of_ne hb] at hx
      exact hs.stamped b x hx

end send

section meet
variable {n n' : Net} {a : Side} {i : ℕ} {fate : Fate}

theorem meet_eq (h : step n (.meet a i fate) = some n') :
    ∃ x, ∃ hx : (n.wire a).flight[i]? = some x,
      n'.session = (if fate = .deliver then
        Function.update n.session a.other (receive (n.session a.other) x.packet.serialize)
        else n.session) ∧
      n'.wire = Function.update n.wire a ((n.wire a).meet i x hx fate) := by
  rw [step] at h
  split at h
  · cases h
  · next x hx =>
      cases h
      exact ⟨x, hx, rfl, rfl⟩

theorem meet_sent (h : step n (.meet a i fate) = some n') (b : Side) :
    (n'.wire b).sent = (n.wire b).sent := by
  obtain ⟨x, hx, _, hwire⟩ := meet_eq h
  rw [hwire]
  by_cases hb : b = a
  · subst hb
    rw [Function.update_self, Wire.meet_sent]
  · rw [Function.update_of_ne hb]

/-- Nobody hears anything from a letter that is lost or copied. -/
theorem meet_heardBy (h : step n (.meet a i fate) = some n') (hfate : fate ≠ .deliver)
    (b : Side) : n'.heardBy b = n.heardBy b := by
  obtain ⟨x, hx, _, hwire⟩ := meet_eq h
  rw [Net.heardBy, Net.heardBy, hwire]
  by_cases hb : b.other = a
  · subst hb
    rw [Function.update_self, Wire.meet_delivered _ _ hfate]
  · rw [Function.update_of_ne hb]

theorem Sound.meet_quiet (hs : Sound n) (h : step n (.meet a i fate) = some n')
    (hfate : fate ≠ .deliver) : Sound n' := by
  have htotals (b : Side) : n'.totals b = n.totals b := by
    rw [Net.totals, Net.totals, meet_sent h, meet_heardBy h hfate]
  have hreported (b : Side) : n'.reported b = n.reported b := by
    rw [Net.reported, Net.reported, meet_heardBy h hfate]
  obtain ⟨x, hx, hsession, _⟩ := meet_eq h
  rw [if_neg hfate] at hsession
  refine ⟨fun b => ?_, fun b y hy => ?_⟩
  · rw [hsession, meet_sent h, htotals, hreported]
    exact hs.counts b
  · rw [meet_sent h] at hy
    rw [htotals]
    exact hs.stamped b y hy

/-- A letter arrives at the other side and nowhere else. -/
theorem deliver_eq (h : step n (.meet a i .deliver) = some n') :
    ∃ x, (n.wire a).flight[i]? = some x ∧
      n'.session = Function.update n.session a.other
        (receive (n.session a.other) x.packet.serialize) ∧
      n'.heardBy a.other = n.heardBy a.other ++ [x] ∧ n'.heardBy a = n.heardBy a := by
  obtain ⟨x, hx, hsession, hwire⟩ := meet_eq h
  refine ⟨x, hx, hsession, ?_, ?_⟩
  · rw [Net.heardBy, Net.heardBy, hwire, Side.other_other, Function.update_self]
    rfl
  · rw [Net.heardBy, Net.heardBy, hwire, Function.update_of_ne a.other_ne]

theorem deliver_totals (h : step n (.meet a i .deliver) = some n') {x : Letter}
    (hheard : n'.heardBy a.other = n.heardBy a.other ++ [x]) :
    n'.totals a.other =
        { sent := (n.totals a.other).sent
          recv := (n.totals a.other).recv + x.packet.body.len
          rmid := x.number } ∧
      n'.reported a.other = x.before := by
  constructor
  · rw [Net.totals, meet_sent h, hheard]
    simp [Net.totals]
  · rw [Net.reported, hheard]
    simp

theorem Sound.deliver (hs : Sound n) (h : step n (.meet a i .deliver) = some n') :
    Sound n' := by
  obtain ⟨x, hx, hsession, hheard, hsame⟩ := deliver_eq h
  obtain ⟨htotals, hreported⟩ := deliver_totals h hheard
  have hmem : x ∈ (n.wire a).sent := (n.wire a).sent_of_flight (List.mem_of_getElem? hx)
  have hx' := hs.stamped a x hmem
  have htotals' : n'.totals a = n.totals a := by
    rw [Net.totals, Net.totals, meet_sent h, hsame]
  have hreported' : n'.reported a = n.reported a := by
    rw [Net.reported, Net.reported, hsame]
  refine ⟨fun b => ?_, fun b y hy => ?_⟩
  · rw [meet_sent h, hsession]
    by_cases hb : b = a.other
    · subst hb
      have hcounts := hs.counts a.other
      rw [htotals, hreported, Function.update_self, receive_serialize _ hx'.wellFormed]
      refine ⟨hcounts.id, hcounts.sent, ?_, hx'.lmid, hx'.sent, hx'.recv, hx'.rmid⟩
      simp [Session.recvPacket, hcounts.recv, UInt32.ofNat_add]
    · obtain rfl := Side.eq_of_ne_other hb
      rw [htotals', hreported', Function.update_of_ne hb]
      exact hs.counts b
  · rw [meet_sent h] at hy
    have hy' := hs.stamped b y hy
    by_cases hb : b = a.other
    · subst hb
      rw [htotals]
      exact hy'.mono le_rfl (Nat.le_add_right _ _)
    · obtain rfl := Side.eq_of_ne_other hb
      rw [htotals']
      exact hy'

end meet

theorem sound {n : Net} (h : system.Reach Carried n) : Sound n := by
  refine h.invariant (fun n hn => ?_) (fun n e n' _ hs hok hstep => ?_)
  · rw [show n = start from hn]
    exact .start
  · cases e with
    | send a body => exact .send hstep hs hok
    | meet a i fate =>
        by_cases hfate : fate = .deliver
        · subst hfate
          exact hs.deliver hstep
        · exact hs.meet_quiet hstep hfate

/-! ### What the gaps measure -/

/-- What a side sent, and what the other one counted. -/
theorem Net.balance (n : Net) (a : Side) :
    (n.totals a).sent + bytes (n.wire a).copied =
      (n.totals a.other).recv + bytes (n.wire a).lost + bytes (n.wire a).flight := by
  have hbalance := (n.wire a).balance fun x => x.packet.body.len
  simpa [Net.totals, Net.heardBy, bytes] using hbalance

/-- Reports are about the past. -/
theorem Sound.reported_le {n : Net} (hs : Sound n) (a : Side) :
    (n.reported a).sent ≤ (n.totals a.other).sent ∧
      (n.reported a).recv ≤ (n.totals a.other).recv := by
  cases hlast : (n.heardBy a).getLast? with
  | none => simp [Net.reported, hlast]
  | some x =>
      have hheard : x ∈ (n.wire a.other).delivered := List.mem_of_getLast? hlast
      have hx := hs.stamped a.other x ((n.wire a.other).sent_of_delivered hheard)
      simpa [Net.reported, hlast] using And.intro hx.sent_le hx.recv_le

/-- Each gap is the difference of the totals it is made from, if that is a signed 32-bit number. -/
theorem Sound.gaps {n : Net} (hs : Sound n) (a : Side) :
    let stats := (n.session a).stats
    let out : ℤ := (n.totals a).sent - (n.reported a).recv
    let msgs : ℤ := (n.wire a).sent.length - (n.reported a).rmid
    let back : ℤ := (n.reported a).sent - (n.totals a).recv
    (InRange out ↔ stats.outBytes = out) ∧ (InRange msgs ↔ stats.outMsgs = msgs) ∧
      (InRange back ↔ stats.inBytes = back) := by
  intro stats out msgs back
  have hcounts := hs.counts a
  refine ⟨?_, ?_, ?_⟩
  · rw [← delta_ofNat_eq_iff, ← hcounts.sent, ← hcounts.peerRecv]
    rfl
  · rw [← delta_ofNat_eq_iff, ← hcounts.id, ← hcounts.peerRMID]
    rfl
  · rw [← delta_ofNat_eq_iff, ← hcounts.recv, ← hcounts.peerSent]
    rfl

/-- **What the byte gaps measure.**  In every run of two sessions over a network that loses,
reorders and copies datagrams: the outgoing gap of a side is what was lost on its way out and what
is still under way, less what arrived twice, and what the other side counted since it wrote the
packet heard last; the incoming gap is the same for the way back, less what the other side has sent
since it wrote that packet.  Each holds exactly as long as the number fits a signed 32-bit one,
however often the counters have wrapped. -/
theorem gaps_accounted {n : Net} (h : system.Reach Carried n) (a : Side) :
    let stats := (n.session a).stats
    let net (b : Side) : ℤ :=
      bytes (n.wire b).lost + bytes (n.wire b).flight - bytes (n.wire b).copied
    let unreported : ℤ := (n.totals a.other).recv - (n.reported a).recv
    let unheard : ℤ := (n.totals a.other).sent - (n.reported a).sent
    0 ≤ unreported ∧ 0 ≤ unheard ∧
      (InRange (net a + unreported) ↔ stats.outBytes = net a + unreported) ∧
      (InRange (net a.other - unheard) ↔ stats.inBytes = net a.other - unheard) := by
  intro stats net unreported unheard
  have hs := sound h
  obtain ⟨hsent, hrecv⟩ := hs.reported_le a
  obtain ⟨hout, _, hback⟩ := hs.gaps a
  have hbalance := n.balance a
  have hbalance' := n.balance a.other
  rw [Side.other_other] at hbalance'
  have houtEq : net a + unreported = ((n.totals a).sent : ℤ) - (n.reported a).recv := by
    simp only [net, unreported]
    omega
  have hbackEq : net a.other - unheard = ((n.reported a).sent : ℤ) - (n.totals a).recv := by
    simp only [net, unheard]
    omega
  refine ⟨by omega, by omega, ?_, ?_⟩
  · rw [houtEq]
    exact hout
  · rw [hbackEq]
    exact hback

/-- Only heartbeats are sent. -/
def beatsOnly (es : List Event) : Bool :=
  es.all fun
    | .send _ body => body == newHeartbeatBody
    | .meet _ _ _ => true

theorem reach_of_beats {es : List Event} {n : Net} (hes : beatsOnly es = true)
    (h : system.exec (fun _ _ => True) start es = some n) : system.Reach Carried n := by
  refine System.Reach.exec_of_forall (.init rfl) (fun e he s => ?_) h
  have hbeat := List.all_eq_true.mp hes e he
  cases e with
  | send a body =>
      rw [eq_of_beq hbeat]
      exact .heartbeat
  | meet a i fate => trivial

/-- The client's first heartbeat is lost and its second one arrives twice; the device answers
between the two arrivals, and a last answer is under way. -/
def lossScript : List Event :=
  [.send .client newHeartbeatBody, .meet .client 0 .lose, .send .client newHeartbeatBody,
    .meet .client 0 .copy, .meet .client 0 .deliver, .send .device newHeartbeatBody,
    .meet .device 0 .deliver, .meet .client 0 .deliver, .send .device newHeartbeatBody]

theorem gaps_accounted_lossScript :
    ∃ n, system.exec (fun _ _ => True) start lossScript = some n ∧
      (n.session .client).stats.outBytes = 12 ∧
      (let net (b : Side) : ℤ :=
          bytes (n.wire b).lost + bytes (n.wire b).flight - bytes (n.wire b).copied
        let unreported : ℤ := (n.totals .device).recv - (n.reported .client).recv
        net .client + unreported = 12 ∧ 0 ≤ unreported ∧
          (InRange (net .client + unreported) ↔
            (n.session .client).stats.outBytes = net .client + unreported)) := by
  have hrun : ∃ n, system.exec (fun _ _ => True) start lossScript = some n ∧
      (n.session .client).stats.outBytes = 12 ∧ bytes (n.wire .client).lost = 12 ∧
      bytes (n.wire .client).flight = 0 ∧ bytes (n.wire .client).copied = 12 ∧
      (n.totals .device).recv = 24 ∧ (n.reported .client).recv = 12 :=
    ⟨_, rfl, by decide +kernel, rfl, rfl, rfl, rfl, rfl⟩
  obtain ⟨n, hn, hgap, hlost, hflight, hcopied, hrecv, hreported⟩ := hrun
  obtain ⟨hpos, _, hout, _⟩ := gaps_accounted (reach_of_beats (by decide) hn) .client
  refine ⟨n, hn, hgap, ?_, hpos, hout⟩
  simp [hlost, hflight, hcopied, hrecv, hreported]

/-! ### One exchange -/

/-- The letter that a side would send now with this body. -/
def Net.letter (n : Net) (a : Side) (body : Body) : Letter :=
  ⟨((n.session a).send body).2, (n.wire a).sent.length, n.totals a⟩

/-- What may happen while side `a` waits for an answer: the other side may send, letters may be lost
and copied, and `a` may hear others than the answer; but `a` sends nothing and nothing of it
arrives. -/
def Quiet (a : Side) : Event → Prop
  | .send b body => b ≠ a ∧ WellFormed body
  | .meet b _ fate => b = a → fate ≠ .deliver

/-- Quiet events happen. -/
def Rests (a : Side) : Net → Net → Prop :=
  Relation.ReflTransGen fun n n' => ∃ e, Quiet a e ∧ step n e = some n'

/-- Side `b` sends a body and its letter arrives, with quiet events in between. -/
def Crosses (a : Side) (n : Net) (b : Side) (body : Body) (n' : Net) : Prop :=
  ∃ n₁ n₂ i, step n (.send b body) = some n₁ ∧ Rests a n₁ n₂ ∧
    (n₂.wire b).flight[i]? = some (n.letter b body) ∧ step n₂ (.meet b i .deliver) = some n'

section rests
variable {n n' : Net} {a : Side}

theorem Quiet.carried {e : Event} (h : Quiet a e) (n : Net) : Carried n e := by
  cases e with
  | send b body => exact h.2
  | meet b i fate => trivial

/-- The side sends nothing, and nothing of it arrives. -/
theorem Quiet.step {e : Event} (hq : Quiet a e) (h : step n e = some n') :
    (n'.wire a).sent = (n.wire a).sent ∧ n'.heardBy a.other = n.heardBy a.other := by
  cases e with
  | send b body =>
      refine ⟨?_, send_heardBy h _⟩
      rw [send_wire h, Function.update_of_ne hq.1.symm]
  | meet b i fate =>
      refine ⟨meet_sent h a, ?_⟩
      by_cases hfate : fate = .deliver
      · subst hfate
        have hb : b ≠ a := fun heq => hq heq rfl
        obtain rfl : b = a.other := by
          refine Side.eq_of_ne_other (a := a.other) ?_
          rwa [Side.other_other]
        obtain ⟨_, _, _, _, hsame⟩ := deliver_eq h
        exact hsame
      · exact meet_heardBy h hfate _

theorem Rests.keeps (h : Rests a n n') :
    (n'.wire a).sent = (n.wire a).sent ∧ n'.heardBy a.other = n.heardBy a.other := by
  induction h with
  | refl => exact ⟨rfl, rfl⟩
  | tail _ hstep ih =>
      obtain ⟨e, hq, he⟩ := hstep
      obtain ⟨hsent, hheard⟩ := hq.step he
      exact ⟨hsent.trans ih.1, hheard.trans ih.2⟩

theorem Rests.reach (h : Rests a n n') (hr : system.Reach Carried n) :
    system.Reach Carried n' := by
  induction h with
  | refl => exact hr
  | tail _ hstep ih =>
      obtain ⟨e, hq, he⟩ := hstep
      exact ih.step (hq.carried _) he

theorem Crosses.reach {b : Side} {body : Body} (h : Crosses a n b body n') (hbody : WellFormed body)
    (hr : system.Reach Carried n) : system.Reach Carried n' := by
  obtain ⟨n₁, n₂, i, hsend, hrest, _, hmeet⟩ := h
  have hr₁ : system.Reach Carried n₁ := hr.step (l := .send b body) hbody hsend
  exact (hrest.reach hr₁).step (l := .meet b i .deliver) trivial hmeet

/-- The body of the side has crossed: it was the last one that the side has sent, and is the last
one that the other side has heard. -/
theorem Crosses.asked {x : Body} (h : Crosses a n a x n') :
    (n'.wire a).sent.length = (n.wire a).sent.length + 1 ∧
      (n'.totals a.other).rmid = (n.wire a).sent.length := by
  obtain ⟨n₁, n₂, i, hsend, hrest, hletter, hmeet⟩ := h
  constructor
  · rw [meet_sent hmeet, hrest.keeps.1, send_wire hsend, Function.update_self]
    simp [Wire.send]
  · obtain ⟨z, hz, _, hheard, _⟩ := deliver_eq hmeet
    obtain rfl : z = n.letter a x := Option.some.inj (hz.symm.trans hletter)
    rw [(deliver_totals hmeet hheard).1]
    rfl

/-- The answer has crossed: for the side that waits all of it was quiet, and it has heard what the
other side had counted when it wrote the answer. -/
theorem Crosses.answered {y : Body} (h : Crosses a n a.other y n') :
    ((n'.wire a).sent = (n.wire a).sent ∧ n'.heardBy a.other = n.heardBy a.other) ∧
      n'.reported a = n.totals a.other := by
  obtain ⟨n₁, n₂, i, hsend, hrest, hletter, hmeet⟩ := h
  have hquiet : (n'.wire a).sent = (n₂.wire a).sent ∧ n'.heardBy a.other = n₂.heardBy a.other :=
    Quiet.step (e := .meet a.other i .deliver) (fun heq => absurd heq a.other_ne) hmeet
  constructor
  · constructor
    · rw [hquiet.1, hrest.keeps.1, send_wire hsend, Function.update_of_ne a.other_ne.symm]
    · rw [hquiet.2, hrest.keeps.2, send_heardBy hsend]
  · obtain ⟨z, hz, _, hheard, _⟩ := deliver_eq hmeet
    obtain rfl : z = n.letter a.other y := Option.some.inj (hz.symm.trans hletter)
    have hreported := (deliver_totals hmeet hheard).2
    rw [Side.other_other] at hreported
    exact hreported

end rests

/-- **The message gap forgets.**  After any run, let one more body and the answer to it get through,
where the side sends nothing else and nothing else of it arrives until it has the answer: the
message gap is `1`, whatever was lost before, while the byte gap is what the network has lost or
still has on the way, less what it copied. -/
theorem outMsgs_forgets {n n₁ n₂ n' : Net} (h : system.Reach Carried n) {a : Side} {x y : Body}
    (hx : WellFormed x) (hy : WellFormed y) (hask : Crosses a n a x n₁) (hrest : Rests a n₁ n₂)
    (hanswer : Crosses a n₂ a.other y n') :
    let net : ℤ := bytes (n'.wire a).lost + bytes (n'.wire a).flight - bytes (n'.wire a).copied
    (n'.session a).stats.outMsgs = 1 ∧ (InRange net ↔ (n'.session a).stats.outBytes = net) := by
  intro net
  have hs : Sound n' := sound (hanswer.reach hy (hrest.reach (hask.reach hx h)))
  obtain ⟨hsent, hrmid⟩ := hask.asked
  obtain ⟨⟨hsent', hheard'⟩, hreported⟩ := hanswer.answered
  obtain ⟨hout, hmsgs, _⟩ := hs.gaps a
  constructor
  · have hlength : (n'.wire a).sent.length = (n.wire a).sent.length + 1 := by
      rw [hsent', hrest.keeps.1, hsent]
    have hlast : (n'.reported a).rmid = (n.wire a).sent.length := by
      rw [hreported, ← hrmid, Net.totals, Net.totals, hrest.keeps.2]
    have hone : (((n.wire a).sent.length + 1 : ℕ) : ℤ) - (n.wire a).sent.length = 1 := by omega
    rw [hlength, hlast, hone] at hmsgs
    exact hmsgs.mp ⟨by decide, by decide⟩
  · have hrecv : (n'.reported a).recv = (n'.totals a.other).recv := by
      rw [hreported, Net.totals, Net.totals, hheard']
    have hbalance := n'.balance a
    have hnet : ((n'.totals a).sent : ℤ) - (n'.reported a).recv = net := by
      simp only [net]
      omega
    rw [hnet] at hout
    exact hout

/-- Two heartbeats are lost and then one gets through; the device has sent another packet before its
answer, which is lost as well. -/
theorem outMsgs_forgets_two_lost :
    let script : List Event := [.send .client newHeartbeatBody, .send .client newHeartbeatBody,
      .meet .client 0 .lose, .meet .client 0 .lose]
    let exchange : List Event := [.send .client newHeartbeatBody, .send .device newHeartbeatBody,
      .meet .client 0 .deliver, .meet .device 0 .lose, .send .device newHeartbeatBody,
      .meet .device 0 .deliver]
    ∃ n n', system.exec (fun _ _ => True) start script = some n ∧
      bytes (n.wire .client).lost = 24 ∧
      system.exec (fun _ _ => True) n exchange = some n' ∧
      (n'.session .client).stats.outMsgs = 1 ∧ (n'.session .client).stats.outBytes = 24 := by
  intro script exchange
  have hrun : ∃ n n₁ n₂ n', system.exec (fun _ _ => True) start script = some n ∧
      bytes (n.wire .client).lost = 24 ∧ system.exec (fun _ _ => True) n exchange = some n' ∧
      Crosses .client n .client newHeartbeatBody n₁ ∧ Rests .client n₁ n₂ ∧
      Crosses .client n₂ .device newHeartbeatBody n' ∧ bytes (n'.wire .client).lost = 24 ∧
      bytes (n'.wire .client).flight = 0 ∧ bytes (n'.wire .client).copied = 0 := by
    refine ⟨_, _, _, _, rfl, rfl, rfl, ⟨_, _, 0, rfl, .single ⟨.send .device newHeartbeatBody,
      ⟨by decide, .heartbeat⟩, rfl⟩, rfl, rfl⟩, .single ⟨.meet .device 0 .lose, ?_, rfl⟩,
      ⟨_, _, 0, rfl, .refl, rfl, rfl⟩, rfl, rfl, rfl⟩
    exact fun _ => Fate.noConfusion
  obtain ⟨n, n₁, n₂, n', hn, hlost, hn', hask, hrest, hanswer, hlost', hflight, hcopied⟩ := hrun
  obtain ⟨hmsgs, hbytes⟩ := outMsgs_forgets (reach_of_beats (by decide) hn) .heartbeat .heartbeat
    hask hrest hanswer
  rw [hlost', hflight, hcopied] at hbytes
  exact ⟨n, n', hn, hlost, hn', hmsgs, hbytes.mp ⟨by decide, by decide⟩⟩

end DahuaP2p.Ptcp.Link
