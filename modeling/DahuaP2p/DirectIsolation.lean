import DahuaP2p.DirectHandshake

/-! # Foreign datagrams in the direct handshake

Anyone can send datagrams to the socket of the handshake.  Up to the first reply it takes only those
from the remote address or the LAN address, and after that only those from the address that replied.

* `purge`: the reads of an attempt without those that it skips.
* `Alike`: two clients with the same inbox in this sense, and all else equal.
* `foreign_no_influence`: attempts that find such clients cannot be told apart. -/

namespace DahuaP2p.Dh

open BigEndian Ptcp Programs Prog UDPClient

/-! ### What an attempt takes from the socket -/

/-- The reads that return a datagram from the remote address, or an error. -/
def fromRemote (raddr : Option UDPAddr) (inbox : List Event) : List Event :=
  inbox.filter fun
    | .ok (addr, _) => sameUDPAddr (some addr) raddr
    | .error _ => true

/-- The source of a first reply. -/
def expected (raddr local? : Option UDPAddr) (addr : UDPAddr) : Bool :=
  sameUDPAddr (some addr) raddr || sameUDPAddr (some addr) local?

/-- The reads without foreign datagrams: up to the first reply those from neither of the two
addresses, and after it those from another address than its source.  The attempt ends with an error
of its first reads. -/
def purge (local? raddr : Option UDPAddr) : List Event → List Event
  | [] => []
  | .error text :: _ => [.error text]
  | .ok (addr, data) :: rest =>
      if expected raddr local? addr then .ok (addr, data) :: fromRemote (some addr) rest
      else purge local? raddr rest

theorem readUntil_fromRemote (raddr : Option UDPAddr) (inbox : List Event) :
    readUntil (fun addr => sameUDPAddr (some addr) raddr) (fromRemote raddr inbox) =
      ((readUntil (fun addr => sameUDPAddr (some addr) raddr) inbox).1,
        fromRemote raddr (readUntil (fun addr => sameUDPAddr (some addr) raddr) inbox).2) := by
  induction inbox with
  | nil => rfl
  | cons event inbox ih =>
      cases event with
      | error text => rfl
      | ok datagram =>
          obtain ⟨addr, data⟩ := datagram
          cases haddr : sameUDPAddr (some addr) raddr with
          | true => simp [fromRemote, readUntil, haddr]
          | false => simpa [fromRemote, readUntil, haddr] using ih

/-- The first reply is the first of the purged reads, and the rest of these are read after it. -/
theorem readUntil_purge (local? raddr : Option UDPAddr) (inbox : List Event) :
    (∃ src data rest, readUntil (expected raddr local?) inbox = (.ok (src, data), rest) ∧
        purge local? raddr inbox = .ok (src, data) :: fromRemote (some src) rest) ∨
      ∃ text rest, readUntil (expected raddr local?) inbox = (.error text, rest) ∧
        ∀ reply rest, purge local? raddr inbox ≠ .ok reply :: rest := by
  induction inbox with
  | nil => exact .inr ⟨_, _, rfl, fun _ _ => nofun⟩
  | cons event inbox ih =>
      cases event with
      | error text => exact .inr ⟨text, inbox, rfl, fun _ _ => nofun⟩
      | ok datagram =>
          obtain ⟨addr, data⟩ := datagram
          cases haddr : expected raddr local? addr with
          | true =>
              exact .inl ⟨addr, data, inbox, by simp [readUntil, haddr], by simp [purge, haddr]⟩
          | false => simpa [readUntil, purge, haddr] using ih

/-! ### Clients that cannot be told apart -/

/-- Two clients with the same view of the reads to come, and all else equal. -/
structure Alike (view : Option UDPAddr → List Event → List Event) (c c' : UDPClient) : Prop where
  raddr : c.raddr = c'.raddr
  writes : c.writes = c'.writes
  sent : c.sent = c'.sent
  inbox : view c.raddr c.inbox = view c'.raddr c'.inbox

/-- Two clients with the same remote address that have sent the same. -/
def SameTrace (c c' : UDPClient) : Prop := c.raddr = c'.raddr ∧ c.sent = c'.sent

section alike
variable {view : Option UDPAddr → List Event → List Event}

theorem Alike.sameTrace {c c' : UDPClient} (h : Alike view c c') : SameTrace c c' :=
  ⟨h.raddr, h.sent⟩

theorem writeTo_alike (data : Bytes) (addr : UDPAddr) :
    Agree (Alike view) (writeTo data addr) (fun _ => Alike view) (Alike view) := by
  intro c c' h
  have hafter : Alike view (writeTo data addr c).2 (writeTo data addr c').2 :=
    ⟨h.raddr, congrArg List.tail h.writes, by simp only [writeTo, h.writes, h.sent], h.inbox⟩
  cases herr : c'.writes.headD none with
  | none =>
      refine .inl ⟨(), _, _, ?_, ?_, hafter⟩
      · simp only [writeTo, h.writes, herr]
      · simp only [writeTo, herr]
  | some text =>
      refine .inr ⟨.socket text, _, _, ?_, ?_, hafter⟩
      · simp only [writeTo, h.writes, herr]
      · simp only [writeTo, herr]

theorem send_alike (data : Bytes) :
    Agree (Alike view) (send data) (fun _ => Alike view) (Alike view) := by
  intro c c' h
  cases haddr : c'.raddr with
  | none =>
      refine .inr ⟨.notConnected, c, c', ?_, ?_, h⟩
      · simp only [send, h.raddr, haddr]
      · simp only [send, haddr]
  | some addr =>
      rw [send_of_connected data (h.raddr.trans haddr), send_of_connected data haddr]
      exact writeTo_alike data addr c c' h

/-- Equal views give equal results, and equal views of what is left. -/
theorem readUntil_of_view {raddr : Option UDPAddr} {inbox inbox' : List Event}
    (h : fromRemote raddr inbox = fromRemote raddr inbox') :
    ∃ result rest rest',
      readUntil (fun addr => sameUDPAddr (some addr) raddr) inbox = (result, rest) ∧
      readUntil (fun addr => sameUDPAddr (some addr) raddr) inbox' = (result, rest') ∧
      fromRemote raddr rest = fromRemote raddr rest' := by
  have hview := readUntil_fromRemote raddr inbox
  rw [h, readUntil_fromRemote, Prod.mk.injEq] at hview
  exact ⟨(readUntil _ inbox).1, (readUntil _ inbox).2, (readUntil _ inbox').2, rfl,
    Prod.ext hview.1 rfl, hview.2.symm⟩

theorem recv_alike :
    Agree (Alike fromRemote) recv (fun _ => Alike fromRemote) (Alike fromRemote) := by
  intro c c' h
  have hview : fromRemote c'.raddr c.inbox = fromRemote c'.raddr c'.inbox := h.raddr ▸ h.inbox
  obtain ⟨result, rest, rest', hread, hread', hrest⟩ := readUntil_of_view hview
  have hafter : Alike fromRemote { c with inbox := rest } { c' with inbox := rest' } :=
    ⟨h.raddr, h.writes, h.sent, h.raddr.symm ▸ hrest⟩
  cases result with
  | ok datagram =>
      refine .inl ⟨datagram.2, _, _, ?_, ?_, hafter⟩
      · simp only [recv, h.raddr, hread]
      · simp only [recv, hread']
  | error text =>
      refine .inr ⟨.socket text, _, _, ?_, ?_, hafter⟩
      · simp only [recv, h.raddr, hread]
      · simp only [recv, hread']

theorem sendLocal_alike (data : Bytes) (local? : Option UDPAddr) :
    Agree (Alike view) (sendLocal data local?) (fun _ => Alike view) (Alike view) := by
  cases local? with
  | none => exact .pure fun _ _ h => h
  | some addr => exact (writeTo_alike data addr).attempt.bind fun _ => .pure fun _ _ h => h

end alike

/-! ### The phases of an attempt -/

section phases

theorem awaitReply_of_read {local? : Option UDPAddr} {c : UDPClient} {result : Event}
    {rest : List Event} (h : readUntil (expected c.raddr local?) c.inbox = (result, rest)) :
    awaitReply local? c =
      (result.mapError fun _ => .noDeviceResponse, { c with inbox := rest }) := by
  have hread : readUntil (fun addr => sameUDPAddr (some addr) c.raddr ||
      sameUDPAddr (some addr) local?) c.inbox = (result, rest) := h
  simp only [awaitReply, hread]
  cases result <;> rfl

/-- The same reply is taken, and once the clients are connected to its source they are alike. -/
theorem awaitReply_alike (local? : Option UDPAddr) :
    Agree (Alike (purge local?)) (awaitReply local?)
      (fun reply c c' => Alike fromRemote { c with raddr := some reply.1 }
        { c' with raddr := some reply.1 }) SameTrace := by
  intro c c' h
  rcases readUntil_purge local? c.raddr c.inbox with
    ⟨src, data, rest, hread, hpurge⟩ | ⟨text, rest, hread, hpurge⟩ <;>
  rcases readUntil_purge local? c'.raddr c'.inbox with
    ⟨src', data', rest', hread', hpurge'⟩ | ⟨text', rest', hread', hpurge'⟩
  · have hreply := hpurge.symm.trans (h.inbox.trans hpurge')
    rw [List.cons.injEq, Except.ok.injEq, Prod.mk.injEq] at hreply
    obtain ⟨⟨rfl, rfl⟩, hrest⟩ := hreply
    exact .inl ⟨(src, data), _, _, awaitReply_of_read hread, awaitReply_of_read hread',
      rfl, h.writes, h.sent, hrest⟩
  · exact absurd (h.inbox.symm.trans hpurge) (hpurge' _ _)
  · exact absurd (h.inbox.trans hpurge') (hpurge _ _)
  · exact .inr ⟨.noDeviceResponse, _, _, awaitReply_of_read hread, awaitReply_of_read hread',
      h.raddr, h.sent⟩

theorem holePunch_alike (lib : NetLib) (d : Device) (a : Attempt) :
    Agree (Alike (purge (localAddr d a))) (holePunch lib d a)
      (fun reply c c' => Alike fromRemote { c with raddr := some reply.1 }
        { c' with raddr := some reply.1 }) SameTrace := by
  unfold holePunch
  split
  · exact .fail fun _ _ h => h.sameTrace
  · exact ((send_alike _).of_error fun _ _ h => h.sameTrace).wrap _ |>.bind fun _ =>
      ((sendLocal_alike _ _).of_error fun _ _ h => h.sameTrace).bind fun _ => awaitReply_alike _

/-- From connected clients that are alike, what follows the reply ends in the same way, and they
stay alike. -/
theorem establish_alike (d : Device) (a : Attempt) (resp : Bytes) :
    Agree (Alike fromRemote) (establish d a resp) (fun _ => Alike fromRemote)
      (Alike fromRemote) := by
  have hrule : ClientRule fun _ x =>
      Agree (Alike fromRemote) x (fun _ => Alike fromRemote) (Alike fromRemote) :=
    { pure := fun _ => .pure fun _ _ h => h
      fail := fun _ => .fail fun _ _ h => h
      bind := .bind
      send := fun data g => (send_alike data).wrap g
      attempt := recv_alike.attempt
      recv := fun g => recv_alike.wrap g }
  exact hrule.establish d a resp

end phases

theorem perform_alike (lib : NetLib) (d : Device) (a : Attempt) :
    Agree (Alike (purge (localAddr d a))) (performDirectHandshake lib d a)
      (fun _ => Alike fromRemote) SameTrace := by
  refine (holePunch_alike lib d a).bind fun reply c c' h => ?_
  exact ((establish_alike d a reply.2).of_error fun _ _ h => h.sameTrace) _ _ h

/-- **Foreign datagrams have no influence.**  Two sequences of reads that become equal when the
foreign datagrams are deleted give the same result of an attempt, the same remote address and the
same datagrams sent. -/
theorem foreign_no_influence {lib : NetLib} {d : Device} {a : Attempt} {c : UDPClient}
    {inbox inbox' : List Event}
    (h : purge (localAddr d a) c.raddr inbox = purge (localAddr d a) c.raddr inbox') :
    (performDirectHandshake lib d a { c with inbox := inbox }).1 =
        (performDirectHandshake lib d a { c with inbox := inbox' }).1 ∧
      (performDirectHandshake lib d a { c with inbox := inbox }).2.raddr =
        (performDirectHandshake lib d a { c with inbox := inbox' }).2.raddr ∧
      (performDirectHandshake lib d a { c with inbox := inbox }).2.sent =
        (performDirectHandshake lib d a { c with inbox := inbox' }).2.sent := by
  rcases perform_alike lib d a { c with inbox := inbox } { c with inbox := inbox' }
    ⟨rfl, rfl, rfl, h⟩ with ⟨session, t, t', hrun, hrun', ht⟩ | ⟨e, t, t', hrun, hrun', ht⟩
  · rw [hrun, hrun']
    exact ⟨rfl, ht.raddr, ht.sent⟩
  · rw [hrun, hrun']
    exact ⟨rfl, ht⟩

/-- The camera answers the hole punch and the SYNC from the LAN address, with other datagrams in
between. -/
def mixedInbox (foreign : List Event) : List Event :=
  foreign ++ .ok (cameraLan, List.replicate 20 0) :: (.error "i/o timeout" :: foreign ++
    [.ok (cameraLan, (newSession.send newSyncBody).2.serialize)])

/-- A stranger sends a datagram before the reply and another one after it. -/
theorem foreign_no_influence_mixedInbox :
    (performDirectHandshake cameraLib camera (cameraAttempt 1) (cameraClient (mixedInbox []))).1 =
        .error .authNotAcknowledged ∧
      (performDirectHandshake cameraLib camera (cameraAttempt 1) { cameraClient [] with
        inbox := mixedInbox [.ok (⟨0xffffcb007106, 1⟩, [1, 2, 3])] }).1 =
        (performDirectHandshake cameraLib camera (cameraAttempt 1) { cameraClient [] with
          inbox := mixedInbox [] }).1 := by
  have hpurge : purge (localAddr camera (cameraAttempt 1)) (cameraClient []).raddr
      (mixedInbox [.ok (⟨0xffffcb007106, 1⟩, [1, 2, 3])]) =
      purge (localAddr camera (cameraAttempt 1)) (cameraClient []).raddr (mixedInbox []) := rfl
  obtain ⟨hsame, _⟩ := @foreign_no_influence cameraLib _ _ _ _ _ hpurge
  exact ⟨by decide +kernel, hsame⟩

end DahuaP2p.Dh
