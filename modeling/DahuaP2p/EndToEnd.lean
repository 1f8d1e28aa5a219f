import DahuaP2p.RtspLockstep
import DahuaP2p.TunnelDelivery
import DahuaP2p.TunnelUploads

/-! # From the client to the packets and back

A connection of the bridge has a client on one side and a `Conn` of the tunnel on the other one.
`RtspProxy` has its two byte streams as inputs, `Tunnel` the calls of `Read` and `Write`.  Here the
one is put on top of the other: what `handle` reads from the device is what the calls of `Read` on
the `Conn` return, and what it writes to the device is what the calls of `Write` report.

`bridge_end_to_end`: the client gets a prefix of the payloads that the reader of the tunnel has
processed for the realm, the payloads that were transmitted for the realm are a prefix of what the
client has sent, and before the switch to copying they are requests in turn with their responses. -/

namespace DahuaP2p.Bridge

open BigEndian GoStrings Programs Streams Threads
open Tunnel (ConnId ReadError uploadSystem Uploads OneConsumer OneWriter returnedBytes)

/-- What a `Read` of the `Conn` gives to the proxy. -/
def readChunk : Except ReadError Bytes → Chunk
  | .ok data => ⟨data, none⟩
  | .error .eof => ⟨[], some .eof⟩
  | .error .deadlineExceeded => ⟨[], some (.other "i/o timeout")⟩

theorem bytesOf_readChunk (reads : List (Except ReadError Bytes)) :
    bytesOf (reads.map readChunk) = returnedBytes reads := by
  induction reads with
  | nil => rfl
  | cons r rs ih =>
      rw [List.map_cons, bytesOf_cons, ih]
      rcases r with e | data
      · cases e <;> rfl
      · rfl

/-- With one consumer, what was read are payloads that the reader has processed, in their order. -/
theorem returned_processed {w : World Tunnel.Shared Tunnel.Pc} {c : ConnId}
    (h : Tunnel.system.Reach (OneConsumer c) w) :
    returnedBytes (w.shared.hist.reads c) <+: (w.shared.processed c).flatten := by
  obtain ⟨r, _, hst⟩ := Tunnel.stream_conserved h
  have hreturned : returnedBytes (w.shared.hist.reads c) <+:
      (w.shared.hist.enqueued c).flatten := by
    have hbytes := hst.bytes
    simp only [List.append_assoc] at hbytes
    exact ⟨_, hbytes⟩
  obtain ⟨rest, hrest⟩ := (List.prefix_append _ _).trans (Tunnel.delivered h c).ofProcessed
  rw [← hrest, List.flatten_append]
  exact hreturned.trans (List.prefix_append _ _)

/-- **From end to end.**  Let `handle` read what the calls of `Read` on the `Conn` return, and let
the calls of `Write` report what it has written, with none of them in progress.  Then the client has
got the first bytes of the payloads processed for the realm, the payloads transmitted for it are the
first bytes that the client has sent, and before the switch they are whole requests, each with its
whole response, but for one message that may be on its way. -/
theorem bridge_end_to_end {c : ConnId} {w : World Tunnel.Shared Tunnel.Pc} {a : Uploads}
    (h : (uploadSystem c).Reach (fun p l => OneConsumer c p.1 l ∧ OneWriter c p.1 l) (w, a))
    (failures : Failures) (run : Copying) (turns : ℕ) (client device : Channel)
    (hreads : device.chunks = (w.shared.hist.reads c).map readChunk)
    (hwrites : a.reported = (handle failures run turns (Proxy.start client device)).2.up.out)
    (hidle : ∀ t, (w.thr t).writesTo ≠ some c) :
    let s := (handle failures run turns (Proxy.start client device)).2
    s.down.out <+: (w.shared.processed c).flatten ∧ a.wire <+: bytesOf client.chunks ∧
      (s.finished = none → Stage a.wire s.down.out) := by
  intro s
  have hreach : Tunnel.system.Reach (OneConsumer c) w :=
    System.Reach.unlog (h.mono fun p l _ _ hok _ => hok.1)
  have hwire : a.wire = s.up.out := by
    rw [(Tunnel.uploaded (h.mono fun p l _ _ hok _ => hok.2)).free hidle]
    exact hwrites
  have hprefix : s.up.out <+: bytesOf client.chunks ∧ s.down.out <+: bytesOf device.chunks := by
    have hspec := handle_spec (bytesOf client.chunks) (bytesOf device.chunks) run failures turns
    refine Prog.Triple.always ((hspec.weaken fun s hs => hs.2).mono (fun _ hs => hs) ?_)
      ⟨rfl, ⟨rfl, rfl⟩, rfl⟩
    exact fun _ s hs => ⟨hs.1, hs.2.1⟩
  refine ⟨?_, ?_, fun hnone => ?_⟩
  · refine hprefix.2.trans ?_
    rw [hreads, bytesOf_readChunk]
    exact returned_processed hreach
  · rw [hwire]
    exact hprefix.1
  · rw [hwire]
    have htold : Told s := (handle_told failures run turns).always ⟨rfl, rfl, rfl⟩
    unfold Told at htold
    rw [hnone] at htold
    exact htold

/-- Goroutine `t` makes all calls of `Read`, only the first `n` take steps, and their calls of
`Write` do not overlap. -/
def Served (n t : ℕ) (c : ConnId) (w : World Tunnel.Shared Tunnel.Pc)
    (l : Label Tunnel.Choice Tunnel.Time) : Prop :=
  Tunnel.ReadBy c t w l ∧ Tunnel.WritersBelow n c w l

instance (n t : ℕ) (c : ConnId) (w : World Tunnel.Shared Tunnel.Pc)
    (l : Label Tunnel.Choice Tunnel.Time) : Decidable (Served n t c w l) :=
  inferInstanceAs (Decidable (_ ∧ _))

section served
variable {n t : ℕ} {c : ConnId} {p : World Tunnel.Shared Tunnel.Pc × Uploads}

theorem Served.below (h : (uploadSystem c).Reach (fun p => Served n t c p.1) p) :
    Tunnel.system.Reach (Tunnel.WritersBelow n c) p.1 :=
  System.Reach.unlog (h.mono fun _ _ _ _ hok _ => hok.2)

theorem Served.reach (h : (uploadSystem c).Reach (fun p => Served n t c p.1) p) (hn : 2 ≤ n) :
    (uploadSystem c).Reach (fun p l => OneConsumer c p.1 l ∧ OneWriter c p.1 l) p := by
  refine h.mono fun p l q hp hok hstep => ⟨?_, Tunnel.WritersBelow.oneWriter (below hp) hn hok.2⟩
  have hread : Tunnel.system.Reach (Tunnel.ReadBy c t) p.1 :=
    System.Reach.unlog (hp.mono fun _ _ _ _ hok _ => hok.1)
  exact Tunnel.ReadBy.oneConsumer_step hread hok.1 (System.logged_step.mp hstep).1

end served

/-- Goroutine 3 writes `req` to the `Conn`, and goroutine 4 reads `resp` from it. -/
def exchangeScript (req resp : Bytes) : List (Label Tunnel.Choice Tunnel.Time) :=
  Tunnel.grantScript 2 7 ++ Tunnel.acts 3 (.call (.write 0 req) :: Tunnel.gos 2) ++
    Tunnel.chunkScript 3 ++ Tunnel.acts 3 (Tunnel.gos 2) ++
    Tunnel.receiveScript (Ptcp.newPayloadBody 7 resp) 5 ++
    Tunnel.acts 4 [.call (.read 0 4096), .go, .select .data, .go]

/-- One request and its response, on the wire and at the client. -/
theorem bridge_end_to_end_options :
    let options := (shortMessage (ascii "OPTIONS * RTSP/1.0\r")).bytes
    let ok := (shortMessage (ascii "RTSP/1.0 200 OK\r")).bytes
    ∃ w a, (uploadSystem 0).exec (fun p => Served 5 4 0 p.1) (Tunnel.start 1 Ptcp.newSession, {})
        (exchangeScript options ok) = some (w, a) ∧
      ok <+: (w.shared.processed 0).flatten ∧ a.wire <+: options ∧ Stage a.wire ok := by
  intro options ok
  have hrun : ((uploadSystem 0).exec (fun p => Served 5 4 0 p.1)
      (Tunnel.start 1 Ptcp.newSession, {}) (exchangeScript options ok)).map (fun p =>
        (p.1.shared.hist.reads 0, p.2.reported,
          (List.range 5).all fun t => (p.1.thr t).writesTo ≠ some 0)) =
        some ([.ok ok], options, true) := by
    decide +kernel
  obtain ⟨⟨w, a⟩, hw, he⟩ := Option.map_eq_some_iff.mp hrun
  simp only [Prod.mk.injEq, List.all_eq_true, List.mem_range, decide_eq_true_eq] at he
  obtain ⟨hreads, hreported, hlow⟩ := he
  have hreach : (uploadSystem 0).Reach (fun p => Served 5 4 0 p.1) (w, a) :=
    System.Reach.exec (.init ⟨⟨1, Ptcp.newSession, by decide, rfl⟩, rfl⟩) hw
  have hidle : ∀ t, (w.thr t).writesTo ≠ some 0 := by
    intro t
    rcases lt_or_ge t 5 with ht | ht
    · exact hlow t ht
    · rw [Tunnel.idle_of_below (Served.below hreach) (by decide) ht]
      nofun
  obtain ⟨hdown, hup, hstage⟩ := bridge_end_to_end (Served.reach hreach (by decide))
    ⟨false, false, false, false, false⟩ ⟨0, true, 0, true⟩ 1 ⟨[⟨options, none⟩], [], []⟩
    ⟨[⟨ok, none⟩], [], []⟩ (by rw [hreads]; rfl) (by rw [hreported]; decide +kernel) hidle
  have hout : (handle ⟨false, false, false, false, false⟩ ⟨0, true, 0, true⟩ 1
      (Proxy.start ⟨[⟨options, none⟩], [], []⟩ ⟨[⟨ok, none⟩], [], []⟩)).2.down.out = ok := by
    decide +kernel
  rw [hout] at hdown hstage
  exact ⟨w, a, hw, hdown, hup.trans (by simp [bytesOf]), hstage (by decide +kernel)⟩

end DahuaP2p.Bridge
