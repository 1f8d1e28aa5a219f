import DahuaP2p.TunnelProgress

/-! # Isolation of the realms of a tunnel

All realms share one reader goroutine, one table and one session.  The share of a `Conn` is
the part of the memory that its own traffic touches: its queue, its read buffer, its flags, its
entry in `t.realms`, and the record of what was enqueued and read (`Share`).  A goroutine that
is busy with the `Conn` has a `Task`; the reader has one from the moment it looks up the realm
of a payload or a DISC until it is done with it.

What comes in from outside is the datagrams (`inbound`), and of these the packets of the realm
(`packetTask`), which the reader has in hand from the moment it receives them.  A `RealmEvent` of
the `Conn` says who moves: a call of `Read` or `Close`, a deadline, the removal of the entry by a
closer, the next step of a goroutine that has a task, with the branch of its select, and the next
step of the reader with a packet of the realm.  No event says which packet that is or what came of
it: the view has the packets that were received, and `Share.perform` computes the rest from the
share alone.  `realmView_step` proves that events act on the view of a `Conn` in this way and that
no other step touches it, whatever the other realms do: their payloads, their reads, their
overflows and their teardowns.

That the reader gets to the packets of a realm does not depend on the consumers of the others
either: it never waits for somebody who is in a `Read` (`reader_unhindered`). -/

namespace DahuaP2p.Tunnel

open BigEndian Ptcp Threads

/-! ### What belongs to a `Conn` -/

/-- The part of the memory that belongs to a `Conn`. -/
@[ext] structure Share where
  dataCh : List Bytes
  readBuf : Bytes
  closed : Bool
  readDeadline : Time
  /-- `t.realms` has the `Conn` under its realm ID. -/
  listed : Bool
  enqueued : List Bytes
  reads : List (Except ReadError Bytes)
  torn : Option (List Bytes)

def Shared.share (s : Shared) (c : ConnId) : Share where
  dataCh := (s.table.conns c).dataCh
  readBuf := (s.table.conns c).readBuf
  closed := (s.table.conns c).closed
  readDeadline := (s.table.conns c).readDeadline
  listed := decide (s.table.lookup (s.table.conns c).realmID = some c)
  enqueued := s.hist.enqueued c
  reads := s.hist.reads c
  torn := s.hist.torn c

/-- What a goroutine is doing with a `Conn`. -/
inductive Task where
  /-- `Read` into a buffer of `n` bytes, at the lock. -/
  | lock (n : ℕ)
  | drain (n : ℕ)
  /-- At the select, whatever deadline and channel it has read. -/
  | select (n : ℕ)
  | copy (n : ℕ) (data : Bytes)
  /-- `Conn.Close`, before it sets `closed`. -/
  | close
  /-- `signalClosed`, before it sets `closed`. -/
  | flag
  /-- The reader, with a payload for the realm. -/
  | lookup (data : Bytes)
  | enqueue (data : Bytes)
  | overflow
  /-- The reader, with a DISC for the realm. -/
  | disc
deriving DecidableEq

/-- The task of a goroutine for the `Conn` `c` of realm `r`. -/
def Pc.task (r : UInt32) (c : ConnId) : Pc → Option Task
  | .read (.lock d n) => if d = c then some (.lock n) else none
  | .read (.drain d n) => if d = c then some (.drain n) else none
  | .read (.select d n _ _) => if d = c then some (.select n) else none
  | .read (.copy d n data) => if d = c then some (.copy n data) else none
  | .connClose (.enter d) => if d = c then some .close else none
  | .signal .setClosed d _ => if d = c then some .flag else none
  | .reader (.lookup realm data) => if realm = r then some (.lookup data) else none
  | .reader (.enqueue _ d data) => if d = c then some (.enqueue data) else none
  | .reader (.overflow _ d) => if d = c then some .overflow else none
  | .reader (.disc realm) => if realm = r then some .disc else none
  | _ => none

/-! ### What a task does -/

namespace Share

/-- A `Read` returns. -/
def logRead (v : Share) (r : Except ReadError Bytes) : Share :=
  { v with reads := v.reads ++ [r] }

/-- The reader removes the entry of the realm. -/
def tear (v : Share) : Share := { v with listed := false, torn := some v.enqueued }

/-- The next step of a task, with the choice `ch` at the time `now`: the share after it, and
what is left to do. -/
def perform (v : Share) (now : Time) : Task → Choice → Share × Option Task
  | .lock n, _ =>
      if v.readBuf ≠ [] then
        ({ v with readBuf := v.readBuf.drop n }.logRead (.ok (v.readBuf.take n)), none)
      else if v.closed then (v, some (.drain n))
      else if Expired v.readDeadline now then (v.logRead (.error .deadlineExceeded), none)
      else (v, some (.select n))
  | .drain n, _ =>
      match v.dataCh with
      | data :: rest => ({ v with dataCh := rest }, some (.copy n data))
      | [] => (v.logRead (.error .eof), none)
  | .select n, .select .data =>
      match v.dataCh with
      | data :: rest => ({ v with dataCh := rest }, some (.copy n data))
      | [] => (v, some (.select n))
  | .select _, .select .timeout => (v.logRead (.error .deadlineExceeded), none)
  | .select n, _ => (v, some (.lock n))
  | .copy n data, _ =>
      ({ v with readBuf := v.readBuf ++ data.drop n }.logRead (.ok (data.take n)), none)
  | .close, _ => ({ v with closed := true }, some .flag)
  | .flag, _ => ({ v with closed := true }, none)
  | .lookup data, _ => (v, if v.listed then some (.enqueue data) else none)
  | .enqueue data, _ =>
      if v.dataCh.length < dataChCap then
        ({ v with dataCh := v.dataCh ++ [data], enqueued := v.enqueued ++ [data] }, none)
      else (v, some .overflow)
  | .overflow, _ => (v.tear, some .flag)
  | .disc, _ => if v.listed then (v.tear, some .flag) else (v, none)

end Share

/-! ### Packets of the realm -/

/-- The reader is about to look up realm `r`. -/
def Pc.packet (r : UInt32) : Pc → Option Task
  | .reader (.lookup realm data) => if realm = r then some (.lookup data) else none
  | .reader (.disc realm) => if realm = r then some .disc else none
  | _ => none

/-- What a datagram brings for realm `r`. -/
def packetTask (r : UInt32) (d : Bytes) : Option Task :=
  match parsePacket d with
  | .ok q => (dispatch q.body).packet r
  | .error _ => none

/-- The packet of realm `r` that the reader has received and not looked up yet. -/
def Pc.inHand (r : UInt32) : Pc → Option Task
  | .reader (.parse d) => packetTask r d
  | .reader (.count q) => (dispatch q.body).packet r
  | pc => pc.packet r

/-- The task of a goroutine, without the packet that the reader has in hand. -/
def Pc.busy (r : UInt32) (c : ConnId) (pc : Pc) : Option Task :=
  if pc.packet r = none then pc.task r c else none

/-- The datagram that a step takes from the socket. -/
def inbound : Label Choice Time → Option Bytes
  | .thread _ (.recv (.data d)) => some d
  | _ => none

/-! ### Events -/

/-- What happens to the realm, and who moves. -/
inductive RealmEvent where
  /-- Goroutine `t` takes up a task: a call of `Read` or `Close`, a signal of `Tunnel.Close`. -/
  | takeUp (t : ℕ) (a : Task)
  /-- Goroutine `t` goes on with its task. -/
  | step (t : ℕ) (now : Time) (ch : Choice)
  /-- The reader goes on with its packet of the realm, or begins with the next one. -/
  | reader
  | setReadDeadline (d : Time)
  /-- A closer removes the entry of the realm. -/
  | unlist
deriving DecidableEq

/-- The share of a `Conn`, the tasks it gives to the goroutines, and the packets of its realm that
wait for the reader. -/
@[ext] structure RealmView where
  share : Share
  tasks : ℕ → Option Task
  hand : List Task

def realmView (c : ConnId) (w : World Shared Pc) : RealmView where
  share := w.shared.share c
  tasks t := (w.thr t).busy (w.shared.table.conns c).realmID c
  hand := ((w.thr 0).inHand (w.shared.table.conns c).realmID).toList

/-- More packets wait for the reader. -/
def RealmView.feed (v : RealmView) (more : List Task) : RealmView :=
  { v with hand := v.hand ++ more }

/-- Goroutine `t` makes the next step of a task. -/
def RealmView.perform (v : RealmView) (t : ℕ) (now : Time) (a : Task) (ch : Choice) : RealmView :=
  { v with
    share := (v.share.perform now a ch).1
    tasks := Function.update v.tasks t (v.share.perform now a ch).2 }

/-- What an event does to a view. -/
def RealmView.apply (v : RealmView) : RealmEvent → RealmView
  | .takeUp t a => { v with tasks := Function.update v.tasks t (some a) }
  | .step t now ch =>
      match v.tasks t with
      | some a => v.perform t now a ch
      | none => v
  | .reader =>
      match v.tasks 0, v.hand with
      | some a, _ => v.perform 0 0 a .go
      | none, a :: rest => { v.perform 0 0 a .go with hand := rest }
      | none, [] => v
  | .setReadDeadline d => { v with share.readDeadline := d }
  | .unlist => { v with share.listed := false }

/-- The action removes the entry of realm `r` without a task of its `Conn`: the end of
`Conn.Close`, the cleanup of a failed BIND attempt, `Tunnel.Close`, the overflow of another
`Conn` with this realm ID. -/
def Pc.unlists (s : Shared) (r : UInt32) : Pc → Bool
  | .close .swap _ => true
  | .dial (.dropRealm _ _ id _ _) => id = r
  | .connClose (.remove d) => (s.table.conns d).realmID = r
  | .reader (.overflow realm _) => realm = r
  | _ => false

/-- The action is a call that sets the read deadline of `c`. -/
def Pc.setsReadDeadline (c : ConnId) : Pc → Choice → Option Time
  | .idle, .call (.setReadDeadline d t) => if d = c then some t else none
  | .idle, .call (.setDeadline d t) => if d = c then some t else none
  | _, _ => none

/-- The event of a step, if it is one for `c`. -/
def realmEvent (c : ConnId) (w : World Shared Pc) (l : Label Choice Time) (w' : World Shared Pc) :
    Option RealmEvent :=
  let r := (w.shared.table.conns c).realmID
  match l with
  | .env _ => none
  | .thread t ch =>
      match (w.thr t).task r c with
      | some _ => if (w.thr t).ofReader then some .reader else some (.step t w.shared.now ch)
      | none =>
          if (w.thr t).unlists w.shared r then some .unlist
          else match (w.thr t).setsReadDeadline c ch with
            | some d => some (.setReadDeadline d)
            | none => ((w'.thr t).busy r c).map (.takeUp t)

/-! ### Steps with a task -/

section tasks
variable {s s' : Shared} {pc pc' : Pc} {ch : Choice} {c : ConnId} {r : UInt32} {a : Task}

theorem Table.setConn_lookup (tb : Table) (c : ConnId) (cn : Conn) (id : UInt32) :
    (tb.setConn c cn).lookup id = tb.lookup id := rfl

attribute [local simp] Pc.task Shared.share Share.logRead History.logRead Share.perform
  Table.setConn_lookup

/-- `Read` with the lock. -/
theorem readLock_share {n : ℕ} (h : stepRead s (.lock c n) ch = some (s', pc')) :
    (s'.share c, pc'.task r c) = (s.share c).perform s.now (.lock n) ch := by
  cases ch with
  | go =>
      simp only [stepRead] at h
      -- The same tests in the same order on both sides.
      by_cases hbuf : (s.table.conns c).readBuf ≠ []
      · rw [if_pos hbuf] at h
        cases h
        simp [hbuf]
      · rw [if_neg hbuf] at h
        rw [not_not] at hbuf
        by_cases hcl : (s.table.conns c).closed = true
        · rw [if_pos hcl] at h
          cases h
          simp [hbuf, hcl]
        · rw [if_neg hcl] at h
          by_cases hexp : Expired (s.table.conns c).readDeadline s.now
          · rw [if_pos hexp] at h
            cases h
            simp [hbuf, hcl, hexp]
          · rw [if_neg hexp] at h
            cases h
            simp [hbuf, hcl, hexp]
  | _ => cases h

/-- `Read` takes what is left in the channel of a closed `Conn`. -/
theorem readDrain_share {n : ℕ} (h : stepRead s (.drain c n) ch = some (s', pc')) :
    (s'.share c, pc'.task r c) = (s.share c).perform s.now (.drain n) ch := by
  cases ch with
  | go =>
      simp only [stepRead] at h
      cases hq : (s.table.conns c).dataCh with
      | nil =>
          simp only [hq] at h
          cases h
          simp [hq]
      | cons data rest =>
          simp only [hq] at h
          cases h
          simp [hq]
  | _ => cases h

/-- The cases of the `select` of `Read`. -/
theorem readSelect_share {n : ℕ} {deadline : Time} {changed : ChanId}
    (h : stepRead s (.select c n deadline changed) ch = some (s', pc')) :
    (s'.share c, pc'.task r c) = (s.share c).perform s.now (.select n) ch := by
  cases ch with
  | select b =>
      cases b with
      | data =>
          simp only [stepRead] at h
          cases hq : (s.table.conns c).dataCh with
          | nil => simp [hq] at h
          | cons data rest =>
              simp only [hq] at h
              cases h
              simp [hq]
      | closeCh | deadlineChanged =>
          simp only [stepRead, Option.ite_none_right_eq_some] at h
          obtain ⟨_, h⟩ := h
          cases h
          simp
      | timeout =>
          simp only [stepRead, Option.ite_none_right_eq_some] at h
          obtain ⟨_, h⟩ := h
          cases h
          simp
      | _ => cases h
  | _ => cases h

/-- The steps of `Read`. -/
theorem stepRead_share {p : ReadPc} (h : stepRead s p ch = some (s', pc'))
    (ha : (Pc.read p).task r c = some a) :
    (s'.share c, pc'.task r c) = (s.share c).perform s.now a ch := by
  cases p with
  | lock d n =>
      obtain ⟨rfl, rfl⟩ : d = c ∧ Task.lock n = a := by simpa using ha
      exact readLock_share h
  | drain d n =>
      obtain ⟨rfl, rfl⟩ : d = c ∧ Task.drain n = a := by simpa using ha
      exact readDrain_share h
  | select d n deadline changed =>
      obtain ⟨rfl, rfl⟩ : d = c ∧ Task.select n = a := by simpa using ha
      exact readSelect_share h
  | copy d n data =>
      obtain ⟨rfl, rfl⟩ : d = c ∧ Task.copy n data = a := by simpa using ha
      cases ch with
      | go =>
          cases h
          simp
      | _ => cases h

/-- The steps of the reader with a packet of the realm. -/
theorem Acts.reader_share {p : ReaderPc} (h : Acts s (.reader p) s' pc')
    (hp : (Pc.reader p).Scoped s)
    (ha : (Pc.reader p).task (s.table.conns c).realmID c = some a) :
    (s'.share c, pc'.task (s.table.conns c).realmID c) = (s.share c).perform s.now a ch := by
  cases p with
  | lookup realm data =>
      simp only [Pc.task, Option.ite_none_right_eq_some, Option.some.injEq] at ha
      obtain ⟨rfl, rfl⟩ := ha
      rcases h with ⟨_, h⟩ | h
      · cases h
      · cases h with
        | readerLookupUnknown _ _ hl => simp [hl]
        | readerLookup _ _ d hl =>
            by_cases hd : d = c <;> simp [hl, hd]
  | enqueue realm d data =>
      simp only [Pc.task, Option.ite_none_right_eq_some, Option.some.injEq] at ha
      obtain ⟨rfl, rfl⟩ := ha
      rcases h with ⟨rfl, h⟩ | h
      · cases h with
        | readerFull _ _ _ hfull => simp [hfull.not_gt]
      · cases h with
        | readerEnqueue _ _ _ hlt =>
            simp [hlt]
  | overflow realm d =>
      simp only [Pc.task, Option.ite_none_right_eq_some, Option.some.injEq] at ha
      obtain ⟨rfl, rfl⟩ := ha
      rcases h with ⟨_, h⟩ | h
      · cases h
      · cases h with
        | readerOverflow =>
            have hr : (s.table.conns d).realmID = realm := hp.2
            have hconns : (s.table.delete realm).conns = s.table.conns := rfl
            simp [Share.tear, Table.delete_lookup, hconns, hr]
  | disc realm =>
      simp only [Pc.task, Option.ite_none_right_eq_some, Option.some.injEq] at ha
      obtain ⟨rfl, rfl⟩ := ha
      rcases h with ⟨_, h⟩ | h
      · cases h
      · cases h with
        | readerDiscUnknown _ hl => simp [hl]
        | readerDisc _ d hl =>
            have hconns : ∀ realm, (s.table.delete realm).conns = s.table.conns := fun _ => rfl
            by_cases hd : d = c
            · subst hd
              simp [Share.tear, Table.delete_lookup, hconns, hl]
            · simp [Table.delete_lookup, hconns, hl, hd, Function.update_of_ne (Ne.symm hd)]
  | _ => cases ha

/-- `signalClosed` sets `closed`. -/
theorem Acts.signal_share {p : SignalPc} {d : ConnId} {k : SignalCall}
    (h : Acts s (.signal p d k) s' pc') (ha : (Pc.signal p d k).task r c = some a) :
    (s'.share c, pc'.task r c) = (s.share c).perform s.now a ch := by
  cases p with
  | setClosed =>
      simp only [Pc.task, Option.ite_none_right_eq_some, Option.some.injEq] at ha
      obtain ⟨rfl, rfl⟩ := ha
      rcases h with ⟨_, h⟩ | h
      · cases h
      · cases h with
        | signalSetClosed => simp
  | _ => cases ha

/-- `Conn.Close` sets `closed`. -/
theorem Acts.connClose_share {p : ConnClosePc} (h : Acts s (.connClose p) s' pc')
    (ha : (Pc.connClose p).task r c = some a) :
    (s'.share c, pc'.task r c) = (s.share c).perform s.now a ch := by
  cases p with
  | enter d =>
      simp only [Pc.task, Option.ite_none_right_eq_some, Option.some.injEq] at ha
      obtain ⟨rfl, rfl⟩ := ha
      rcases h with ⟨_, h⟩ | h
      · cases h
      · cases h with
        | connCloseEnter => simp
  | _ => cases ha

/-- **What comes of a task depends on the share alone.** -/
theorem next_share (h : next s pc ch = some (s', pc')) (hp : pc.Scoped s)
    (ha : pc.task (s.table.conns c).realmID c = some a) :
    (s'.share c, pc'.task (s.table.conns c).realmID c) = (s.share c).perform s.now a ch := by
  have hacts := next_cases h
  cases pc with
  | read p => exact stepRead_share h ha
  | reader p => exact hacts.reader_share hp ha
  | signal p d k => exact hacts.signal_share ha
  | connClose p => exact hacts.connClose_share ha
  | _ => cases ha

end tasks

/-! ### Steps without a task -/

section frames
variable {s s' : Shared} {pc pc' : Pc} {ch : Choice} {c d : ConnId} {r : UInt32}

/-- The fields of a `Conn` that belong to its share. -/
def Conn.core (cn : Conn) : UInt32 × List Bytes × Bytes × Bool × Time :=
  (cn.realmID, cn.dataCh, cn.readBuf, cn.closed, cn.readDeadline)

/-- The share after a step that leaves the records of the `Conn` alone. -/
theorem Shared.share_congr (hcore : (s'.table.conns c).core = (s.table.conns c).core)
    (hl : s'.table.lookup (s.table.conns c).realmID = some c ↔
      s.table.lookup (s.table.conns c).realmID = some c)
    (he : s'.hist.enqueued c = s.hist.enqueued c) (hr : s'.hist.reads c = s.hist.reads c)
    (ht : s'.hist.torn c = s.hist.torn c) : s'.share c = s.share c := by
  simp only [Conn.core, Prod.mk.injEq] at hcore
  obtain ⟨hid, hq, hb, hcl, hd⟩ := hcore
  simp only [Shared.share, hid, hq, hb, hcl, hd, he, hr, ht, hl]

theorem Table.setConn_core_of_ne (tb : Table) (hd : d ≠ c) (cn : Conn) :
    ((tb.setConn d cn).conns c).core = (tb.conns c).core := by
  rw [Table.setConn_conns_of_ne _ _ _ _ hd.symm]

/-- Another realm than that of the `Conn` loses its entry. -/
theorem Table.delete_lookup_iff (tb : Table) (h : (tb.conns c).realmID ≠ r) :
    (tb.delete r).lookup (tb.conns c).realmID = some c ↔
      tb.lookup (tb.conns c).realmID = some c := by
  rw [Table.delete_lookup, if_neg h]

/-- **Nothing else touches the share.** -/
theorem Acts.share_frame (h : Acts s pc s' pc') (hs : s.Scoped)
    (hdrawn : Attempting s.ledger pc) (hc : c < s.table.connCount) (hidle : pc ≠ .idle)
    (ha : pc.task (s.table.conns c).realmID c = none)
    (hun : pc.unlists s (s.table.conns c).realmID = false) : s'.share c = s.share c := by
  rcases h with ⟨rfl, _⟩ | h
  · rfl
  · cases h with
    | retire | setOnCloseLate | setOnClose | setDeadline | setReadDeadline | setWriteDeadline
    | flushFires => exact absurd rfl hidle
    | signalSetClosed d | connCloseEnter d | readDrained d | readData d =>
        have hd : d ≠ c := by simpa [Pc.task] using ha
        exact Shared.share_congr (s.table.setConn_core_of_ne hd _) Iff.rfl rfl rfl rfl
    | readBuffered d | readCopy d =>
        have hd : d ≠ c := by simpa [Pc.task] using ha
        exact Shared.share_congr (s.table.setConn_core_of_ne hd _) Iff.rfl rfl
          (Function.update_of_ne hd.symm _ _) rfl
    | readExpired d | readEof d | readTimeout d =>
        have hd : d ≠ c := by simpa [Pc.task] using ha
        exact Shared.share_congr rfl Iff.rfl rfl (Function.update_of_ne hd.symm _ _) rfl
    | signalCloseCh | readerConn | dialGranted =>
        exact Shared.share_congr (s.table.setConn_field _ _ _ Conn.core rfl) Iff.rfl rfl rfl rfl
    | closeSwap => cases hun
    | readerDisc id d hl =>
        have hid : id ≠ (s.table.conns c).realmID := by simpa [Pc.task] using ha
        have hd : d ≠ c := by
          rintro rfl
          exact hid (hs.realms _ _ hl).2.symm
        exact Shared.share_congr rfl (s.table.delete_lookup_iff hid.symm) rfl rfl
          (Function.update_of_ne hd.symm _ _)
    | readerEnqueue realm d =>
        have hd : d ≠ c := by simpa [Pc.task] using ha
        exact Shared.share_congr (s.table.setConn_core_of_ne hd _) Iff.rfl
          (Function.update_of_ne hd.symm _ _) rfl rfl
    | readerOverflow realm d =>
        have hd : d ≠ c := by simpa [Pc.task] using ha
        have hid : realm ≠ (s.table.conns c).realmID := by simpa [Pc.unlists] using hun
        exact Shared.share_congr rfl (s.table.delete_lookup_iff hid.symm) rfl rfl
          (Function.update_of_ne hd.symm _ _)
    | dialInstall port a id m hm =>
        -- The drawn ID is free, and the new `Conn` is another one.
        have hfree : s.table.lookup id = none := hdrawn.drawn id rfl
        have hconn := Table.install_conns_of_lt s.table m id port hc
        refine Shared.share_congr (congrArg Conn.core hconn) ?_ rfl rfl rfl
        rw [Table.install_lookup _ _ _ _ hm]
        split
        · rename_i hid
          rw [hid, hfree]
          simp [hc.ne']
        · exact Iff.rfl
    | dialDropRealm port a id d why =>
        have hid : id ≠ (s.table.conns c).realmID := by simpa [Pc.unlists] using hun
        exact Shared.share_congr rfl (s.table.delete_lookup_iff hid.symm) rfl rfl rfl
    | connCloseRemove d =>
        have hid : (s.table.conns d).realmID ≠ (s.table.conns c).realmID := by
          simpa [Pc.unlists] using hun
        exact Shared.share_congr rfl (s.table.delete_lookup_iff hid.symm) rfl rfl rfl
    | _ => rfl

/-- The realm loses its entry, and the records of the `Conn` stay. -/
theorem Shared.share_unlisted (hcore : (s'.table.conns c).core = (s.table.conns c).core)
    (hl : s'.table.lookup (s.table.conns c).realmID = none)
    (he : s'.hist.enqueued c = s.hist.enqueued c) (hr : s'.hist.reads c = s.hist.reads c)
    (ht : s'.hist.torn c = s.hist.torn c) :
    s'.share c = { s.share c with listed := false } := by
  simp only [Conn.core, Prod.mk.injEq] at hcore
  obtain ⟨hid, hq, hb, hcl, hd⟩ := hcore
  simp [Shared.share, hid, hq, hb, hcl, hd, he, hr, ht, hl]

/-- A closer removes the entry, and nothing else happens to the share. -/
theorem Acts.share_unlists (h : Acts s pc s' pc')
    (ha : pc.task (s.table.conns c).realmID c = none)
    (hun : pc.unlists s (s.table.conns c).realmID = true) :
    s'.share c = { s.share c with listed := false } ∧
      pc'.task (s.table.conns c).realmID c = none := by
  have hdel : ∀ id, id = (s.table.conns c).realmID →
      (s.table.delete id).lookup (s.table.conns c).realmID = none := by
    intro id hid
    rw [Table.delete_lookup, if_pos hid.symm]
  rcases h with ⟨rfl, h⟩ | h
  · cases h <;> cases hun
  · cases h with
    | closeSwap => exact ⟨Shared.share_unlisted rfl rfl rfl rfl rfl, rfl⟩
    | readerOverflow realm d =>
        have hd : d ≠ c := by simpa [Pc.task] using ha
        have hid : realm = (s.table.conns c).realmID := by simpa [Pc.unlists] using hun
        exact ⟨Shared.share_unlisted rfl (hdel _ hid) rfl rfl (Function.update_of_ne hd.symm _ _),
          if_neg hd⟩
    | dialDropRealm port a id d why =>
        have hid : id = (s.table.conns c).realmID := by simpa [Pc.unlists] using hun
        exact ⟨Shared.share_unlisted rfl (hdel _ hid) rfl rfl rfl, rfl⟩
    | connCloseRemove d =>
        have hid : (s.table.conns d).realmID = (s.table.conns c).realmID := by
          simpa [Pc.unlists] using hun
        exact ⟨Shared.share_unlisted rfl (hdel _ hid) rfl rfl rfl, rfl⟩
    | _ => cases hun

/-- Setting the write deadline is nothing to the share. -/
theorem Shared.share_setWriteDeadline (s : Shared) (d : ConnId) (t : Time) :
    (s.setWriteDeadline d t).share c = s.share c :=
  Shared.share_congr (s.setWriteDeadline_field d c t Conn.core fun _ _ _ => rfl) Iff.rfl rfl rfl rfl

theorem Shared.share_setReadDeadline (s : Shared) (d : ConnId) (t : Time) :
    (s.setReadDeadline d t).share c =
      if d = c then { s.share c with readDeadline := t } else s.share c := by
  by_cases hd : d = c
  · subst hd
    have hconn : (s.setReadDeadline d t).table.conns d =
        { s.table.conns d with readDeadline := t, readDeadlineChanged := s.table.chanCount } := by
      simp [Shared.setReadDeadline, Table.notifyReadDeadline, Table.setConn]
    have hl : (s.setReadDeadline d t).table.lookup = s.table.lookup := rfl
    have hh : (s.setReadDeadline d t).hist = s.hist := rfl
    rw [if_pos rfl]
    simp only [Shared.share, hconn, hl, hh]
  · rw [if_neg hd]
    exact Shared.share_congr (congrArg Conn.core (s.setReadDeadline_conns_of_ne d c t (Ne.symm hd)))
      Iff.rfl rfl rfl rfl

/-- Of the calls, only those that set the read deadline touch the share. -/
theorem next_idle_share (h : next s .idle ch = some (s', pc')) :
    match Pc.idle.setsReadDeadline c ch with
    | some t => s'.share c = { s.share c with readDeadline := t } ∧ pc'.task r c = none
    | none => s'.share c = s.share c := by
  cases ch with
  | call k =>
      simp only [next] at h
      cases k with
      | setDeadline d t =>
          simp only [stepCall, Option.ite_none_right_eq_some, Option.some.injEq,
            Prod.mk.injEq] at h
          obtain ⟨_, rfl, rfl⟩ := h
          by_cases hd : d = c
          · simp [Pc.setsReadDeadline, hd, Shared.share_setWriteDeadline,
              Shared.share_setReadDeadline, Pc.task]
          · simp [Pc.setsReadDeadline, hd, Shared.share_setWriteDeadline,
              Shared.share_setReadDeadline]
      | setReadDeadline d t =>
          simp only [stepCall, Option.ite_none_right_eq_some, Option.some.injEq,
            Prod.mk.injEq] at h
          obtain ⟨_, rfl, rfl⟩ := h
          by_cases hd : d = c
          · simp [Pc.setsReadDeadline, hd, Shared.share_setReadDeadline, Pc.task]
          · simp [Pc.setsReadDeadline, hd, Shared.share_setReadDeadline]
      | setWriteDeadline d t =>
          simp only [stepCall, Option.ite_none_right_eq_some, Option.some.injEq,
            Prod.mk.injEq] at h
          obtain ⟨_, rfl, rfl⟩ := h
          exact Shared.share_setWriteDeadline _ _ _
      | connClose | write | read | flushACK =>
          simp only [stepCall, Option.ite_none_right_eq_some, Option.some.injEq,
            Prod.mk.injEq] at h
          obtain ⟨_, rfl, rfl⟩ := h
          rfl
      | retire =>
          simp only [stepCall, Option.ite_none_left_eq_some, Option.some.injEq,
            Prod.mk.injEq] at h
          obtain ⟨_, rfl, rfl⟩ := h
          rfl
      | setOnClose =>
          simp only [stepCall, Option.ite_none_left_eq_some] at h
          obtain ⟨_, h⟩ := h
          split at h <;> (cases h; rfl)
      | close | dial =>
          cases h
          rfl
  | _ => cases h

/-- A step without a task removes the entry, sets the read deadline, or leaves the share
alone. -/
theorem next_share_foreign (h : next s pc ch = some (s', pc')) (hs : s.Scoped)
    (hdrawn : Attempting s.ledger pc) (hc : c < s.table.connCount)
    (ha : pc.task (s.table.conns c).realmID c = none) :
    (pc.unlists s (s.table.conns c).realmID = true ∧
      s'.share c = { s.share c with listed := false } ∧
      pc'.task (s.table.conns c).realmID c = none) ∨
    (pc.unlists s (s.table.conns c).realmID = false ∧ ∃ d, pc.setsReadDeadline c ch = some d ∧
      s'.share c = { s.share c with readDeadline := d } ∧
      pc'.task (s.table.conns c).realmID c = none) ∨
    (pc.unlists s (s.table.conns c).realmID = false ∧ pc.setsReadDeadline c ch = none ∧
      s'.share c = s.share c) := by
  cases hun : pc.unlists s (s.table.conns c).realmID with
  | true => exact Or.inl ⟨rfl, (next_cases h).share_unlists ha hun⟩
  | false =>
      refine Or.inr ?_
      by_cases hidle : pc = .idle
      · subst hidle
        have hcall := next_idle_share (c := c) (r := (s.table.conns c).realmID) h
        cases hset : Pc.idle.setsReadDeadline c ch with
        | some d =>
            rw [hset] at hcall
            exact Or.inl ⟨rfl, d, rfl, hcall⟩
        | none =>
            rw [hset] at hcall
            exact Or.inr ⟨rfl, rfl, hcall⟩
      · have hset : pc.setsReadDeadline c ch = none := by
          unfold Pc.setsReadDeadline
          split
          · exact absurd rfl hidle
          · exact absurd rfl hidle
          · rfl
        exact Or.inr ⟨rfl, hset, (next_cases h).share_frame hs hdrawn hc hidle ha hun⟩

end frames

/-! ### What the reader has in hand -/

section hand
variable {s s' : Shared} {pc pc' : Pc} {ch : Choice} {c : ConnId} {r : UInt32} {a : Task}

theorem Pc.task_of_packet (h : pc.packet r = some a) : pc.task r c = some a := by
  unfold Pc.packet at h
  split at h
  · exact h
  · exact h
  · cases h

theorem Pc.inHand_of_packet (h : pc.packet r = some a) : pc.inHand r = some a := by
  unfold Pc.packet at h
  split at h
  · exact h
  · exact h
  · cases h

theorem Pc.ofReader_of_packet (h : pc.packet r = some a) : pc.ofReader = true := by
  unfold Pc.packet at h
  split at h
  · rfl
  · rfl
  · cases h

theorem Pc.busy_of_packet (h : pc.packet r = none) : pc.busy r c = pc.task r c := if_pos h

/-- What the reader does with a packet does not depend on the time. -/
theorem perform_ofReader (v : Share) (now : Time) (hr : pc.ofReader = true)
    (ha : pc.task r c = some a) : v.perform now a ch = v.perform 0 a .go := by
  unfold Pc.task at ha
  split at ha <;> first
    | cases ha
    | (obtain ⟨_, ha⟩ := Option.ite_none_right_eq_some.mp ha
       cases ha
       first | rfl | cases hr)

theorem SendCall.ret_inHand (k : SendCall) (e : Option SendError) : (k.ret e).inHand r = none := by
  cases k <;> cases e <;> simp only [SendCall.ret] <;> (try split) <;> rfl

theorem SendCall.written_inHand (k : SendCall) (e : Option SendError) :
    (k.written e).inHand r = none := by
  rcases k.written_cases e with ⟨_, _, h⟩ | ⟨_, h⟩ <;> rw [h] <;> rfl

theorem SignalCall.ret_inHand (j : SignalCall) (c : ConnId) : (j.ret c).inHand r = none := by
  rcases j with _ | _ | _ | _ | _ <;> rfl

theorem CloseCall.ret_inHand (k : CloseCall) : k.ret.inHand r = none := by
  cases k <;> rfl

/-- Only the reader receives. -/
theorem next_recv {x : RecvResult} (h : next s pc (.recv x) = some (s', pc')) :
    pc = .reader .recv := by
  cases pc with
  | reader p =>
      cases p with
      | recv => rfl
      | _ => cases h
  | send p k =>
      cases hk : k.writer <;> cases p <;>
        simp [next, stepSend, hk, stepAcquire, stepWriter] at h
  | close p =>
      cases p with
      | signal todo => cases todo <;> cases h
      | disc ids => cases ids <;> cases h
      | _ => cases h
  | write p =>
      cases p with
      | loop _ _ data => cases data <;> cases h
      | _ => cases h
  | idle => cases h
  | signal p | heartbeat p | flush p | dial p | connClose p | read p | deadline p =>
      cases p <;> cases h

theorem dispatch_inHand (b : Body) : (dispatch b).inHand r = (dispatch b).packet r := by
  have hb := dispatch_background b
  generalize dispatch b = p at hb
  cases hb <;> rfl

/-- The packet in hand stays there until the reader looks up its realm. -/
theorem Acts.inHand (h : Acts s pc s' pc') (hpc : pc ≠ .reader .recv) :
    pc'.inHand r = if pc.packet r = none then pc.inHand r else none := by
  rcases h with ⟨rfl, h⟩ | h
  · cases h with
    | sendCheckClosed k | sendCheckExpired k | sendSelectClosed k | sendSelectDone k
    | sendSelectTimeout k => exact k.ret_inHand _
    | closeAgain k => exact k.ret_inHand
    | readerTimeout | readerError => exact absurd rfl hpc
    | readerParseError d e he => simp [Pc.inHand, Pc.packet, packetTask, he]
    | _ => rfl
  · cases h with
    | sendGiveBack k | sendRelease k => exact k.ret_inHand _
    | sendWriteOk k | sendWriteFail k | sendBlockedOk k | sendBlockedFail k =>
        exact k.written_inHand _
    | signalInterrupt c k => exact k.ret_inHand c
    | closeCallback k => exact k.ret_inHand
    | readerData => exact absurd rfl hpc
    | readerParse d q hq => simp [Pc.inHand, Pc.packet, packetTask, hq]
    | readerCount q => exact dispatch_inHand q.body
    | readerDiscUnknown realm | readerDisc realm | readerLookup realm
    | readerLookupUnknown realm => simp [Pc.inHand, Pc.packet]
    | _ => rfl

/-- From a task the reader does not go to the next packet directly. -/
theorem Acts.busy_of_task (h : Acts s pc s' pc') (ha : pc.task r c = some a) :
    pc'.busy r c = pc'.task r c := by
  have hrecv : pc ≠ .reader .recv := by
    rintro rfl
    cases ha
  refine Pc.busy_of_packet ?_
  have hhand : pc'.inHand r = none := by
    rw [h.inHand hrecv]
    split
    · rename_i hp
      unfold Pc.inHand
      split
      · cases ha
      · cases ha
      · exact hp
    · rfl
  by_contra hp
  obtain ⟨b, hb⟩ := Option.ne_none_iff_exists'.mp hp
  rw [Pc.inHand_of_packet hb] at hhand
  cases hhand

/-- The packets in hand after a step of the reader: the one that it has begun with is gone, and
the one that it has received is there. -/
theorem next_inHand (h : next s pc ch = some (s', pc')) (t : ℕ) :
    (pc'.inHand r).toList =
      (if pc.packet r = none then (pc.inHand r).toList else []) ++
        ((inbound (.thread t ch)).bind (packetTask r)).toList := by
  by_cases hpc : pc = .reader .recv
  · subst hpc
    cases ch with
    | recv x =>
        cases x with
        | data d =>
            unfold next stepReader at h
            simp only [Option.ite_none_left_eq_some] at h
            obtain ⟨_, h⟩ := h
            cases h
            rfl
        | timeout | error =>
            cases h
            rfl
    | _ => cases h
  · have hquiet : inbound (.thread t ch) = none := by
      unfold inbound
      split
      · rename_i hl
        cases hl
        exact absurd (next_recv h) hpc
      · rfl
    rw [(next_cases h).inHand hpc, hquiet]
    by_cases hp : pc.packet r = none <;> simp [hp]

end hand

/-! ### Runs -/

section runs
variable {w w' : World Shared Pc} {c : ConnId}

/-- The packets in hand after a step of any goroutine. -/
theorem hand_step (hr : system.Reachable w) {t : ℕ} {ch : Choice} {s : Shared} {pc : Pc}
    (h : next w.shared (w.thr t) ch = some (s, pc)) (r : UInt32) :
    ((Function.update w.thr t pc 0).inHand r).toList =
      (if (w.thr t).packet r = none then ((w.thr 0).inHand r).toList else []) ++
        ((inbound (.thread t ch)).bind (packetTask r)).toList := by
  by_cases ht : t = 0
  · subst ht
    rw [Function.update_self]
    exact next_inHand h 0
  · -- nobody but goroutine 0 receives or looks up
    have hnone : (w.thr t).packet r = none := by
      by_contra hp
      obtain ⟨a, ha⟩ := Option.ne_none_iff_exists'.mp hp
      exact ht (reader_unique hr (Pc.ofReader_of_packet ha))
    have hquiet : inbound (.thread t ch) = none := by
      unfold inbound
      split
      · rename_i hl
        cases hl
        exact absurd (reader_unique hr (by rw [next_recv h]; rfl)) ht
      · rfl
    rw [Function.update_of_ne (Ne.symm ht), hnone, hquiet]
    simp

/-- The view after goroutine `t` moved. -/
theorem realmView_update {s : Shared}
    (hid : (s.table.conns c).realmID = (w.shared.table.conns c).realmID) (t : ℕ) (pc : Pc) :
    realmView c ⟨s, Function.update w.thr t pc⟩ =
      { share := s.share c
        tasks := Function.update (realmView c w).tasks t
          (pc.busy (w.shared.table.conns c).realmID c)
        hand := ((Function.update w.thr t pc 0).inHand
          (w.shared.table.conns c).realmID).toList } := by
  simp only [realmView, hid]
  exact congrArg (RealmView.mk _ · _)
    (Function.comp_update (Pc.busy (w.shared.table.conns c).realmID c) w.thr t pc)

/-- A goroutine with a task, or the reader with a packet in hand, makes its next step. -/
theorem realmView_task (hr : system.Reachable w) {t : ℕ} {ch : Choice} {s : Shared} {pc : Pc}
    {a : Task} (hn : next w.shared (w.thr t) ch = some (s, pc))
    (ha : (w.thr t).task (w.shared.table.conns c).realmID c = some a) (arrived : List Task) :
    RealmView.mk (s.share c)
      (Function.update (realmView c w).tasks t (pc.busy (w.shared.table.conns c).realmID c))
      ((if (w.thr t).packet (w.shared.table.conns c).realmID = none
        then ((w.thr 0).inHand (w.shared.table.conns c).realmID).toList else []) ++ arrived) =
    ((realmView c w).feed arrived).apply
      (if (w.thr t).ofReader then .reader else .step t w.shared.now ch) := by
  have hperform : (s.share c, pc.busy (w.shared.table.conns c).realmID c) =
      (realmView c w).share.perform w.shared.now a ch := by
    rw [(next_cases hn).busy_of_task ha]
    exact next_share hn ((scope hr).thr t) ha
  cases hp : (w.thr t).packet (w.shared.table.conns c).realmID with
  | some b =>
      -- the reader begins with the packet it has in hand
      have hreader := Pc.ofReader_of_packet hp
      obtain rfl := reader_unique hr hreader
      obtain rfl : a = b := Option.some.inj (ha.symm.trans (Pc.task_of_packet hp))
      have htask : (realmView c w).tasks 0 = none := if_neg (by simp [hp])
      have hin : (realmView c w).hand = [a] := by
        simp [realmView, Pc.inHand_of_packet hp]
      rw [perform_ofReader _ _ hreader ha] at hperform
      simp only [hreader, if_true, RealmView.apply, RealmView.feed, htask, hin,
        List.singleton_append, RealmView.perform, ← hperform]
      rfl
  | none =>
      have htask : (realmView c w).tasks t = some a := (Pc.busy_of_packet hp).trans ha
      cases hreader : (w.thr t).ofReader with
      | true =>
          obtain rfl := reader_unique hr hreader
          rw [perform_ofReader _ _ hreader ha] at hperform
          simp only [if_true, RealmView.apply, RealmView.feed, htask, RealmView.perform,
            ← hperform]
          rfl
      | false =>
          simp only [Bool.false_eq_true, if_false, RealmView.apply, RealmView.feed, htask,
            RealmView.perform, ← hperform]
          rfl

/-- **Events act on the view by `RealmView.apply`, and no other step touches it** but the receipt
of a packet of the realm, which waits for the reader from then on. -/
theorem realmView_step {l : Label Choice Time} (hr : system.Reachable w)
    (hc : c < w.shared.table.connCount) (h : system.step w l = some w') (more : List Task) :
    (realmView c w').feed more = (realmEvent c w l w').toList.foldl RealmView.apply
      ((realmView c w).feed (((inbound l).bind
        (packetTask (w.shared.table.conns c).realmID)).toList ++ more)) := by
  obtain ⟨t, ch, s, pc, rfl, hn, hacts, rfl⟩ | ⟨d, rfl, rfl⟩ := system_step_cases h
  · rw [realmView_update (hacts.extends.realmID c hc), hand_step hr hn]
    generalize ((inbound (.thread t ch)).bind
      (packetTask (w.shared.table.conns c).realmID)).toList = arrived
    rw [RealmView.feed, List.append_assoc]
    cases ha : (w.thr t).task (w.shared.table.conns c).realmID c with
    | some a =>
        rw [realmView_task hr hn ha (arrived ++ more)]
        cases hreader : (w.thr t).ofReader <;> simp [realmEvent, ha, hreader]
    | none =>
        have hp : (w.thr t).packet (w.shared.table.conns c).realmID = none := by
          by_contra hp
          obtain ⟨a, hp⟩ := Option.ne_none_iff_exists'.mp hp
          rw [Pc.task_of_packet hp] at ha
          cases ha
        have hkeep : Function.update (realmView c w).tasks t none = (realmView c w).tasks := by
          have hnone : (realmView c w).tasks t = none := (Pc.busy_of_packet hp).trans ha
          rw [← hnone]
          exact Function.update_eq_self t _
        have hfree : pc.task (w.shared.table.conns c).realmID c = none →
            pc.busy (w.shared.table.conns c).realmID c = none := by
          intro hpc
          rw [Pc.busy, hpc, ite_self]
        rw [if_pos hp]
        rcases next_share_foreign hn (scope hr).shared (attempts hr t) hc ha with
          ⟨hun, hshare, htask⟩ | ⟨hun, d, hset, hshare, htask⟩ | ⟨hun, hset, hshare⟩
        · simp only [realmEvent, ha, hun, if_true, hfree htask, hkeep, hshare]
          rfl
        · simp only [realmEvent, ha, hun, hset, hfree htask, hkeep, hshare]
          rfl
        · cases htask : pc.busy (w.shared.table.conns c).realmID c with
          | none =>
              simp only [realmEvent, ha, hun, hset, Function.update_self, htask, hkeep, hshare]
              rfl
          | some a =>
              simp only [realmEvent, ha, hun, hset, Function.update_self, htask, hshare]
              rfl
  · rfl

/-- What a run does to the view is determined by the packets of the realm and by its events. -/
theorem realmView_exec {ls : List (Label Choice Time)} {r : UInt32} (hr : system.Reachable w)
    (hc : c < w.shared.table.connCount) (hid : (w.shared.table.conns c).realmID = r)
    (h : system.exec (fun _ _ => True) w ls = some w') :
    realmView c w' = (system.trace (realmEvent c) w ls).foldl RealmView.apply
      ((realmView c w).feed ((ls.filterMap inbound).filterMap (packetTask r))) := by
  have hrun : (realmView c w').feed [] = (system.trace (realmEvent c) w ls).foldl RealmView.apply
      ((realmView c w).feed (ls.filterMap (fun l => (inbound l).bind (packetTask r)) ++ [])) := by
    refine System.exec_view (P := fun w => system.Reachable w ∧ c < w.shared.table.connCount ∧
      (w.shared.table.conns c).realmID = r) ?_ ⟨hr, hc, hid⟩ h []
    rintro w₀ l w₁ more ⟨hr₀, hc₀, rfl⟩ hs
    refine ⟨⟨hr₀.step hs, ?_⟩, realmView_step hr₀ hc₀ hs more⟩
    obtain ⟨t, ch, s, pc, _, _, hacts, rfl⟩ | ⟨d, _, rfl⟩ := system_step_cases hs
    · exact ⟨hc₀.trans_le hacts.extends.count, hacts.extends.realmID c hc₀⟩
    · exact ⟨hc₀, rfl⟩
  simpa [RealmView.feed, List.filterMap_filterMap] using hrun

end runs

/-! ### The reader does not wait for consumers -/

section effort
variable {s s' : Shared} {pc pc' : Pc} {w : World Shared Pc}

def SendPc.effort : SendPc → ℕ
  | enter => 6
  | await => 5
  | build => 4
  | write _ => 3
  | release _ => 2
  | _ => 0

def SignalPc.effort : SignalPc → ℕ
  | setClosed => 10
  | closeOnce => 9
  | lockDeadline => 8
  | interrupt => 7

/-- How many steps the reader still makes with a packet, at most. -/
def Pc.effort : Pc → ℕ
  | .reader (.parse _) => 15
  | .reader (.count _) => 14
  | .reader (.lookup _ _) => 13
  | .reader (.disc _) => 13
  | .reader (.enqueue _ _ _) => 12
  | .reader (.overflow _ _) => 11
  | .reader (.conn _) => 2
  | .reader .ack => 1
  | .signal p _ .readerDisc => p.effort
  | .signal p _ (.readerOverflow _) => p.effort
  | .send p .readerSync => p.effort
  | .send p (.readerOverflow _ _) => p.effort
  | _ => 0

theorem dispatch_effort (b : Body) : (dispatch b).effort < 14 := by
  have hb := dispatch_background b
  generalize dispatch b = p at hb
  cases hb <;> exact Nat.le_of_ble_eq_true rfl

/-- Every step with a packet brings the reader nearer to the next one, also if the queue of a
`Conn` is full and its realm is torn down. -/
theorem Acts.effort_lt (h : Acts s pc s' pc') (hp : 0 < pc.effort) : pc'.effort < pc.effort := by
  cases pc with
  | reader p =>
      rcases h with ⟨_, h⟩ | h
      · cases h <;> first | exact Nat.le_of_ble_eq_true rfl | cases hp
      · cases h with
        | readerCount q => exact dispatch_effort q.body
        | _ => first | exact Nat.le_of_ble_eq_true rfl | cases hp
  | signal p c k =>
      cases k with
      | readerDisc | readerOverflow =>
          rcases h with ⟨_, h⟩ | h <;> cases h <;> exact Nat.le_of_ble_eq_true rfl
      | _ => cases hp
  | send p k =>
      cases k with
      | readerSync | readerOverflow =>
          rcases h with ⟨_, h⟩ | h <;> cases h <;>
            first | exact Nat.le_of_ble_eq_true rfl | cases hp
      | _ => cases hp
  | _ => cases hp

/-- The reader handles its packets without the consumers: it is done with a packet after a bounded
number of its own steps; if it cannot make the next one, then because somebody holds a mutex or
the send permit; and nobody it waits for, directly or through others, is in a `Read`. -/
structure Unhindered (w : World Shared Pc) : Prop where
  finishes : ∀ ch s pc, next w.shared (w.thr 0) ch = some (s, pc) → 0 < (w.thr 0).effort →
    pc.effort < (w.thr 0).effort
  waits : (w.thr 0).ofReader = true → Halted w.shared (w.thr 0) → ∃ u, (waitGraph w).WaitsFor 0 u
  noRead : ∀ u, Relation.TransGen (waitGraph w).WaitsFor 0 u → ∀ p, w.thr u ≠ .read p

theorem reader_unhindered (h : system.Reachable w) : Unhindered w where
  finishes ch s pc hn hp := (next_cases hn).effort_lt hp
  waits hr hhalt := by
    obtain ⟨r, hwants, htaken⟩ := hhalt.reason_reader (sane h 0) hr
    obtain ⟨u, hu⟩ := (resource_exclusive h r).exists_holder htaken
    exact ⟨u, r, hwants, hu⟩
  noRead u hu p hp := by
    -- a `Read` holds nothing
    obtain ⟨v, _, r, _, hholds⟩ := Relation.TransGen.tail'_iff.mp hu
    have hholds : (w.thr u).holds r = true := hholds
    rw [hp] at hholds
    cases hholds

end effort

/-- **Realm isolation.**  Take two runs over the same inbound datagrams, from worlds in which the
`Conn` of a realm looks the same, with the same interleaving of the steps of its own consumers and
closers and of the reader's steps with the packets of the realm.  Whatever else differs, in
particular when and how much the consumers of the other realms read and which of those realms
overflow and are torn down, the same payloads are enqueued for the `Conn`, it is torn down at the
same point of that sequence if ever, and its `Read`s return the same results.  And the reader gets
on with the packets of every realm whether or not anybody reads. -/
theorem realm_isolated {w₁ w₂ w₁' w₂' : World Shared Pc} {ls₁ ls₂ : List (Label Choice Time)}
    {c : ConnId} (h₁ : system.Reachable w₁) (h₂ : system.Reachable w₂)
    (hc₁ : c < w₁.shared.table.connCount) (hc₂ : c < w₂.shared.table.connCount)
    (hid : (w₁.shared.table.conns c).realmID = (w₂.shared.table.conns c).realmID)
    (hview : realmView c w₁ = realmView c w₂)
    (hrun₁ : system.exec (fun _ _ => True) w₁ ls₁ = some w₁')
    (hrun₂ : system.exec (fun _ _ => True) w₂ ls₂ = some w₂')
    (hinbound : ls₁.filterMap inbound = ls₂.filterMap inbound)
    (htrace : system.trace (realmEvent c) w₁ ls₁ = system.trace (realmEvent c) w₂ ls₂) :
    (w₁'.shared.hist.enqueued c = w₂'.shared.hist.enqueued c ∧
      w₁'.shared.hist.torn c = w₂'.shared.hist.torn c ∧
      w₁'.shared.hist.reads c = w₂'.shared.hist.reads c) ∧
    Unhindered w₁' ∧ Unhindered w₂' := by
  have heq : realmView c w₁' = realmView c w₂' := by
    rw [realmView_exec h₁ hc₁ hid hrun₁, realmView_exec h₂ hc₂ rfl hrun₂, hview, htrace, hinbound]
  have hshare : w₁'.shared.share c = w₂'.shared.share c := congrArg RealmView.share heq
  exact ⟨⟨congrArg Share.enqueued hshare, congrArg Share.torn hshare,
    congrArg Share.reads hshare⟩, reader_unhindered (h₁.exec hrun₁),
    reader_unhindered (h₂.exec hrun₂)⟩

/-- Two `Dial`s that are granted, of realms 7 and 9. -/
def twoRealmsScript : List (Label Choice Time) :=
  grantScript 2 7 ++ grantScript 3 9

/-- A payload for each of the two realms, a `Read` of realm 7, and the DISC of realm 7; `other`
is what the consumer of realm 9 does meanwhile. -/
def trafficScript (other : List Choice) : List (Label Choice Time) :=
  receiveScript (newPayloadBody 9 [4, 5, 6]) 5 ++ acts 5 other ++
    receiveScript (newPayloadBody 7 [1, 2, 3]) 5 ++
    acts 4 [.call (.read 0 2), .go, .select .data, .go] ++
    receiveScript (newStatusBody 7 statusDisconnect) 8

theorem realm_isolated_trafficScript :
    ∃ w w₁ w₂, system.exec (fun _ _ => True) (start 1 newSession) twoRealmsScript = some w ∧
      system.exec (fun _ _ => True) w
        (trafficScript [.call (.read 1 2), .go, .select .data, .go]) = some w₁ ∧
      system.exec (fun _ _ => True) w (trafficScript []) = some w₂ ∧
      w₁.shared.hist.reads 1 = [.ok [4, 5]] ∧ w₂.shared.hist.reads 1 = [] ∧
      w₁.shared.hist.reads 0 = [.ok [1, 2]] ∧ w₂.shared.hist.reads 0 = [.ok [1, 2]] := by
  have hrun : (system.exec (fun _ _ => True) (start 1 newSession) twoRealmsScript).map (fun w =>
      decide (0 < w.shared.table.connCount ∧
        (system.exec (fun _ _ => True) w
          (trafficScript [.call (.read 1 2), .go, .select .data, .go])).map (fun v =>
            (v.shared.hist.reads 1, v.shared.hist.reads 0)) =
          some ([.ok [4, 5]], [.ok [1, 2]]) ∧
        (system.exec (fun _ _ => True) w (trafficScript [])).map (fun v =>
          v.shared.hist.reads 1) = some [] ∧
        system.trace (realmEvent 0) w
            (trafficScript [.call (.read 1 2), .go, .select .data, .go]) =
          system.trace (realmEvent 0) w (trafficScript []))) = some true := by
    decide +kernel
  obtain ⟨w, hw, he⟩ := Option.map_eq_some_iff.mp hrun
  obtain ⟨hc, hrun₁, hrun₂, htrace⟩ := of_decide_eq_true he
  obtain ⟨w₁, hw₁, hreads₁⟩ := Option.map_eq_some_iff.mp hrun₁
  obtain ⟨w₂, hw₂, hreads₂⟩ := Option.map_eq_some_iff.mp hrun₂
  obtain ⟨hother₁, hown₁⟩ := Prod.mk.inj hreads₁
  have hr : system.Reachable w := reach_of_exec (by decide) hw
  obtain ⟨⟨_, _, hsame⟩, _⟩ :=
    realm_isolated hr hr hc hc rfl rfl hw₁ hw₂ (by decide +kernel) htrace
  exact ⟨w, w₁, w₂, hw, hw₁, hw₂, hother₁, hreads₂, hown₁, hsame ▸ hown₁⟩

end DahuaP2p.Tunnel
