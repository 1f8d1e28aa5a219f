import DahuaP2p.TunnelRealms

/-! # Granted realms

After the reader has processed a CONN for a realm that the tunnel sent a BIND for, somebody owns
the realm or disconnects it.  `Dial` does not see to this: an attempt that times out leaves no
trace of its realm, and a CONN that comes later is only logged
(`granted_realm_abandoned`).  In the runs in which no CONN comes after the timeout of its attempt,
and in which teardowns and the device keep to realms that are bound (`Orderly`), no granted realm
is abandoned (`granted_realm_owned`). -/

namespace DahuaP2p.Tunnel

open BigEndian Ptcp Threads

/-! ### Orderly runs -/

/-- The condition on the next action of a goroutine. -/
def OrderlyAction (s : Shared) (pc : Pc) (ch : Choice) : Prop :=
  match pc, ch with
  -- an attempt does not time out when the answer is queued already
  | .dial (.wait _ _ _ c), .select .timeout => (s.table.conns c).connCh = false
  -- no CONN comes after the timeout of its attempt
  | .reader (.conn r), _ => ∀ c ∈ s.hist.bound r, s.hist.timedOut c = false
  -- the device disconnects only realms that are bound
  | .reader (.disc r), _ => ∀ c ∈ s.table.lookup r, s.hist.bound r = some c
  -- a teardown finds its own realm, and it is bound
  | .reader (.overflow r c), _ => s.hist.bound r = some c ∧ ∀ d ∈ s.table.lookup r, d = c
  | .connClose (.remove c), _ => ∀ d ∈ s.table.lookup (s.table.conns c).realmID, d = c
  -- no UDP write of a DISC fails
  | .send (.write _) k, .udp .fail => k.disc = none
  | _, _ => True

/-- No CONN comes late, teardowns concern bound realms, and the DISCs can be sent. -/
def Orderly (w : World Shared Pc) : Label Choice Time → Prop
  | .thread t ch => OrderlyAction w.shared (w.thr t) ch
  | .env _ => True

instance (s : Shared) (pc : Pc) (ch : Choice) : Decidable (OrderlyAction s pc ch) := by
  unfold OrderlyAction
  split <;> infer_instance

instance (w : World Shared Pc) : ∀ l, Decidable (Orderly w l)
  | .thread t ch => inferInstanceAs (Decidable (OrderlyAction w.shared (w.thr t) ch))
  | .env _ => .isTrue trivial

variable {s s' : Shared} {pc pc' qc : Pc} {ch : Choice} {L : Ledger} {id r : UInt32} {c : ConnId}
  {w : World Shared Pc}

/-- An attempt times out only when it has no answer. -/
theorem OrderlyAction.timeout {port : UInt32} {a : ℕ} {s' : Shared}
    (h : OrderlyAction s (.dial (.wait port a id c)) ch)
    (hn : next s (.dial (.wait port a id c)) ch =
      some (s', .dial (.dropRealm port a id c .retry))) : s.ledger.token c = false := by
  cases ch with
  | select b =>
      cases b with
      | timeout => exact h
      | done | conn =>
          obtain ⟨_, he⟩ := Option.ite_none_right_eq_some.mp hn
          cases he
      | _ => cases hn
  | _ => cases hn

/-- The UDP write of a DISC does not fail. -/
theorem OrderlyAction.failed_eq {q : Packet} {k : SendCall}
    (h : OrderlyAction s (.send (.write q) k) ch) (hk : k.disc ≠ none)
    (hn : next s (.send (.write q) k) ch = some (s', pc')) :
    s'.hist.failed = s.hist.failed := by
  cases ch with
  | udp r =>
      cases r with
      | fail => exact absurd h hk
      | ok | block =>
          simp only [next, stepSend] at hn
          split at hn
          · cases hn
            rfl
          · cases hn
  | _ =>
      cases k with
      | write => exact absurd rfl hk
      | _ => cases hn

/-! ### What a goroutine has to see to -/

/-- The attempt has not transmitted its BIND. -/
structure Fresh (L : Ledger) (id : UInt32) (c : ConnId) : Prop where
  unbound : ∀ r, L.bound r ≠ some c
  realm : L.closed = true ∨ L.realms id = some c

/-- An answer for the attempt will be queued, or is. -/
def Registered (L : Ledger) (id : UInt32) (c : ConnId) : Prop :=
  L.waiting id = some c ∨ L.token c = true

/-- The attempt has transmitted its BIND and waits. -/
structure Sent (L : Ledger) (id : UInt32) (c : ConnId) : Prop where
  bound : L.bound id = some c
  answer : L.granted id = true → L.token c = true
  registered : Registered L id c

/-- The realm of `c` was disconnected, if it is still bound to `c`. -/
def Disced (L : Ledger) (c : ConnId) : Prop := ∀ r, L.bound r = some c → L.disc r = true

/-- The UDP write is over, with this result. -/
def SendPc.outcome : SendPc → Option (Option SendError)
  | relockDeadline e => some e
  | clearDeadline e => some e
  | release e => some e
  | _ => none

def SendCall.Owes (L : Ledger) (o : Option (Option SendError)) : SendCall → Prop
  | dial _ _ id c => match o with
    | some none => Sent L id c
    | _ => Fresh L id c ∧ Registered L id c
  | connClose _ c i => match o with
    | none => 0 < i → Disced L c
    | some none => Disced L c
    | some (some _) => False
  | readerOverflow _ _ => match o with
    | some (some _) => False
    | _ => True
  | _ => True

def DialPc.Owes (L : Ledger) : DialPc → Prop
  | register _ _ id c => Fresh L id c
  | wait _ _ id c => Sent L id c
  | dropRealm _ _ _ c _ => L.closed = true ∨ L.timedOut c = true ∨ ∀ r, L.bound r ≠ some c
  | _ => True

/-- What a control state says about the realm that it works on. -/
def Pc.Owes (L : Ledger) : Pc → Prop
  | .send p k => k.Owes L p.outcome
  | .dial p => p.Owes L
  | .connClose (.remove c) => L.closed = true ∨ Disced L c
  | _ => True

theorem SendCall.owes_of_writer {k : SendCall} {o : Option (Option SendError)}
    (hk : k.writer ≠ none) : k.Owes L o := by
  cases k with
  | write => trivial
  | _ => exact absurd rfl hk

theorem Pc.owes_of_writer {p : SendPc} {k : SendCall} (hk : k.writer ≠ none) :
    (Pc.send p k).Owes L :=
  SendCall.owes_of_writer hk

theorem SendCall.ret_owes_of_writer {k : SendCall} {e : Option SendError} (hk : k.writer ≠ none) :
    (k.ret e).Owes L := by
  cases k with
  | write => cases e <;> trivial
  | _ => exact absurd rfl hk

theorem SendCall.Owes.ret {k : SendCall} {e : Option SendError} (h : k.Owes L (some e)) :
    (k.ret e).Owes L := by
  cases k with
  | dial port a id c =>
      cases e with
      | none => exact h
      | some e => exact Or.inr (Or.inr h.1.unbound)
  | connClose id c i =>
      cases e with
      | none =>
          simp only [SendCall.ret]
          split
          · exact fun _ => h
          · exact Or.inr h
      | some e => exact h.elim
  | write => cases e <;> trivial
  | _ => trivial

theorem SendCall.Owes.written {k : SendCall} {e : Option SendError} (h : k.Owes L (some e)) :
    (k.written e).Owes L := by
  rcases k.written_cases e with ⟨_, _, hw⟩ | ⟨_, hw⟩ <;> rw [hw] <;> exact h

/-! ### Other goroutines -/

/-- Without `dialMu`, an orderly action leaves a realm in place that is not bound yet. -/
theorem LedgerAct.fresh (h : LedgerAct s pc L pc') (hn : pc.holds .dialMu = false)
    (ho : OrderlyAction s pc ch) (hp : pc.Scoped s) (hr : pc.Reasoned s)
    (hret : s.ledger.returned c = false) (hf : Fresh s.ledger id c) : Fresh L id c := by
  refine ⟨fun r => ?_, ?_⟩
  · rw [(h.of_not_dial hn).2.2.2]
    exact hf.unbound r
  · have hkeep : ∀ r, (s.ledger.realms r = some c → False) →
        s.ledger.closed = true ∨ Function.update s.ledger.realms r none id = some c := by
      intro r hno
      refine hf.realm.imp_right fun hid => ?_
      have hne : id ≠ r := fun e => hno (e ▸ hid)
      rw [Function.update_of_ne hne]
      exact hid
    cases h with
    | closeEnter => exact Or.inl rfl
    | closeSwap => exact Or.inl hr
    | disc r d hd =>
        refine hkeep r fun hc => hf.unbound r ?_
        exact ho c hc
    | overflow r d =>
        refine hkeep r fun hc => hf.unbound r ?_
        obtain rfl := ho.2 c hc
        exact ho.1
    | remove d =>
        refine hkeep _ fun hc => ?_
        obtain rfl := ho c hc
        have hd : s.ledger.returned c = true := hp.2
        rw [hret] at hd
        cases hd
    | install | register | bind | grant | timeout | dropRealm | dropConnCh =>
        simp [Pc.holds, DialPc.holds, SendCall.holds] at hn
    | _ => exact hf.realm

theorem LedgerAct.registered (h : LedgerAct s pc L pc') (hn : pc.holds .dialMu = false)
    (hg : Registered s.ledger id c) : Registered L id c := by
  cases h with
  | conn r d hd =>
      by_cases hc : c = d
      · subst hc
        exact Or.inr (by simp)
      · refine hg.imp (fun hw => ?_) fun ht => by simpa [hc] using ht
        have hne : id ≠ r := by
          rintro rfl
          rw [hd] at hw
          exact hc (Option.some.inj hw).symm
        simpa [hne] using hw
  | install | register | bind | grant | timeout | dropRealm | dropConnCh =>
      simp [Pc.holds, DialPc.holds, SendCall.holds] at hn
  | _ => exact hg

theorem LedgerAct.sent (h : LedgerAct s pc L pc') (hn : pc.holds .dialMu = false)
    (hs : Sent s.ledger id c) : Sent L id c := by
  refine ⟨?_, ?_, h.registered hn hs.registered⟩
  · rw [(h.of_not_dial hn).2.2.2]
    exact hs.bound
  · cases h with
    | connUnknown r hr =>
        intro hg
        rcases hs.registered with hw | ht
        · by_cases hid : id = r
          · rw [hid, hr] at hw
            cases hw
          · exact hs.answer (by simpa [hid] using hg)
        · exact ht
    | conn r d hd =>
        intro hg
        by_cases hc : c = d
        · simp [hc]
        · have ht : s.ledger.token c = true := by
            rcases hs.registered with hw | ht
            · by_cases hid : id = r
              · rw [hid, hd] at hw
                exact absurd (Option.some.inj hw).symm hc
              · exact hs.answer (by simpa [hid] using hg)
            · exact ht
          simpa [hc] using ht
    | install | register | bind | grant | timeout | dropRealm | dropConnCh =>
        simp [Pc.holds, DialPc.holds, SendCall.holds] at hn
    | _ => exact hs.answer

/-- A realm stays disconnected until it is bound again, to another `Conn`. -/
theorem LedgerAct.disced (h : LedgerAct s pc L pc') (hc : ∀ id, pc.attempt ≠ some (id, c))
    (hd : Disced s.ledger c) : Disced L c := by
  have hset : ∀ r r', s.ledger.disc r' = true → Function.update s.ledger.disc r true r' = true := by
    intro r r' hr
    rw [Function.update_apply]
    split
    · rfl
    · exact hr
  intro r hr
  cases h with
  | discUnknown r' | disc r' | sentDisc _ _ r' => exact hset r' r (hd r hr)
  | bind p port a id d =>
      by_cases he : r = id
      · have hdc : d = c := by simpa [he] using hr
        exact absurd (by rw [hdc]; rfl) (hc id)
      · have hr : s.ledger.bound r = some c := by simpa [he] using hr
        simpa [he] using hd r hr
  | _ => exact hd r hr

theorem LedgerAct.closed (h : LedgerAct s pc L pc') (hc : s.ledger.closed = true) :
    L.closed = true := by
  cases h with
  | closeEnter => rfl
  | _ => exact hc

theorem SendCall.Owes.mono {L' : Ledger} {k : SendCall} {o : Option (Option SendError)}
    (h : k.Owes L o)
    (hbind : ∀ id c, k.binds = some (id, c) → (Fresh L id c → Fresh L' id c) ∧
      (Registered L id c → Registered L' id c) ∧ (Sent L id c → Sent L' id c))
    (hclose : ∀ id c i, k = .connClose id c i → Disced L c → Disced L' c) : k.Owes L' o := by
  cases k with
  | dial port a id c =>
      obtain ⟨hf, hg, hs⟩ := hbind id c rfl
      rcases o with _ | _ | _
      · exact ⟨hf h.1, hg h.2⟩
      · exact hs h
      · exact ⟨hf h.1, hg h.2⟩
  | connClose id c i =>
      have hd := hclose id c i rfl
      rcases o with _ | _ | _
      · exact fun hi => hd (h hi)
      · exact hd h
      · exact h
  | _ => exact h

/-- What a goroutine has to see to is not disturbed by the others. -/
theorem LedgerAct.owes_other (h : LedgerAct s pc L pc')
    (hx : qc.holds .dialMu = true → pc.holds .dialMu = false) (ho : OrderlyAction s pc ch)
    (hp : pc.Scoped s) (hr : pc.Reasoned s) (ha : Attempting s.ledger pc) (hq : qc.Scoped s)
    (hqa : Attempting s.ledger qc) (hqo : qc.Owes s.ledger) : qc.Owes L := by
  have hdisced : ∀ c, s.Returned c → Disced s.ledger c → Disced L c := by
    intro c hc hd
    refine h.disced (fun id he => ?_) hd
    have hret : s.ledger.returned c = true := hc.2
    rw [ha.returned id c he] at hret
    cases hret
  cases qc with
  | send p k =>
      refine SendCall.Owes.mono hqo (fun id c hk => ?_) fun id c i hk => ?_
      · have hn := hx (Pc.holds_of_attempt hk)
        exact ⟨h.fresh hn ho hp hr (hqa.returned id c hk), h.registered hn, h.sent hn⟩
      · subst hk
        exact hdisced c hq.2
  | dial p =>
      cases p with
      | register port a id c =>
          have hn := hx (Pc.holds_of_attempt rfl)
          exact h.fresh hn ho hp hr (hqa.returned id c rfl) hqo
      | wait port a id c => exact h.sent (hx (Pc.holds_of_attempt rfl)) hqo
      | dropRealm port a id c why =>
          obtain ⟨_, _, ht, hb⟩ := h.of_not_dial (hx (Pc.holds_of_attempt rfl))
          refine hqo.imp h.closed fun hc => ?_
          rw [ht, hb]
          exact hc
      | _ => trivial
  | connClose p =>
      cases p with
      | remove c => exact hqo.imp h.closed (hdisced c hq)
      | _ => trivial
  | _ => trivial

/-! ### The goroutine itself -/

theorem SignalCall.ret_owes (j : SignalCall) (c : ConnId) : (j.ret c).Owes L := by
  rcases j with _ | _ | _ | _ | _ <;> trivial

theorem Background.owes (h : Background pc) : pc.Owes L := by
  cases h <;> trivial

/-- What holds of a call when its packet has been transmitted. -/
theorem SendCall.Owes.transmitted {k : SendCall} {h : History} {q : Packet}
    (ho : k.Owes s.ledger none) (hs : k.Scoped s)
    (hnamed : ∀ r c, s.hist.bound r = some c → s.Named r c)
    (hh : s.hist.bound = h.bound ∧ s.hist.granted = h.granted ∧ s.hist.disc = h.disc) :
    k.Owes ({ s with hist := h.transmit q k } : Shared).ledger (some none) := by
  obtain ⟨hb, hg, hd⟩ := hh
  cases k with
  | dial port a id c =>
      refine ⟨?_, ?_, ho.2⟩
      · simp [Shared.ledger, History.transmit, SendCall.binds]
      · simp [Shared.ledger, History.transmit, SendCall.binds]
  | connClose id c i =>
      intro r hr
      have hid : r = id := (hnamed r c (hb ▸ hr)).2.symm.trans hs.1.2
      simp [Shared.ledger, History.transmit, SendCall.binds, SendCall.disc, hid]
  | _ => trivial

/-- A goroutine keeps what it has to see to. -/
theorem Acts.owes_self (h : Acts s pc s' pc') (hn : next s pc ch = some (s', pc'))
    (ho : OrderlyAction s pc ch) (hw : pc.WriterOnly) (hp : pc.Scoped s)
    (hdone : s.life.done = s.life.closed) (hblank : s.Blank s.table.connCount)
    (hnamed : ∀ r c, s.hist.bound r = some c → s.Named r c) (hq : pc.Owes s.ledger) :
    pc'.Owes s'.ledger := by
  have hwriter : ∀ {k : SendCall} {c : ConnId}, k.writer = some c → k.writer ≠ none := by
    intro k c hk
    rw [hk]
    exact nofun
  rcases h with ⟨rfl, h⟩ | h
  · cases h with
    | sendCheckClosed k c hk | sendCheckExpired k c hk | sendSelectClosed k c _ _ hk =>
        exact SendCall.ret_owes_of_writer (hwriter hk)
    | sendSelectDone | sendSelectTimeout => exact SendCall.ret_owes_of_writer (hw.1 rfl)
    | closeAgain k => exact k.ret_background.owes
    | dialDone port a id c hd => exact Or.inl (hdone.symm.trans hd)
    | connCloseClosed c _ hc => exact Or.inl hc
    | connCloseDisc => exact nofun
    | _ => exact hq
  · cases h with
    | sendGiveBack => exact SendCall.ret_owes_of_writer (hw.1 rfl)
    | sendSkip | sendSetDeadlineError => exact Pc.owes_of_writer (hw.1 rfl)
    | sendWriteOk k q =>
        exact SendCall.Owes.written (SendCall.Owes.transmitted hq hp hnamed ⟨rfl, rfl, rfl⟩)
    | sendBlockedOk k q =>
        exact SendCall.Owes.written (SendCall.Owes.transmitted hq hp hnamed ⟨rfl, rfl, rfl⟩)
    | sendWriteFail k q =>
        have hk : k.disc = none := by
          by_contra hk
          exact absurd (ho.failed_eq hk hn) (Nat.succ_ne_self _)
        refine SendCall.Owes.written ?_
        cases k with
        | dial => exact hq
        | readerOverflow | connClose => cases hk
        | _ => trivial
    | sendBlockedFail => exact SendCall.Owes.written (SendCall.owes_of_writer (hw.1 rfl))
    | sendRelease k e => exact SendCall.Owes.ret hq
    | signalInterrupt c k => exact k.ret_owes c
    | closeCallback k => exact k.ret_background.owes
    | readerCount q => exact (dispatch_background q.body).owes
    | dialInstall port a id m hm =>
        refine ⟨hblank.bound, Or.inr ?_⟩
        simp [Shared.ledger, Table.install_lookup _ _ _ _ hm]
    | dialRegister port a id c => exact ⟨⟨hq.unbound, hq.realm⟩, Or.inl (by simp [Shared.ledger])⟩
    | dialTimeout port a id c => exact Or.inr (Or.inl (by simp [Shared.ledger]))
    | _ => first | exact hq | trivial

/-! ### Pending DISCs of the reader -/

def SendCall.overflow : SendCall → Option (UInt32 × ConnId)
  | readerOverflow r c => some (r, c)
  | _ => none

def SignalCall.overflow (c : ConnId) : SignalCall → Option (UInt32 × ConnId)
  | readerOverflow r => some (r, c)
  | _ => none

/-- The goroutine has torn a realm down because its queue was full, and is about to send the
DISC. -/
def Pc.overflow : Pc → Option (UInt32 × ConnId)
  | .signal _ c k => k.overflow c
  | .send p k => match p.outcome with
    | none => k.overflow
    | some _ => none
  | _ => none

/-- The DISC is still to be sent, or has been transmitted. -/
theorem Acts.overflow (h : Acts s pc s' pc') (hn : next s pc ch = some (s', pc'))
    (ho : OrderlyAction s pc ch) (hw : pc.WriterOnly) (hpc : pc.overflow = some (r, c)) :
    pc'.overflow = some (r, c) ∨ s'.hist.disc r = true := by
  have hwriter : ∀ {k : SendCall}, k.overflow = some (r, c) → k.writer = none ∧ k.disc ≠ none := by
    intro k hk
    cases k with
    | readerOverflow => exact ⟨rfl, nofun⟩
    | _ => cases hk
  have hdisc : ∀ {k : SendCall} {h : History} {q : Packet}, k.overflow = some (r, c) →
      (h.transmit q k).disc r = true := by
    intro k h q hk
    cases k with
    | readerOverflow r' c' =>
        cases hk
        simp [History.transmit, SendCall.binds, SendCall.disc]
    | _ => cases hk
  rcases h with ⟨rfl, h⟩ | h
  · cases h with
    | sendCheckClosed | sendCheckExpired | sendSelectClosed | sendSelectDone
    | sendSelectTimeout => exact absurd (hwriter hpc).1 (hw.1 rfl)
    | closeAgain => cases hpc
    | _ => exact Or.inl hpc
  · cases h with
    | sendGiveBack | sendBlockedFail | sendSkip | sendSetDeadlineError =>
        exact absurd (hwriter hpc).1 (hw.1 rfl)
    | sendWriteOk k q | sendBlockedOk k q => exact Or.inr (hdisc hpc)
    | sendWriteFail k q =>
        exact absurd (ho.failed_eq (hwriter hpc).2 hn) (Nat.succ_ne_self _)
    | signalInterrupt d k =>
        cases k with
        | readerOverflow r' => exact Or.inl hpc
        | _ => cases hpc
    | _ => first | exact Or.inl hpc | cases hpc

/-! ### The invariant -/

/-- Whose turn it is for a realm that is bound to `c`. -/
def Owned (L : Ledger) (pending : Prop) (r : UInt32) (c : ConnId) : Prop :=
  L.closed = true ∨ L.timedOut c = true ∨ L.realms r = some c ∨ L.disc r = true ∨ pending

/-- The state of the realms in an orderly run. -/
structure Kept (w : World Shared Pc) : Prop where
  named : ∀ r c, w.shared.hist.bound r = some c → w.shared.Named r c
  inTime : ∀ r c, w.shared.hist.bound r = some c → w.shared.hist.granted r = true →
    w.shared.hist.timedOut c = false
  owned : ∀ r c, w.shared.hist.bound r = some c →
    Owned w.shared.ledger (∃ t, (w.thr t).overflow = some (r, c)) r c
  thr : ∀ t, (w.thr t).Owes w.shared.ledger

theorem LedgerAct.named (h : LedgerAct s pc s'.ledger pc') (he : s.Extends s') (hp : pc.Scoped s)
    (hi : ∀ r c, s.hist.bound r = some c → s.Named r c) (hb : s'.hist.bound r = some c) :
    s'.Named r c := by
  have hb : s'.ledger.bound r = some c := hb
  generalize hL : s'.ledger = L at h hb
  cases h with
  | bind p port a id d =>
      by_cases hr : r = id
      · have hd : d = c := by simpa [hr] using hb
        rw [hr, ← hd]
        exact Shared.Named.mono hp he
      · have hb : s.ledger.bound r = some c := by simpa [hr] using hb
        exact (hi r c hb).mono he
  | _ => exact (hi r c hb).mono he

/-- A grant comes before the timeout of its attempt. -/
theorem LedgerAct.inTime (h : LedgerAct s pc L pc') (hn : next s pc ch = some (s', pc'))
    (ho : OrderlyAction s pc ch) (hp : pc.Scoped s) (hq : pc.Owes s.ledger)
    (hnamed : ∀ r c, s.hist.bound r = some c → s.Named r c)
    (hi : ∀ r c, s.ledger.bound r = some c → s.ledger.granted r = true →
      s.ledger.timedOut c = false)
    (hb : L.bound r = some c) (hg : L.granted r = true) : L.timedOut c = false := by
  cases h with
  | connUnknown r' | conn r' =>
      by_cases hr : r = r'
      · subst hr
        exact ho c hb
      · exact hi r c hb (by simpa [hr] using hg)
  | bind p port a id d =>
      by_cases hr : r = id
      · simp [hr] at hg
      · exact hi r c (by simpa [hr] using hb) (by simpa [hr] using hg)
  | timeout port a id d =>
      by_cases hc : c = d
      · subst hc
        have hr : r = id := (hnamed r c hb).2.symm.trans hp.2
        have htok := hq.answer (hr ▸ hg)
        rw [ho.timeout hn] at htok
        cases htok
      · simpa [hc] using hi r c hb hg
  | _ => exact hi r c hb hg

/-- A bound realm stays owned. -/
theorem LedgerAct.owned {pend pend' : Prop} (h : LedgerAct s pc L pc')
    (ho : OrderlyAction s pc ch) (hr : pc.Reasoned s) (ha : Attempting s.ledger pc)
    (hq : pc.Owes s.ledger) (hpend : pend → L.disc r = true ∨ pend')
    (hnew : pc'.overflow = some (r, c) → pend')
    (hi : s.ledger.bound r = some c → Owned s.ledger pend r c) (hb : L.bound r = some c) :
    Owned L pend' r c := by
  -- the realm keeps its owner, unless it leaves `t.realms`
  have key : s.ledger.bound r = some c → (s.ledger.timedOut c = true → L.timedOut c = true) →
      (s.ledger.disc r = true → L.disc r = true) →
      (s.ledger.realms r = some c → Owned L pend' r c) → Owned L pend' r c := by
    intro hb htime hdisc hrealm
    rcases hi hb with hc | ht | hl | hd | hp
    · exact Or.inl (h.closed hc)
    · exact Or.inr (Or.inl (htime ht))
    · exact hrealm hl
    · exact Or.inr (Or.inr (Or.inr (Or.inl (hdisc hd))))
    · exact Or.inr (Or.inr (Or.inr (hpend hp)))
  have hstay : L.realms r = some c → Owned L pend' r c := fun hl => Or.inr (Or.inr (Or.inl hl))
  have hset : ∀ r', s.ledger.disc r = true → Function.update s.ledger.disc r' true r = true := by
    intro r' hd
    rw [Function.update_apply]
    split
    · rfl
    · exact hd
  cases h with
  | closeEnter => exact Or.inl rfl
  | closeSwap => exact Or.inl hr
  | discUnknown r' | sentDisc _ _ r' => exact key hb (fun h => h) (hset r') hstay
  | disc r' d =>
      refine key hb (fun h => h) (hset r') fun hl => ?_
      by_cases he : r = r'
      · exact Or.inr (Or.inr (Or.inr (Or.inl (by simp [he]))))
      · exact hstay (by simpa [he] using hl)
  | overflow r' d =>
      refine key hb (fun h => h) (fun h => h) fun hl => ?_
      by_cases he : r = r'
      · subst he
        obtain rfl := ho.2 c hl
        exact Or.inr (Or.inr (Or.inr (Or.inr (hnew rfl))))
      · exact hstay (by simpa [he] using hl)
  | install port a id =>
      refine key hb (fun h => h) (fun h => h) fun hl => ?_
      have he : r ≠ id := by
        rintro rfl
        rw [ha.drawn r rfl] at hl
        cases hl
      exact hstay (by simpa [he] using hl)
  | bind p port a id d hw =>
      by_cases he : r = id
      · have hd : d = c := by simpa [he] using hb
        have hf : Fresh s.ledger id d := by
          obtain ⟨q, rfl | rfl⟩ := hw
          · exact hq.1
          · exact hq.1
        rw [he, ← hd]
        exact hf.realm.imp_right fun hl => Or.inr (Or.inl hl)
      · exact key (by simpa [he] using hb) (fun h => h) (fun h => by simpa [he] using h) hstay
  | timeout port a id d =>
      refine key hb (fun ht => ?_) (fun h => h) hstay
      by_cases hd : c = d
      · simp [hd]
      · simpa [hd] using ht
  | dropRealm port a id d why =>
      refine key hb (fun h => h) (fun h => h) fun hl => ?_
      by_cases he : r = id
      · subst he
        obtain rfl := ha.realm r d rfl c hl
        rcases hq with hc | ht | hun
        · exact Or.inl hc
        · exact Or.inr (Or.inl ht)
        · exact absurd hb (hun r)
      · exact hstay (by simpa [he] using hl)
  | remove d =>
      refine key hb (fun h => h) (fun h => h) fun hl => ?_
      by_cases he : r = (s.table.conns d).realmID
      · obtain rfl := ho c (he ▸ hl)
        rcases hq with hc | hd
        · exact Or.inl hc
        · exact Or.inr (Or.inr (Or.inr (Or.inl (hd r hb))))
      · exact hstay (by simpa [he] using hl)
  | _ => exact key hb (fun h => h) (fun h => h) hstay

/-- A pending DISC is still pending, or has been transmitted, after a goroutine moved. -/
theorem pending_update {thr : ℕ → Pc} {t : ℕ}
    (hover : (thr t).overflow = some (r, c) → pc'.overflow = some (r, c) ∨ L.disc r = true)
    (hp : ∃ u, (thr u).overflow = some (r, c)) :
    L.disc r = true ∨ ∃ u, (Function.update thr t pc' u).overflow = some (r, c) := by
  obtain ⟨u, hu⟩ := hp
  by_cases hut : u = t
  · subst hut
    rcases hover hu with hu | hd
    · exact Or.inr (exists_update_self hu)
    · exact Or.inl hd
  · exact Or.inr (exists_update hut hu)

theorem kept (h : system.Reach Orderly w) : Kept w := by
  refine system_invariant (I := Kept) ?_ ?_ ?_ h
  · intro now session _
    exact ⟨nofun, nofun, nofun, forall_startThreads trivial trivial trivial⟩
  · intro w t ch s pc hr hi hok hn ha
    have hscope := scope hr
    have hblank := hscope.blank _ le_rfl
    have hpend : ∀ r c, (∃ u, (w.thr u).overflow = some (r, c)) → s.ledger.disc r = true ∨
        ∃ u, (Function.update w.thr t pc u).overflow = some (r, c) :=
      fun r c => pending_update (ha.overflow hn hok (writerOnly hr t))
    have hself := ha.owes_self hn hok (writerOnly hr t) (hscope.thr t) (done_eq_closed hr) hblank
      hi.named (hi.thr t)
    rcases ha.ledger hblank with he | hl
    · have hbound : s.hist.bound = w.shared.hist.bound := congrArg Ledger.bound he
      have hgranted : s.hist.granted = w.shared.hist.granted := congrArg Ledger.granted he
      have htimed : s.hist.timedOut = w.shared.hist.timedOut := congrArg Ledger.timedOut he
      refine ⟨fun r c hb => ?_, fun r c hb hg => ?_, fun r c hb => ?_,
        forall_update hself fun u _ => by rw [he]; exact hi.thr u⟩
      · exact (hi.named r c (hbound ▸ hb)).mono ha.extends
      · rw [htimed]
        exact hi.inTime r c (hbound ▸ hb) (hgranted ▸ hg)
      · have hold := hi.owned r c (hbound ▸ hb)
        rw [← he] at hold
        rcases hold with hc | ht | hl | hd | hp
        · exact Or.inl hc
        · exact Or.inr (Or.inl ht)
        · exact Or.inr (Or.inr (Or.inl hl))
        · exact Or.inr (Or.inr (Or.inr (Or.inl hd)))
        · exact Or.inr (Or.inr (Or.inr (hpend r c hp)))
    · have hatt := attempts hr
      refine ⟨fun r c hb => hl.named ha.extends (hscope.thr t) hi.named hb, fun r c hb hg => ?_,
        fun r c hb => ?_, forall_update hself fun u hu => ?_⟩
      · exact hl.inTime hn hok (hscope.thr t) (hi.thr t) hi.named hi.inTime hb hg
      · exact hl.owned hok ((reasons hr).thr t) (hatt t) (hi.thr t) (hpend r c)
          (fun hp => ⟨t, by simpa using hp⟩) (hi.owned r c) hb
      · refine hl.owes_other (fun hd => Bool.eq_false_iff.mpr fun ht => hu ?_) hok (hscope.thr t)
          ((reasons hr).thr t) (hatt t) (hscope.thr u) (hatt u) (hi.thr u)
        exact (resource_exclusive hr .dialMu).unique ht hd
  · intro w d _ hi
    exact ⟨fun r c hb => hi.named r c hb, hi.inTime, hi.owned, hi.thr⟩

/-- **Granted realms are owned.**  In every run in which no CONN comes after the timeout of its
attempt, teardowns and the device keep to bound realms, and the DISCs can be sent, the following
holds in every state in which the tunnel is open: if the reader has processed a CONN for a realm
since its last BIND, then its `Conn` is in `t.realms`, or a DISC was transmitted or received since
the BIND, or the reader has torn the realm down and is about to send the DISC. -/
theorem granted_realm_owned (h : system.Reach Orderly w) (hopen : w.shared.life.closed = false)
    (hb : w.shared.hist.bound r = some c) (hg : w.shared.hist.granted r = true) :
    w.shared.table.lookup r = some c ∨ w.shared.hist.disc r = true ∨
      ∃ t, (w.thr t).overflow = some (r, c) := by
  have hk := kept h
  rcases hk.owned r c hb with hc | ht | ho
  · have hc : w.shared.life.closed = true := hc
    rw [hopen] at hc
    cases hc
  · have ht : w.shared.hist.timedOut c = true := ht
    rw [hk.inTime r c hb hg] at ht
    cases ht
  · exact ho

/-- A `Dial` whose CONN comes in time. -/
theorem granted_realm_owned_dial :
    ∃ w, system.exec Orderly (start 1 newSession) (grantScript 2 7) = some w ∧
      w.shared.hist.granted 7 = true ∧
      (w.shared.table.lookup 7 = some 0 ∨ w.shared.hist.disc 7 = true ∨
        ∃ t, (w.thr t).overflow = some (7, 0)) := by
  have hrun : (system.exec Orderly (start 1 newSession) (grantScript 2 7)).map (fun w =>
        decide (w.shared.life.closed = false ∧ w.shared.hist.bound 7 = some 0 ∧
          w.shared.hist.granted 7 = true)) = some true := by
    decide +kernel
  obtain ⟨w, hw, he⟩ := Option.map_eq_some_iff.mp hrun
  obtain ⟨hopen, hbound, hgranted⟩ := of_decide_eq_true he
  exact ⟨w, hw, hgranted,
    granted_realm_owned (reach_of_exec (by decide) hw) hopen hbound hgranted⟩

/-- A `Dial` that times out on all its attempts. -/
def timeoutScript : List (Label Choice Time) :=
  dialScript 2 554 7 ++
    acts 2 ([.select .timeout, .go, .go, .draw 8] ++ gos 5 ++ [.udp .ok, .go, .select .timeout,
      .go, .go, .draw 9] ++ gos 5 ++ [.udp .ok, .go, .select .timeout] ++ gos 5)

/-- The CONN for the first attempt comes after `Dial` has given up: the device has granted
realm 7, its `Conn` is in no map, no DISC was sent or received, and every goroutine is back where
it started. -/
theorem granted_realm_abandoned :
    ∃ w, system.Reachable w ∧ w.shared.life.closed = false ∧ w.shared.hist.bound 7 = some 0 ∧
      w.shared.hist.granted 7 = true ∧ w.shared.table.lookup 7 = none ∧
      w.shared.hist.disc 7 = false ∧ ∀ t, w.thr t = startThreads t := by
  have hrun : (system.exec (fun _ _ => True) (start 1 newSession)
      (timeoutScript ++ receiveScript (newStatusBody 7 statusConnect) 4)).map (fun w => decide
        ((w.shared.life.closed = false ∧ w.shared.hist.bound 7 = some 0 ∧
          w.shared.hist.granted 7 = true ∧ w.shared.table.lookup 7 = none ∧
          w.shared.hist.disc 7 = false) ∧ ∀ t < 3, w.thr t = startThreads t)) = some true := by
    decide +kernel
  obtain ⟨w, hw, he⟩ := Option.map_eq_some_iff.mp hrun
  obtain ⟨⟨hopen, hbound, hgranted, hlookup, hdisc⟩, hthr⟩ := of_decide_eq_true he
  refine ⟨w, reach_of_exec (by decide) hw, hopen, hbound, hgranted, hlookup, hdisc, fun t => ?_⟩
  by_cases ht : t < 3
  · exact hthr t ht
  · exact exec_thr (by decide +kernel) (Nat.le_of_not_lt ht) hw

end DahuaP2p.Tunnel
