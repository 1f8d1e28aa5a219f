import DahuaP2p.TunnelScope

/-! # The ledger of realms

`Ledger` is what a tunnel keeps about its realms (the two maps, the answers that wait for `Dial`)
and what has happened to them; `Acts.ledger` lists what an action may do to it.  `Dial` runs under
`dialMu`, so there is at most one BIND attempt at a time, and only this attempt may be in
`t.realms` under its realm ID (`attempts`).  `OwnDeletes` is the condition on a run that a teardown
never removes the entry of another `Conn`: it fails only when a realm ID is drawn again while the
teardown of its former owner is still under way. -/

namespace DahuaP2p.Tunnel

open BigEndian Ptcp Threads

/-! ### Ledgers -/

/-- What a tunnel knows about its realms. -/
@[ext] structure Ledger where
  closed : Bool
  /-- `t.realms`. -/
  realms : UInt32 → Option ConnId
  /-- `t.connCh`. -/
  waiting : UInt32 → Option ConnId
  /-- The `connCh` of the attempt holds an answer. -/
  token : ConnId → Bool
  returned : ConnId → Bool
  timedOut : ConnId → Bool
  bound : UInt32 → Option ConnId
  granted : UInt32 → Bool
  disc : UInt32 → Bool

def Shared.ledger (s : Shared) : Ledger where
  closed := s.life.closed
  realms := s.table.lookup
  waiting id := s.table.connCh.lookup id
  token c := (s.table.conns c).connCh
  returned := s.hist.returned
  timedOut := s.hist.timedOut
  bound := s.hist.bound
  granted := s.hist.granted
  disc := s.hist.disc

/-- The UDP write of a packet, at once or after it was blocked. -/
def SendPc.Writes (p : SendPc) : Prop := ∃ q, p = .write q ∨ p = .blocked q

/-- What an action may do to the ledger. -/
inductive LedgerAct (s : Shared) : Pc → Ledger → Pc → Prop
  | closeEnter (k : CloseCall) :
      LedgerAct s (.close .enter k) { s.ledger with closed := true } (.close .stopAck k)
  | closeSwap (k : CloseCall) (ids : List (UInt32 × ConnId)) :
      (∀ id c, s.ledger.realms id = some c → (id, c) ∈ ids) →
      LedgerAct s (.close .swap k) { s.ledger with realms := fun _ => none }
        (.close (.signal ids ids) k)
  | connUnknown (r : UInt32) : s.ledger.waiting r = none →
      LedgerAct s (.reader (.conn r))
        { s.ledger with granted := Function.update s.ledger.granted r true } (.reader .ack)
  | conn (r : UInt32) (c : ConnId) : s.ledger.waiting r = some c →
      LedgerAct s (.reader (.conn r))
        { s.ledger with
          waiting := Function.update s.ledger.waiting r none
          token := Function.update s.ledger.token c true
          granted := Function.update s.ledger.granted r true } (.reader .ack)
  | discUnknown (r : UInt32) : s.ledger.realms r = none →
      LedgerAct s (.reader (.disc r))
        { s.ledger with disc := Function.update s.ledger.disc r true } (.reader .ack)
  | disc (r : UInt32) (c : ConnId) : s.ledger.realms r = some c →
      LedgerAct s (.reader (.disc r))
        { s.ledger with
          realms := Function.update s.ledger.realms r none
          disc := Function.update s.ledger.disc r true } (.signal .setClosed c .readerDisc)
  | overflow (r : UInt32) (c : ConnId) :
      LedgerAct s (.reader (.overflow r c))
        { s.ledger with realms := Function.update s.ledger.realms r none }
        (.signal .setClosed c (.readerOverflow r))
  | install (port : UInt32) (a : ℕ) (id : UInt32) : s.table.realms ≠ none →
      LedgerAct s (.dial (.install port a id))
        { s.ledger with realms := Function.update s.ledger.realms id (some s.table.connCount) }
        (.dial (.register port a id s.table.connCount))
  | register (port : UInt32) (a : ℕ) (id : UInt32) (c : ConnId) :
      LedgerAct s (.dial (.register port a id c))
        { s.ledger with waiting := Function.update s.ledger.waiting id (some c) }
        (.send .enter (.dial port a id c))
  | bind (p : SendPc) (port : UInt32) (a : ℕ) (id : UInt32) (c : ConnId) : p.Writes →
      LedgerAct s (.send p (.dial port a id c))
        { s.ledger with
          bound := Function.update s.ledger.bound id (some c)
          granted := Function.update s.ledger.granted id false
          disc := Function.update s.ledger.disc id false }
        (.send (.release none) (.dial port a id c))
  | sentDisc (p : SendPc) (k : SendCall) (r : UInt32) (c : ConnId) : p.Writes →
      k.disc = some (r, c) →
      LedgerAct s (.send p k) { s.ledger with disc := Function.update s.ledger.disc r true }
        (.send (.release none) k)
  | grant (port : UInt32) (a : ℕ) (id : UInt32) (c : ConnId) : s.ledger.token c = true →
      LedgerAct s (.dial (.wait port a id c))
        { s.ledger with
          token := Function.update s.ledger.token c false
          returned := Function.update s.ledger.returned c true } (.dial (.ret (.ok c)))
  | timeout (port : UInt32) (a : ℕ) (id : UInt32) (c : ConnId) :
      LedgerAct s (.dial (.wait port a id c))
        { s.ledger with timedOut := Function.update s.ledger.timedOut c true }
        (.dial (.dropRealm port a id c .retry))
  | dropRealm (port : UInt32) (a : ℕ) (id : UInt32) (c : ConnId) (why : Cleanup) :
      LedgerAct s (.dial (.dropRealm port a id c why))
        { s.ledger with realms := Function.update s.ledger.realms id none }
        (.dial (.dropConnCh port a id c why))
  | dropConnCh (port : UInt32) (a : ℕ) (id : UInt32) (c : ConnId) (why : Cleanup) (p : DialPc) :
      p.holds .dialMu = true →
      LedgerAct s (.dial (.dropConnCh port a id c why))
        { s.ledger with waiting := Function.update s.ledger.waiting id none } (.dial p)
  | remove (c : ConnId) :
      LedgerAct s (.connClose (.remove c))
        { s.ledger with
          realms := Function.update s.ledger.realms (s.table.conns c).realmID none } .idle

variable {s s' : Shared} {pc pc' : Pc} {L : Ledger} {w : World Shared Pc}
  {ok : World Shared Pc → Label Choice Time → Prop}

theorem LedgerAct.of_eq {L' : Ledger} (h : LedgerAct s pc L pc') (e : L' = L) :
    LedgerAct s pc L' pc' :=
  e ▸ h

/-! ### What the actions do to the ledger -/

theorem Table.delete_lookup_update (tb : Table) (r : UInt32) :
    (tb.delete r).lookup = Function.update tb.lookup r none := by
  funext id
  rw [Table.delete_lookup, Function.update_apply]

theorem lookup_erase_update (m : RealmMap) (r : UInt32) :
    (fun id => (m.erase r).lookup id) = Function.update (fun id => m.lookup id) r none := by
  funext id
  by_cases h : id = r
  · subst h
    simp
  · rw [AList.lookup_erase_ne h, Function.update_of_ne h]

theorem lookup_insert_update (m : RealmMap) (r : UInt32) (c : ConnId) :
    (fun id => (m.insert r c).lookup id) = Function.update (fun id => m.lookup id) r (some c) := by
  funext id
  by_cases h : id = r
  · subst h
    simp
  · rw [AList.lookup_insert_ne h, Function.update_of_ne h]

/-- `Close` finds every realm in the map that it has swapped. -/
theorem mem_realmEntries {tb : Table} {id : UInt32} {c : ConnId} (h : tb.lookup id = some c) :
    (id, c) ∈ (tb.realms.map realmEntries).getD [] := by
  unfold Table.lookup at h
  cases hr : tb.realms with
  | none =>
      rw [hr] at h
      cases h
  | some m =>
      rw [hr] at h
      simp only [Option.map_some, Option.getD_some, realmEntries, List.mem_map]
      exact ⟨⟨id, c⟩, AList.mem_lookup_iff.mp h, rfl⟩

/-- The answer of one attempt changes. -/
theorem token_update (tb : Table) (c : ConnId) (b : Bool) :
    (fun d => ((tb.setConn c { tb.conns c with connCh := b }).conns d).connCh) =
      Function.update (fun d => (tb.conns d).connCh) c b := by
  funext d
  by_cases h : d = c
  · subst h
    simp
  · rw [Table.setConn_conns_of_ne _ _ _ _ h, Function.update_of_ne h]

/-- A transmitted packet is a BIND or a DISC, or leaves the ledger alone. -/
theorem ledger_transmit {p : SendPc} (hp : p.Writes) (k : SendCall) (q : Packet) (h : History)
    (hh : s.hist.bound = h.bound ∧ s.hist.granted = h.granted ∧ s.hist.disc = h.disc ∧
      s.hist.returned = h.returned ∧ s.hist.timedOut = h.timedOut) :
    ({ s with hist := h.transmit q k } : Shared).ledger = s.ledger ∨
      LedgerAct s (.send p k) ({ s with hist := h.transmit q k } : Shared).ledger
        (k.written none) := by
  obtain ⟨hb, hg, hd, hr, ht⟩ := hh
  cases k with
  | dial port a id c =>
      refine Or.inr (.of_eq (.bind p port a id c hp) ?_)
      simp [Shared.ledger, History.transmit, SendCall.binds, hb, hg, hd, hr, ht]
  | closeDisc id c rest k =>
      refine Or.inr (.of_eq (.sentDisc p (.closeDisc id c rest k) id c hp rfl) ?_)
      simp [Shared.ledger, History.transmit, SendCall.binds, SendCall.disc, hb, hg, hd, hr, ht]
  | readerOverflow r c =>
      refine Or.inr (.of_eq (.sentDisc p (.readerOverflow r c) r c hp rfl) ?_)
      simp [Shared.ledger, History.transmit, SendCall.binds, SendCall.disc, hb, hg, hd, hr, ht]
  | connClose id c i =>
      refine Or.inr (.of_eq (.sentDisc p (.connClose id c i) id c hp rfl) ?_)
      simp [Shared.ledger, History.transmit, SendCall.binds, SendCall.disc, hb, hg, hd, hr, ht]
  | _ =>
      refine Or.inl ?_
      simp [Shared.ledger, History.transmit, SendCall.binds, SendCall.disc, hb, hg, hd, hr, ht]

/-- The ledger sees of a new memory only the fields it shows. -/
theorem ledger_congr (hc : s'.life.closed = s.life.closed) (hl : s'.table.lookup = s.table.lookup)
    (hw : s'.table.connCh = s.table.connCh)
    (ht : ∀ c, (s'.table.conns c).connCh = (s.table.conns c).connCh)
    (hh : s'.hist.returned = s.hist.returned ∧ s'.hist.timedOut = s.hist.timedOut ∧
      s'.hist.bound = s.hist.bound ∧ s'.hist.granted = s.hist.granted ∧
      s'.hist.disc = s.hist.disc) : s'.ledger = s.ledger := by
  obtain ⟨h₁, h₂, h₃, h₄, h₅⟩ := hh
  simp only [Shared.ledger, hc, hl, hw, ht, h₁, h₂, h₃, h₄, h₅]

/-- **Every action leaves the ledger alone or is one of these.** -/
theorem Acts.ledger (h : Acts s pc s' pc') (hblank : s.Blank s.table.connCount) :
    s'.ledger = s.ledger ∨ LedgerAct s pc s'.ledger pc' := by
  have hset : ∀ (d : ConnId) (cn : Conn), cn.connCh = (s.table.conns d).connCh →
      ∀ c, ((s.table.setConn d cn).conns c).connCh = (s.table.conns c).connCh :=
    fun d cn hcn c => s.table.setConn_field d c cn Conn.connCh hcn
  rcases h with ⟨rfl, _⟩ | h
  · exact Or.inl rfl
  · cases h with
    | setDeadline c t =>
        refine Or.inl (ledger_congr rfl rfl rfl (fun d => ?_) ⟨rfl, rfl, rfl, rfl, rfl⟩)
        rw [Shared.setWriteDeadline_field _ _ _ _ Conn.connCh fun _ _ _ => rfl,
          Shared.setReadDeadline_field _ _ _ _ Conn.connCh fun _ _ _ => rfl]
    | setReadDeadline c t =>
        exact Or.inl (ledger_congr rfl rfl rfl (fun d => Shared.setReadDeadline_field _ _ _ _
          Conn.connCh fun _ _ _ => rfl) ⟨rfl, rfl, rfl, rfl, rfl⟩)
    | setWriteDeadline c t =>
        exact Or.inl (ledger_congr rfl rfl rfl (fun d => Shared.setWriteDeadline_field _ _ _ _
          Conn.connCh fun _ _ _ => rfl) ⟨rfl, rfl, rfl, rfl, rfl⟩)
    | signalSetClosed c | signalCloseCh c | readerEnqueue _ c | connCloseEnter c | readBuffered c
    | readDrained c | readData c | readCopy c =>
        exact Or.inl (ledger_congr rfl rfl rfl (hset c _ (by rfl)) ⟨rfl, rfl, rfl, rfl, rfl⟩)
    | sendWriteOk k q =>
        exact ledger_transmit ⟨q, Or.inl rfl⟩ k q (s.hist.hand q k) ⟨rfl, rfl, rfl, rfl, rfl⟩
    | sendBlockedOk k q =>
        exact ledger_transmit ⟨q, Or.inr rfl⟩ k q s.hist ⟨rfl, rfl, rfl, rfl, rfl⟩
    | closeEnter k => exact Or.inr (.closeEnter k)
    | closeSwap k => exact Or.inr (.closeSwap k _ fun id c => mem_realmEntries)
    | readerConnUnknown r hn => exact Or.inr (.connUnknown r hn)
    | readerConn r c hl =>
        refine Or.inr (.of_eq (.conn r c hl) ?_)
        rw [Shared.ledger, Ledger.mk.injEq]
        exact ⟨rfl, rfl, lookup_erase_update _ r, token_update _ c true, rfl, rfl, rfl, rfl, rfl⟩
    | readerDiscUnknown r hn => exact Or.inr (.discUnknown r hn)
    | readerDisc r c hl =>
        refine Or.inr (.of_eq (.disc r c hl) ?_)
        rw [Shared.ledger, Ledger.mk.injEq]
        exact ⟨rfl, Table.delete_lookup_update _ r, rfl, rfl, rfl, rfl, rfl, rfl, rfl⟩
    | readerOverflow r c =>
        refine Or.inr (.of_eq (.overflow r c) ?_)
        rw [Shared.ledger, Ledger.mk.injEq]
        exact ⟨rfl, Table.delete_lookup_update _ r, rfl, rfl, rfl, rfl, rfl, rfl, rfl⟩
    | dialInstall port a id m hm =>
        refine Or.inr (.of_eq (.install port a id (by simp [hm])) ?_)
        rw [Shared.ledger, Ledger.mk.injEq]
        refine ⟨rfl, ?_, rfl, ?_, rfl, rfl, rfl, rfl, rfl⟩
        · funext r
          rw [Table.install_lookup _ _ _ _ hm, Function.update_apply]
          rfl
        · funext c
          by_cases hc : c = s.table.connCount
          · simp [hc, Table.install_conns_self, Shared.ledger, hblank.conn, blankConn]
          · simp [Table.install, Shared.ledger, hc]
    | dialRegister port a id c =>
        refine Or.inr (.of_eq (.register port a id c) ?_)
        rw [Shared.ledger, Ledger.mk.injEq]
        exact ⟨rfl, rfl, lookup_insert_update _ id c, rfl, rfl, rfl, rfl, rfl, rfl⟩
    | dialGranted port a id c htok =>
        refine Or.inr (.of_eq (.grant port a id c htok) ?_)
        rw [Shared.ledger, Ledger.mk.injEq]
        exact ⟨rfl, rfl, rfl, token_update _ c false, rfl, rfl, rfl, rfl, rfl⟩
    | dialTimeout port a id c => exact Or.inr (.timeout port a id c)
    | dialDropRealm port a id c why =>
        refine Or.inr (.of_eq (.dropRealm port a id c why) ?_)
        rw [Shared.ledger, Ledger.mk.injEq]
        exact ⟨rfl, Table.delete_lookup_update _ id, rfl, rfl, rfl, rfl, rfl, rfl, rfl⟩
    | dialFail port a id c | dialRetry port a id c | dialGiveUp port a id c =>
        refine Or.inr (.of_eq (.dropConnCh port a id c _ _ rfl) ?_)
        rw [Shared.ledger, Ledger.mk.injEq]
        exact ⟨rfl, rfl, lookup_erase_update _ id, rfl, rfl, rfl, rfl, rfl, rfl⟩
    | connCloseRemove c =>
        refine Or.inr (.of_eq (.remove c) ?_)
        rw [Shared.ledger, Ledger.mk.injEq]
        exact ⟨rfl, Table.delete_lookup_update _ _, rfl, rfl, rfl, rfl, rfl, rfl, rfl⟩
    | _ => exact Or.inl rfl

/-- Without `dialMu`, entries only leave `t.realms`, and no attempt begins or ends. -/
theorem LedgerAct.of_not_dial (h : LedgerAct s pc L pc') (hn : pc.holds .dialMu = false) :
    (∀ id d, L.realms id = some d → s.ledger.realms id = some d) ∧
      L.returned = s.ledger.returned ∧ L.timedOut = s.ledger.timedOut ∧
      L.bound = s.ledger.bound := by
  have hupd : ∀ {r id : UInt32} {d : ConnId},
      Function.update s.ledger.realms r none id = some d → s.ledger.realms id = some d := by
    intro r id d hd
    rw [Function.update_apply] at hd
    split at hd
    · cases hd
    · exact hd
  cases h with
  | closeSwap => exact ⟨fun _ _ hd => (nomatch hd), rfl, rfl, rfl⟩
  | disc | overflow | remove => exact ⟨fun _ _ hd => hupd hd, rfl, rfl, rfl⟩
  | install | register | bind | grant | timeout | dropRealm | dropConnCh =>
      simp [Pc.holds, DialPc.holds, SendCall.holds] at hn
  | _ => exact ⟨fun _ _ hd => hd, rfl, rfl, rfl⟩

/-! ### BIND attempts -/

def DialPc.attempt : DialPc → Option (UInt32 × ConnId)
  | register _ _ id c => some (id, c)
  | wait _ _ id c => some (id, c)
  | dropRealm _ _ id c _ => some (id, c)
  | _ => none

/-- The realm ID and the `Conn` of the BIND attempt that the goroutine is in. -/
def Pc.attempt : Pc → Option (UInt32 × ConnId)
  | .send _ k => k.binds
  | .dial p => p.attempt
  | _ => none

/-- The realm ID that the goroutine has drawn and not installed yet. -/
def Pc.drawn : Pc → Option UInt32
  | .dial (.install _ _ id) => some id
  | _ => none

section returns
variable (k : SendCall) (e : Option SendError) (c : ConnId) (j : SignalCall)

@[simp] theorem SendCall.ret_attempt : (k.ret e).attempt = k.binds := by
  cases k <;> cases e <;> simp only [SendCall.ret] <;> (try split) <;> rfl

@[simp] theorem Resumes.drawn (h : Resumes pc) : pc.drawn = none := by
  cases h <;> rfl

@[simp] theorem SendCall.written_attempt : (k.written e).attempt = k.binds := by
  rcases k.written_cases e with ⟨_, _, h⟩ | ⟨_, h⟩ <;> rw [h] <;> rfl

@[simp] theorem SendCall.written_drawn : (k.written e).drawn = none := by
  rcases k.written_cases e with ⟨_, _, h⟩ | ⟨_, h⟩ <;> rw [h] <;> rfl

@[simp] theorem SignalCall.ret_attempt : (j.ret c).attempt = none := by
  rcases j with _ | _ | _ | _ | _ <;> rfl

@[simp] theorem Background.attempt (h : Background pc) : pc.attempt = none := by
  cases h <;> rfl

end returns

/-- A BIND attempt runs under `dialMu`. -/
theorem Pc.holds_of_attempt {id : UInt32} {c : ConnId} (h : pc.attempt = some (id, c)) :
    pc.holds .dialMu = true := by
  cases pc with
  | send p k =>
      cases k with
      | dial => simp [Pc.holds, SendCall.holds]
      | _ => cases h
  | dial p =>
      cases p with
      | register | wait | dropRealm => rfl
      | _ => cases h
  | _ => cases h

theorem Pc.holds_of_drawn {id : UInt32} (h : pc.drawn = some id) : pc.holds .dialMu = true := by
  cases pc with
  | dial p =>
      cases p with
      | install => rfl
      | _ => cases h
  | _ => cases h

/-- An attempt goes on or ends, a free realm ID is drawn, or a `Conn` is installed. -/
theorem Acts.attempt_cases (h : Acts s pc s' pc') :
    (pc'.drawn = none ∧ (pc'.attempt = none ∨ pc'.attempt = pc.attempt)) ∨
    (∃ id, pc'.drawn = some id ∧ pc'.attempt = none ∧ s' = s ∧ s.ledger.realms id = none) ∨
    ∃ id, pc'.drawn = none ∧ pc'.attempt = some (id, s.table.connCount) ∧
      s'.ledger.realms id = some s.table.connCount ∧ s'.hist.returned = s.hist.returned := by
  rcases h with ⟨rfl, h⟩ | h
  · cases h with
    | sendCheckClosed | sendCheckExpired | sendSelectClosed | sendSelectDone | sendSelectTimeout =>
        exact Or.inl ⟨Resumes.drawn (by simp), Or.inr (SendCall.ret_attempt _ _)⟩
    | closeAgain k => exact Or.inl ⟨Resumes.drawn (by simp), Or.inl k.ret_background.attempt⟩
    | dialDraw port a id hn => exact Or.inr (Or.inl ⟨id, rfl, rfl, rfl, hn⟩)
    | _ => exact Or.inl ⟨rfl, by first | exact Or.inl rfl | exact Or.inr rfl⟩
  · cases h with
    | sendGiveBack | sendRelease =>
        exact Or.inl ⟨Resumes.drawn (by simp), Or.inr (SendCall.ret_attempt _ _)⟩
    | sendWriteOk | sendWriteFail | sendBlockedOk | sendBlockedFail =>
        exact Or.inl ⟨SendCall.written_drawn _ _, Or.inr (SendCall.written_attempt _ _)⟩
    | signalInterrupt | closeCallback | readerCount =>
        exact Or.inl ⟨Resumes.drawn (by simp), Or.inl (by simp)⟩
    | dialInstall port a id m hm =>
        refine Or.inr (Or.inr ⟨id, rfl, rfl, ?_, rfl⟩)
        simp [Shared.ledger, Table.install_lookup _ _ _ _ hm]
    | _ => exact Or.inl ⟨rfl, by first | exact Or.inl rfl | exact Or.inr rfl⟩

/-- A drawn realm ID is free, and the realm of a BIND attempt names no other `Conn`, which `Dial`
has not returned yet. -/
structure Attempting (L : Ledger) (pc : Pc) : Prop where
  drawn : ∀ id, pc.drawn = some id → L.realms id = none
  realm : ∀ id c, pc.attempt = some (id, c) → ∀ d, L.realms id = some d → d = c
  returned : ∀ id c, pc.attempt = some (id, c) → L.returned c = false

/-- What another goroutine does to an attempt. -/
theorem LedgerAct.attempting_other {qc : Pc} (h : LedgerAct s pc L pc')
    (hq : Attempting s.ledger qc)
    (hx : qc.holds .dialMu = true → pc.holds .dialMu = false) : Attempting L qc := by
  refine ⟨fun id he => ?_, fun id c he d hd => ?_, fun id c he => ?_⟩
  · have hsub := (h.of_not_dial (hx (Pc.holds_of_drawn he))).1
    have hfree := hq.drawn id he
    by_contra hsome
    obtain ⟨d, hd⟩ := Option.ne_none_iff_exists'.mp hsome
    rw [hsub id d hd] at hfree
    cases hfree
  · have hsub := (h.of_not_dial (hx (Pc.holds_of_attempt he))).1
    exact hq.realm id c he d (hsub id d hd)
  · rw [(h.of_not_dial (hx (Pc.holds_of_attempt he))).2.1]
    exact hq.returned id c he

/-- As long as an attempt goes on, entries only leave `t.realms`. -/
theorem LedgerAct.of_attempt {id : UInt32} {c : ConnId} (h : LedgerAct s pc L pc')
    (ha : pc'.attempt = some (id, c)) (hsame : pc'.attempt = pc.attempt) :
    L.realms = s.ledger.realms ∧ L.returned = s.ledger.returned := by
  cases h with
  | register | bind | timeout => exact ⟨rfl, rfl⟩
  | install => cases hsame
  | sentDisc p k r d _ hk =>
      cases k with
      | dial => cases hk
      | _ => cases ha
  | dropConnCh _ _ _ _ _ p => cases hsame ▸ ha
  | _ => cases ha

/-- What a goroutine does to its own attempt. -/
theorem Acts.attempting_self (h : Acts s pc s' pc') (hs : s.Scoped)
    (hblank : s.Blank s.table.connCount) (hp : Attempting s.ledger pc) :
    Attempting s'.ledger pc' := by
  rcases h.attempt_cases with ⟨hdn, ha⟩ | ⟨id, hid, hna, rfl, hfree⟩ | ⟨id, hdn, ha, hr, hret⟩
  · have hkeep : ∀ id c, pc'.attempt = some (id, c) → pc.attempt = some (id, c) ∧
        s'.ledger.realms = s.ledger.realms ∧ s'.ledger.returned = s.ledger.returned := by
      intro id c hc
      have hsame : pc'.attempt = pc.attempt := by
        rcases ha with ha | ha
        · rw [ha] at hc
          cases hc
        · exact ha
      refine ⟨hsame ▸ hc, ?_⟩
      rcases h.ledger hblank with he | hl
      · rw [he]
        exact ⟨rfl, rfl⟩
      · exact hl.of_attempt hc hsame
    refine ⟨fun id hid => ?_, fun id c hc d hd => ?_, fun id c hc => ?_⟩
    · rw [hdn] at hid
      cases hid
    · obtain ⟨hc, hr, _⟩ := hkeep id c hc
      exact hp.realm id c hc d (hr ▸ hd)
    · obtain ⟨hc, _, hret⟩ := hkeep id c hc
      rw [hret]
      exact hp.returned id c hc
  · refine ⟨fun id' he => ?_, fun id' c hc => ?_, fun id' c hc => ?_⟩
    · rw [hid] at he
      cases he
      exact hfree
    · rw [hna] at hc
      cases hc
    · rw [hna] at hc
      cases hc
  · refine ⟨fun id' he => ?_, fun id' c hc d hd => ?_, fun id' c hc => ?_⟩
    · rw [hdn] at he
      cases he
    · rw [ha] at hc
      cases hc
      rw [hr] at hd
      exact (Option.some.inj hd).symm
    · rw [ha] at hc
      cases hc
      refine Bool.eq_false_iff.mpr fun ht => ?_
      have ht : s.hist.returned s.table.connCount = true := hret ▸ ht
      exact (hs.returned _ ht).false

/-- **At most one BIND attempt**: its realm names no other `Conn`. -/
theorem attempts (h : system.Reach ok w) (t : ℕ) : Attempting w.shared.ledger (w.thr t) := by
  revert t
  refine system_invariant (I := fun w => ∀ t, Attempting w.shared.ledger (w.thr t)) ?_ ?_ ?_ h
  · intro now session _
    exact forall_startThreads (P := fun p => Attempting (start now session).shared.ledger p)
      ⟨nofun, nofun, nofun⟩ ⟨nofun, nofun, nofun⟩ ⟨nofun, nofun, nofun⟩
  · intro w t c s pc hr hi _ _ ha
    have hscope := scope hr
    have hblank := hscope.blank _ le_rfl
    refine forall_update (ha.attempting_self hscope.shared hblank (hi t)) fun u hu => ?_
    rcases ha.ledger hblank with he | hl
    · rw [he]
      exact hi u
    · refine hl.attempting_other (hi u) fun hd => Bool.eq_false_iff.mpr fun ht => hu ?_
      exact (resource_exclusive hr .dialMu).unique ht hd
  · intro w d _ hi
    exact hi

/-- A teardown removes no entry of another `Conn` from `t.realms`. -/
def OwnDeletes (w : World Shared Pc) : Label Choice Time → Prop
  | .thread t _ => match w.thr t with
    | .reader (.overflow r c) => ∀ d ∈ w.shared.table.lookup r, d = c
    | .connClose (.remove c) => ∀ d ∈ w.shared.table.lookup (w.shared.table.conns c).realmID, d = c
    | _ => True
  | .env _ => True

/-- The entry that a teardown is about to delete, and the `Conn` that it means. -/
def Pc.deletes (s : Shared) : Pc → Option (UInt32 × ConnId)
  | .reader (.overflow r c) => some (r, c)
  | .connClose (.remove c) => some ((s.table.conns c).realmID, c)
  | _ => none

theorem ownDeletes_thread_iff (w : World Shared Pc) (t : ℕ) (ch : Choice) :
    (∀ e ∈ (w.thr t).deletes w.shared, ∀ d ∈ w.shared.table.lookup e.1, d = e.2) ↔
      OwnDeletes w (.thread t ch) := by
  unfold OwnDeletes
  dsimp only
  split
  · next h => simp [h, Pc.deletes]
  · next h => simp [h, Pc.deletes]
  · next hr hc =>
      refine ⟨fun _ => trivial, fun _ e he => ?_⟩
      unfold Pc.deletes at he
      split at he
      · next h => exact absurd h (hr _ _)
      · next h => exact absurd h (hc _)
      · cases he

instance (w : World Shared Pc) : ∀ l, Decidable (OwnDeletes w l)
  | .thread t ch => decidable_of_iff _ (ownDeletes_thread_iff w t ch)
  | .env _ => .isTrue trivial

theorem OwnDeletes.overflow {t : ℕ} {ch : Choice} {r : UInt32} {c d : ConnId}
    (h : OwnDeletes w (.thread t ch)) (ht : w.thr t = .reader (.overflow r c))
    (hd : w.shared.ledger.realms r = some d) : d = c := by
  simp only [OwnDeletes, ht] at h
  exact h d hd

theorem OwnDeletes.remove {t : ℕ} {ch : Choice} {c d : ConnId}
    (h : OwnDeletes w (.thread t ch)) (ht : w.thr t = .connClose (.remove c))
    (hd : w.shared.ledger.realms (w.shared.table.conns c).realmID = some d) : d = c := by
  simp only [OwnDeletes, ht] at h
  exact h d hd

/-! ### The parts of `sendPacketFor` that only a writer runs, or only another sender -/

def SendPc.ofWriter : SendPc → Bool
  | enter => false
  | await => false
  | build => false
  | write _ => false
  | release _ => false
  | _ => true

def Pc.WriterOnly : Pc → Prop
  | .send p k => (p.ofWriter = true → k.writer ≠ none) ∧ (p = .await → k.writer = none)
  | _ => True

theorem Pc.WriterOnly.enter {k : SendCall} : (Pc.send .enter k).WriterOnly := ⟨nofun, nofun⟩

theorem Pc.WriterOnly.of_writer {p : SendPc} {k : SendCall} (hk : k.writer ≠ none)
    (hp : p ≠ .await) : (Pc.send p k).WriterOnly :=
  ⟨fun _ => hk, fun h => absurd h hp⟩

theorem SendCall.ret_writerOnly (k : SendCall) (e : Option SendError) : (k.ret e).WriterOnly := by
  cases k <;> cases e <;> simp only [SendCall.ret] <;> (try split) <;>
    first | trivial | exact .enter

theorem SendCall.written_writerOnly (k : SendCall) (e : Option SendError) :
    (k.written e).WriterOnly := by
  rcases k.written_cases e with ⟨c, hk, h⟩ | ⟨_, h⟩
  · rw [h]
    exact .of_writer (by rw [hk]; exact nofun) nofun
  · rw [h]
    exact ⟨nofun, nofun⟩

theorem Background.writerOnly (h : Background pc) : pc.WriterOnly := by
  cases h <;> trivial

theorem Acts.writerOnly (h : Acts s pc s' pc') (hp : pc.WriterOnly) : pc'.WriterOnly := by
  rcases h with ⟨rfl, h⟩ | h
  · cases h with
    | sendEnter k _ hk => exact ⟨nofun, fun _ => hk⟩
    | sendEnterWriter k c _ hk | sendCheck k c hk | sendWon k c hk | sendReadDeadline k c hk =>
        exact .of_writer (by rw [hk]; exact nofun) nofun
    | sendCheckClosed | sendCheckExpired | sendSelectClosed | sendSelectDone | sendSelectTimeout =>
        exact SendCall.ret_writerOnly _ _
    | sendSelectChanged | sendWonDone => exact .of_writer (hp.1 rfl) nofun
    | closeAgain k => exact k.ret_background.writerOnly
    | _ => first | trivial | exact .enter
  · cases h with
    | sendOnce k _ hk => exact ⟨nofun, fun _ => hk⟩
    | sendOnceWriter k c _ hk | sendTakeWriter k c _ _ hk | sendWriteBlock k c _ hk =>
        exact .of_writer (by rw [hk]; exact nofun) nofun
    | sendGiveBack | sendRelease => exact SendCall.ret_writerOnly _ _
    | sendWriteOk | sendWriteFail | sendBlockedOk | sendBlockedFail =>
        exact SendCall.written_writerOnly _ _
    | sendLockDeadline | sendRelock => exact .of_writer (hp.1 rfl) nofun
    | signalInterrupt c k =>
        rcases k with _ | _ | _ | _ | _ <;> first | trivial | exact .enter
    | closeCallback k => exact k.ret_background.writerOnly
    | readerCount q => exact (dispatch_background q.body).writerOnly
    | _ => first | trivial | exact ⟨nofun, nofun⟩

theorem writerOnly (h : system.Reach ok w) (t : ℕ) : (w.thr t).WriterOnly := by
  revert t
  refine system_invariant (I := fun w => ∀ t, (w.thr t).WriterOnly) ?_ ?_ ?_ h
  · intro now session _
    exact forall_startThreads trivial trivial trivial
  · intro w t c s pc _ hi _ _ ha
    exact forall_update (P := fun _ (p : Pc) => p.WriterOnly) (ha.writerOnly (hi t)) fun u _ => hi u
  · intro w d _ hi
    exact hi

/-- `Tunnel.Close` sets `t.closed` and closes `t.done` together. -/
theorem done_eq_closed (h : system.Reach ok w) : w.shared.life.done = w.shared.life.closed := by
  refine system_invariant (I := fun w => w.shared.life.done = w.shared.life.closed) ?_ ?_ ?_ h
  · intro now session _
    rfl
  · intro w t c s pc _ hi _ _ ha
    rcases ha with ⟨rfl, _⟩ | ha
    · exact hi
    · generalize w.thr t = p at ha
      cases ha with
      | closeEnter => rfl
      | _ => exact hi
  · intro w d _ hi
    exact hi

end DahuaP2p.Tunnel
