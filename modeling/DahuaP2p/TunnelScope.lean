import DahuaP2p.TunnelLocks

/-! # Which `Conn`s a tunnel refers to

`Dial` numbers its `Conn`s; everything that names a `Conn` afterwards (the maps, the control
states) names one that was made, under its own realm ID, and the methods of a `Conn` run only
after `Dial` has returned it.  A `Conn` that is not made yet is blank.  `Scope` collects this and
`scope` proves it for every reachable state. -/

namespace DahuaP2p.Tunnel

open BigEndian Ptcp Threads

/-- `c` was made, with realm ID `id`. -/
def Shared.Named (s : Shared) (id : UInt32) (c : ConnId) : Prop :=
  c < s.table.connCount ∧ (s.table.conns c).realmID = id

/-- `Dial` has made and returned `c`. -/
def Shared.Returned (s : Shared) (c : ConnId) : Prop :=
  c < s.table.connCount ∧ s.hist.returned c = true

/-- A later memory: no `Conn` is forgotten, renamed or taken back. -/
structure Shared.Extends (s s' : Shared) : Prop where
  count : s.table.connCount ≤ s'.table.connCount
  realmID : ∀ c, c < s.table.connCount → (s'.table.conns c).realmID = (s.table.conns c).realmID
  returned : ∀ c, s.hist.returned c = true → s'.hist.returned c = true

/-! ### Control states -/

def SendCall.Scoped (s : Shared) : SendCall → Prop
  | closeDisc id c rest _ => s.Named id c ∧ ∀ e ∈ rest, s.Named e.1 e.2
  | readerOverflow realm c => s.Named realm c
  | dial _ _ id c => s.Named id c
  | connClose id c _ => s.Named id c ∧ s.Returned c
  | write id c _ _ _ => s.Named id c ∧ s.Returned c
  | _ => True

def SignalCall.Scoped (s : Shared) (c : ConnId) : SignalCall → Prop
  | close todo ids _ => (∀ e ∈ todo, s.Named e.1 e.2) ∧ ∀ e ∈ ids, s.Named e.1 e.2
  | readerOverflow realm => s.Named realm c
  | connClose _ => s.Returned c
  | readerDisc => True

def ReadPc.conn : ReadPc → ConnId
  | lock c _ => c
  | drain c _ => c
  | select c _ _ _ => c
  | copy c _ _ => c

/-- The control state names only `Conn`s that were made, under their own realm IDs, and runs
methods only of `Conn`s that were returned. -/
def Pc.Scoped (s : Shared) : Pc → Prop
  | .send _ k => k.Scoped s
  | .signal _ c k => c < s.table.connCount ∧ k.Scoped s c
  | .close (.signal todo ids) _ => (∀ e ∈ todo, s.Named e.1 e.2) ∧ ∀ e ∈ ids, s.Named e.1 e.2
  | .close (.disc ids) _ => ∀ e ∈ ids, s.Named e.1 e.2
  | .reader (.enqueue realm c _) => s.Named realm c
  | .reader (.overflow realm c) => s.Named realm c
  | .dial (.register _ _ id c) => s.Named id c
  | .dial (.wait _ _ id c) => s.Named id c
  | .dial (.dropRealm _ _ id c _) => s.Named id c
  | .dial (.dropConnCh _ _ id c _) => s.Named id c
  | .dial (.ret (.ok c)) => s.Returned c
  | .connClose (.enter c) => s.Returned c
  | .connClose (.check c) => s.Returned c
  | .connClose (.remove c) => s.Returned c
  | .write (.enter c _) => s.Returned c
  | .write (.check c _) => s.Returned c
  | .write (.loop c _ _) => s.Returned c
  | .write (.ret c _ _) => s.Returned c
  | .read p => s.Returned p.conn
  | .deadline (.lock c _) => s.Returned c
  | .deadline (.read c _) => s.Returned c
  | .deadline (.update c _ _) => s.Returned c
  | _ => True

variable {s s' : Shared} {pc pc' : Pc}

theorem Shared.Extends.refl (s : Shared) : s.Extends s := ⟨le_rfl, fun _ _ => rfl, fun _ => id⟩

theorem Shared.Named.mono {id : UInt32} {c : ConnId} (h : s.Named id c) (he : s.Extends s') :
    s'.Named id c :=
  ⟨h.1.trans_le he.count, (he.realmID c h.1).trans h.2⟩

theorem Shared.Returned.mono {c : ConnId} (h : s.Returned c) (he : s.Extends s') :
    s'.Returned c :=
  ⟨h.1.trans_le he.count, he.returned c h.2⟩

theorem SendCall.Scoped.mono {k : SendCall} (h : k.Scoped s) (he : s.Extends s') : k.Scoped s' := by
  cases k with
  | closeDisc => exact ⟨h.1.mono he, fun e hm => (h.2 e hm).mono he⟩
  | readerOverflow | dial => exact Shared.Named.mono h he
  | connClose | write => exact ⟨h.1.mono he, h.2.mono he⟩
  | _ => trivial

theorem SignalCall.Scoped.mono {c : ConnId} {k : SignalCall} (h : k.Scoped s c)
    (he : s.Extends s') : k.Scoped s' c := by
  cases k with
  | close => exact ⟨fun e hm => (h.1 e hm).mono he, fun e hm => (h.2 e hm).mono he⟩
  | readerOverflow => exact Shared.Named.mono h he
  | connClose => exact Shared.Returned.mono h he
  | readerDisc => trivial

/-- Scoping survives in a later memory. -/
theorem Pc.Scoped.mono (h : pc.Scoped s) (he : s.Extends s') : pc.Scoped s' := by
  unfold Pc.Scoped at h ⊢
  split at h
  · exact SendCall.Scoped.mono h he
  · exact ⟨h.1.trans_le he.count, h.2.mono he⟩
  · exact ⟨fun e hm => (h.1 e hm).mono he, fun e hm => (h.2 e hm).mono he⟩
  · exact fun e hm => (h e hm).mono he
  · exact Shared.Named.mono h he
  · exact Shared.Named.mono h he
  · exact Shared.Named.mono h he
  · exact Shared.Named.mono h he
  · exact Shared.Named.mono h he
  · exact Shared.Named.mono h he
  all_goals first | exact Shared.Returned.mono h he | trivial

/-! ### Return points -/

section returns
variable {k : SendCall} {e : Option SendError} {c : ConnId} {j : SignalCall}

theorem SendCall.Scoped.ret (h : k.Scoped s) : (k.ret e).Scoped s := by
  cases k with
  | closeDisc => exact h.2
  | dial => cases e <;> exact h
  | connClose id c i =>
      cases e with
      | none =>
          simp only [SendCall.ret]
          split
          · exact h
          · exact h.2
      | some _ => exact h.2
  | write => cases e <;> exact h.2
  | _ => trivial

theorem SendCall.Scoped.written (h : k.Scoped s) : (k.written e).Scoped s := by
  rcases k.written_cases e with ⟨_, _, hw⟩ | ⟨_, hw⟩ <;> rw [hw] <;> exact h

theorem SignalCall.Scoped.ret (h : j.Scoped s c) : (j.ret c).Scoped s := by
  cases j with
  | close => exact h
  | readerOverflow => exact h
  | readerDisc => trivial
  | connClose b =>
      cases b with
      | true => trivial
      | false => exact h

theorem Background.scoped (h : Background pc) : pc.Scoped s := by
  cases h <;> trivial

end returns

/-! ### The invariant -/

/-- The maps and the record of returned `Conn`s are scoped. -/
structure Shared.Scoped (s : Shared) : Prop where
  realms : ∀ id c, s.table.lookup id = some c → s.Named id c
  connCh : ∀ id c, s.table.connCh.lookup id = some c → s.Named id c
  returned : ∀ c, s.hist.returned c = true → c < s.table.connCount

theorem Shared.Scoped.toReturned (hs : s.Scoped) {c : ConnId} (h : s.hist.returned c = true) :
    s.Returned c :=
  ⟨hs.returned c h, h⟩

theorem Local.scoped (h : Local s pc pc') (hs : s.Scoped) (hp : pc.Scoped s) : pc'.Scoped s := by
  cases h with
  | callConnClose _ hr | callWrite _ _ hr | callRead _ _ hr => exact hs.toReturned hr
  | sendCheckClosed | sendCheckExpired | sendSelectClosed | sendSelectDone | sendSelectTimeout =>
      exact SendCall.Scoped.ret hp
  | closeAgain k => exact k.ret_background.scoped
  | closeSignalled => exact hp.2
  | closeSignal todo ids i id c k hi =>
      exact ⟨(hp.1 _ (List.mem_of_getElem? hi)).1, fun e he => hp.1 e (List.mem_of_mem_eraseIdx he),
        hp.2⟩
  | closeDisc ids i id c k hi =>
      exact ⟨hp _ (List.mem_of_getElem? hi), fun e he => hp e (List.mem_of_mem_eraseIdx he)⟩
  | connCloseDisc c | writeChunk c => exact ⟨⟨hp.1, rfl⟩, hp⟩
  | _ => first | exact hp | trivial

/-- No action forgets, renames or takes back a `Conn`. -/
theorem Acts.extends (h : Acts s pc s' pc') : s.Extends s' := by
  have hset : ∀ (c : ConnId) (cn : Conn), cn.realmID = (s.table.conns c).realmID →
      ∀ d, ((s.table.setConn c cn).conns d).realmID = (s.table.conns d).realmID :=
    fun c cn hcn d => s.table.setConn_field c d cn Conn.realmID hcn
  rcases h with ⟨rfl, _⟩ | h
  · exact .refl _
  · cases h with
    | setDeadline c t =>
        refine ⟨le_rfl, fun d _ => ?_, fun _ => id⟩
        rw [Shared.setWriteDeadline_field _ _ _ _ Conn.realmID fun _ _ _ => rfl,
          Shared.setReadDeadline_field _ _ _ _ Conn.realmID fun _ _ _ => rfl]
    | setReadDeadline c t =>
        exact ⟨le_rfl, fun d _ => Shared.setReadDeadline_field _ _ _ _ Conn.realmID
          fun _ _ _ => rfl, fun _ => id⟩
    | setWriteDeadline c t =>
        exact ⟨le_rfl, fun d _ => Shared.setWriteDeadline_field _ _ _ _ Conn.realmID
          fun _ _ _ => rfl, fun _ => id⟩
    | signalSetClosed | signalCloseCh | readerConn | readerEnqueue | connCloseEnter | readBuffered
    | readDrained | readData | readCopy =>
        exact ⟨le_rfl, fun d _ => hset _ _ (by rfl) d, fun _ => id⟩
    | dialGranted port a id c =>
        refine ⟨le_rfl, fun d _ => hset _ _ (by rfl) d, fun d hd => ?_⟩
        simp only [Function.update_apply]
        split
        · rfl
        · exact hd
    | dialInstall port a id m =>
        exact ⟨Nat.le_succ _, fun d hd => by rw [Table.install_conns_of_lt _ _ _ _ hd],
          fun _ hd => hd⟩
    | _ => exact ⟨le_rfl, fun _ _ => rfl, fun _ => id⟩

/-- The maps stay scoped. -/
theorem Acts.shared_scoped (h : Acts s pc s' pc') (hs : s.Scoped) (hp : pc.Scoped s) :
    s'.Scoped := by
  have he := h.extends
  rcases h with ⟨rfl, _⟩ | h
  · exact hs
  · have hdel : ∀ {realm id : UInt32} {c : ConnId}, (s.table.delete realm).lookup id = some c →
        s.table.lookup id = some c := by
      intro realm id c hl
      rw [Table.delete_lookup] at hl
      split at hl
      · cases hl
      · exact hl
    have herase : ∀ {realm id : UInt32} {c : ConnId},
        (s.table.connCh.erase realm).lookup id = some c → s.table.connCh.lookup id = some c := by
      intro realm id c hl
      by_cases hr : id = realm
      · subst hr
        simp at hl
      · rwa [AList.lookup_erase_ne hr] at hl
    cases h with
    | closeSwap => exact ⟨fun _ _ h => (hs.realms _ _ (by cases h)).mono he,
        fun id c h => (hs.connCh id c h).mono he, hs.returned⟩
    | readerConn realm c _ _ =>
        exact ⟨fun id c h => (hs.realms id c h).mono he,
          fun id c h => (hs.connCh id c (herase h)).mono he, hs.returned⟩
    | readerDisc | readerOverflow | dialDropRealm | connCloseRemove =>
        exact ⟨fun id c h => (hs.realms id c (hdel h)).mono he,
          fun id c h => (hs.connCh id c h).mono he, hs.returned⟩
    | dialFail | dialRetry | dialGiveUp =>
        exact ⟨fun id c h => (hs.realms id c h).mono he,
          fun id c h => (hs.connCh id c (herase h)).mono he, hs.returned⟩
    | dialRegister port a id c =>
        refine ⟨fun id c h => (hs.realms id c h).mono he, fun id' c' h => ?_, hs.returned⟩
        by_cases hid : id' = id
        · subst hid
          simp only [AList.lookup_insert, Option.some.injEq] at h
          subst h
          exact Shared.Named.mono hp he
        · rw [AList.lookup_insert_ne hid] at h
          exact (hs.connCh id' c' h).mono he
    | dialInstall port a id m hm =>
        refine ⟨fun id' c' h => ?_, fun id c h => (hs.connCh id c h).mono he,
          fun c hc => Nat.lt_succ_of_lt (hs.returned c hc)⟩
        rw [Table.install_lookup _ _ _ _ hm] at h
        split at h
        · obtain rfl := Option.some.inj h
          exact ⟨Nat.lt_succ_self _, by simp [Table.install_conns_self, *]⟩
        · exact (hs.realms id' c' h).mono he
    | dialGranted port a id c =>
        refine ⟨fun id c h => (hs.realms id c h).mono he, fun id c h => (hs.connCh id c h).mono he,
          fun d hd => ?_⟩
        simp only [Function.update_apply] at hd
        split at hd
        · next hdc =>
            subst hdc
            exact hp.1
        · exact hs.returned d hd
    | _ =>
        exact ⟨fun id c h => (hs.realms id c h).mono he, fun id c h => (hs.connCh id c h).mono he,
          hs.returned⟩

/-- The goroutine that moved stays scoped. -/
theorem Acts.pc_scoped (h : Acts s pc s' pc') (hs : s.Scoped) (hp : pc.Scoped s) :
    pc'.Scoped s' := by
  have he := h.extends
  rcases h with ⟨rfl, h⟩ | h
  · exact h.scoped hs hp
  · cases h with
    | setDeadline _ _ hr | setWriteDeadline _ _ hr =>
        exact (hs.toReturned hr).mono he
    | sendGiveBack | sendRelease => exact (SendCall.Scoped.ret hp).mono he
    | sendWriteOk | sendWriteFail | sendBlockedOk | sendBlockedFail =>
        exact (SendCall.Scoped.written hp).mono he
    | signalInterrupt => exact (SignalCall.Scoped.ret hp.2).mono he
    | closeCallback k => exact k.ret_background.scoped
    | readerCount q => exact (dispatch_background q.body).scoped
    | closeSwap k =>
        have hids : ∀ e ∈ (s.table.realms.map realmEntries).getD [], s.Named e.1 e.2 := by
          intro e hmem
          cases hr : s.table.realms with
          | none => simp [hr] at hmem
          | some m =>
              simp only [hr, Option.map_some, Option.getD_some, realmEntries, List.mem_map] at hmem
              obtain ⟨a, ha, rfl⟩ := hmem
              refine hs.realms a.1 a.2 ?_
              simp only [Table.lookup, hr, Option.bind_some]
              exact AList.mem_lookup_iff.mpr ha
        exact ⟨fun e hm => (hids e hm).mono he, fun e hm => (hids e hm).mono he⟩
    | readerDisc realm c hl =>
        exact ⟨(hs.realms realm c hl).1, trivial⟩
    | readerLookup realm data c hl => exact (hs.realms realm c hl).mono he
    | readerOverflow realm c => exact ⟨hp.1, Shared.Named.mono hp he⟩
    | dialInstall port a id m =>
        exact ⟨Nat.lt_succ_self _, by simp [Table.install_conns_self]⟩
    | dialGranted port a id c => exact ⟨hp.1, by simp⟩
    | connCloseEnter c => exact ⟨hp.1, Shared.Returned.mono hp he⟩
    | _ => first | exact Pc.Scoped.mono hp he | trivial

/-! ### Blank `Conn`s -/

/-- Nothing has happened to `c`. -/
structure Shared.Blank (s : Shared) (c : ConnId) : Prop where
  conn : s.table.conns c = blankConn
  enqueued : s.hist.enqueued c = []
  reads : s.hist.reads c = []
  torn : s.hist.torn c = none
  closeCalled : s.hist.closeCalled c = false
  timedOut : s.hist.timedOut c = false
  bound : ∀ id, s.hist.bound id ≠ some c

/-- An action leaves the `Conn`s blank that are not made yet. -/
theorem Acts.blank (h : Acts s pc s' pc') (hs : s.Scoped) (hp : pc.Scoped s)
    (hblank : ∀ c, s.table.connCount ≤ c → s.Blank c) {c : ConnId}
    (hc : s'.table.connCount ≤ c) : s'.Blank c := by
  have hb := hblank c (h.extends.count.trans hc)
  have hne : ∀ {d}, d < s.table.connCount → c ≠ d := fun {d} hd =>
    (hd.trans_le (h.extends.count.trans hc)).ne'
  rcases h with ⟨rfl, _⟩ | h
  · exact hb
  · have hset : ∀ {d} (cn : Conn), d < s.table.connCount →
        (s.table.setConn d cn).conns c = blankConn := fun {d} cn hd => by
      rw [Table.setConn_conns_of_ne _ _ _ _ (hne hd), hb.conn]
    have hbound : ∀ {k : SendCall} (q : Packet), k.Scoped s →
        ∀ id, (s.hist.transmit q k).bound id ≠ some c := by
      intro k q hk id
      cases k with
      | dial port a id' d =>
          simp only [History.transmit, SendCall.binds, Function.update_apply]
          split
          · exact fun hd => hne hk.1 (Option.some.inj hd).symm
          · exact hb.bound id
      | _ => exact hb.bound id
    cases h with
    | setDeadline d t hr =>
        refine ⟨?_, hb.2, hb.3, hb.4, hb.5, hb.6, hb.7⟩
        rw [Shared.setWriteDeadline_conns_of_ne _ _ _ _ (hne (hs.returned d hr)),
          Shared.setReadDeadline_conns_of_ne _ _ _ _ (hne (hs.returned d hr)), hb.conn]
    | setReadDeadline d t hr =>
        refine ⟨?_, hb.2, hb.3, hb.4, hb.5, hb.6, hb.7⟩
        rw [Shared.setReadDeadline_conns_of_ne _ _ _ _ (hne (hs.returned d hr)), hb.conn]
    | setWriteDeadline d t hr =>
        refine ⟨?_, hb.2, hb.3, hb.4, hb.5, hb.6, hb.7⟩
        rw [Shared.setWriteDeadline_conns_of_ne _ _ _ _ (hne (hs.returned d hr)), hb.conn]
    | sendWriteOk k q | sendBlockedOk k q =>
        exact ⟨hb.1, hb.2, hb.3, hb.4, hb.5, hb.6, hbound q hp⟩
    | signalSetClosed | signalCloseCh | dialGranted =>
        exact ⟨hset _ hp.1, hb.2, hb.3, hb.4, hb.5, hb.6, hb.7⟩
    | readerConn realm d hl =>
        exact ⟨hset _ (hs.connCh realm d hl).1, hb.2, hb.3, hb.4, hb.5, hb.6, hb.7⟩
    | readerDisc realm d hl =>
        refine ⟨hb.1, hb.2, hb.3, ?_, hb.5, hb.6, hb.7⟩
        simpa [hne (hs.realms realm d hl).1] using hb.torn
    | readerEnqueue realm d data =>
        refine ⟨hset _ hp.1, ?_, hb.3, hb.4, hb.5, hb.6, hb.7⟩
        simpa [hne hp.1] using hb.enqueued
    | readerOverflow realm d =>
        refine ⟨hb.1, hb.2, hb.3, ?_, hb.5, hb.6, hb.7⟩
        simpa [hne hp.1] using hb.torn
    | dialInstall port a id m =>
        refine ⟨?_, hb.2, hb.3, hb.4, hb.5, hb.6, hb.7⟩
        have hcne : c ≠ s.table.connCount := (Nat.lt_of_succ_le hc).ne'
        simpa [Table.install, hcne] using hb.conn
    | dialTimeout port a id d =>
        refine ⟨hb.1, hb.2, hb.3, hb.4, hb.5, ?_, hb.7⟩
        simpa [hne hp.1] using hb.timedOut
    | connCloseEnter d =>
        refine ⟨hset _ hp.1, hb.2, hb.3, hb.4, ?_, hb.6, hb.7⟩
        simpa [hne hp.1] using hb.closeCalled
    | readBuffered d | readCopy d =>
        refine ⟨hset _ hp.1, hb.2, ?_, hb.4, hb.5, hb.6, hb.7⟩
        have hcd : c ≠ d := hne hp.1
        simpa [History.logRead, hcd] using hb.reads
    | readExpired d | readEof d | readTimeout d =>
        refine ⟨hb.1, hb.2, ?_, hb.4, hb.5, hb.6, hb.7⟩
        have hcd : c ≠ d := hne hp.1
        simpa [History.logRead, hcd] using hb.reads
    | readDrained d | readData d =>
        exact ⟨hset _ hp.1, hb.2, hb.3, hb.4, hb.5, hb.6, hb.7⟩
    | _ => exact ⟨hb.1, hb.2, hb.3, hb.4, hb.5, hb.6, hb.7⟩

/-! ### Every reachable state -/

/-- The maps and every goroutine are scoped, and what is not made yet is blank. -/
structure Scope (w : World Shared Pc) : Prop where
  shared : w.shared.Scoped
  thr : ∀ t, (w.thr t).Scoped w.shared
  blank : ∀ c, w.shared.table.connCount ≤ c → w.shared.Blank c

theorem scope {ok : World Shared Pc → Label Choice Time → Prop} {w : World Shared Pc}
    (h : system.Reach ok w) : Scope w := by
  refine system_invariant (I := Scope) ?_ ?_ ?_ h
  · intro now session _
    refine ⟨⟨fun id c hl => ?_, fun id c hl => ?_, fun c hc => ?_⟩,
      forall_startThreads trivial trivial trivial, fun c _ => ⟨rfl, rfl, rfl, rfl, rfl, rfl, ?_⟩⟩
    · simp [start, Table.lookup] at hl
    · simp [start] at hl
    · simp [start] at hc
    · intro id
      simp [start]
  · intro w t c s pc _ hi _ _ ha
    refine ⟨ha.shared_scoped hi.shared (hi.thr t),
      forall_update (ha.pc_scoped hi.shared (hi.thr t)) fun u _ => (hi.thr u).mono ha.extends,
      fun d hd => ha.blank hi.shared (hi.thr t) hi.blank hd⟩
  · intro w d _ hi
    exact ⟨⟨hi.shared.realms, hi.shared.connCh, hi.shared.returned⟩,
      fun t => (hi.thr t).mono ⟨le_rfl, fun _ _ => rfl, fun _ => id⟩,
      fun c hc => ⟨(hi.blank c hc).1, (hi.blank c hc).2, (hi.blank c hc).3, (hi.blank c hc).4,
        (hi.blank c hc).5, (hi.blank c hc).6, (hi.blank c hc).7⟩⟩

/-- A closed `Conn` has been made. -/
theorem Scope.of_closed {w : World Shared Pc} {c : ConnId} (h : Scope w)
    (hcl : (w.shared.table.conns c).closed = true) : c < w.shared.table.connCount := by
  by_contra hc
  rw [(h.blank c (Nat.le_of_not_lt hc)).conn] at hcl
  cases hcl

/-! ### The reader goroutine -/

def CloseCall.ofReader : CloseCall → Bool
  | reader => true
  | _ => false

def SendCall.ofReader : SendCall → Bool
  | closeDisc _ _ _ k => k.ofReader
  | readerSync => true
  | readerOverflow _ _ => true
  | _ => false

def SignalCall.ofReader : SignalCall → Bool
  | close _ _ k => k.ofReader
  | readerDisc => true
  | readerOverflow _ => true
  | _ => false

/-- The goroutine is in `reader` or in a call that `reader` made. -/
def Pc.ofReader : Pc → Bool
  | .reader _ => true
  | .send _ k => k.ofReader
  | .signal _ _ k => k.ofReader
  | .close _ k => k.ofReader
  | _ => false

theorem SendCall.ret_ofReader (k : SendCall) (e : Option SendError) :
    (k.ret e).ofReader = k.ofReader := by
  cases k <;> cases e <;> simp only [SendCall.ret] <;> (try split) <;> rfl

theorem SendCall.written_ofReader (k : SendCall) (e : Option SendError) :
    (k.written e).ofReader = k.ofReader := by
  rcases k.written_cases e with ⟨_, _, h⟩ | ⟨_, h⟩ <;> rw [h] <;> rfl

theorem SignalCall.ret_ofReader (j : SignalCall) (c : ConnId) :
    (j.ret c).ofReader = j.ofReader := by
  rcases j with _ | _ | _ | _ | _ <;> rfl

/-- Only the reader goes on in `reader`. -/
theorem Acts.ofReader (h : Acts s pc s' pc') (hr : pc'.ofReader = true) : pc.ofReader = true := by
  rcases h with ⟨rfl, h⟩ | h
  · cases h with
    | sendCheckClosed k | sendCheckExpired k | sendSelectClosed k | sendSelectDone k
    | sendSelectTimeout k =>
        rw [SendCall.ret_ofReader] at hr
        exact hr
    | closeAgain k => cases k <;> cases hr
    | _ => first | exact hr | rfl
  · cases h with
    | sendGiveBack k | sendRelease k =>
        rw [SendCall.ret_ofReader] at hr
        exact hr
    | sendWriteOk k | sendWriteFail k | sendBlockedOk k | sendBlockedFail k =>
        rw [SendCall.written_ofReader] at hr
        exact hr
    | signalInterrupt c k =>
        rw [SignalCall.ret_ofReader] at hr
        exact hr
    | closeCallback k => cases k <;> cases hr
    | _ => first | exact hr | rfl

/-- Goroutine 0 is the only one in `reader`. -/
theorem reader_unique {ok : World Shared Pc → Label Choice Time → Prop} {w : World Shared Pc}
    (h : system.Reach ok w) {t : ℕ} (ht : (w.thr t).ofReader = true) : t = 0 := by
  revert t
  refine system_invariant (I := fun w => ∀ {t}, (w.thr t).ofReader = true → t = 0) ?_ ?_ ?_ h
  · intro now session _ t ht
    match t with
    | 0 => rfl
    | 1 => cases ht
    | _ + 2 => cases ht
  · intro w t c s pc _ hi _ _ ha u
    refine forall_update (P := fun u (p : Pc) => p.ofReader = true → u = 0) ?_ ?_ u
    · intro hp
      exact hi (ha.ofReader hp)
    · intro v _ hv
      exact hi hv
  · intro w d _ hi t ht
    exact hi ht

/-! ### Why a `Conn` is closed -/

/-- Why `signalClosed` is called: the tunnel is closed, the reader tore the realm down, or
`Conn.Close` was called. -/
def SignalCall.Reason (s : Shared) (c : ConnId) : SignalCall → Prop
  | close _ _ _ => s.life.closed = true
  | readerDisc => s.hist.torn c ≠ none
  | readerOverflow _ => s.hist.torn c ≠ none
  | connClose _ => s.hist.closeCalled c = true

def SendCall.Reasoned (s : Shared) : SendCall → Prop
  | closeDisc _ _ _ _ => s.life.closed = true
  | _ => True

/-- `Tunnel.Close` runs on a closed tunnel once it has entered, and every call of `signalClosed`
has its reason. -/
def Pc.Reasoned (s : Shared) : Pc → Prop
  | .close .enter _ => True
  | .close _ _ => s.life.closed = true
  | .send _ k => k.Reasoned s
  | .signal _ c k => k.Reason s c
  | _ => True

/-- The reasons given so far stay. -/
structure Shared.KeepsReasons (s s' : Shared) : Prop where
  closed : s.life.closed = true → s'.life.closed = true
  torn : ∀ c, s.hist.torn c ≠ none → s'.hist.torn c ≠ none
  closeCalled : ∀ c, s.hist.closeCalled c = true → s'.hist.closeCalled c = true

theorem SignalCall.Reason.mono {c : ConnId} {k : SignalCall} (h : k.Reason s c)
    (hk : s.KeepsReasons s') : k.Reason s' c := by
  cases k with
  | close => exact hk.closed h
  | readerDisc | readerOverflow => exact hk.torn c h
  | connClose => exact hk.closeCalled c h

theorem SendCall.Reasoned.mono {k : SendCall} (h : k.Reasoned s) (hk : s.KeepsReasons s') :
    k.Reasoned s' := by
  cases k with
  | closeDisc => exact hk.closed h
  | _ => trivial

theorem Pc.Reasoned.mono (h : pc.Reasoned s) (hk : s.KeepsReasons s') : pc.Reasoned s' := by
  unfold Pc.Reasoned at h ⊢
  split at h
  · trivial
  · exact hk.closed h
  · exact SendCall.Reasoned.mono h hk
  · exact SignalCall.Reason.mono h hk
  · trivial

theorem Acts.keepsReasons (h : Acts s pc s' pc') : s.KeepsReasons s' := by
  rcases h with ⟨rfl, _⟩ | h
  · exact ⟨id, fun _ => id, fun _ => id⟩
  · cases h with
    | closeEnter => exact ⟨fun _ => rfl, fun _ => id, fun _ => id⟩
    | readerDisc _ d | readerOverflow _ d =>
        refine ⟨id, fun c hc => ?_, fun _ => id⟩
        simp only [Function.update_apply]
        split
        · exact nofun
        · exact hc
    | connCloseEnter d =>
        refine ⟨id, fun _ => id, fun c hc => ?_⟩
        simp only [Function.update_apply]
        split
        · rfl
        · exact hc
    | _ => exact ⟨id, fun _ => id, fun _ => id⟩

theorem SendCall.Reasoned.ret {k : SendCall} {e : Option SendError} (h : k.Reasoned s) :
    (k.ret e).Reasoned s := by
  cases k <;> cases e <;> simp only [SendCall.ret] <;> (try split) <;> exact h

theorem SendCall.Reasoned.written {k : SendCall} {e : Option SendError} (h : k.Reasoned s) :
    (k.written e).Reasoned s := by
  rcases k.written_cases e with ⟨_, _, hw⟩ | ⟨_, hw⟩ <;> rw [hw] <;> exact h

theorem SignalCall.ret_reasoned {j : SignalCall} {c : ConnId} (h : j.Reason s c) :
    (j.ret c).Reasoned s := by
  rcases j with _ | _ | _ | _ | _ <;> first | exact h | trivial

theorem Background.reasoned (h : Background pc) : pc.Reasoned s := by
  cases h <;> trivial

/-- The goroutine that moved has its reasons. -/
theorem Acts.reasoned (h : Acts s pc s' pc') (hp : pc.Reasoned s) : pc'.Reasoned s' := by
  have hk := h.keepsReasons
  rcases h with ⟨rfl, h⟩ | h
  · cases h with
    | sendCheckClosed | sendCheckExpired | sendSelectClosed | sendSelectDone
    | sendSelectTimeout => exact SendCall.Reasoned.ret hp
    | closeAgain k => exact k.ret_background.reasoned
    | _ => exact hp
  · cases h with
    | sendGiveBack | sendRelease => exact (SendCall.Reasoned.ret hp).mono hk
    | sendWriteOk k | sendWriteFail k | sendBlockedOk k | sendBlockedFail k =>
        exact (SendCall.Reasoned.written hp).mono hk
    | signalInterrupt => exact (SignalCall.ret_reasoned hp).mono hk
    | closeEnter => rfl
    | closeCallback k => exact k.ret_background.reasoned
    | readerCount q => exact (dispatch_background q.body).reasoned
    | readerDisc | readerOverflow | connCloseEnter => simp [Pc.Reasoned, SignalCall.Reason]
    | _ => exact hp

/-- A closed `Conn` stays closed. -/
theorem Acts.closed_mono {c : ConnId} (h : Acts s pc s' pc') (hc : c < s.table.connCount)
    (hcl : (s.table.conns c).closed = true) : (s'.table.conns c).closed = true := by
  have hset : ∀ (d : ConnId) (cn : Conn), cn.closed = (s.table.conns d).closed ∨ cn.closed = true →
      ((s.table.setConn d cn).conns c).closed = true := by
    intro d cn hcn
    by_cases hd : c = d
    · subst hd
      rw [Table.setConn_conns_self]
      rcases hcn with hcn | hcn
      · exact hcn.trans hcl
      · exact hcn
    · rw [Table.setConn_conns_of_ne _ _ _ _ hd]
      exact hcl
  rcases h with ⟨rfl, _⟩ | h
  · exact hcl
  · cases h with
    | setDeadline d t =>
        rw [Shared.setWriteDeadline_field _ _ _ _ Conn.closed fun _ _ _ => rfl,
          Shared.setReadDeadline_field _ _ _ _ Conn.closed fun _ _ _ => rfl]
        exact hcl
    | setReadDeadline d t =>
        rw [Shared.setReadDeadline_field _ _ _ _ Conn.closed fun _ _ _ => rfl]
        exact hcl
    | setWriteDeadline d t =>
        rw [Shared.setWriteDeadline_field _ _ _ _ Conn.closed fun _ _ _ => rfl]
        exact hcl
    | signalCloseCh d | readerConn _ d | readerEnqueue _ d | dialGranted _ _ _ d | readBuffered d
    | readDrained d | readData d | readCopy d => exact hset d _ (Or.inl (by rfl))
    | signalSetClosed d | connCloseEnter d => exact hset d _ (Or.inr (by rfl))
    | dialInstall port a id m =>
        rw [Table.install_conns_of_lt _ _ _ _ hc]
        exact hcl
    | _ => exact hcl

/-- A `Conn` becomes closed for a reason. -/
theorem Acts.closed_reason (h : Acts s pc s' pc') (hp : pc.Reasoned s) {c : ConnId}
    (hc : (s'.table.conns c).closed = true) :
    (s.table.conns c).closed = true ∨ s'.hist.torn c ≠ none ∨ s'.hist.closeCalled c = true ∨
      s'.life.closed = true := by
  have hset : ∀ (d : ConnId) (cn : Conn), cn.closed = (s.table.conns d).closed →
      ((s.table.setConn d cn).conns c).closed = (s.table.conns c).closed :=
    fun d cn hcn => s.table.setConn_field d c cn Conn.closed hcn
  rcases h with ⟨rfl, _⟩ | h
  · exact Or.inl hc
  · cases h with
    | setDeadline d t =>
        rw [Shared.setWriteDeadline_field _ _ _ _ Conn.closed fun _ _ _ => rfl,
          Shared.setReadDeadline_field _ _ _ _ Conn.closed fun _ _ _ => rfl] at hc
        exact Or.inl hc
    | setReadDeadline d t =>
        rw [Shared.setReadDeadline_field _ _ _ _ Conn.closed fun _ _ _ => rfl] at hc
        exact Or.inl hc
    | setWriteDeadline d t =>
        rw [Shared.setWriteDeadline_field _ _ _ _ Conn.closed fun _ _ _ => rfl] at hc
        exact Or.inl hc
    | signalCloseCh d | readerConn _ d | readerEnqueue _ d | dialGranted _ _ _ d | readBuffered d
    | readDrained d | readData d | readCopy d =>
        exact Or.inl ((hset d _ (by rfl)).symm.trans hc)
    | signalSetClosed d k =>
        by_cases hd : c = d
        · subst hd
          cases k with
          | close => exact Or.inr (Or.inr (Or.inr hp))
          | readerDisc | readerOverflow => exact Or.inr (Or.inl hp)
          | connClose => exact Or.inr (Or.inr (Or.inl hp))
        · rw [Table.setConn_conns_of_ne _ _ _ _ hd] at hc
          exact Or.inl hc
    | connCloseEnter d =>
        by_cases hd : c = d
        · subst hd
          exact Or.inr (Or.inr (Or.inl (by simp)))
        · rw [Table.setConn_conns_of_ne _ _ _ _ hd] at hc
          exact Or.inl hc
    | dialInstall port a id m =>
        by_cases hd : c = s.table.connCount
        · subst hd
          simp [Table.install_conns_self] at hc
        · simp only [Table.install, Function.update_of_ne hd] at hc
          exact Or.inl hc
    | _ => exact Or.inl hc

/-- The goroutines have their reasons, and so has every closed `Conn`. -/
structure Reasons (w : World Shared Pc) : Prop where
  thr : ∀ t, (w.thr t).Reasoned w.shared
  conns : ∀ c, (w.shared.table.conns c).closed = true →
    w.shared.hist.torn c ≠ none ∨ w.shared.hist.closeCalled c = true ∨
      w.shared.life.closed = true

theorem reasons {ok : World Shared Pc → Label Choice Time → Prop} {w : World Shared Pc}
    (h : system.Reach ok w) : Reasons w := by
  refine system_invariant (I := Reasons) ?_ ?_ ?_ h
  · intro now session _
    exact ⟨forall_startThreads trivial trivial trivial, fun c hc => nomatch hc⟩
  · intro w t ch s pc _ hi _ _ ha
    have hk := ha.keepsReasons
    refine ⟨forall_update (ha.reasoned (hi.thr t)) fun u _ => (hi.thr u).mono hk, fun c hc => ?_⟩
    rcases ha.closed_reason (hi.thr t) hc with hold | hnew
    · rcases hi.conns c hold with h | h | h
      · exact Or.inl (hk.torn c h)
      · exact Or.inr (Or.inl (hk.closeCalled c h))
      · exact Or.inr (Or.inr (hk.closed h))
    · exact hnew
  · intro w d _ hi
    exact ⟨fun t => (hi.thr t).mono ⟨id, fun _ => id, fun _ => id⟩, hi.conns⟩

end DahuaP2p.Tunnel
