import DahuaP2p.TunnelInterrupt
import DahuaP2p.TunnelTracked

/-! # No orphaned connection

If no realm ID is drawn that a `Conn` of the tunnel already has (`DrawsFresh`), realm IDs
identify `Conn`s (`unique_realms`).  A teardown then deletes only the entry of its own `Conn`
from `t.realms`, so every `Conn` that `Dial` has returned stays tracked: it is in the map, or
closed, or on the list of a goroutine that is about to close it.

A closed `Conn` has its channel `closeCh` closed too, or the `signalClosed` that does so is under
way (`closeCh_of_closed`); and a `Read` on a `Conn` whose channel is closed runs to its end
(`read_proceeds`).  `no_orphaned_conn` puts this together. -/

namespace DahuaP2p.Tunnel

open BigEndian Ptcp Threads

variable {s s' : Shared} {pc pc' : Pc} {c : ConnId} {w w' : World Shared Pc}
  {ok : World Shared Pc → Label Choice Time → Prop}

/-! ### Fresh realm IDs -/

/-- The realm ID that is drawn. -/
def Choice.drawn : Choice → Option UInt32
  | .draw id => some id
  | _ => none

/-- The step draws no realm ID that a `Conn` of the tunnel already has. -/
def DrawsFresh (w : World Shared Pc) : Label Choice Time → Prop
  | .thread _ ch =>
      ∀ id ∈ ch.drawn, ∀ c < w.shared.table.connCount, (w.shared.table.conns c).realmID ≠ id
  | .env _ => True

instance (w : World Shared Pc) : ∀ l, Decidable (DrawsFresh w l)
  | .thread _ ch => Option.decidableForallMem ch.drawn
  | .env _ => .isTrue trivial

/-- An action makes no `Conn`, or one under the realm ID drawn before. -/
theorem Acts.made (h : Acts s pc s' pc') :
    s'.table.connCount = s.table.connCount ∨
      ∃ id, pc.drawn = some id ∧ pc'.drawn = none ∧
        s'.table.connCount = s.table.connCount + 1 ∧
        (s'.table.conns s.table.connCount).realmID = id := by
  rcases h with ⟨rfl, _⟩ | h
  · exact Or.inl rfl
  · cases h with
    | dialInstall port a id m =>
        exact Or.inr ⟨id, rfl, rfl, rfl, by simp [Table.install_conns_self]⟩
    | _ => exact Or.inl rfl

/-- A goroutine that has drawn a realm ID got it by its choice. -/
theorem drawn_of_next {ch : Choice} {id : UInt32} (hn : next s pc ch = some (s', pc'))
    (hd : pc'.drawn = some id) : s' = s ∧ ch.drawn = some id := by
  rcases next_cases hn with ⟨rfl, ha⟩ | ha
  · refine ⟨rfl, ?_⟩
    cases ha with
    | dialDraw port a id' =>
        cases ch with
        | draw id'' =>
            obtain ⟨_, he⟩ := Option.ite_none_left_eq_some.mp hn
            cases he
            exact hd
        | _ => cases hn
    | sendCheckClosed | sendCheckExpired | sendSelectClosed | sendSelectDone | sendSelectTimeout
    | closeAgain => simp at hd
    | _ => cases hd
  · cases ha with
    | sendWriteOk | sendWriteFail | sendBlockedOk | sendBlockedFail =>
        rw [SendCall.written_drawn] at hd
        cases hd
    | sendGiveBack | sendRelease | signalInterrupt | closeCallback | readerCount => simp at hd
    | _ => cases hd

/-- Realm IDs identify `Conn`s, also the one that is about to be made. -/
structure UniqueRealms (w : World Shared Pc) : Prop where
  conns : ∀ c d, c < w.shared.table.connCount → d < w.shared.table.connCount →
    (w.shared.table.conns c).realmID = (w.shared.table.conns d).realmID → c = d
  drawn : ∀ t id, (w.thr t).drawn = some id →
    ∀ c < w.shared.table.connCount, (w.shared.table.conns c).realmID ≠ id

section step
variable {t : ℕ} {ch : Choice}

/-- A step that makes no `Conn`. -/
theorem UniqueRealms.update_of_same (hi : UniqueRealms w) (hok : DrawsFresh w (.thread t ch))
    (hn : next w.shared (w.thr t) ch = some (s, pc))
    (hsame : s.table.connCount = w.shared.table.connCount) :
    UniqueRealms ⟨s, Function.update w.thr t pc⟩ := by
  have hid : ∀ c, c < s.table.connCount →
      (s.table.conns c).realmID = (w.shared.table.conns c).realmID := by
    rw [hsame]
    exact (next_cases hn).extends.realmID
  refine ⟨fun c d hc hd he => ?_, fun u => ?_⟩
  · refine hi.conns c d (hsame ▸ hc) (hsame ▸ hd) ?_
    rw [← hid c hc, ← hid d hd]
    exact he
  · refine forall_update (P := fun _ (p : Pc) => ∀ id, p.drawn = some id →
      ∀ c < s.table.connCount, (s.table.conns c).realmID ≠ id) ?_ ?_ u
    · intro id hp c hc
      obtain ⟨rfl, hch⟩ := drawn_of_next hn hp
      exact hok id hch c hc
    · intro v _ id hv c hc
      rw [hid c hc]
      exact hi.drawn v id hv c (hsame ▸ hc)

/-- A step that makes a `Conn` under the realm ID that was drawn, which no other one has. -/
theorem UniqueRealms.update_of_made (hi : UniqueRealms w) (hr : system.Reach ok w)
    (ha : Acts w.shared (w.thr t) s pc) {id : UInt32} (hdrawn : (w.thr t).drawn = some id)
    (hnone : pc.drawn = none) (hcount : s.table.connCount = w.shared.table.connCount + 1)
    (hnew : (s.table.conns w.shared.table.connCount).realmID = id) :
    UniqueRealms ⟨s, Function.update w.thr t pc⟩ := by
  have hid : ∀ c, c < w.shared.table.connCount →
      (s.table.conns c).realmID = (w.shared.table.conns c).realmID := ha.extends.realmID
  have hold : ∀ c, c < s.table.connCount → c ≠ w.shared.table.connCount →
      c < w.shared.table.connCount := by
    intro c hc hne
    rw [hcount] at hc
    exact lt_of_le_of_ne (Nat.le_of_lt_succ hc) hne
  have hother : ∀ c, c < s.table.connCount → c ≠ w.shared.table.connCount →
      (s.table.conns c).realmID ≠ id := by
    intro c hc hne
    rw [hid c (hold c hc hne)]
    exact hi.drawn t id hdrawn c (hold c hc hne)
  refine ⟨fun c d hc hd he => ?_, fun u => ?_⟩
  · by_cases hcn : c = w.shared.table.connCount
    · by_cases hdn : d = w.shared.table.connCount
      · rw [hcn, hdn]
      · rw [hcn] at he
        exact absurd (he.symm.trans hnew) (hother d hd hdn)
    · by_cases hdn : d = w.shared.table.connCount
      · rw [hdn] at he
        exact absurd (he.trans hnew) (hother c hc hcn)
      · refine hi.conns c d (hold c hc hcn) (hold d hd hdn) ?_
        rw [← hid c (hold c hc hcn), ← hid d (hold d hd hdn)]
        exact he
  · refine forall_update (P := fun _ (p : Pc) => ∀ id, p.drawn = some id →
      ∀ c < s.table.connCount, (s.table.conns c).realmID ≠ id) ?_ ?_ u
    · intro id' hp
      rw [hnone] at hp
      cases hp
    · intro v hv id' hp
      exact absurd ((resource_exclusive hr .dialMu).unique (Pc.holds_of_drawn hdrawn)
        (Pc.holds_of_drawn hp)) hv

theorem UniqueRealms.update (hi : UniqueRealms w) (hr : system.Reach ok w)
    (hok : DrawsFresh w (.thread t ch)) (hn : next w.shared (w.thr t) ch = some (s, pc)) :
    UniqueRealms ⟨s, Function.update w.thr t pc⟩ := by
  rcases (next_cases hn).made with hsame | ⟨id, hdrawn, hnone, hcount, hnew⟩
  · exact hi.update_of_same hok hn hsame
  · exact hi.update_of_made hr (next_cases hn) hdrawn hnone hcount hnew

end step

/-- **Realm IDs identify `Conn`s**, if they are drawn fresh. -/
theorem unique_realms (h : system.Reach DrawsFresh w) : UniqueRealms w := by
  refine system_invariant (I := UniqueRealms) ?_ ?_ ?_ h
  · intro now session _
    exact ⟨fun c d hc => absurd hc (Nat.not_lt_zero c),
      fun t id _ c hc => absurd hc (Nat.not_lt_zero c)⟩
  · intro w t ch s pc hr hi hok hn _
    exact hi.update hr hok hn
  · intro w d _ hi
    exact ⟨hi.conns, hi.drawn⟩

/-- With fresh realm IDs a teardown deletes only its own entry. -/
theorem ownDeletes_of_drawsFresh (h : system.Reach DrawsFresh w) : system.Reach OwnDeletes w := by
  refine h.mono fun w l w' hr _ _ => ?_
  cases l with
  | env d => trivial
  | thread t ch =>
      refine (ownDeletes_thread_iff w t ch).mp fun e he d hd => ?_
      have hscope := scope hr
      have hnamed : w.shared.Named e.1 e.2 := by
        have ht := hscope.thr t
        cases hpc : w.thr t with
        | reader p =>
            cases p with
            | overflow r c =>
                rw [hpc] at he ht
                cases he
                exact ht
            | _ =>
                rw [hpc] at he
                cases he
        | connClose p =>
            cases p with
            | remove c =>
                rw [hpc] at he ht
                cases he
                exact ⟨ht.1, rfl⟩
            | _ =>
                rw [hpc] at he
                cases he
        | _ =>
            rw [hpc] at he
            cases he
      have hd := hscope.shared.realms e.1 d hd
      exact (unique_realms hr).conns d e.2 hd.1 hnamed.1 (hd.2.trans hnamed.2.symm)

/-! ### After `Close` -/

/-- What a step does to the memory. -/
theorem system_step_shared {l : Label Choice Time} (h : system.step w l = some w') :
    (∃ t pc, Acts w.shared (w.thr t) w'.shared pc) ∨
      ∃ d, w'.shared = { w.shared with now := w.shared.now + d } := by
  rcases system_step_cases h with ⟨t, _, s, pc, _, _, ha, rfl⟩ | ⟨d, _, rfl⟩
  · exact Or.inl ⟨t, pc, ha⟩
  · exact Or.inr ⟨d, rfl⟩

/-- Once swapped, the map of realms stays `nil` in every run. -/
theorem realms_none_of_exec {ls : List (Label Choice Time)} (hr : w.shared.table.realms = none)
    (h : system.exec (fun _ _ => True) w ls = some w') : w'.shared.table.realms = none := by
  refine System.exec_preserves (P := fun w => w.shared.table.realms = none) ?_ hr h
  intro w l w' hr hs
  rcases system_step_shared hs with ⟨t, pc, ha⟩ | ⟨d, he⟩
  · exact ha.realms_none hr
  · rw [he]
    exact hr

theorem Acts.socketClosed (h : Acts s pc s' pc') (hs : s'.life.socketClosed = true) :
    s.life.socketClosed = true ∨ pc.swapped = true := by
  rcases h with ⟨rfl, _⟩ | h
  · exact Or.inl hs
  · cases h with
    | closeFinish => exact Or.inr rfl
    | _ => exact Or.inl hs

/-- `Close` swaps the map before it closes the socket. -/
theorem realms_none_of_socketClosed (h : system.Reach ok w)
    (hs : w.shared.life.socketClosed = true) : w.shared.table.realms = none := by
  revert hs
  refine system_invariant (I := fun w => w.shared.life.socketClosed = true →
    w.shared.table.realms = none) ?_ ?_ ?_ h
  · intro now session _ hs
    cases hs
  · intro w t ch s pc hr hi _ _ ha hs
    rcases ha.socketClosed hs with hold | hswap
    · exact ha.realms_none (hi hold)
    · exact ha.realms_none (realms_none_of_swapped hr hswap)
  · intro w d _ hi hs
    exact hi hs

/-! ### The close channel -/

/-- `closeOnce` has run, and `closeCh` is closed. -/
def Conn.shut (cn : Conn) : Bool × Bool := (cn.closeOnce, cn.closeCh)

/-- Both are set together, and never reset. -/
theorem Acts.shut (h : Acts s pc s' pc') (hblank : s.Blank s.table.connCount) (c : ConnId) :
    (s'.table.conns c).shut = (s.table.conns c).shut ∨ (s'.table.conns c).shut = (true, true) := by
  have hset : ∀ (d : ConnId) (cn : Conn), cn.shut = (s.table.conns d).shut →
      ((s.table.setConn d cn).conns c).shut = (s.table.conns c).shut :=
    fun d cn hcn => s.table.setConn_field d c cn Conn.shut hcn
  rcases h with ⟨rfl, _⟩ | h
  · exact Or.inl rfl
  · cases h with
    | setDeadline d t =>
        left
        rw [Shared.setWriteDeadline_field _ _ _ _ Conn.shut fun _ _ _ => rfl,
          Shared.setReadDeadline_field _ _ _ _ Conn.shut fun _ _ _ => rfl]
    | setReadDeadline d t => exact Or.inl (s.setReadDeadline_field d c t Conn.shut fun _ _ _ => rfl)
    | setWriteDeadline d t =>
        exact Or.inl (s.setWriteDeadline_field d c t Conn.shut fun _ _ _ => rfl)
    | signalSetClosed d | connCloseEnter d | readerConn _ d | readerEnqueue _ d
    | dialGranted _ _ _ d | readBuffered d | readDrained d | readData d | readCopy d =>
        exact Or.inl (hset d _ (by rfl))
    | signalCloseCh d =>
        by_cases hd : c = d
        · subst hd
          exact Or.inr (by rw [Table.setConn_conns_self]; rfl)
        · exact Or.inl (by rw [Table.setConn_conns_of_ne _ _ _ _ hd])
    | dialInstall port a id m =>
        by_cases hd : c = s.table.connCount
        · subst hd
          left
          rw [Table.install_conns_self, hblank.conn]
          rfl
        · exact Or.inl (by simp only [Table.install, Function.update_of_ne hd])
    | _ => exact Or.inl rfl

theorem Acts.closeCh_mono (h : Acts s pc s' pc') (hblank : s.Blank s.table.connCount)
    (hc : (s.table.conns c).closeCh = true) : (s'.table.conns c).closeCh = true := by
  rcases h.shut hblank c with he | he
  · exact (congrArg Prod.snd he).trans hc
  · exact congrArg Prod.snd he

/-- `signalClosed` goes on until the channel is closed. -/
theorem Acts.signalling (h : Acts s pc s' pc') (hp : pc.signalling = some c) :
    pc'.signalling = some c ∨ (s'.table.conns c).closeCh = true ∨
      (s' = s ∧ (s.table.conns c).closeOnce = true) := by
  rcases h with ⟨rfl, h⟩ | h
  · cases h with
    | signalOnce d k honce =>
        cases hp
        exact Or.inr (Or.inr ⟨rfl, honce⟩)
    | _ => cases hp
  · cases h with
    | signalSetClosed => exact Or.inl hp
    | signalCloseCh d k =>
        cases hp
        exact Or.inr (Or.inl (by simp))
    | _ => cases hp

/-- The channel is closed by the `sync.Once`, and that of a closed `Conn` is closed or about to
be. -/
structure ClosesCh (w : World Shared Pc) : Prop where
  once : ∀ c, (w.shared.table.conns c).closeOnce = (w.shared.table.conns c).closeCh
  closed : ∀ c, (w.shared.table.conns c).closed = true →
    (w.shared.table.conns c).closeCh = true ∨ ∃ t, (w.thr t).signalling = some c

theorem closeCh_of_closed (h : system.Reach ok w) : ClosesCh w := by
  refine system_invariant (I := ClosesCh) ?_ ?_ ?_ h
  · intro now session _
    exact ⟨fun c => rfl, fun c hc => (nomatch hc)⟩
  · intro w t ch s pc hr hi _ _ ha
    have hblank := (scope hr).blank _ le_rfl
    have honce : ∀ c, (s.table.conns c).closeOnce = (s.table.conns c).closeCh := by
      intro c
      rcases ha.shut hblank c with he | he
      · obtain ⟨hone, hch⟩ := Prod.mk.inj he
        rw [hone, hch]
        exact hi.once c
      · obtain ⟨hone, hch⟩ := Prod.mk.inj he
        rw [hone, hch]
    refine ⟨honce, fun c hc => ?_⟩
    rcases ha.closes hc with hold | hnew
    · rcases hi.closed c hold with hch | ⟨u, hu⟩
      · exact Or.inl (ha.closeCh_mono hblank hch)
      · by_cases hut : u = t
        · subst hut
          rcases ha.signalling hu with hp | hch | ⟨rfl, hone⟩
          · exact Or.inr (exists_update_self hp)
          · exact Or.inl hch
          · exact Or.inl ((hi.once c).symm.trans hone)
        · exact Or.inr (exists_update hut hu)
    · exact Or.inr (exists_update_self hnew)
  · intro w d _ hi
    exact ⟨hi.once, hi.closed⟩

/-! ### Reading from a closed `Conn` -/

/-- How many actions the `Read` of a closed `Conn` still takes before its last one. -/
def ReadPc.rank : ReadPc → ℕ
  | select _ _ _ _ => 3
  | lock _ _ => 2
  | drain _ _ => 1
  | copy _ _ _ => 0

/-- The `Read` can take an action, and each one that it can take ends it or brings it nearer to
its end. -/
def ReadPc.Proceeds (s : Shared) (p : ReadPc) : Prop :=
  (∃ ch r, next s (.read p) ch = some r) ∧
    ∀ ch s' pc', next s (.read p) ch = some (s', pc') →
      pc' = .idle ∨ ∃ p' : ReadPc, pc' = .read p' ∧ p'.conn = p.conn ∧ p'.rank < p.rank

theorem read_enabled {p : ReadPc} (hch : (s.table.conns p.conn).closeCh = true) :
    ∃ ch r, next s (.read p) ch = some r := by
  cases p with
  | lock c n =>
      refine ⟨.go, ?_⟩
      simp only [next, stepRead]
      split
      · exact ⟨_, rfl⟩
      · split
        · exact ⟨_, rfl⟩
        · split
          · exact ⟨_, rfl⟩
          · exact ⟨_, rfl⟩
  | drain c n =>
      refine ⟨.go, ?_⟩
      simp only [next, stepRead]
      split
      · exact ⟨_, rfl⟩
      · exact ⟨_, rfl⟩
  | select c n d changed => exact ⟨.select .closeCh, _, if_pos hch⟩
  | copy c n data => exact ⟨.go, _, rfl⟩

theorem read_proceeds {p : ReadPc} (hcl : (s.table.conns p.conn).closed = true)
    (hch : (s.table.conns p.conn).closeCh = true) : p.Proceeds s := by
  refine ⟨read_enabled hch, fun ch s' pc' hn => ?_⟩
  rcases next_cases hn with ⟨rfl, ha⟩ | ha
  · cases ha with
    | readDrain c n => exact Or.inr ⟨.drain c n, rfl, rfl, Nat.one_lt_two⟩
    | readWait c n _ hopen =>
        have hcl : (s'.table.conns c).closed = true := hcl
        rw [hopen] at hcl
        cases hcl
    | readClosed c n | readChanged c n => exact Or.inr ⟨.lock c n, rfl, rfl, Nat.lt_succ_self 2⟩
  · cases ha with
    | readBuffered | readExpired | readEof | readTimeout | readCopy => exact Or.inl rfl
    | readDrained c n data => exact Or.inr ⟨.copy c n data, rfl, rfl, Nat.one_pos⟩
    | readData c n d changed data => exact Or.inr ⟨.copy c n data, rfl, rfl, Nat.succ_pos 2⟩

/-- A closed `Conn` stays closed in every run. -/
theorem closed_of_exec {ls : List (Label Choice Time)} (h : system.Reachable w)
    (hcl : (w.shared.table.conns c).closed = true) (hch : (w.shared.table.conns c).closeCh = true)
    (hlt : c < w.shared.table.connCount) (hs : system.exec (fun _ _ => True) w ls = some w') :
    (w'.shared.table.conns c).closed = true ∧ (w'.shared.table.conns c).closeCh = true := by
  refine (System.exec_preserves (P := fun w => (system.Reachable w ∧
    c < w.shared.table.connCount) ∧ (w.shared.table.conns c).closed = true ∧
    (w.shared.table.conns c).closeCh = true) ?_ ⟨⟨h, hlt⟩, hcl, hch⟩ hs).2
  rintro w l w' ⟨⟨hr, hlt⟩, hcl, hch⟩ hs
  refine ⟨⟨hr.step hs, ?_⟩, ?_⟩
  · rcases system_step_shared hs with ⟨t, pc, ha⟩ | ⟨d, he⟩
    · exact hlt.trans_le ha.extends.count
    · rw [he]
      exact hlt
  · rcases system_step_shared hs with ⟨t, pc, ha⟩ | ⟨d, he⟩
    · exact ⟨ha.closed_mono hlt hcl, ha.closeCh_mono ((scope hr).blank _ le_rfl) hch⟩
    · rw [he]
      exact ⟨hcl, hch⟩

/-- **No orphaned connection.**  In every state of a run in which realm IDs are drawn fresh:
every entry of `t.realms` is stored under the realm ID of its `Conn`; an install finds no entry
under its realm ID; a `Close` past the swap has left the map `nil`, and then it stays so; every
`Conn` that `Dial` has returned is in the map, or closed, or the goroutine that removed it is
going to close it.  So once `Close` has closed the socket and no `signalClosed` of a returned
`Conn` is pending, the `Conn` is closed for good and no `Read` on it can hang. -/
theorem no_orphaned_conn (h : system.Reach DrawsFresh w) :
    (∀ id c, w.shared.table.lookup id = some c → (w.shared.table.conns c).realmID = id) ∧
    (∀ t port a id, w.thr t = .dial (.install port a id) → w.shared.table.lookup id = none) ∧
    (∀ t, (w.thr t).swapped = true → w.shared.table.realms = none) ∧
    (w.shared.table.realms = none → ∀ ls w',
      system.exec (fun _ _ => True) w ls = some w' → w'.shared.table.realms = none) ∧
    ∀ c, w.shared.hist.returned c = true →
      (w.shared.table.lookup (w.shared.table.conns c).realmID = some c ∨
        (w.shared.table.conns c).closed = true ∨ ∃ t, c ∈ (w.thr t).toClose) ∧
      (w.shared.life.socketClosed = true →
        (∀ t, c ∉ (w.thr t).toClose ∧ (w.thr t).signals ≠ some c) →
        ∀ ls w', system.exec (fun _ _ => True) w ls = some w' →
          (w'.shared.table.conns c).closed = true ∧
          ∀ t p, w'.thr t = .read p → p.conn = c → p.Proceeds w'.shared) := by
  have hscope := scope h
  refine ⟨fun id c hl => (hscope.shared.realms id c hl).2, fun t port a id ht => ?_,
    fun t => realms_none_of_swapped h, fun hr ls w' => realms_none_of_exec hr, fun c hret => ?_⟩
  · have hdrawn := (attempts h t).drawn id
    rw [ht] at hdrawn
    exact hdrawn rfl
  · have htrack := tracked (ownDeletes_of_drawsFresh h) (Or.inl hret)
    refine ⟨?_, fun hsock hnone ls w' hs => ?_⟩
    · rcases htrack with hcl | hl | hto
      · exact Or.inr (Or.inl hcl)
      · exact Or.inl hl
      · exact Or.inr (Or.inr hto)
    · -- the map is gone and nobody is left to close `c`, so it was closed
      have hcl : (w.shared.table.conns c).closed = true := by
        rcases htrack with hcl | hl | ⟨t, ht⟩
        · exact hcl
        · simp [Table.lookup, realms_none_of_socketClosed h hsock] at hl
        · exact absurd ht (hnone t).1
      have hch : (w.shared.table.conns c).closeCh = true := by
        rcases (closeCh_of_closed h).closed c hcl with hch | ⟨t, ht⟩
        · exact hch
        · have hbefore := Pc.beforeInterrupt_of_signalling ht
          exact absurd (Pc.signals_of_beforeInterrupt hbefore) (hnone t).2
      have hreach : system.Reachable w := h.mono fun _ _ _ _ _ _ => trivial
      obtain ⟨hcl', hch'⟩ := closed_of_exec hreach hcl hch (hscope.shared.returned c hret) hs
      refine ⟨hcl', fun t p _ hp => ?_⟩
      subst hp
      exact read_proceeds hcl' hch'

/-- A `Read` waits on a granted `Conn` while `Tunnel.Close` runs to its end. -/
def closeWhileReading : List (Label Choice Time) :=
  grantScript 2 7 ++ acts 3 [.call (.read 0 2), .go] ++
    acts 4 (.call .close :: gos 3 ++ [.index 0] ++ gos 5 ++ [.index 0] ++ gos 3 ++ [.udp .ok] ++
      gos 4)

/-- The waiting `Read` is not left behind. -/
theorem no_orphaned_conn_closeWhileReading :
    ∃ w, system.exec DrawsFresh (start 1 newSession) closeWhileReading = some w ∧
      w.shared.hist.returned 0 = true ∧ w.shared.life.socketClosed = true ∧
      (w.shared.table.conns 0).closed = true ∧
      ∃ p : ReadPc, w.thr 3 = .read p ∧ p.Proceeds w.shared := by
  have hrun : (system.exec DrawsFresh (start 1 newSession) closeWhileReading).map (fun w =>
      (w.shared.hist.returned 0, w.shared.life.socketClosed,
        (List.range 5).map w.thr)) = some (true, true,
          [.reader .top, .heartbeat .loop, .idle, .read (.select 0 2 0 0), .idle]) := by
    decide +kernel
  obtain ⟨w, hw, he⟩ := Option.map_eq_some_iff.mp hrun
  simp only [Prod.mk.injEq, List.range, List.range.loop, List.map_cons, List.map_nil,
    List.cons.injEq, and_true] at he
  obtain ⟨hret, hsock, h0, h1, h2, h3, h4⟩ := he
  have hothers : ∀ t, w.thr (t + 5) = .idle := fun t =>
    exec_thr (n := 5) (by decide) (Nat.le_add_left 5 t) hw
  have hnone : ∀ t, 0 ∉ (w.thr t).toClose ∧ (w.thr t).signals ≠ some 0 := by
    intro t
    match t with
    | 0 => simp [h0, Pc.toClose, Pc.signals]
    | 1 => simp [h1, Pc.toClose, Pc.signals]
    | 2 => simp [h2, Pc.toClose, Pc.signals]
    | 3 => simp [h3, Pc.toClose, Pc.signals]
    | 4 => simp [h4, Pc.toClose, Pc.signals]
    | t + 5 => simp [hothers t, Pc.toClose, Pc.signals]
  obtain ⟨_, _, _, _, hconn⟩ := no_orphaned_conn (w := w) (reach_of_exec (by decide) hw)
  obtain ⟨hcl, hread⟩ := (hconn 0 hret).2 hsock hnone [] w rfl
  exact ⟨w, hw, hret, hsock, hcl, _, h3, hread 3 _ h3 rfl⟩

end DahuaP2p.Tunnel
