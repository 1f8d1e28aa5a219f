import DahuaP2p.TunnelRealms

/-! # Which `Conn`s `Close` will find

Every `Conn` that `Dial` has returned is in `t.realms`, or closed, or on the list of those that
somebody is about to close (`tracked`), provided that teardowns keep to their own realms; and
once `Close` has swapped the map for `nil` it stays `nil` (`realms_none_of_swapped`). -/

namespace DahuaP2p.Tunnel

open BigEndian Ptcp Threads

variable {s s' : Shared} {pc pc' : Pc} {c : ConnId} {w : World Shared Pc}
  {ok : World Shared Pc → Label Choice Time → Prop}

/-! ### `Conn.Close` -/

def SendCall.closing : SendCall → Option ConnId
  | connClose _ c _ => some c
  | _ => none

def SignalCall.closing (c : ConnId) : SignalCall → Option ConnId
  | connClose _ => some c
  | _ => none

/-- The `Conn` whose `Close` has set its closed flag. -/
def Pc.closing : Pc → Option ConnId
  | .send _ k => k.closing
  | .signal _ c k => k.closing c
  | .connClose (.check c) => some c
  | .connClose (.remove c) => some c
  | _ => none

section returns
variable (k : SendCall) (e : Option SendError) (d : ConnId) (j : SignalCall)

@[simp] theorem SendCall.ret_closing : (k.ret e).closing = k.closing := by
  cases k <;> cases e <;> simp only [SendCall.ret] <;> (try split) <;> rfl

@[simp] theorem SendCall.written_closing : (k.written e).closing = k.closing := by
  rcases k.written_cases e with ⟨_, _, h⟩ | ⟨_, h⟩ <;> rw [h] <;> rfl

theorem SignalCall.closing_of_ret (h : (j.ret d).closing = some c) : j.closing d = some c := by
  rcases j with _ | _ | _ | _ | _ <;> first | exact h | cases h

theorem Background.closing (h : Background pc) : pc.closing = none := by
  cases h <;> rfl

end returns

theorem Acts.closing (h : Acts s pc s' pc') (hc : pc'.closing = some c) :
    pc.closing = some c ∨ (s'.table.conns c).closed = true := by
  rcases h with ⟨rfl, h⟩ | h
  · cases h with
    | sendCheckClosed | sendCheckExpired | sendSelectClosed | sendSelectDone | sendSelectTimeout =>
        rw [SendCall.ret_closing] at hc
        exact Or.inl hc
    | closeAgain k =>
        rw [k.ret_background.closing] at hc
        cases hc
    | _ => exact Or.inl hc
  · cases h with
    | sendGiveBack | sendRelease =>
        rw [SendCall.ret_closing] at hc
        exact Or.inl hc
    | sendWriteOk | sendWriteFail | sendBlockedOk | sendBlockedFail =>
        rw [SendCall.written_closing] at hc
        exact Or.inl hc
    | signalInterrupt d k => exact Or.inl (SignalCall.closing_of_ret d k hc)
    | closeCallback k =>
        rw [k.ret_background.closing] at hc
        cases hc
    | readerCount q =>
        rw [(dispatch_background q.body).closing] at hc
        cases hc
    | connCloseEnter d =>
        cases hc
        exact Or.inr (by simp)
    | _ => first | exact Or.inl hc | cases hc

theorem Pc.Scoped.of_closing (h : pc.Scoped s) (hc : pc.closing = some c) : s.Returned c := by
  cases pc with
  | send p k =>
      cases k with
      | connClose id d i =>
          cases hc
          exact h.2
      | _ => cases hc
  | signal p d k =>
      cases k with
      | connClose b =>
          cases hc
          exact h.2
      | _ => cases hc
  | connClose p =>
      cases p with
      | enter => cases hc
      | check | remove =>
          cases hc
          exact h
  | _ => cases hc

/-- `Conn.Close` works on a closed `Conn`. -/
theorem closed_of_closing (h : system.Reach ok w) {t : ℕ} (ht : (w.thr t).closing = some c) :
    (w.shared.table.conns c).closed = true := by
  refine system_held (f := Pc.closing) (P := fun s c => (s.table.conns c).closed = true)
    rfl rfl rfl ?_ ?_ (fun _ _ _ hcl => hcl) h ht
  · intro w t s pc u c hr ha hu hcl
    exact ha.closed_mono (((scope hr).thr u).of_closing hu).1 hcl
  · intro w t s pc c _ ha hc
    exact ha.closing hc

/-! ### Every `Conn` is known to `Close` -/

def SignalCall.toClose : SignalCall → List ConnId
  | close todo _ _ => todo.map Prod.snd
  | _ => []

/-- The `Conn`s whose closed flag the goroutine is going to set. -/
def Pc.toClose : Pc → List ConnId
  | .close (.signal todo _) _ => todo.map Prod.snd
  | .signal .setClosed c k => c :: k.toClose
  | .signal _ _ k => k.toClose
  | _ => []

theorem SignalCall.toClose_ret {k : SignalCall} (d : ConnId) (hc : c ∈ k.toClose) :
    c ∈ (k.ret d).toClose := by
  cases k with
  | close => exact hc
  | _ => cases hc

/-- What is to be closed gets closed. -/
theorem Acts.toClose (h : Acts s pc s' pc') (hc : c ∈ pc.toClose) :
    c ∈ pc'.toClose ∨ (s'.table.conns c).closed = true := by
  rcases h with ⟨rfl, h⟩ | h
  · cases h with
    | signalOnce => exact Or.inl hc
    | closeSignal todo ids i id d k hi =>
        left
        obtain ⟨e, he, rfl⟩ := List.mem_map.mp hc
        obtain ⟨j, hj⟩ := List.mem_iff_getElem?.mp he
        by_cases hji : j = i
        · rw [hji, hi] at hj
          cases hj
          exact List.mem_cons_self
        · refine List.mem_cons_of_mem _ (List.mem_map_of_mem ?_)
          exact List.mem_eraseIdx_iff_getElem?.mpr ⟨j, hji, hj⟩
    | _ => cases hc
  · cases h with
    | signalSetClosed d k =>
        rcases List.mem_cons.mp hc with rfl | hc
        · exact Or.inr (by simp)
        · exact Or.inl hc
    | signalCloseCh | signalLock => exact Or.inl hc
    | signalInterrupt d k => exact Or.inl (SignalCall.toClose_ret d hc)
    | _ => cases hc

theorem Pc.Scoped.of_attempt {id : UInt32} (h : pc.Scoped s) (ha : pc.attempt = some (id, c)) :
    s.Named id c := by
  cases pc with
  | send p k =>
      cases k with
      | dial =>
          cases ha
          exact h
      | _ => cases ha
  | dial p =>
      cases p with
      | register | wait | dropRealm =>
          cases ha
          exact h
      | _ => cases ha
  | _ => cases ha

/-- `Dial` has returned `c`, or is about to. -/
def InUse (w : World Shared Pc) (c : ConnId) : Prop :=
  w.shared.hist.returned c = true ∨ ∃ t id, (w.thr t).attempt = some (id, c)

/-- `c` is closed, or `Close` will find it, or somebody is about to close it. -/
def Tracked (w : World Shared Pc) (c : ConnId) : Prop :=
  (w.shared.table.conns c).closed = true ∨
    w.shared.table.lookup (w.shared.table.conns c).realmID = some c ∨
    ∃ t, c ∈ (w.thr t).toClose

theorem Scope.of_inUse (h : Scope w) (hc : InUse w c) : c < w.shared.table.connCount := by
  rcases hc with hr | ⟨t, id, ha⟩
  · exact h.shared.returned c hr
  · exact ((h.thr t).of_attempt ha).1

theorem LedgerAct.returned {L : Ledger} (h : LedgerAct s pc L pc') (hc : L.returned c = true) :
    s.ledger.returned c = true ∨ ∃ id, pc.attempt = some (id, c) := by
  cases h with
  | grant port a id d =>
      by_cases hd : c = d
      · exact Or.inr ⟨id, by rw [hd]; rfl⟩
      · exact Or.inl (by simpa [hd] using hc)
  | _ => exact Or.inl hc

/-- A `Conn` comes into use when it is installed. -/
theorem InUse.of_step {t : ℕ} (hr : system.Reach ok w) (ha : Acts w.shared (w.thr t) s pc')
    (hc : InUse ⟨s, Function.update w.thr t pc'⟩ c) :
    InUse w c ∨ s.table.lookup (s.table.conns c).realmID = some c := by
  have hscope := scope hr
  rcases hc with hret | ⟨u, id, hu⟩
  · left
    rcases ha.ledger (hscope.blank _ le_rfl) with he | hl
    · have hsame : s.hist.returned = w.shared.hist.returned := congrArg Ledger.returned he
      exact Or.inl (hsame ▸ hret)
    · exact (hl.returned hret).imp_right fun ⟨id, hid⟩ => ⟨t, id, hid⟩
  · by_cases hut : u = t
    · subst hut
      have hu : pc'.attempt = some (id, c) := by simpa using hu
      rcases ha.attempt_cases with ⟨_, hn | hsame⟩ | ⟨_, _, hn, _⟩ | ⟨id', _, hid, hreal, _⟩
      · rw [hn] at hu
        cases hu
      · exact Or.inl (Or.inr ⟨u, id, hsame ▸ hu⟩)
      · rw [hn] at hu
        cases hu
      · right
        have hnamed := (ha.pc_scoped hscope.shared (hscope.thr u)).of_attempt hu
        rw [hu] at hid
        cases hid
        rw [hnamed.2]
        exact hreal
    · have hu : (w.thr u).attempt = some (id, c) := by simpa [hut] using hu
      exact Or.inl (Or.inr ⟨u, id, hu⟩)

/-- How an entry leaves `t.realms`: somebody is going to close its `Conn`, or it was the
abandoned attempt of a `Dial`, or its `Conn` was closed before. -/
theorem LedgerAct.realm_lost {L : Ledger} {r : UInt32} {t : ℕ} {ch : Choice}
    (h : LedgerAct w.shared (w.thr t) L pc') (hok : OwnDeletes w (.thread t ch))
    (ha : Attempting w.shared.ledger (w.thr t)) (hr : w.shared.ledger.realms r = some c) :
    L.realms r = some c ∨ c ∈ pc'.toClose ∨ (w.thr t).closing = some c ∨
      (w.thr t).attempt = some (r, c) ∧ pc'.attempt = none ∧
        L.returned = w.shared.ledger.returned := by
  have hkeep : ∀ {P : Prop} (r' : UInt32), (r = r' → P) →
      Function.update w.shared.ledger.realms r' none r = some c ∨ P := by
    intro P r' hgone
    by_cases hrr : r = r'
    · exact Or.inr (hgone hrr)
    · exact Or.inl (by rw [Function.update_of_ne hrr, hr])
  generalize hpc : w.thr t = pc at h ha ⊢
  cases h with
  | closeSwap k ids hids =>
      exact Or.inr (Or.inl (List.mem_map_of_mem (f := Prod.snd) (hids r c hr)))
  | disc r' d hd =>
      refine hkeep r' fun e => Or.inl ?_
      rw [e, hd] at hr
      cases hr
      exact List.mem_cons_self
  | overflow r' d =>
      refine hkeep r' fun e => Or.inl ?_
      have hcd : c = d := hok.overflow hpc (e ▸ hr)
      rw [hcd]
      exact List.mem_cons_self
  | install port a id =>
      have hne : r ≠ id := by
        rintro rfl
        rw [ha.drawn r rfl] at hr
        cases hr
      exact Or.inl (by simpa [hne] using hr)
  | dropRealm port a id d why =>
      refine hkeep id fun e => Or.inr (Or.inr ?_)
      rw [e, ha.realm id d rfl c (e ▸ hr)]
      exact ⟨rfl, rfl, rfl⟩
  | remove d =>
      refine hkeep _ fun e => Or.inr (Or.inl ?_)
      have hcd : c = d := hok.remove hpc (e ▸ hr)
      rw [hcd]
      rfl
  | _ => exact Or.inl hr

/-- An attempt that is given up leaves its `Conn` unused. -/
theorem not_inUse_of_dropped {t : ℕ} {r : UInt32} (hr : system.Reach ok w)
    (ha : (w.thr t).attempt = some (r, c)) (hnone : pc'.attempt = none)
    (hret : s.ledger.returned = w.shared.ledger.returned) :
    ¬ InUse ⟨s, Function.update w.thr t pc'⟩ c := by
  rintro (hc | ⟨u, id, hu⟩)
  · have hc : s.ledger.returned c = true := hc
    rw [hret, (attempts hr t).returned r c ha] at hc
    cases hc
  · by_cases hut : u = t
    · have hu : pc'.attempt = some (id, c) := by simpa [hut] using hu
      rw [hnone] at hu
      cases hu
    · have hu : (w.thr u).attempt = some (id, c) := by simpa [hut] using hu
      exact hut ((resource_exclusive hr .dialMu).unique (Pc.holds_of_attempt ha)
        (Pc.holds_of_attempt hu))

/-- **Every `Conn` in use is tracked**, if teardowns keep to their own realms. -/
theorem tracked (h : system.Reach OwnDeletes w) (hc : InUse w c) : Tracked w c := by
  revert c
  refine system_invariant (I := fun w => ∀ {c}, InUse w c → Tracked w c) ?_ ?_ ?_ h
  · intro now session _ c hc
    rcases hc with hr | ⟨t, id, ht⟩
    · cases hr
    · have hnone := forall_startThreads (P := fun p => p.attempt = none) rfl rfl rfl t
      have ht : (startThreads t).attempt = some (id, c) := ht
      rw [hnone] at ht
      cases ht
  · intro w t ch s pc hr hi hok hn ha c hc
    rcases InUse.of_step hr ha hc with hold | hlive
    · have hlt := (scope hr).of_inUse hold
      have hid : (s.table.conns c).realmID = (w.shared.table.conns c).realmID :=
        ha.extends.realmID c hlt
      rcases hi hold with hcl | hl | ⟨u, hu⟩
      · exact Or.inl (ha.closed_mono hlt hcl)
      · rcases ha.ledger ((scope hr).blank _ le_rfl) with he | hla
        · have hsame : s.table.lookup = w.shared.table.lookup := congrArg Ledger.realms he
          exact Or.inr (Or.inl (by rw [hid, hsame, hl]))
        · rcases hla.realm_lost hok (attempts hr t) hl with hl | hm | hcl | ⟨hatt, hnone, hret⟩
          · exact Or.inr (Or.inl (by rw [hid]; exact hl))
          · exact Or.inr (Or.inr ⟨t, by simpa using hm⟩)
          · exact Or.inl (ha.closed_mono hlt (closed_of_closing hr hcl))
          · exact absurd hc (not_inUse_of_dropped hr hatt hnone hret)
      · by_cases hut : u = t
        · subst hut
          rcases ha.toClose hu with hu | hcl
          · exact Or.inr (Or.inr ⟨u, by simpa using hu⟩)
          · exact Or.inl hcl
        · exact Or.inr (Or.inr ⟨u, by simpa [hut] using hu⟩)
    · exact Or.inr (Or.inl hlive)
  · intro w d _ hi c hc
    exact hi hc

/-! ### After the swap -/

def SendCall.swapped : SendCall → Bool
  | closeDisc _ _ _ _ => true
  | _ => false

def SignalCall.swapped : SignalCall → Bool
  | close _ _ _ => true
  | _ => false

/-- `Close` has swapped the map of realms for `nil`. -/
def Pc.swapped : Pc → Bool
  | .close (.signal _ _) _ => true
  | .close (.disc _) _ => true
  | .close .finish _ => true
  | .signal _ _ k => k.swapped
  | .send _ k => k.swapped
  | _ => false

section returns
variable (k : SendCall) (e : Option SendError) (d : ConnId) (j : SignalCall)

@[simp] theorem SendCall.ret_swapped : (k.ret e).swapped = k.swapped := by
  cases k <;> cases e <;> simp only [SendCall.ret] <;> (try split) <;> rfl

@[simp] theorem SendCall.written_swapped : (k.written e).swapped = k.swapped := by
  rcases k.written_cases e with ⟨_, _, h⟩ | ⟨_, h⟩ <;> rw [h] <;> rfl

@[simp] theorem SignalCall.ret_swapped : (j.ret d).swapped = j.swapped := by
  rcases j with _ | _ | _ | _ | _ <;> rfl

theorem Background.swapped (h : Background pc) : pc.swapped = false := by
  cases h <;> rfl

end returns

/-- Once swapped, the map stays `nil`. -/
theorem Acts.realms_none (h : Acts s pc s' pc') (hr : s.table.realms = none) :
    s'.table.realms = none := by
  rcases h with ⟨rfl, _⟩ | h
  · exact hr
  · cases h with
    | closeSwap => rfl
    | readerDisc | readerOverflow | dialDropRealm | connCloseRemove => simp [Table.delete, hr]
    | dialInstall port a id m hm =>
        rw [hr] at hm
        cases hm
    | _ => exact hr

theorem Acts.swapped (h : Acts s pc s' pc') (hp : pc.swapped = true → s.table.realms = none)
    (hs : pc'.swapped = true) : s'.table.realms = none := by
  have hmono := h.realms_none
  rcases h with ⟨rfl, h⟩ | h
  · cases h with
    | sendCheckClosed | sendCheckExpired | sendSelectClosed | sendSelectDone | sendSelectTimeout =>
        rw [SendCall.ret_swapped] at hs
        exact hp hs
    | closeAgain k =>
        rw [k.ret_background.swapped] at hs
        cases hs
    | _ => exact hp hs
  · cases h with
    | closeSwap => rfl
    | sendGiveBack | sendRelease =>
        rw [SendCall.ret_swapped] at hs
        exact hp hs
    | sendWriteOk | sendWriteFail | sendBlockedOk | sendBlockedFail =>
        rw [SendCall.written_swapped] at hs
        exact hp hs
    | signalInterrupt =>
        rw [SignalCall.ret_swapped] at hs
        exact hp hs
    | closeCallback k =>
        rw [k.ret_background.swapped] at hs
        cases hs
    | readerCount q =>
        rw [(dispatch_background q.body).swapped] at hs
        cases hs
    | _ => first | exact hmono (hp hs) | cases hs

theorem realms_none_of_swapped (h : system.Reach ok w) {t : ℕ} (ht : (w.thr t).swapped = true) :
    w.shared.table.realms = none := by
  revert t
  refine system_invariant (I := fun w => ∀ {t}, (w.thr t).swapped = true →
    w.shared.table.realms = none) ?_ ?_ ?_ h
  · intro now session _ t ht
    have hnone := forall_startThreads (P := fun p => p.swapped = false) rfl rfl rfl t
    have ht : (startThreads t).swapped = true := ht
    rw [hnone] at ht
    cases ht
  · intro w t ch s pc _ hi _ _ ha u
    exact forall_update (P := fun _ (p : Pc) => p.swapped = true → s.table.realms = none)
      (ha.swapped hi) (fun v _ hv => ha.realms_none (hi hv)) u
  · intro w d _ hi t ht
    exact hi ht

end DahuaP2p.Tunnel
