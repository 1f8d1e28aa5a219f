import DahuaP2p.TunnelOrphans

/-! # What a `Dial` leaves behind

`Dial` makes up to three attempts.  Each one puts a `Conn` into `t.realms` and then a channel for
the answer into `t.connCh`, and takes both out again when it fails.

* `Waiting` : an entry of `t.connCh` belongs to the attempt of the goroutine that has `dialMu`, and
  its channel is empty.  So there is at most one entry, and the reader can always send on it.
* `Tried` : what a `Dial` has tried is out of `t.realms`, except for the attempt it is in.
* `Answers` : an answer is in a channel, or was taken from it, because the reader processed a CONN
  for the realm of this `Conn` after the `Conn` was installed.

A realm ID may be drawn again at any time: none of this needs fresh ones. -/

namespace DahuaP2p.Tunnel

open BigEndian Ptcp Threads

variable {s s' : Shared} {pc pc' : Pc} {id : UInt32} {c : ConnId} {w : World Shared Pc}
  {ok : World Shared Pc → Label Choice Time → Prop}

/-! ### The answer channels -/

/-- The attempt whose channel is in `t.connCh`, unless it was answered. -/
def Pc.registered : Pc → Option (UInt32 × ConnId)
  | .send _ k => k.binds
  | .dial (.wait _ _ id c) => some (id, c)
  | .dial (.dropRealm _ _ id c _) => some (id, c)
  | .dial (.dropConnCh _ _ id c _) => some (id, c)
  | _ => none

/-- The `Conn` whose channel is about to be put into `t.connCh`. -/
def Pc.registers : Pc → Option ConnId
  | .dial (.register _ _ _ c) => some c
  | _ => none

section returns
variable (k : SendCall) (e : Option SendError)

@[simp] theorem SendCall.ret_registered : (k.ret e).registered = k.binds := by
  cases k <;> cases e <;> simp only [SendCall.ret] <;> (try split) <;> rfl

@[simp] theorem SendCall.written_registered : (k.written e).registered = k.binds := by
  rcases k.written_cases e with ⟨_, _, h⟩ | ⟨_, h⟩ <;> rw [h] <;> rfl

@[simp] theorem Resumes.registers (h : Resumes pc) : pc.registers = none := by
  cases h <;> rfl

@[simp] theorem SendCall.written_registers : (k.written e).registers = none := by
  rcases k.written_cases e with ⟨_, _, h⟩ | ⟨_, h⟩ <;> rw [h] <;> rfl

end returns

theorem Pc.holds_of_registered (h : pc.registered = some (id, c)) : pc.holds .dialMu = true := by
  cases pc with
  | send p k =>
      cases k with
      | dial => simp [Pc.holds, SendCall.holds]
      | _ => cases h
  | dial p =>
      cases p with
      | wait | dropRealm | dropConnCh => rfl
      | _ => cases h
  | _ => cases h

theorem Pc.holds_of_registers (h : pc.registers = some c) : pc.holds .dialMu = true := by
  cases pc with
  | dial p =>
      cases p with
      | register => rfl
      | _ => cases h
  | _ => cases h

theorem Pc.registered_of_registers (h : pc.registers = some c) : pc.registered = none := by
  cases pc with
  | dial p =>
      cases p with
      | register => rfl
      | _ => cases h
  | _ => cases h

/-- An attempt stays registered until its entry is gone, or it takes the answer. -/
theorem Acts.registered (h : Acts s pc s' pc') (hp : pc.registered = some (id, c)) :
    pc'.registered = some (id, c) ∨ s'.ledger.waiting id = none ∨ s.ledger.token c = true := by
  rcases h with ⟨rfl, h⟩ | h
  · cases h with
    | sendCheckClosed | sendCheckExpired | sendSelectClosed | sendSelectDone | sendSelectTimeout =>
        rw [SendCall.ret_registered]
        exact Or.inl hp
    | _ => first | exact Or.inl hp | cases hp
  · cases h with
    | sendGiveBack | sendRelease =>
        rw [SendCall.ret_registered]
        exact Or.inl hp
    | sendWriteOk | sendWriteFail | sendBlockedOk | sendBlockedFail =>
        rw [SendCall.written_registered]
        exact Or.inl hp
    | dialGranted port a id' c' htok =>
        cases hp
        exact Or.inr (Or.inr htok)
    | dialFail port a id' c' | dialRetry port a id' c' | dialGiveUp port a id' c' =>
        cases hp
        exact Or.inr (Or.inl (AList.lookup_erase _ _))
    | _ => first | exact Or.inl hp | cases hp

/-- An entry of `t.connCh` was there before, or is that of the attempt that registers. -/
theorem Acts.waiting (h : Acts s pc s' pc') (hw : s'.ledger.waiting id = some c) :
    s.ledger.waiting id = some c ∨ pc.registers = some c ∧ pc'.registered = some (id, c) := by
  have herase : ∀ r, (s.table.connCh.erase r).lookup id = some c →
      s.table.connCh.lookup id = some c := by
    intro r hr
    by_cases he : id = r
    · subst he
      rw [AList.lookup_erase] at hr
      cases hr
    · rwa [AList.lookup_erase_ne he] at hr
  rcases h with ⟨rfl, _⟩ | h
  · exact Or.inl hw
  · cases h with
    | readerConn r d => exact Or.inl (herase r hw)
    | dialFail port a id' | dialRetry port a id' | dialGiveUp port a id' =>
        exact Or.inl (herase id' hw)
    | dialRegister port a id' d =>
        by_cases he : id = id'
        · subst he
          have hw : (s.table.connCh.insert id d).lookup id = some c := hw
          rw [AList.lookup_insert] at hw
          cases hw
          exact Or.inr ⟨rfl, rfl⟩
        · have hw : (s.table.connCh.insert id' d).lookup id = some c := hw
          rw [AList.lookup_insert_ne he] at hw
          exact Or.inl hw
    | _ => exact Or.inl hw

/-- An answer is put into a channel when the reader finds it in `t.connCh`, and takes it out. -/
theorem Acts.token (h : Acts s pc s' pc') (hblank : s.Blank s.table.connCount)
    (ht : s'.ledger.token c = true) :
    s.ledger.token c = true ∨ ∃ r, pc = .reader (.conn r) ∧ s.ledger.waiting r = some c ∧
      s'.ledger.waiting r = none := by
  rcases h.ledger hblank with he | hl
  · rw [he] at ht
    exact Or.inl ht
  · generalize s'.ledger = L at hl ht
    cases hl with
    | conn r d hd =>
        by_cases hcd : c = d
        · subst hcd
          exact Or.inr ⟨r, rfl, hd, Function.update_self _ _ _⟩
        · left
          simpa [hcd] using ht
    | grant port a id d =>
        left
        by_cases hcd : c = d
        · subst hcd
          simp at ht
        · simpa [hcd] using ht
    | _ => exact Or.inl ht

/-- The channel of a new `Conn` is empty. -/
theorem Acts.registers (h : Acts s pc s' pc') (hp : pc'.registers = some c) :
    s'.ledger.token c = false := by
  rcases h with ⟨rfl, h⟩ | h
  · cases h with
    | sendCheckClosed | sendCheckExpired | sendSelectClosed | sendSelectDone | sendSelectTimeout
    | closeAgain => simp at hp
    | _ => cases hp
  · cases h with
    | sendGiveBack | sendRelease | signalInterrupt | closeCallback | readerCount => simp at hp
    | sendWriteOk | sendWriteFail | sendBlockedOk | sendBlockedFail =>
        rw [SendCall.written_registers] at hp
        cases hp
    | dialInstall port a id m =>
        cases hp
        simp [Shared.ledger, Table.install_conns_self]
    | _ => cases hp

/-- The entries of `t.connCh` belong to the attempt in progress, and their channels are empty. -/
structure Waiting (w : World Shared Pc) : Prop where
  owner : ∀ id c, w.shared.ledger.waiting id = some c → ∃ t, (w.thr t).registered = some (id, c)
  unanswered : ∀ id c, w.shared.ledger.waiting id = some c → w.shared.ledger.token c = false
  registering : ∀ t c, (w.thr t).registers = some c → w.shared.ledger.token c = false

/-- A goroutine with `dialMu` knows all entries. -/
theorem Waiting.of_dial (hi : Waiting w) (hr : system.Reach ok w) {t : ℕ}
    (ht : (w.thr t).holds .dialMu = true) (hw : w.shared.ledger.waiting id = some c) :
    (w.thr t).registered = some (id, c) := by
  obtain ⟨u, hu⟩ := hi.owner id c hw
  have hut := (resource_exclusive hr .dialMu).unique ht (Pc.holds_of_registered hu)
  rwa [← hut]

/-- There is at most one entry. -/
theorem Waiting.unique (hi : Waiting w) (hr : system.Reach ok w) {id' : UInt32} {c' : ConnId}
    (hw : w.shared.ledger.waiting id = some c) (hw' : w.shared.ledger.waiting id' = some c') :
    id = id' ∧ c = c' := by
  obtain ⟨t, ht⟩ := hi.owner id c hw
  have ht' := hi.of_dial hr (Pc.holds_of_registered ht) hw'
  rw [ht] at ht'
  exact Prod.mk.inj (Option.some.inj ht')

theorem Waiting.step (hi : Waiting w) (hr : system.Reach ok w) {t : ℕ}
    (ha : Acts w.shared (w.thr t) s pc) : Waiting ⟨s, Function.update w.thr t pc⟩ := by
  have hblank := (scope hr).blank _ le_rfl
  refine ⟨fun id c hw => ?_, fun id c hw => ?_, fun u c => ?_⟩
  · rcases ha.waiting hw with hold | ⟨_, hnew⟩
    · obtain ⟨u, hu⟩ := hi.owner id c hold
      by_cases hut : u = t
      · subst hut
        rcases ha.registered hu with hp | hgone | htok
        · exact exists_update_self hp
        · rw [hgone] at hw
          cases hw
        · rw [hi.unanswered id c hold] at htok
          cases htok
      · exact exists_update hut hu
    · exact exists_update_self hnew
  · refine Bool.eq_false_iff.mpr fun htok => ?_
    rcases ha.token hblank htok with hold | ⟨r, hpc, hr', hgone⟩
    · rcases ha.waiting hw with hw | ⟨hreg, _⟩
      · rw [hi.unanswered id c hw] at hold
        cases hold
      · rw [hi.registering t c hreg] at hold
        cases hold
    · rcases ha.waiting hw with hw' | ⟨hreg, _⟩
      · -- the entry that was answered is the only one
        obtain ⟨rfl, _⟩ := hi.unique hr hr' hw'
        rw [hgone] at hw
        cases hw
      · rw [hpc] at hreg
        cases hreg
  · refine forall_update (P := fun _ (p : Pc) => p.registers = some c → s.ledger.token c = false)
      ha.registers (fun u _ hu => ?_) u
    refine Bool.eq_false_iff.mpr fun htok => ?_
    rcases ha.token hblank htok with hold | ⟨r, _, hr', _⟩
    · rw [hi.registering u c hu] at hold
      cases hold
    · have hreg := hi.of_dial hr (Pc.holds_of_registers hu) hr'
      rw [Pc.registered_of_registers hu] at hreg
      cases hreg

theorem waitingEntries (h : system.Reach ok w) : Waiting w := by
  refine system_invariant (I := Waiting) ?_ ?_ ?_ h
  · intro now session _
    refine ⟨fun id c hw => (nomatch hw), fun id c hw => (nomatch hw), fun t c ht => ?_⟩
    rfl
  · intro w t ch s pc hr hi _ _ ha
    exact hi.step hr ha
  · intro w d _ hi
    exact ⟨hi.owner, hi.unanswered, hi.registering⟩

/-! ### The record of the `Dial`s -/

inductive DialEvent
  /-- A `Conn` was put into `t.realms`. -/
  | installed (c : ConnId)
  /-- The reader processed a CONN. -/
  | conn (realm : UInt32)

/-- What happened, and for every goroutine the realm IDs that its last `Dial` has tried. -/
structure DialLog where
  events : List DialEvent := []
  tried : ℕ → List UInt32 := fun _ => []

/-- The realm IDs that the `Dial` of a goroutine has tried when it gets here. -/
def Pc.triedSince (ids : List UInt32) : Pc → List UInt32
  | .dial (.enter _) => []
  | .dial (.install _ _ id) => ids ++ [id]
  | _ => ids

/-- The CONN that the reader is about to process. -/
def Pc.processes : Pc → List DialEvent
  | .reader (.conn realm) => [.conn realm]
  | _ => []

/-- The `Conn` that the goroutine has just installed. -/
def Pc.hasInstalled : Pc → List DialEvent
  | .dial (.register _ _ _ c) => [.installed c]
  | _ => []

def dialNote (log : DialLog) (t : ℕ) (_ : Shared) (pc : Pc) (_ : Shared) (pc' : Pc) : DialLog where
  events := log.events ++ (pc.processes ++ pc'.hasInstalled)
  tried := Function.update log.tried t (pc'.triedSince (log.tried t))

/-- The tunnel with this record. -/
def dialSystem : System (World Shared Pc × DialLog) (Label Choice Time) := recorded dialNote {}

variable {log : DialLog} {t : ℕ}

@[simp] theorem dialNote_tried_self :
    (dialNote log t s pc s' pc').tried t = pc'.triedSince (log.tried t) :=
  Function.update_self _ _ _

theorem dialNote_tried_of_ne {u : ℕ} (hu : u ≠ t) :
    (dialNote log t s pc s' pc').tried u = log.tried u :=
  Function.update_of_ne hu _ _

@[simp] theorem Resumes.triedSince (h : Resumes pc) (ids : List UInt32) :
    pc.triedSince ids = ids := by
  cases h <;> rfl

@[simp] theorem SendCall.written_triedSince (k : SendCall) (e : Option SendError)
    (ids : List UInt32) : (k.written e).triedSince ids = ids := by
  rcases k.written_cases e with ⟨_, _, h⟩ | ⟨_, h⟩ <;> rw [h] <;> rfl

/-! ### The realm IDs tried -/

/-- The realm ID of the attempt in progress. -/
def Pc.trying : Pc → Option UInt32
  | .send _ k => k.binds.map Prod.fst
  | .dial (.install _ _ id) => some id
  | .dial (.register _ _ id _) => some id
  | .dial (.wait _ _ id _) => some id
  | .dial (.dropRealm _ _ id _ _) => some id
  | _ => none

/-- The `Conn` that `Dial` returns. -/
def Pc.returns : Pc → Option ConnId
  | .dial (.ret (.ok c)) => some c
  | _ => none

/-- In `Dial`, before it has `dialMu`. -/
def Pc.queued : Pc → Bool
  | .dial (.enter _) => true
  | .dial (.lock _) => true
  | _ => false

section returns
variable (k : SendCall) (e : Option SendError)

@[simp] theorem SendCall.ret_trying : (k.ret e).trying = k.binds.map Prod.fst := by
  cases k <;> cases e <;> simp only [SendCall.ret] <;> (try split) <;> rfl

@[simp] theorem SendCall.written_trying : (k.written e).trying = k.binds.map Prod.fst := by
  rcases k.written_cases e with ⟨_, _, h⟩ | ⟨_, h⟩ <;> rw [h] <;> rfl

@[simp] theorem Resumes.returns (h : Resumes pc) : pc.returns = none := by
  cases h <;> rfl

@[simp] theorem SendCall.written_returns : (k.written e).returns = none := by
  rcases k.written_cases e with ⟨_, _, h⟩ | ⟨_, h⟩ <;> rw [h] <;> rfl

@[simp] theorem Resumes.queued (h : Resumes pc) : pc.queued = false := by
  cases h <;> rfl

@[simp] theorem SendCall.written_queued : (k.written e).queued = false := by
  rcases k.written_cases e with ⟨_, _, h⟩ | ⟨_, h⟩ <;> rw [h] <;> rfl

end returns

/-- An attempt goes on until it succeeds or its realm ID is out of the map. -/
theorem Acts.trying (h : Acts s pc s' pc') (hp : pc.trying = some id) :
    pc'.trying = some id ∨ s'.table.lookup id = none ∨ pc'.returns ≠ none := by
  rcases h with ⟨rfl, h⟩ | h
  · cases h with
    | sendCheckClosed | sendCheckExpired | sendSelectClosed | sendSelectDone | sendSelectTimeout =>
        rw [SendCall.ret_trying]
        exact Or.inl hp
    | dialNoRealms port a id' hnone => exact Or.inr (Or.inl (by simp [Table.lookup, hnone]))
    | _ => first | exact Or.inl hp | cases hp
  · cases h with
    | sendGiveBack | sendRelease =>
        rw [SendCall.ret_trying]
        exact Or.inl hp
    | sendWriteOk | sendWriteFail | sendBlockedOk | sendBlockedFail =>
        rw [SendCall.written_trying]
        exact Or.inl hp
    | dialGranted port a id' d => exact Or.inr (Or.inr (by simp [Pc.returns]))
    | dialDropRealm port a id' d =>
        cases hp
        exact Or.inr (Or.inl (by simp [Table.delete_lookup]))
    | _ => first | exact Or.inl hp | cases hp

/-- A realm ID comes into the map when it is tried. -/
theorem Acts.lookup_none (h : Acts s pc s' pc') (hl : s.table.lookup id = none) :
    s'.table.lookup id = none ∨ pc'.trying = some id := by
  have hdel : ∀ r, (s.table.delete r).lookup id = none := fun r => by
    rw [Table.delete_lookup, hl, ite_self]
  rcases h with ⟨rfl, _⟩ | h
  · exact Or.inl hl
  · cases h with
    | readerDisc r | readerOverflow r | dialDropRealm _ _ r | connCloseRemove d =>
        exact Or.inl (hdel _)
    | closeSwap => exact Or.inl rfl
    | dialInstall port a id' m hm =>
        by_cases he : id = id'
        · exact Or.inr (by rw [he]; rfl)
        · left
          change (s.table.install m id' port).lookup id = none
          rw [Table.install_lookup _ _ _ _ hm, if_neg he]
          exact hl
    | _ => exact Or.inl hl

/-- Under `dialMu`, the record of the goroutine grows when a realm ID is drawn. -/
theorem Acts.tried (h : Acts s pc s' pc') (ids : List UInt32) (hp : pc'.holds .dialMu = true) :
    pc'.triedSince ids = ids ∧ (pc.holds .dialMu = true ∨ pc.queued = true) ∨
    ∃ id, pc'.triedSince ids = ids ++ [id] ∧ s' = s ∧ pc.holds .dialMu = true ∧
      pc'.trying = some id := by
  rcases h with ⟨rfl, h⟩ | h
  · have hold : pc.holds .dialMu = true := h.holds_eq .dialMu ▸ hp
    cases h with
    | callDial => cases hp
    | dialDraw port a id => exact Or.inr ⟨id, rfl, rfl, rfl, rfl⟩
    | sendCheckClosed | sendCheckExpired | sendSelectClosed | sendSelectDone | sendSelectTimeout
    | closeAgain => exact Or.inl ⟨by simp, Or.inl hold⟩
    | _ => exact Or.inl ⟨rfl, Or.inl hold⟩
  · cases h with
    | dialLock => exact Or.inl ⟨rfl, Or.inr rfl⟩
    | sendGiveBack | sendRelease =>
        rw [SendCall.ret_holds] at hp
        exact Or.inl ⟨by simp, Or.inl (by simp [Pc.holds, hp])⟩
    | sendWriteOk | sendWriteFail | sendBlockedOk | sendBlockedFail =>
        rw [SendCall.written_holds] at hp
        exact Or.inl ⟨SendCall.written_triedSince _ _ _, Or.inl hp⟩
    | signalInterrupt d k =>
        rw [SignalCall.ret_holds] at hp
        cases k <;> cases hp
    | closeCallback k =>
        rw [k.ret_background.holds] at hp
        cases hp
    | readerCount q =>
        rw [(dispatch_background q.body).holds] at hp
        cases hp
    | _ => first | exact Or.inl ⟨rfl, Or.inl hp⟩ | cases hp

/-- Before it has `dialMu`, a `Dial` has tried nothing. -/
theorem Acts.queued (h : Acts s pc s' pc') (ids : List UInt32) (hp : pc'.queued = true) :
    pc'.triedSince ids = [] ∨ pc'.triedSince ids = ids ∧ pc.queued = true := by
  rcases h with ⟨rfl, h⟩ | h
  · cases h with
    | callDial => exact Or.inl rfl
    | dialEnter => exact Or.inr ⟨rfl, rfl⟩
    | sendCheckClosed | sendCheckExpired | sendSelectClosed | sendSelectDone | sendSelectTimeout
    | closeAgain => simp at hp
    | _ => cases hp
  · cases h with
    | sendGiveBack | sendRelease | signalInterrupt | closeCallback | readerCount => simp at hp
    | sendWriteOk | sendWriteFail | sendBlockedOk | sendBlockedFail =>
        rw [SendCall.written_queued] at hp
        cases hp
    | _ => cases hp

/-- What a `Dial` has tried is not in the map, except for the attempt in progress. -/
structure Tried (w : World Shared Pc) (log : DialLog) : Prop where
  queued : ∀ t, (w.thr t).queued = true → log.tried t = []
  gone : ∀ t, (w.thr t).holds .dialMu = true → (w.thr t).returns = none →
    ∀ id ∈ log.tried t, w.shared.table.lookup id = none ∨ (w.thr t).trying = some id

/-- A realm ID that the goroutine has tried, and that is out of the map or still being tried,
stays so. -/
theorem Acts.gone (h : Acts s pc s' pc') (hret : pc'.returns = none)
    (hid : s.table.lookup id = none ∨ pc.trying = some id) :
    s'.table.lookup id = none ∨ pc'.trying = some id := by
  rcases hid with hl | hp
  · exact h.lookup_none hl
  · rcases h.trying hp with hp' | hl | hne
    · exact Or.inr hp'
    · exact Or.inl hl
    · exact absurd hret hne

theorem Acts.returns_none (h : Acts s pc s' pc') (hp : pc'.holds .dialMu = true) :
    pc.returns = none := by
  by_contra hne
  cases pc with
  | dial p =>
      cases p with
      | ret r =>
          -- the next action of a `Dial` that returns is its unlock
          rcases h with ⟨rfl, h⟩ | h
          · cases h
          · cases h
            cases hp
      | _ => exact hne rfl
  | _ => exact hne rfl

theorem Tried.step_self (hi : Tried w log) (ha : Acts w.shared (w.thr t) s pc)
    (hp : pc.holds .dialMu = true) (hret : pc.returns = none) :
    ∀ id ∈ (dialNote log t w.shared (w.thr t) s pc).tried t,
      s.table.lookup id = none ∨ pc.trying = some id := by
  have hnot := ha.returns_none hp
  rw [dialNote_tried_self]
  rcases ha.tried (log.tried t) hp with ⟨hsame, hold⟩ | ⟨id, hnew, _, hold, htry⟩
  · rw [hsame]
    intro id hid
    rcases hold with hold | hq
    · exact ha.gone hret (hi.gone t hold hnot id hid)
    · rw [hi.queued t hq] at hid
      cases hid
  · rw [hnew]
    intro id' hid
    rcases List.mem_append.mp hid with hid | hid
    · exact ha.gone hret (hi.gone t hold hnot id' hid)
    · rw [List.mem_singleton.mp hid]
      exact Or.inr htry

/-- Only the goroutine with `dialMu` puts realm IDs into the map. -/
theorem Tried.step_other (hi : Tried w log) (hr : system.Reach ok w)
    (ha : Acts w.shared (w.thr t) s pc) {u : ℕ} (hut : u ≠ t)
    (hp : (w.thr u).holds .dialMu = true) (hret : (w.thr u).returns = none) :
    ∀ id ∈ log.tried u, s.table.lookup id = none ∨ (w.thr u).trying = some id := by
  have hnot : (w.thr t).holds .dialMu = false := Bool.eq_false_iff.mpr fun ht =>
    hut ((resource_exclusive hr .dialMu).unique ht hp)
  intro id hid
  rcases hi.gone u hp hret id hid with hl | htry
  · left
    rcases ha.ledger ((scope hr).blank _ le_rfl) with he | hl'
    · exact (congrFun (congrArg Ledger.realms he) id).trans hl
    · by_contra hne
      obtain ⟨d, hd⟩ := Option.ne_none_iff_exists'.mp hne
      have hold : w.shared.table.lookup id = some d := (hl'.of_not_dial hnot).1 id d hd
      rw [hl] at hold
      cases hold
  · exact Or.inr htry

theorem triedIDs (h : dialSystem.Reach (fun p => ok p.1) (w, log)) : Tried w log := by
  refine recorded_invariant (I := Tried) ?_ ?_ ?_ h
  · intro now session _
    refine ⟨fun t _ => rfl, fun t _ _ id hid => ?_⟩
    cases hid
  · intro w log t ch s pc hr hi _ _ ha
    refine ⟨fun u => ?_, fun u => ?_⟩
    · refine forall_update (P := fun u (p : Pc) => p.queued = true →
        (dialNote log t w.shared (w.thr t) s pc).tried u = []) (fun hq => ?_)
        (fun u hut hq => ?_) u
      · rw [dialNote_tried_self]
        rcases ha.queued (log.tried t) hq with hnil | ⟨hsame, hq'⟩
        · exact hnil
        · exact hsame.trans (hi.queued t hq')
      · rw [dialNote_tried_of_ne hut]
        exact hi.queued u hq
    · refine forall_update (P := fun u (p : Pc) => p.holds .dialMu = true →
        p.returns = none →
        ∀ id ∈ (dialNote log t w.shared (w.thr t) s pc).tried u,
          s.table.lookup id = none ∨ p.trying = some id) (hi.step_self ha) (fun u hut => ?_) u
      rw [dialNote_tried_of_ne hut]
      exact hi.step_other hr ha hut
  · intro w log d _ hi
    exact ⟨hi.queued, hi.gone⟩

/-! ### Answers -/

/-- A CONN for the realm was processed after the `Conn` was put into `t.realms`. -/
def DialLog.Answered (log : DialLog) (c : ConnId) (realm : UInt32) : Prop :=
  ∃ before after, log.events = before ++ .conn realm :: after ∧ .installed c ∈ before

theorem DialLog.Answered.note {realm : UInt32} (h : log.Answered c realm) :
    (dialNote log t s pc s' pc').Answered c realm := by
  obtain ⟨before, after, he, hc⟩ := h
  refine ⟨before, after ++ (pc.processes ++ pc'.hasInstalled), ?_, hc⟩
  simp [dialNote, he]

structure Answers (w : World Shared Pc) (log : DialLog) : Prop where
  installed : ∀ c < w.shared.table.connCount, .installed c ∈ log.events
  token : ∀ c, w.shared.ledger.token c = true →
    log.Answered c (w.shared.table.conns c).realmID
  returns : ∀ t c, (w.thr t).returns = some c →
    log.Answered c (w.shared.table.conns c).realmID

theorem Acts.installs (h : Acts s pc s' pc') :
    s'.table.connCount = s.table.connCount ∨
      s'.table.connCount = s.table.connCount + 1 ∧
        pc'.hasInstalled = [.installed s.table.connCount] := by
  rcases h with ⟨rfl, _⟩ | h
  · exact Or.inl rfl
  · cases h with
    | dialInstall => exact Or.inr ⟨rfl, rfl⟩
    | _ => exact Or.inl rfl

/-- `Dial` returns a `Conn` when it finds the answer in its channel. -/
theorem Acts.returns (h : Acts s pc s' pc') (hp : pc'.returns = some c) :
    s.ledger.token c = true := by
  rcases h with ⟨rfl, h⟩ | h
  · cases h with
    | sendCheckClosed | sendCheckExpired | sendSelectClosed | sendSelectDone | sendSelectTimeout
    | closeAgain => simp at hp
    | _ => cases hp
  · cases h with
    | dialGranted port a id d htok =>
        cases hp
        exact htok
    | sendGiveBack | sendRelease | signalInterrupt | closeCallback | readerCount => simp at hp
    | sendWriteOk | sendWriteFail | sendBlockedOk | sendBlockedFail =>
        rw [SendCall.written_returns] at hp
        cases hp
    | _ => cases hp

theorem Pc.Scoped.of_returns (h : pc.Scoped s) (hp : pc.returns = some c) : s.Returned c := by
  cases pc with
  | dial p =>
      cases p with
      | ret r =>
          cases r with
          | ok d =>
              cases hp
              exact h
          | error => cases hp
      | _ => cases hp
  | _ => cases hp

theorem Answers.step (hi : Answers w log) (hr : system.Reach ok w)
    (ha : Acts w.shared (w.thr t) s pc) :
    Answers ⟨s, Function.update w.thr t pc⟩ (dialNote log t w.shared (w.thr t) s pc) := by
  have hscope := scope hr
  have hblank := hscope.blank _ le_rfl
  have hid : ∀ c < w.shared.table.connCount, log.Answered c (w.shared.table.conns c).realmID →
      (dialNote log t w.shared (w.thr t) s pc).Answered c (s.table.conns c).realmID := by
    intro c hc hans
    rw [ha.extends.realmID c hc]
    exact hans.note
  have hmade : ∀ c, w.shared.ledger.token c = true → c < w.shared.table.connCount := by
    intro c htok
    by_contra hge
    have hb := (hscope.blank c (Nat.le_of_not_lt hge)).conn
    simp [Shared.ledger, hb, blankConn] at htok
  refine ⟨fun c hc => ?_, fun c htok => ?_, fun u c => ?_⟩
  · rcases ha.installs with hsame | ⟨hcount, hev⟩
    · exact List.mem_append_left _ (hi.installed c (hsame ▸ hc))
    · rcases Nat.lt_succ_iff_lt_or_eq.mp (hcount ▸ hc) with hlt | rfl
      · exact List.mem_append_left _ (hi.installed c hlt)
      · simp [dialNote, hev]
  · rcases ha.token hblank htok with hold | ⟨r, hpc, hw, _⟩
    · exact hid c (hmade c hold) (hi.token c hold)
    · obtain ⟨hc, hrealm⟩ := hscope.shared.connCh r c hw
      rw [ha.extends.realmID c hc, hrealm]
      refine ⟨log.events, pc.hasInstalled, ?_, hi.installed c hc⟩
      rw [hpc]
      rfl
  · refine forall_update (P := fun _ (p : Pc) => p.returns = some c →
      (dialNote log t w.shared (w.thr t) s pc).Answered c (s.table.conns c).realmID)
      (fun hp => ?_) (fun u _ hu => ?_) u
    · have htok := ha.returns hp
      exact hid c (hmade c htok) (hi.token c htok)
    · exact hid c (Pc.Scoped.of_returns (hscope.thr u) hu).1 (hi.returns u c hu)

theorem answers (h : dialSystem.Reach (fun p => ok p.1) (w, log)) : Answers w log := by
  refine recorded_invariant (I := Answers) ?_ ?_ ?_ h
  · intro now session _
    refine ⟨fun c hc => absurd hc (Nat.not_lt_zero c), fun c hc => (nomatch hc), fun t c ht => ?_⟩
    have hnone := forall_startThreads (P := fun p => p.returns = none) rfl rfl rfl t
    have ht : (startThreads t).returns = some c := ht
    rw [hnone] at ht
    cases ht
  · intro w log t ch s pc hr hi _ _ ha
    exact hi.step hr ha
  · intro w log d _ hi
    exact ⟨hi.installed, hi.token, hi.returns⟩

/-! ### Together -/

/-- The reader is never blocked by a channel of `t.connCh`. -/
theorem conn_enabled (hi : Waiting w) (r : UInt32) :
    (next w.shared (.reader (.conn r)) .go).isSome = true := by
  unfold next stepReader
  dsimp only
  cases hl : w.shared.table.connCh.lookup r with
  | none => rfl
  | some c =>
      have hfree : (w.shared.table.conns c).connCh = false := hi.unanswered r c hl
      dsimp only
      rw [if_neg (Bool.eq_false_iff.mp hfree)]
      rfl

theorem Waiting.length_le_one (hi : Waiting w) (hr : system.Reach ok w) :
    w.shared.table.connCh.entries.length ≤ 1 := by
  have hmem : ∀ e ∈ w.shared.table.connCh.entries, w.shared.ledger.waiting e.1 = some e.2 :=
    fun e he => AList.mem_lookup_iff.mpr he
  have hkeys := w.shared.table.connCh.nodupKeys
  cases hes : w.shared.table.connCh.entries with
  | nil => simp
  | cons e es =>
      cases es with
      | nil => simp
      | cons e' es =>
          rw [hes] at hmem hkeys
          have hsame := (hi.unique hr (hmem e (by simp)) (hmem e' (by simp))).1
          have hne : e.1 ≠ e'.1 := by
            have hnot := (List.nodupKeys_cons.mp hkeys).1
            intro he
            exact hnot (by simp [List.keys, he])
          exact absurd hsame hne

/-- **What a `Dial` leaves behind.**  A `Dial` that is refused at its entry has tried nothing, and
one that fails later leaves no entry for a realm ID that it tried; `t.connCh` has at most one entry,
of the `Dial` that has `dialMu`; the reader's send on it does not block; and a `Conn` is returned
only after a CONN for its realm, processed after the `Conn` was installed. -/
theorem dial_leaves_no_trace (h : dialSystem.Reachable (w, log)) :
    (∀ t port, w.thr t = .dial (.enter port) → log.tried t = []) ∧
    (∀ t e, w.thr t = .dial (.ret (.error e)) → ∀ id ∈ log.tried t,
      w.shared.table.lookup id = none ∧ w.shared.table.connCh.lookup id = none) ∧
    w.shared.table.connCh.entries.length ≤ 1 ∧
    (∀ id c, w.shared.table.connCh.lookup id = some c →
      ∃ t, (w.thr t).holds .dialMu = true ∧ (w.thr t).registered = some (id, c)) ∧
    (∀ t r, w.thr t = .reader (.conn r) → (next w.shared (w.thr t) .go).isSome = true) ∧
    ∀ t c, w.thr t = .dial (.ret (.ok c)) →
      log.Answered c (w.shared.table.conns c).realmID := by
  have hr : system.Reachable w := System.Reach.unlog (p := (w, log)) h
  have hwait := waitingEntries hr
  have htried := @triedIDs w (fun _ _ => True) log h
  have hans := @answers w (fun _ _ => True) log h
  refine ⟨fun t port ht => htried.queued t (by rw [ht]; rfl),
    fun t e ht id hid => ⟨?_, ?_⟩, hwait.length_le_one hr, fun id c hw => ?_,
    fun t r ht => ?_, fun t c ht => ?_⟩
  · have hgone := htried.gone t (by rw [ht]; rfl) (by rw [ht]; rfl) id hid
    rw [ht] at hgone
    exact hgone.resolve_right (by simp [Pc.trying])
  · by_contra hne
    obtain ⟨c, hc⟩ := Option.ne_none_iff_exists'.mp hne
    have hreg := hwait.of_dial hr (t := t) (by rw [ht]; rfl) hc
    rw [ht] at hreg
    cases hreg
  · obtain ⟨t, ht⟩ := hwait.owner id c hw
    exact ⟨t, Pc.holds_of_registered ht, ht⟩
  · rw [ht]
    exact conn_enabled hwait r
  · exact hans.returns t c (by rw [ht]; rfl)

/-- A first attempt times out, its CONN comes late, and the BIND of the second one cannot be
sent. -/
def failedDialScript : List (Label Choice Time) :=
  dialScript 2 554 7 ++ acts 2 [.select .timeout] ++
    receiveScript (newStatusBody 7 statusConnect) 4 ++
    acts 2 [.go, .go, .draw 9] ++ acts 2 (gos 5) ++ acts 2 [.udp .fail] ++ acts 2 (gos 3)

theorem dial_leaves_no_trace_failedDialScript :
    ∃ w log, dialSystem.exec (fun _ _ => True) (start 1 newSession, {}) failedDialScript =
        some (w, log) ∧
      w.thr 2 = .dial (.ret (.error (.send .io))) ∧ log.tried 2 = [7, 9] ∧
      w.shared.table.lookup 7 = none ∧ w.shared.table.connCh.lookup 9 = none := by
  have hrun : (dialSystem.exec (fun _ _ => True) (start 1 newSession, {}) failedDialScript).map
      (fun p => (p.1.thr 2, p.2.tried 2)) =
      some (.dial (.ret (.error (.send .io))), [7, 9]) := by
    decide +kernel
  obtain ⟨⟨w, log⟩, hw, he⟩ := Option.map_eq_some_iff.mp hrun
  obtain ⟨hthr, htried⟩ := Prod.mk.inj he
  have hstart : dialSystem.Reachable (start 1 newSession, {}) :=
    .init ⟨⟨1, newSession, by decide, rfl⟩, rfl⟩
  have hgone := (dial_leaves_no_trace (hstart.exec hw)).2.1 2 _ hthr
  exact ⟨w, log, hw, hthr, htried, (hgone 7 (by rw [htried]; decide)).1,
    (hgone 9 (by rw [htried]; decide)).2⟩

end DahuaP2p.Tunnel
