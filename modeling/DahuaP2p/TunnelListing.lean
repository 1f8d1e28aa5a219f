import DahuaP2p.TunnelTracked

/-! # How a `Conn` gets into `t.realms` and out of it

An entry of `t.realms` is made by a BIND attempt for its new `Conn`, and a `Conn` that has lost
its entry never gets one again (`Acts.listed`).  `Conn.Close` returns early if somebody else has
set the closed flag before it; `unlisted_of_closed` says why it may: the reader and
`Tunnel.Close` remove the entry before they set the flag, so the entry of a closed `Conn` is gone
unless another `Conn.Close` is still on its way to remove it.

`Pc.method` says whether a goroutine is inside `Dial` or inside a `Conn.Close`: a goroutine gets
there only by a call (`next_idle_method`) and leaves only by returning (`Acts.method`). -/

namespace DahuaP2p.Tunnel

open BigEndian Ptcp Threads

variable {s s' : Shared} {pc pc' : Pc} {c : ConnId} {w w' : World Shared Pc}
  {ok : World Shared Pc → Label Choice Time → Prop}

/-! ### Entries -/

/-- No entry of `t.realms` names the `Conn`. -/
def Shared.Unlisted (s : Shared) (c : ConnId) : Prop := ∀ id, s.table.lookup id ≠ some c

/-- The `Conn` of the BIND attempt the goroutine is in, or that its `Dial` is about to return. -/
def Pc.dialled : Pc → Option ConnId
  | .dial (.ret (.ok c)) => some c
  | pc => pc.attempt.map Prod.snd

/-- An entry is an old one, or it is that of a new `Conn`. -/
theorem Acts.listed (h : Acts s pc s' pc') {id : UInt32} (hl : s'.table.lookup id = some c) :
    s.table.lookup id = some c ∨ (c = s.table.connCount ∧ pc'.dialled = some c) := by
  have hdel : ∀ realm, (s.table.delete realm).lookup id = some c →
      s.table.lookup id = some c := by
    intro realm h
    rw [Table.delete_lookup] at h
    split at h
    · cases h
    · exact h
  rcases h with ⟨rfl, _⟩ | h
  · exact Or.inl hl
  · cases h with
    | closeSwap => cases hl
    | readerDisc | readerOverflow | dialDropRealm | connCloseRemove => exact Or.inl (hdel _ hl)
    | dialInstall port a realm m hm =>
        rw [Table.install_lookup _ _ _ _ hm] at hl
        split at hl
        · cases hl
          exact Or.inr ⟨rfl, rfl⟩
        · exact Or.inl hl
    | _ => exact Or.inl hl

/-- A `Conn` gets no second entry. -/
theorem Acts.unlisted (h : Acts s pc s' pc') (hc : c < s.table.connCount) (hu : s.Unlisted c) :
    s'.Unlisted c := by
  intro id hl
  rcases h.listed hl with hold | ⟨hnew, _⟩
  · exact hu id hold
  · exact hc.ne hnew

/-- Removing the realm ID of a `Conn` removes its entry. -/
theorem Shared.Scoped.unlisted_of_delete {id : UInt32} (hs : s.Scoped) (hn : s.Named id c)
    (ht : s'.table = s.table.delete id) : s'.Unlisted c := by
  intro realm hl
  rw [ht, Table.delete_lookup] at hl
  split at hl
  · cases hl
  · rename_i hne
    exact hne ((hs.realms realm c hl).2.symm.trans hn.2)

theorem Shared.unlisted_of_none (h : s.table.realms = none) : s.Unlisted c := by
  intro id hl
  simp [Table.lookup, h] at hl

/-! ### Why `Conn.Close` may return early -/

def SignalCall.tearing (c : ConnId) : SignalCall → Option ConnId
  | readerDisc => some c
  | readerOverflow _ => some c
  | _ => none

/-- The `Conn` that the reader is tearing down. -/
def Pc.tearing : Pc → Option ConnId
  | .signal _ c k => k.tearing c
  | _ => none

def SignalCall.removing (c : ConnId) : SignalCall → Option ConnId
  | connClose false => some c
  | _ => none

/-- The `Conn` whose entry the goroutine is going to remove at the end of `Conn.Close`. -/
def Pc.removing : Pc → Option ConnId
  | .send _ k => k.closing
  | .signal _ c k => k.removing c
  | .connClose (.check c) => some c
  | .connClose (.remove c) => some c
  | _ => none

section returns
variable (k : SendCall) (e : Option SendError) (d : ConnId) (j : SignalCall)

@[simp] theorem Resumes.tearing (h : Resumes pc) : pc.tearing = none := by
  cases h <;> rfl

@[simp] theorem SendCall.written_tearing : (k.written e).tearing = none := by
  rcases k.written_cases e with ⟨_, _, h⟩ | ⟨_, h⟩ <;> rw [h] <;> rfl

@[simp] theorem SendCall.ret_removing : (k.ret e).removing = k.closing := by
  cases k <;> cases e <;> simp only [SendCall.ret] <;> (try split) <;> rfl

@[simp] theorem SendCall.written_removing : (k.written e).removing = k.closing := by
  rcases k.written_cases e with ⟨_, _, h⟩ | ⟨_, h⟩ <;> rw [h] <;> rfl

@[simp] theorem SignalCall.ret_removing : (j.ret d).removing = j.removing d := by
  rcases j with _ | _ | _ | _ | _ <;> rfl

end returns

/-- The reader removes the entry of a `Conn` before it tears the `Conn` down. -/
theorem Acts.tearing (h : Acts s pc s' pc') (hs : s.Scoped) (hp : pc.Scoped s)
    (hc : pc'.tearing = some c) : pc.tearing = some c ∨ s'.Unlisted c := by
  rcases h with ⟨rfl, h⟩ | h
  · cases h with
    | sendCheckClosed | sendCheckExpired | sendSelectClosed | sendSelectDone | sendSelectTimeout
    | closeAgain =>
        rw [Resumes.tearing (by simp)] at hc
        cases hc
    | _ => exact Or.inl hc
  · cases h with
    | sendGiveBack | sendRelease | signalInterrupt | closeCallback | readerCount =>
        rw [Resumes.tearing (by simp)] at hc
        cases hc
    | sendWriteOk | sendWriteFail | sendBlockedOk | sendBlockedFail =>
        rw [SendCall.written_tearing] at hc
        cases hc
    | readerDisc _ _ hl =>
        cases hc
        exact Or.inr (hs.unlisted_of_delete (hs.realms _ _ hl) rfl)
    | readerOverflow =>
        cases hc
        exact Or.inr (hs.unlisted_of_delete hp rfl)
    | _ => exact Or.inl hc

/-- `Conn.Close` goes on until it has removed the entry. -/
theorem Acts.removing (h : Acts s pc s' pc') (hs : s.Scoped) (hp : pc.Scoped s)
    (hc : pc.removing = some c) : pc'.removing = some c ∨ s'.Unlisted c := by
  rcases h with ⟨rfl, h⟩ | h
  · cases h with
    | sendCheckClosed | sendCheckExpired | sendSelectClosed | sendSelectDone | sendSelectTimeout =>
        exact Or.inl ((SendCall.ret_removing _ _).trans hc)
    | _ => first | exact Or.inl hc | cases hc
  · cases h with
    | sendGiveBack | sendRelease => exact Or.inl ((SendCall.ret_removing _ _).trans hc)
    | sendWriteOk | sendWriteFail | sendBlockedOk | sendBlockedFail =>
        exact Or.inl ((SendCall.written_removing _ _).trans hc)
    | signalInterrupt => exact Or.inl ((SignalCall.ret_removing _ _).trans hc)
    | connCloseRemove d =>
        cases hc
        exact Or.inr (hs.unlisted_of_delete ⟨hp.1, rfl⟩ rfl)
    | _ => first | exact Or.inl hc | cases hc

/-- Who sets the closed flag of a `Conn`. -/
theorem Acts.closed_cases (h : Acts s pc s' pc') (hcl : (s'.table.conns c).closed = true) :
    (s.table.conns c).closed = true ∨ pc'.removing = some c ∨ pc.tearing = some c ∨
      pc.swapped = true ∨ pc.closing = some c := by
  have hset : ∀ (d : ConnId) (cn : Conn), cn.closed = (s.table.conns d).closed →
      ((s.table.setConn d cn).conns c).closed = true → (s.table.conns c).closed = true :=
    fun d cn hcn h => (s.table.setConn_field d c cn Conn.closed hcn).symm.trans h
  rcases h with ⟨rfl, _⟩ | h
  · exact Or.inl hcl
  · cases h with
    | setDeadline d t =>
        rw [Shared.setWriteDeadline_field _ _ _ _ Conn.closed fun _ _ _ => rfl,
          Shared.setReadDeadline_field _ _ _ _ Conn.closed fun _ _ _ => rfl] at hcl
        exact Or.inl hcl
    | setReadDeadline d t =>
        rw [Shared.setReadDeadline_field _ _ _ _ Conn.closed fun _ _ _ => rfl] at hcl
        exact Or.inl hcl
    | setWriteDeadline d t =>
        rw [Shared.setWriteDeadline_field _ _ _ _ Conn.closed fun _ _ _ => rfl] at hcl
        exact Or.inl hcl
    | signalSetClosed d k =>
        by_cases hd : c = d
        · subst hd
          refine Or.inr (Or.inr ?_)
          cases k with
          | close => exact Or.inr (Or.inl rfl)
          | readerDisc | readerOverflow => exact Or.inl rfl
          | connClose => exact Or.inr (Or.inr rfl)
        · rw [Table.setConn_conns_of_ne _ _ _ _ hd] at hcl
          exact Or.inl hcl
    | connCloseEnter d =>
        by_cases hd : c = d
        · subst hd
          cases hold : (s.table.conns c).closed with
          | true => exact Or.inl rfl
          | false => exact Or.inr (Or.inl rfl)
        · rw [Table.setConn_conns_of_ne _ _ _ _ hd] at hcl
          exact Or.inl hcl
    | signalCloseCh | readerConn | readerEnqueue | dialGranted | readBuffered | readDrained
    | readData | readCopy => exact Or.inl (hset _ _ (by rfl) hcl)
    | dialInstall port a id m hm =>
        by_cases hd : c = s.table.connCount
        · subst hd
          rw [Table.install_conns_self] at hcl
          cases hcl
        · have hold : (s.table.install m id port).conns c = s.table.conns c :=
            Function.update_of_ne hd _ _
          rw [hold] at hcl
          exact Or.inl hcl
    | _ => exact Or.inl hcl

theorem Pc.Scoped.of_tearing (h : pc.Scoped s) (hc : pc.tearing = some c) :
    c < s.table.connCount := by
  cases pc with
  | signal p d k =>
      cases k with
      | readerDisc | readerOverflow =>
          cases hc
          exact h.1
      | _ => cases hc
  | _ => cases hc

/-- A `Conn` that the reader tears down has no entry. -/
theorem unlisted_of_tearing (h : system.Reach ok w) {t : ℕ} (ht : (w.thr t).tearing = some c) :
    w.shared.Unlisted c := by
  refine system_held (f := Pc.tearing) (P := Shared.Unlisted) rfl rfl rfl ?_ ?_
    (fun _ _ _ hgone => hgone) h ht
  · intro w t s pc u c hr ha hu hgone
    exact ha.unlisted (((scope hr).thr u).of_tearing hu) hgone
  · intro w t s pc c hr ha hc
    exact ha.tearing (scope hr).shared ((scope hr).thr t) hc

/-- **The entry of a closed `Conn` is gone**, or a `Conn.Close` is going to remove it. -/
theorem unlisted_of_closed (h : system.Reach ok w)
    (hcl : (w.shared.table.conns c).closed = true) :
    w.shared.Unlisted c ∨ ∃ t, (w.thr t).removing = some c := by
  revert c
  refine system_invariant (I := fun w => ∀ {c}, (w.shared.table.conns c).closed = true →
    w.shared.Unlisted c ∨ ∃ t, (w.thr t).removing = some c) ?_ ?_ ?_ h
  · intro now session _ c hcl
    cases hcl
  · intro w t ch s pc hr hi _ _ ha c hcl
    have hscope := scope hr
    have hkeep : (w.shared.table.conns c).closed = true →
        s.Unlisted c ∨ ∃ u, (Function.update w.thr t pc u).removing = some c := by
      intro hold
      rcases hi hold with hu | ⟨u, hu⟩
      · exact Or.inl (ha.unlisted (hscope.of_closed hold) hu)
      · by_cases hut : u = t
        · subst hut
          rcases ha.removing hscope.shared (hscope.thr u) hu with hnext | hgone
          · exact Or.inr (exists_update_self hnext)
          · exact Or.inl hgone
        · exact Or.inr (exists_update hut hu)
    rcases ha.closed_cases hcl with hold | hrem | htear | hswap | hclosing
    · exact hkeep hold
    · exact Or.inr (exists_update_self hrem)
    · exact Or.inl (ha.unlisted ((hscope.thr t).of_tearing htear) (unlisted_of_tearing hr htear))
    · exact Or.inl (Shared.unlisted_of_none (ha.realms_none (realms_none_of_swapped hr hswap)))
    · exact hkeep (closed_of_closing hr hclosing)
  · intro w d _ hi c hcl
    exact hi hcl

/-! ### Methods -/

/-- The two methods that make and unmake entries. -/
inductive Method where
  | dial
  | connClose (c : ConnId)
  | other
deriving DecidableEq

def SendCall.method : SendCall → Method
  | dial _ _ _ _ => .dial
  | connClose _ c _ => .connClose c
  | _ => .other

def SignalCall.method (c : ConnId) : SignalCall → Method
  | connClose _ => .connClose c
  | _ => .other

/-- The method a goroutine is inside of. -/
def Pc.method : Pc → Method
  | .send _ k => k.method
  | .signal _ c k => k.method c
  | .dial _ => .dial
  | .connClose (.enter c) => .connClose c
  | .connClose (.check c) => .connClose c
  | .connClose (.remove c) => .connClose c
  | _ => .other

def Call.method : Call → Method
  | .dial _ => .dial
  | .connClose c => .connClose c
  | _ => .other

section returns
variable (k : SendCall) (e : Option SendError) (d : ConnId) (j : SignalCall)

@[simp] theorem SendCall.ret_method : (k.ret e).method = k.method := by
  cases k <;> cases e <;> simp only [SendCall.ret] <;> (try split) <;> rfl

@[simp] theorem SendCall.written_method : (k.written e).method = k.method := by
  rcases k.written_cases e with ⟨_, _, h⟩ | ⟨_, h⟩ <;> rw [h] <;> rfl

theorem SignalCall.ret_method : j.ret d = .idle ∨ (j.ret d).method = j.method d := by
  rcases j with _ | _ | _ | _ | _
  · exact Or.inr rfl
  · exact Or.inr rfl
  · exact Or.inr rfl
  · exact Or.inr rfl
  · exact Or.inl rfl

theorem Background.method (h : Background pc) : pc.method = .other := by
  cases h <;> rfl

end returns

/-- A goroutine stays inside its method until it returns. -/
theorem Acts.method (h : Acts s pc s' pc') (hidle : pc ≠ .idle) :
    pc' = .idle ∨ pc'.method = pc.method := by
  rcases h with ⟨rfl, h⟩ | h
  · cases h with
    | callClose | callDial | callConnClose | callWrite | callRead => exact absurd rfl hidle
    | sendCheckClosed | sendCheckExpired | sendSelectClosed | sendSelectDone | sendSelectTimeout =>
        exact Or.inr (SendCall.ret_method _ _)
    | closeAgain k => exact Or.inr k.ret_background.method
    | _ => first | exact Or.inr rfl | exact Or.inl rfl
  · cases h with
    | sendGiveBack | sendRelease => exact Or.inr (SendCall.ret_method _ _)
    | sendWriteOk | sendWriteFail | sendBlockedOk | sendBlockedFail =>
        exact Or.inr (SendCall.written_method _ _)
    | signalInterrupt => exact SignalCall.ret_method _ _
    | closeCallback k => exact Or.inr k.ret_background.method
    | readerCount q => exact Or.inr (dispatch_background q.body).method
    | retire | setOnCloseLate | setOnClose | setDeadline | setReadDeadline | setWriteDeadline
    | flushFires => exact absurd rfl hidle
    | _ => first | exact Or.inr rfl | exact Or.inl rfl

/-- A goroutine gets into a method by calling it. -/
theorem next_idle_method {k : Call} (h : next s .idle (.call k) = some (s', pc')) :
    pc'.method = k.method := by
  simp only [next] at h
  cases k with
  | dial | close =>
      cases h
      rfl
  | connClose | write | read | setDeadline | setReadDeadline | setWriteDeadline | flushACK =>
      simp only [stepCall, Option.ite_none_right_eq_some, Option.some.injEq, Prod.mk.injEq] at h
      obtain ⟨_, _, rfl⟩ := h
      rfl
  | retire =>
      simp only [stepCall, Option.ite_none_left_eq_some, Option.some.injEq, Prod.mk.injEq] at h
      obtain ⟨_, _, rfl⟩ := h
      rfl
  | setOnClose =>
      simp only [stepCall, Option.ite_none_left_eq_some] at h
      obtain ⟨_, h⟩ := h
      split at h <;> (cases h; rfl)

/-! ### The `Conn` of a `Dial` -/

section returns
variable (k : SendCall) (e : Option SendError) (d : ConnId) (j : SignalCall)

@[simp] theorem SendCall.ret_dialled : (k.ret e).dialled = k.binds.map Prod.snd := by
  cases k <;> cases e <;> simp only [SendCall.ret] <;> (try split) <;> rfl

@[simp] theorem SendCall.written_dialled : (k.written e).dialled = k.binds.map Prod.snd := by
  rcases k.written_cases e with ⟨_, _, h⟩ | ⟨_, h⟩ <;> rw [h] <;> rfl

@[simp] theorem SignalCall.ret_dialled : (j.ret d).dialled = none := by
  rcases j with _ | _ | _ | _ | _ <;> rfl

theorem Background.dialled (h : Background pc) : pc.dialled = none := by
  cases h <;> rfl

end returns

/-- `Dial` keeps its `Conn` until it returns it or has removed its entry. -/
theorem Acts.dialled (h : Acts s pc s' pc') (hs : s.Scoped) (hp : pc.Scoped s)
    (hd : pc.dialled = some c) :
    pc'.dialled = some c ∨ s'.Unlisted c ∨ pc = .dial (.ret (.ok c)) := by
  rcases h with ⟨rfl, h⟩ | h
  · cases h with
    | sendCheckClosed | sendCheckExpired | sendSelectClosed | sendSelectDone | sendSelectTimeout =>
        exact Or.inl ((SendCall.ret_dialled _ _).trans hd)
    | _ => first | exact Or.inl hd | cases hd
  · cases h with
    | sendGiveBack | sendRelease => exact Or.inl ((SendCall.ret_dialled _ _).trans hd)
    | sendWriteOk | sendWriteFail | sendBlockedOk | sendBlockedFail =>
        exact Or.inl ((SendCall.written_dialled _ _).trans hd)
    | dialDropRealm =>
        cases hd
        exact Or.inr (Or.inl (hs.unlisted_of_delete hp rfl))
    | dialRet r =>
        cases r with
        | ok d =>
            cases hd
            exact Or.inr (Or.inr rfl)
        | error => cases hd
    | _ => first | exact Or.inl hd | cases hd

/-- A `Dial` gets its `Conn` by making it. -/
theorem Acts.of_dialled (h : Acts s pc s' pc') (hd : pc'.dialled = some c) :
    pc.dialled = some c ∨ c = s.table.connCount := by
  rcases h with ⟨rfl, h⟩ | h
  · cases h with
    | sendCheckClosed | sendCheckExpired | sendSelectClosed | sendSelectDone | sendSelectTimeout =>
        rw [SendCall.ret_dialled] at hd
        exact Or.inl hd
    | closeAgain k =>
        rw [k.ret_background.dialled] at hd
        cases hd
    | _ => exact Or.inl hd
  · cases h with
    | sendGiveBack | sendRelease =>
        rw [SendCall.ret_dialled] at hd
        exact Or.inl hd
    | sendWriteOk | sendWriteFail | sendBlockedOk | sendBlockedFail =>
        rw [SendCall.written_dialled] at hd
        exact Or.inl hd
    | signalInterrupt =>
        rw [SignalCall.ret_dialled] at hd
        cases hd
    | closeCallback k =>
        rw [k.ret_background.dialled] at hd
        cases hd
    | readerCount q =>
        rw [(dispatch_background q.body).dialled] at hd
        cases hd
    | dialInstall =>
        cases hd
        exact Or.inr rfl
    | _ => first | exact Or.inl hd | cases hd

theorem Pc.Scoped.of_dialled (h : pc.Scoped s) (hd : pc.dialled = some c) :
    c < s.table.connCount := by
  cases pc with
  | dial p =>
      cases p with
      | ret r =>
          cases r with
          | ok d =>
              cases hd
              exact h.1
          | error => cases hd
      | register | wait | dropRealm =>
          cases hd
          exact h.1
      | _ => cases hd
  | send p k =>
      cases k with
      | dial =>
          cases hd
          exact h.1
      | _ => cases hd
  | _ => cases hd

/-- Only `Dial` has a `Conn` of a BIND attempt. -/
theorem Pc.method_of_dialled (hd : pc.dialled = some c) : pc.method = .dial := by
  cases pc with
  | dial => rfl
  | send p k =>
      cases k with
      | dial => rfl
      | _ => cases hd
  | _ => cases hd

/-! ### How `Conn.Close` ends -/

def SignalCall.late (c : ConnId) : SignalCall → Option ConnId
  | connClose true => some c
  | _ => none

/-- The `Conn` whose `Close` has found it closed already. -/
def Pc.late : Pc → Option ConnId
  | .signal _ c k => k.late c
  | _ => none

@[simp] theorem Resumes.late (h : Resumes pc) : pc.late = none := by
  cases h <;> rfl

@[simp] theorem SendCall.written_late (k : SendCall) (e : Option SendError) :
    (k.written e).late = none := by
  rcases k.written_cases e with ⟨_, _, h⟩ | ⟨_, h⟩ <;> rw [h] <;> rfl

/-- Only a `Close` that finds the flag set takes the short way. -/
theorem Acts.late (h : Acts s pc s' pc') (hl : pc'.late = some c) :
    pc.late = some c ∨ pc = .connClose (.enter c) ∧ (s.table.conns c).closed = true := by
  rcases h with ⟨rfl, h⟩ | h
  · cases h with
    | sendCheckClosed | sendCheckExpired | sendSelectClosed | sendSelectDone | sendSelectTimeout
    | closeAgain =>
        rw [Resumes.late (by simp)] at hl
        cases hl
    | _ => exact Or.inl hl
  · cases h with
    | sendGiveBack | sendRelease | signalInterrupt | closeCallback | readerCount =>
        rw [Resumes.late (by simp)] at hl
        cases hl
    | sendWriteOk | sendWriteFail | sendBlockedOk | sendBlockedFail =>
        rw [SendCall.written_late] at hl
        cases hl
    | connCloseEnter d =>
        cases hcl : (s.table.conns d).closed with
        | true =>
            simp only [Pc.late, hcl] at hl
            cases hl
            exact Or.inr ⟨rfl, hcl⟩
        | false =>
            simp only [Pc.late, hcl] at hl
            cases hl
    | _ => exact Or.inl hl

/-- A send of `Conn.Close` does not end it. -/
theorem SendCall.ret_ne_idle {k : SendCall} (e : Option SendError)
    (hk : k.method = .connClose c) : k.ret e ≠ .idle := by
  cases k with
  | connClose =>
      cases e <;> simp only [SendCall.ret]
      · split <;> exact Pc.noConfusion
      · exact Pc.noConfusion
  | _ => cases hk

theorem SendCall.written_ne_idle (k : SendCall) (e : Option SendError) : k.written e ≠ .idle := by
  rcases k.written_cases e with ⟨_, _, h⟩ | ⟨_, h⟩ <;> rw [h] <;> exact Pc.noConfusion

/-- `Conn.Close` returns after it has removed the entry, or because it is late. -/
theorem Acts.connClose_returns (h : Acts s pc s' pc') (hs : s.Scoped) (hp : pc.Scoped s)
    (hm : pc.method = .connClose c) (hidle : pc' = .idle) : s'.Unlisted c ∨ pc.late = some c := by
  rcases h with ⟨rfl, h⟩ | h
  · cases h with
    | sendCheckClosed | sendCheckExpired | sendSelectClosed | sendSelectDone | sendSelectTimeout =>
        exact absurd hidle (SendCall.ret_ne_idle _ hm)
    | _ => first | (cases hidle <;> cases hm) | cases hm
  · cases h with
    | sendGiveBack | sendRelease => exact absurd hidle (SendCall.ret_ne_idle _ hm)
    | sendWriteOk | sendWriteFail | sendBlockedOk | sendBlockedFail =>
        exact absurd hidle (SendCall.written_ne_idle _ _)
    | signalInterrupt d k =>
        cases k with
        | connClose b =>
            cases hm
            cases b with
            | true => exact Or.inr rfl
            | false => cases hidle
        | _ => cases hm
    | connCloseRemove d =>
        cases hm
        exact Or.inl (hs.unlisted_of_delete ⟨hp.1, rfl⟩ rfl)
    | _ => first | (cases hidle <;> cases hm) | cases hm

theorem Pc.method_of_late (h : pc.late = some c) : pc.method = .connClose c := by
  cases pc with
  | signal p d k =>
      cases k with
      | connClose b =>
          cases b with
          | true =>
              cases h
              rfl
          | false => cases h
      | _ => cases h
  | _ => cases h

theorem Pc.method_of_removing (h : pc.removing = some c) : pc.method = .connClose c := by
  cases pc with
  | send p k =>
      cases k with
      | connClose =>
          cases h
          rfl
      | _ => cases h
  | signal p d k =>
      cases k with
      | connClose b =>
          cases b with
          | true => cases h
          | false =>
              cases h
              rfl
      | _ => cases h
  | connClose p =>
      cases p with
      | enter => cases h
      | check | remove =>
          cases h
          rfl
  | _ => cases h

/-! ### The size of the table -/

/-- The entries of `t.realms`. -/
def Table.entries (tb : Table) : List (UInt32 × ConnId) := (tb.realms.map realmEntries).getD []

/-- `ActiveRealms`. -/
def Table.activeRealms (tb : Table) : ℕ := tb.entries.length

theorem lookup_of_mem_entries {tb : Table} {e : UInt32 × ConnId} (h : e ∈ tb.entries) :
    tb.lookup e.1 = some e.2 := by
  unfold Table.entries at h
  cases hr : tb.realms with
  | none => simp [hr] at h
  | some m =>
      simp only [hr, Option.map_some, Option.getD_some, realmEntries, List.mem_map] at h
      obtain ⟨x, hx, rfl⟩ := h
      simpa [Table.lookup, hr] using AList.mem_lookup_iff.mpr hx

theorem entries_nodup (tb : Table) : tb.entries.Nodup := by
  unfold Table.entries
  cases tb.realms with
  | none => simp
  | some m =>
      have hkeys : (m.entries.map Sigma.fst).Nodup := m.nodupKeys
      simp only [Option.map_some, Option.getD_some, realmEntries]
      refine List.Nodup.of_map Prod.fst ?_
      rw [List.map_map]
      exact hkeys

end DahuaP2p.Tunnel
