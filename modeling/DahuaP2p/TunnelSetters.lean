import DahuaP2p.TunnelDeadlines

/-! # Setting the deadline of an active write

`SetDeadline` and `SetWriteDeadline` store the deadline in the `Conn` and then, under another lock,
hand their argument to the socket if the `Conn` is the active writer.

* If the calls for one `Conn` do not overlap and the socket accepts what it is given, then the
  socket has the deadline of the open `Conn` that is writing, whenever no such call is in progress
  (`latest_deadline_governs`).
* If two calls overlap, the one that stored its deadline first may be the last to get to the
  socket (`overtaken_deadline`). -/

namespace DahuaP2p.Tunnel

open BigEndian Ptcp Threads

variable {s s' : Shared} {pc pc' : Pc} {c : ConnId} {w : World Shared Pc} {τ : Time}
  {ok : World Shared Pc → Label Choice Time → Prop}

/-! ### Deadlines on their way to the socket -/

/-- The deadline with which a `SetDeadline` or `SetWriteDeadline` of `c` is on its way to the
socket. -/
def Pc.setting (c : ConnId) : Pc → Option Time
  | .deadline (.lock d t) => if d = c then some t else none
  | .deadline (.read d t) => if d = c then some t else none
  | .deadline (.update d t _) => if d = c then some t else none
  | _ => none

/-- The deadline that a `Write` of `c` is about to give to the socket. -/
def Pc.chosen (c : ConnId) : Pc → Option Time
  | .send (.setDeadline false d) k => if k.writer = some c then some d else none
  | _ => none

@[simp] theorem Resumes.setting (h : Resumes pc) : pc.setting c = none := by
  cases h <;> rfl

@[simp] theorem Resumes.chosen (h : Resumes pc) : pc.chosen c = none := by
  cases h <;> rfl

theorem SendCall.written_setting (k : SendCall) (e : Option SendError) :
    (k.written e).setting c = none := by
  rcases k.written_cases e with ⟨_, _, h⟩ | ⟨_, h⟩ <;> rw [h] <;> rfl

theorem SendCall.written_chosen (k : SendCall) (e : Option SendError) :
    (k.written e).chosen c = none := by
  rcases k.written_cases e with ⟨_, _, h⟩ | ⟨_, h⟩ <;> rw [h] <;> rfl

theorem Pc.decided_of_chosen (h : pc.chosen c = some τ) : pc.decided = some c := by
  cases pc with
  | send p k =>
      cases p with
      | setDeadline closed d =>
          cases closed with
          | false => exact (Option.ite_none_right_eq_some.mp h).1
          | true => cases h
      | _ => cases h
  | _ => cases h

theorem Pc.deadline_of_setting (h : pc.setting c = some τ) : pc = .deadline (.lock c τ) ∨
    pc = .deadline (.read c τ) ∨ ∃ closed, pc = .deadline (.update c τ closed) := by
  cases pc with
  | deadline p =>
      cases p with
      | lock d t | read d t | update d t closed =>
          obtain ⟨rfl, rfl⟩ : d = c ∧ t = τ :=
            ⟨(Option.ite_none_right_eq_some.mp h).1,
              Option.some.inj (Option.ite_none_right_eq_some.mp h).2⟩
          simp
  | _ => cases h

/-! ### What a step does to deadlines -/

/-- Only the calls that set it change the write deadline of a `Conn`. -/
theorem Acts.writeDeadline (h : Acts s pc s' pc')
    (hblank : ∀ c, s.table.connCount ≤ c → s.Blank c) :
    (s'.table.conns c).writeDeadline = (s.table.conns c).writeDeadline ∨
      pc = .idle ∧ ∃ τ, pc' = .deadline (.lock c τ) := by
  have hset : ∀ (d : ConnId) (cn : Conn), cn.writeDeadline = (s.table.conns d).writeDeadline →
      ((s.table.setConn d cn).conns c).writeDeadline = (s.table.conns c).writeDeadline :=
    fun d cn hcn => s.table.setConn_field d c cn Conn.writeDeadline hcn
  rcases h with ⟨rfl, _⟩ | h
  · exact Or.inl rfl
  · cases h with
    | setDeadline d t =>
        by_cases hd : c = d
        · subst hd
          exact Or.inr ⟨rfl, t, rfl⟩
        · rw [Shared.setWriteDeadline_conns_of_ne _ _ _ _ hd,
            Shared.setReadDeadline_conns_of_ne _ _ _ _ hd]
          exact Or.inl rfl
    | setReadDeadline d t =>
        exact Or.inl (Shared.setReadDeadline_field _ _ _ _ Conn.writeDeadline fun _ _ _ => rfl)
    | setWriteDeadline d t =>
        by_cases hd : c = d
        · subst hd
          exact Or.inr ⟨rfl, t, rfl⟩
        · rw [Shared.setWriteDeadline_conns_of_ne _ _ _ _ hd]
          exact Or.inl rfl
    | signalSetClosed d | signalCloseCh d | readerConn _ d | readerEnqueue _ d
    | dialGranted _ _ _ d | connCloseEnter d | readBuffered d | readDrained d | readData d
    | readCopy d => exact Or.inl (hset d _ (by rfl))
    | dialInstall port a id m =>
        refine Or.inl ?_
        by_cases hd : c = s.table.connCount
        · have hnew := (hblank c hd.ge).conn
          subst hd
          rw [hnew, Table.install_conns_self]
          rfl
        · simp only [Table.install, Function.update_of_ne hd]
    | _ => exact Or.inl rfl

/-- A setter has stored its deadline in the `Conn`. -/
theorem Acts.setting (h : Acts s pc s' pc') (hp : pc'.setting c = some τ) :
    pc.setting c = some τ ∨ (s'.table.conns c).writeDeadline = τ := by
  have hstore : ∀ (s : Shared) (d : ConnId) (t : Time),
      (Pc.deadline (.lock d t)).setting c = some τ →
        ((s.setWriteDeadline d t).table.conns c).writeDeadline = τ := by
    intro s d t ht
    obtain ⟨rfl, rfl⟩ : d = c ∧ t = τ := ⟨(Option.ite_none_right_eq_some.mp ht).1,
      Option.some.inj (Option.ite_none_right_eq_some.mp ht).2⟩
    simp [Shared.setWriteDeadline, Table.notifyWriteDeadline, Table.setConn]
  rcases h with ⟨rfl, h⟩ | h
  · cases h with
    | deadlineRead => exact Or.inl hp
    | sendCheckClosed | sendCheckExpired | sendSelectClosed | sendSelectDone | sendSelectTimeout
    | closeAgain => simp at hp
    | _ => cases hp
  · cases h with
    | setDeadline d t => exact Or.inr (hstore _ d t hp)
    | setWriteDeadline d t => exact Or.inr (hstore _ d t hp)
    | deadlineLock => exact Or.inl hp
    | sendGiveBack | sendRelease | signalInterrupt | closeCallback | readerCount => simp at hp
    | sendWriteOk | sendWriteFail | sendBlockedOk | sendBlockedFail =>
        rw [SendCall.written_setting] at hp
        cases hp
    | _ => cases hp

/-- A `Write` takes the deadline of its `Conn`. -/
theorem Acts.chosen (h : Acts s pc s' pc') (hp : pc'.chosen c = some τ) :
    s' = s ∧ (s.table.conns c).writeDeadline = τ := by
  rcases h with ⟨rfl, h⟩ | h
  · refine ⟨rfl, ?_⟩
    cases h with
    | sendReadDeadline k d hk =>
        cases hcl : (s'.table.conns d).closed with
        | true =>
            rw [hcl] at hp
            cases hp
        | false =>
            rw [hcl] at hp
            obtain ⟨hkc, hτ⟩ := Option.ite_none_right_eq_some.mp hp
            rw [hk] at hkc
            cases hkc
            exact Option.some.inj hτ
    | sendCheckClosed | sendCheckExpired | sendSelectClosed | sendSelectDone | sendSelectTimeout
    | closeAgain => simp at hp
    | _ => cases hp
  · cases h with
    | sendGiveBack | sendRelease | signalInterrupt | closeCallback | readerCount => simp at hp
    | sendWriteOk | sendWriteFail | sendBlockedOk | sendBlockedFail =>
        rw [SendCall.written_chosen] at hp
        cases hp
    | _ => cases hp

/-- How the active writer has come by the deadline of the socket. -/
theorem Acts.governs (h : Acts s pc s' pc') (hw : s'.sock.activeWriter = some c) :
    s'.sock = s.sock ∨ pc.chosen c = some s'.sock.writeDeadline ∨
      pc = .deadline (.update c s'.sock.writeDeadline false) ∨ pc.flagged = some c := by
  rcases h with ⟨rfl, _⟩ | h
  · exact Or.inl rfl
  · cases h with
    | sendSetDeadline k d t hk => exact Or.inr (Or.inl (if_pos (hk.trans hw)))
    | sendSetDeadlineError | sendClear => cases hw
    | signalInterrupt d k =>
        by_cases hd : s.sock.activeWriter = some d
        · simp only [hd, if_true, Option.some.injEq] at hw
          subst hw
          exact Or.inr (Or.inr (Or.inr rfl))
        · exact Or.inl (if_neg hd)
    | deadlineUpdate d t hd =>
        obtain rfl := Option.some.inj (hd.symm.trans hw)
        exact Or.inr (Or.inr (Or.inl rfl))
    | _ => exact Or.inl rfl

/-- A setter goes on until it is at the socket. -/
theorem Acts.setting_ends (h : Acts s pc s' pc') (hp : pc.setting c = some τ)
    (hp' : pc'.setting c = none) : ∃ closed, pc = .deadline (.update c τ closed) := by
  rcases Pc.deadline_of_setting hp with rfl | rfl | hclosed
  · have hne : (Pc.deadline (.read c τ)).setting c = some τ := if_pos rfl
    rcases h with ⟨rfl, h⟩ | h
    · cases h
    · cases h
      exact absurd (hne.symm.trans hp') nofun
  · have hne : ∀ closed, (Pc.deadline (.update c τ closed)).setting c = some τ :=
      fun _ => if_pos rfl
    rcases h with ⟨rfl, h⟩ | h
    · cases h
      exact absurd ((hne _).symm.trans hp') nofun
    · cases h
  · exact hclosed

/-! ### Setters -/

/-- The call sets the write deadline of `c`. -/
def setsWriteDeadline (c : ConnId) : Label Choice Time → Bool
  | .thread _ (.call (.setDeadline d _)) => d = c
  | .thread _ (.call (.setWriteDeadline d _)) => d = c
  | _ => false

/-- Calls that set the write deadline of `c` do not overlap. -/
def OneSetter (c : ConnId) (w : World Shared Pc) (l : Label Choice Time) : Prop :=
  setsWriteDeadline c l = true → ∀ t, (w.thr t).setting c = none

/-- The socket accepts the deadline of a setter of `c`. -/
def SocketAccepts (c : ConnId) (w : World Shared Pc) : Label Choice Time → Prop
  | .thread t (.udp r) => (w.thr t).setting c ≠ none → r = .ok
  | _ => True

theorem setsWriteDeadline_of_lock {t : ℕ} {ch : Choice}
    (h : next s .idle ch = some (s', .deadline (.lock c τ))) :
    setsWriteDeadline c (.thread t ch) = true := by
  cases ch with
  | call d =>
      cases d <;> simp only [next, stepCall] at h <;> (try split at h) <;> (try split at h) <;>
        simp_all [setsWriteDeadline]
  | _ => cases h

/-- The last step of a setter. -/
theorem update_of_accepts {t : ℕ} {ch : Choice} (hok : SocketAccepts c w (.thread t ch))
    (hpc : w.thr t = .deadline (.update c τ false))
    (hn : next w.shared (w.thr t) ch = some (s, pc)) (hw : w.shared.sock.activeWriter = some c) :
    s.sock.writeDeadline = τ := by
  rw [hpc] at hn
  cases ch with
  | udp r =>
      have hr : r = .ok := hok (by rw [hpc]; simp [Pc.setting])
      simp only [next, stepDeadline, hw, hr, Option.some.injEq, Prod.mk.injEq] at hn
      rw [← hn.1]
      simp
  | _ => cases hn

/-- The `Conn` that a setter has found closed. -/
def Pc.foundClosed : Pc → Option ConnId
  | .deadline (.update c _ true) => some c
  | _ => none

@[simp] theorem Resumes.foundClosed (h : Resumes pc) : pc.foundClosed = none := by
  cases h <;> rfl

theorem Acts.foundClosed (h : Acts s pc s' pc') (hc : pc'.foundClosed = some c) :
    (s'.table.conns c).closed = true := by
  rcases h with ⟨rfl, h⟩ | h
  · cases h with
    | deadlineRead d t =>
        cases hcl : (s'.table.conns d).closed with
        | false =>
            rw [hcl] at hc
            cases hc
        | true =>
            rw [hcl] at hc
            cases hc
            exact hcl
    | sendCheckClosed | sendCheckExpired | sendSelectClosed | sendSelectDone | sendSelectTimeout
    | closeAgain => simp at hc
    | _ => cases hc
  · cases h with
    | sendGiveBack | sendRelease | signalInterrupt | closeCallback | readerCount => simp at hc
    | sendWriteOk k | sendWriteFail k | sendBlockedOk k | sendBlockedFail k =>
        rcases k.written_cases _ with ⟨_, _, hk⟩ | ⟨_, hk⟩ <;> rw [hk] at hc <;> cases hc
    | _ => cases hc

theorem closed_of_foundClosed (h : system.Reach ok w) {t : ℕ}
    (ht : (w.thr t).foundClosed = some c) : (w.shared.table.conns c).closed = true := by
  refine system_held (f := Pc.foundClosed) (P := fun s c => (s.table.conns c).closed = true)
    rfl rfl rfl ?_ ?_ (fun _ _ _ hcl => hcl) h ht
  · intro w t s pc u c hr ha _ hcl
    exact ha.closed_mono ((scope hr).of_closed hcl) hcl
  · intro w t s pc c _ ha hc
    exact Or.inr (ha.foundClosed hc)

/-! ### The deadline in force -/

/-- A deadline of `c` on its way to the socket is the current one; the socket, and a `Write` that is
about to set it, have the current one as well, or a setter is on its way. -/
structure Governed (c : ConnId) (w : World Shared Pc) : Prop where
  setting : ∀ t τ, (w.thr t).setting c = some τ → (w.shared.table.conns c).writeDeadline = τ
  chosen : ∀ t τ, (w.thr t).chosen c = some τ →
    (w.shared.table.conns c).writeDeadline = τ ∨ ∃ u τ, (w.thr u).setting c = some τ
  active : w.shared.sock.activeWriter = some c → (w.shared.table.conns c).closed = false →
    (w.shared.table.conns c).writeDeadline = w.shared.sock.writeDeadline ∨
      ∃ u τ, (w.thr u).setting c = some τ

section step
variable {t : ℕ} {ch : Choice}

/-- What is on its way stays so, or the goroutine that takes the step has brought it to the
socket. -/
theorem setting_stays (ha : Acts w.shared (w.thr t) s pc) {u : ℕ}
    (hu : (w.thr u).setting c = some τ) :
    (∃ v τ, (Function.update w.thr t pc v).setting c = some τ) ∨
      ∃ closed, w.thr t = .deadline (.update c τ closed) := by
  by_cases hut : u = t
  · subst hut
    cases hp : pc.setting c with
    | some τ' => exact Or.inl ⟨u, τ', by rw [Function.update_self, hp]⟩
    | none => exact Or.inr (ha.setting_ends hu hp)
  · exact Or.inl ⟨u, τ, by rw [Function.update_of_ne hut, hu]⟩

/-- The deadline of `c` is the same, or there is a setter of `c`. -/
theorem writeDeadline_or_setting (hr : system.Reach ok w) (ha : Acts w.shared (w.thr t) s pc) :
    (s.table.conns c).writeDeadline = (w.shared.table.conns c).writeDeadline ∨
      ∃ v τ, (Function.update w.thr t pc v).setting c = some τ := by
  rcases ha.writeDeadline (c := c) (scope hr).blank with he | ⟨_, τ, rfl⟩
  · exact Or.inl he
  · exact Or.inr ⟨t, τ, by rw [Function.update_self]; exact if_pos rfl⟩

theorem Governed.setting_step (hi : Governed c w) (hr : system.Reach ok w)
    (hone : OneSetter c w (.thread t ch)) (hn : next w.shared (w.thr t) ch = some (s, pc))
    (ha : Acts w.shared (w.thr t) s pc) (u : ℕ) (τ : Time) :
    (Function.update w.thr t pc u).setting c = some τ → (s.table.conns c).writeDeadline = τ := by
  have hold : ∀ v τ, (w.thr v).setting c = some τ → (s.table.conns c).writeDeadline = τ := by
    intro v τ hv
    rcases ha.writeDeadline (c := c) (scope hr).blank with he | ⟨hidle, τ', rfl⟩
    · exact he.trans (hi.setting v τ hv)
    · rw [hidle] at hn
      exact absurd ((hone (setsWriteDeadline_of_lock hn) v).symm.trans hv) nofun
  refine forall_update (P := fun _ (p : Pc) => p.setting c = some τ →
    (s.table.conns c).writeDeadline = τ) (fun hp => ?_) (fun v _ => hold v τ) u
  rcases ha.setting hp with hp | he
  · exact hold t τ hp
  · exact he

theorem Governed.chosen_step (hi : Governed c w) (hr : system.Reach ok w)
    (ha : Acts w.shared (w.thr t) s pc) (u : ℕ) (τ : Time) :
    (Function.update w.thr t pc u).chosen c = some τ → (s.table.conns c).writeDeadline = τ ∨
      ∃ v τ, (Function.update w.thr t pc v).setting c = some τ := by
  refine forall_update (P := fun _ (p : Pc) => p.chosen c = some τ →
    (s.table.conns c).writeDeadline = τ ∨
      ∃ v τ, (Function.update w.thr t pc v).setting c = some τ) (fun hp => ?_) (fun v hv hp => ?_) u
  · obtain ⟨rfl, he⟩ := ha.chosen hp
    exact Or.inl he
  · rcases hi.chosen v τ hp with he | ⟨x, τ', hx⟩
    · exact (writeDeadline_or_setting hr ha).imp_left (·.trans he)
    · rcases setting_stays ha hx with hset | ⟨closed, hpc⟩
      · exact Or.inr hset
      · -- a setter at the socket and a `Write` that is about to set it hold the same lock
        have hmu : (w.thr t).holds .writeDeadlineMu = true := by rw [hpc]; rfl
        exact absurd ((resource_exclusive hr .writeDeadlineMu).unique hmu
          (Pc.holds_of_decided (Pc.decided_of_chosen hp))) hv

theorem Governed.active_step (hi : Governed c w) (hr : system.Reach ok w)
    (hacc : SocketAccepts c w (.thread t ch)) (hn : next w.shared (w.thr t) ch = some (s, pc))
    (ha : Acts w.shared (w.thr t) s pc) (hw : s.sock.activeWriter = some c)
    (hopen : (s.table.conns c).closed = false) :
    (s.table.conns c).writeDeadline = s.sock.writeDeadline ∨
      ∃ v τ, (Function.update w.thr t pc v).setting c = some τ := by
  have hopen₀ : (w.shared.table.conns c).closed = false := by
    by_contra hcl
    have hcl := Bool.of_not_eq_false hcl
    have hcl' := ha.closed_mono ((scope hr).of_closed hcl) hcl
    exact absurd (hcl'.symm.trans hopen) nofun
  have hfrom : ∀ {τ}, (w.shared.table.conns c).writeDeadline = τ → s.sock.writeDeadline = τ →
      (s.table.conns c).writeDeadline = s.sock.writeDeadline ∨
        ∃ v τ, (Function.update w.thr t pc v).setting c = some τ :=
    fun hτ hs => (writeDeadline_or_setting hr ha).imp_left fun he => (he.trans hτ).trans hs.symm
  rcases ha.governs hw with hsock | hchosen | hupdate | hflag
  · rw [hsock] at hw
    rcases hi.active hw hopen₀ with he | ⟨u, τ, hu⟩
    · exact hfrom he (by rw [hsock])
    · rcases setting_stays ha hu with hset | ⟨closed, hpc⟩
      · exact Or.inr hset
      · cases closed with
        | true =>
            have hcl := closed_of_foundClosed (c := c) hr (t := t) (by rw [hpc]; rfl)
            exact absurd (hcl.symm.trans hopen₀) nofun
        | false => exact hfrom (hi.setting u τ hu) (update_of_accepts hacc hpc hn hw)
  · rcases hi.chosen t _ hchosen with he | ⟨u, τ, hu⟩
    · exact hfrom he rfl
    · rcases setting_stays ha hu with hset | ⟨closed, hpc⟩
      · exact Or.inr hset
      · rw [hpc] at hchosen
        cases hchosen
  · exact hfrom (hi.setting t _ (by rw [hupdate]; exact if_pos rfl)) rfl
  · exact absurd ((closed_of_flagged hr hflag).symm.trans hopen₀) nofun

end step

theorem governed (h : system.Reach (fun w l => OneSetter c w l ∧ SocketAccepts c w l) w) :
    Governed c w := by
  refine system_invariant (I := Governed c) ?_ ?_ ?_ h
  · intro now session _
    have hset := forall_startThreads (P := fun p => p.setting c = none) rfl rfl rfl
    have hchosen := forall_startThreads (P := fun p => p.chosen c = none) rfl rfl rfl
    exact ⟨fun t τ ht => absurd ((hset t).symm.trans ht) nofun,
      fun t τ ht => absurd ((hchosen t).symm.trans ht) nofun, fun hw => (nomatch hw)⟩
  · intro w t ch s pc hr hi hok hn ha
    exact ⟨hi.setting_step hr hok.1 hn ha, hi.chosen_step hr ha,
      hi.active_step hr hok.2 hn ha⟩
  · intro w d _ hi
    exact ⟨hi.setting, hi.chosen, hi.active⟩

/-- **The latest deadline governs.**  If calls that set the write deadline of `c` do not overlap and
the socket accepts their deadlines, then whenever `c` is open and writing and none of them is in
progress, the socket has the write deadline of `c`. -/
theorem latest_deadline_governs
    (h : system.Reach (fun w l => OneSetter c w l ∧ SocketAccepts c w l) w)
    (hw : w.shared.sock.activeWriter = some c) (hopen : (w.shared.table.conns c).closed = false)
    (hset : ∀ t, (w.thr t).setting c = none) :
    w.shared.sock.writeDeadline = (w.shared.table.conns c).writeDeadline := by
  rcases (governed h).active hw hopen with he | ⟨u, τ, hu⟩
  · exact he.symm
  · exact absurd ((hset u).symm.trans hu) nofun

instance (c : ConnId) (w : World Shared Pc) (l : Label Choice Time) :
    Decidable (SocketAccepts c w l) := by
  rcases l with ⟨t, _ | _⟩ | e
  all_goals try exact .isTrue trivial
  exact inferInstanceAs (Decidable ((w.thr t).setting c ≠ none → _ = UdpResult.ok))

/-- Goroutines that take no step are not started. -/
theorem idle_of_below {n u : ℕ} (h : system.Reach (fun w l => l.below n = true ∧ ok w l) w)
    (hn : 2 ≤ n) (hu : n ≤ u) : w.thr u = .idle := by
  obtain ⟨_, ⟨now, session, _, rfl⟩, hthr⟩ := reach_thr (fun _ _ hl => hl.1) hu h
  rw [hthr]
  match u, hn.trans hu with
  | _ + 2, _ => rfl

/-- Only the first `n` goroutines take steps, and the calls that set the write deadline of `c` do
not overlap. -/
def SettersBelow (n : ℕ) (c : ConnId) (w : World Shared Pc) (l : Label Choice Time) : Prop :=
  l.below n = true ∧ SocketAccepts c w l ∧
    (setsWriteDeadline c l = true → ∀ u < n, (w.thr u).setting c = none)

instance (n : ℕ) (c : ConnId) (w : World Shared Pc) (l : Label Choice Time) :
    Decidable (SettersBelow n c w l) :=
  inferInstanceAs (Decidable (_ ∧ _ ∧ (_ → ∀ u < n, _)))

theorem setting_of_below {n : ℕ} (h : system.Reach (fun w l => l.below n = true ∧ ok w l) w)
    (hn : 2 ≤ n) (hlow : ∀ u < n, (w.thr u).setting c = none) (u : ℕ) :
    (w.thr u).setting c = none := by
  rcases lt_or_ge u n with hu | hu
  · exact hlow u hu
  · rw [idle_of_below h hn hu]
    rfl

theorem SettersBelow.reach {n : ℕ} (h : system.Reach (SettersBelow n c) w) (hn : 2 ≤ n) :
    system.Reach (fun w l => OneSetter c w l ∧ SocketAccepts c w l) w :=
  h.mono fun _ _ _ hr hok _ => ⟨fun hl => setting_of_below hr hn (hok.2.2 hl), hok.2.1⟩

/-- A `Write` is blocked in the socket; its deadline is set, and set again. -/
def settersScript : List (Label Choice Time) :=
  blockedScript ++ acts 4 [.call (.setWriteDeadline 0 10), .go, .go, .udp .ok] ++
    acts 5 [.call (.setDeadline 0 20), .go, .go, .udp .ok]

theorem latest_deadline_governs_settersScript :
    ∃ w, system.exec (SettersBelow 6 0) (start 1 newSession) settersScript = some w ∧
      w.shared.sock.writeDeadline = 20 ∧
      w.shared.sock.writeDeadline = (w.shared.table.conns 0).writeDeadline := by
  have hrun : (system.exec (SettersBelow 6 0) (start 1 newSession) settersScript).map (fun w =>
      (w.shared.sock.activeWriter, w.shared.sock.writeDeadline, (w.shared.table.conns 0).closed,
        (List.range 6).all fun u => (w.thr u).setting 0 = none)) =
      some (some 0, 20, false, true) := by
    decide +kernel
  obtain ⟨w, hw, he⟩ := Option.map_eq_some_iff.mp hrun
  simp only [Prod.mk.injEq, List.all_eq_true, List.mem_range, decide_eq_true_eq] at he
  obtain ⟨hactive, hsock, hopen, hset⟩ := he
  have hr : system.Reach (SettersBelow 6 0) w := reach_of_exec (by decide) hw
  refine ⟨w, hw, hsock, ?_⟩
  exact latest_deadline_governs (SettersBelow.reach hr (by decide)) hactive hopen
    (setting_of_below hr (by decide) hset)

/-- Between the two halves of a `SetWriteDeadline` of goroutine 4, goroutine 5 sets another
deadline. -/
def overtakenScript : List (Label Choice Time) :=
  blockedScript ++ acts 4 [.call (.setWriteDeadline 0 10)] ++
    acts 5 [.call (.setWriteDeadline 0 20), .go, .go, .udp .ok] ++ acts 4 [.go, .go, .udp .ok]

/-- The `Conn` has the deadline 20, the socket has the deadline 10. -/
theorem overtaken_deadline :
    ∃ w, system.exec (fun w l => l.below 6 = true ∧ SocketAccepts 0 w l) (start 1 newSession)
        overtakenScript = some w ∧
      w.shared.sock.activeWriter = some 0 ∧ (w.shared.table.conns 0).closed = false ∧
      (∀ t, (w.thr t).setting 0 = none) ∧
      w.shared.sock.writeDeadline = 10 ∧ (w.shared.table.conns 0).writeDeadline = 20 := by
  have hrun : (system.exec (fun w l => l.below 6 = true ∧ SocketAccepts 0 w l)
      (start 1 newSession) overtakenScript).map (fun w =>
        (w.shared.sock.activeWriter, w.shared.sock.writeDeadline, (w.shared.table.conns 0).closed,
          (w.shared.table.conns 0).writeDeadline,
          (List.range 6).all fun u => (w.thr u).setting 0 = none)) =
      some (some 0, 10, false, 20, true) := by
    decide +kernel
  obtain ⟨w, hw, he⟩ := Option.map_eq_some_iff.mp hrun
  simp only [Prod.mk.injEq, List.all_eq_true, List.mem_range, decide_eq_true_eq] at he
  obtain ⟨hactive, hsock, hopen, hfield, hset⟩ := he
  refine ⟨w, hw, hactive, hopen, ?_, hsock, hfield⟩
  exact setting_of_below (reach_of_exec (by decide) hw) (by decide) hset

end DahuaP2p.Tunnel
