import DahuaP2p.TunnelStream

/-! # From the reader to the consumer

The payloads enqueued for a `Conn` are a prefix of those the reader processed for its realm since
the `Conn` was installed, and none is enqueued after the reader tore the realm down
(`Delivered`).  Together with the conservation of bytes between the queue and `Read` this is the
integrity of the inbound stream (`stream_integrity`). -/

namespace DahuaP2p.Tunnel

open BigEndian Ptcp Threads

variable {s s' : Shared} {pc pc' : Pc} {c : ConnId} {w : World Shared Pc}
  {ok : World Shared Pc → Label Choice Time → Prop}

/-! ### From the reader into the queue -/

/-- The payloads that the reader processed for the realm of `c` since `c` was installed. -/
def Shared.processed (s : Shared) (c : ConnId) : List Bytes :=
  ((s.hist.inbox.drop (s.hist.installedAt c)).filter fun e =>
    e.1 = (s.table.conns c).realmID).map Prod.snd

/-- `c` is in `t.realms`. -/
def Shared.Live (s : Shared) (c : ConnId) : Prop :=
  s.table.lookup (s.table.conns c).realmID = some c

/-- What the reader has to do for `c`: enqueue a payload, or tear the realm down because its
queue is full. -/
inductive Duty where
  | none
  | put (data : Bytes)
  | tear

def Pc.duty (c : ConnId) : Pc → Duty
  | .reader (.enqueue _ d data) => if d = c then .put data else .none
  | .reader (.overflow _ d) => if d = c then .tear else .none
  | _ => .none

def Duty.payload : Duty → List Bytes
  | none => []
  | put data => [data]
  | tear => []

@[simp] theorem Duty.payload_none : Duty.none.payload = [] := rfl
@[simp] theorem Duty.payload_put (data : Bytes) : (Duty.put data).payload = [data] := rfl
@[simp] theorem Duty.payload_tear : Duty.tear.payload = [] := rfl

/-- What an action does to the deliveries to `c`. -/
inductive DeliveryAct (c : ConnId) (s : Shared) (pc : Pc) (s' : Shared) (pc' : Pc) : Prop
  /-- Nothing, except that `c` may leave `t.realms`. -/
  | frame : s'.processed c = s.processed c → s'.hist.enqueued c = s.hist.enqueued c →
      s'.hist.torn c = s.hist.torn c → (s'.Live c → s.Live c) → pc'.duty c = pc.duty c →
      DeliveryAct c s pc s' pc'
  /-- `Dial` makes `c`. -/
  | make : c = s.table.connCount → s'.processed c = [] → s'.hist.enqueued c = [] →
      s'.hist.torn c = none → pc.ofReader = false → pc'.duty c = .none → DeliveryAct c s pc s' pc'
  /-- The reader finds `c` for a payload. -/
  | find (data : Bytes) : s.Live c → s'.processed c = s.processed c ++ [data] →
      s'.hist.enqueued c = s.hist.enqueued c → s'.hist.torn c = s.hist.torn c →
      pc.ofReader = true → pc.duty c = .none → pc'.duty c = .put data → DeliveryAct c s pc s' pc'
  /-- A payload for the realm of `c` comes after `c` has left `t.realms`. -/
  | miss (data : Bytes) : ¬ s'.Live c → s'.processed c = s.processed c ++ [data] →
      s'.hist.enqueued c = s.hist.enqueued c → s'.hist.torn c = s.hist.torn c →
      pc.ofReader = true → pc.duty c = .none → pc'.duty c = .none → DeliveryAct c s pc s' pc'
  /-- The reader puts the payload into the queue. -/
  | put (data : Bytes) : s'.processed c = s.processed c →
      s'.hist.enqueued c = s.hist.enqueued c ++ [data] → s'.hist.torn c = s.hist.torn c →
      (s'.Live c → s.Live c) → pc.ofReader = true → pc.duty c = .put data → pc'.duty c = .none →
      DeliveryAct c s pc s' pc'
  /-- The queue is full. -/
  | full (data : Bytes) : s' = s → pc.ofReader = true → pc.duty c = .put data →
      pc'.duty c = .tear → DeliveryAct c s pc s' pc'
  /-- The reader tears the realm down, after a DISC or because the queue is full. -/
  | tear : s'.processed c = s.processed c → s'.hist.enqueued c = s.hist.enqueued c →
      s'.hist.torn c = some (s.hist.enqueued c) → ¬ s'.Live c → pc.ofReader = true →
      pc.duty c = .none ∨ pc.duty c = .tear → pc'.duty c = .none → DeliveryAct c s pc s' pc'

@[simp] theorem Resumes.duty (h : Resumes pc) : pc.duty c = .none := by
  cases h <;> rfl

@[simp] theorem SendCall.written_duty (k : SendCall) (e : Option SendError) :
    (k.written e).duty c = .none := by
  rcases k.written_cases e with ⟨_, _, h⟩ | ⟨_, h⟩ <;> rw [h] <;> rfl

theorem processed_congr (hi : s'.hist.inbox = s.hist.inbox)
    (ha : s'.hist.installedAt c = s.hist.installedAt c)
    (hr : (s'.table.conns c).realmID = (s.table.conns c).realmID) :
    s'.processed c = s.processed c := by
  unfold Shared.processed
  rw [hi, ha, hr]

/-- The reader processes a payload. -/
theorem processed_append (s : Shared) (c : ConnId) (realm : UInt32) (data : Bytes)
    (hsince : s.hist.installedAt c ≤ s.hist.inbox.length) :
    ({ s with hist.inbox := s.hist.inbox ++ [(realm, data)] } : Shared).processed c =
      s.processed c ++ if realm = (s.table.conns c).realmID then [data] else [] := by
  unfold Shared.processed
  simp only [List.drop_append_of_le_length hsince, List.filter_append, List.map_append]
  congr 1
  by_cases hr : realm = (s.table.conns c).realmID
  · simp [hr]
  · simp [hr]

theorem Local.deliveryAct (h : Local s pc pc') (c : ConnId) : DeliveryAct c s pc s pc' := by
  cases h with
  | readerFull realm d data =>
      by_cases hd : d = c
      · exact .full data rfl rfl (if_pos hd) (if_pos hd)
      · exact .frame rfl rfl rfl id ((if_neg hd).trans (if_neg hd).symm)
  | sendCheckClosed | sendCheckExpired | sendSelectClosed | sendSelectDone | sendSelectTimeout
  | closeAgain => exact .frame rfl rfl rfl id (Resumes.duty (by simp))
  | _ => exact .frame rfl rfl rfl id rfl

theorem Live.of_lookup (h : s'.Live c)
    (hl : ∀ id, s'.table.lookup id = some c → s.table.lookup id = some c)
    (hr : (s'.table.conns c).realmID = (s.table.conns c).realmID) : s.Live c := by
  unfold Shared.Live at h ⊢
  rw [← hr]
  exact hl _ h

/-- `c` is not live when its realm has just been deleted. -/
theorem not_live_of_delete {realm : UInt32} (hr : (s.table.conns c).realmID = realm)
    (hs' : s'.table = s.table.delete realm) : ¬ s'.Live c := by
  unfold Shared.Live
  rw [hs', Table.delete_lookup]
  simp [Table.delete, hr]

theorem Effect.deliveryAct (h : Effect s pc s' pc') (hs : s.Scoped) (hp : pc.Scoped s)
    (hblank : ∀ c, s.table.connCount ≤ c → s.Blank c) (c : ConnId)
    (hsince : s.hist.installedAt c ≤ s.hist.inbox.length) : DeliveryAct c s pc s' pc' := by
  have hset : ∀ (d : ConnId) (cn : Conn), cn.realmID = (s.table.conns d).realmID →
      ((s.table.setConn d cn).conns c).realmID = (s.table.conns c).realmID :=
    fun d cn hr => s.table.setConn_field d c cn Conn.realmID hr
  have hdel : ∀ realm id, (s.table.delete realm).lookup id = some c →
      s.table.lookup id = some c := by
    intro realm id hl
    rw [Table.delete_lookup] at hl
    split at hl
    · cases hl
    · exact hl
  cases h with
  | setDeadline d t =>
      have hr : (((s.setReadDeadline d t).setWriteDeadline d t).table.conns c).realmID =
          (s.table.conns c).realmID := by
        rw [Shared.setWriteDeadline_field _ _ _ _ Conn.realmID fun _ _ _ => rfl,
          Shared.setReadDeadline_field _ _ _ _ Conn.realmID fun _ _ _ => rfl]
      exact .frame (processed_congr rfl rfl hr) rfl rfl (Live.of_lookup · (fun _ => id) hr) rfl
  | setReadDeadline d t =>
      have hr := Shared.setReadDeadline_field s d c t Conn.realmID fun _ _ _ => rfl
      exact .frame (processed_congr rfl rfl hr) rfl rfl (Live.of_lookup · (fun _ => id) hr) rfl
  | setWriteDeadline d t =>
      have hr := Shared.setWriteDeadline_field s d c t Conn.realmID fun _ _ _ => rfl
      exact .frame (processed_congr rfl rfl hr) rfl rfl (Live.of_lookup · (fun _ => id) hr) rfl
  | signalSetClosed d | signalCloseCh d | readerConn _ d | dialGranted _ _ _ d
  | connCloseEnter d | readBuffered d | readDrained d | readData d | readCopy d =>
      exact .frame (processed_congr rfl rfl (hset d _ (by rfl))) rfl rfl
        (Live.of_lookup · (fun _ => id) (hset d _ (by rfl))) rfl
  | sendGiveBack | sendRelease | signalInterrupt | closeCallback | readerCount =>
      exact .frame rfl rfl rfl id (Resumes.duty (by simp))
  | sendWriteOk | sendWriteFail | sendBlockedOk | sendBlockedFail =>
      exact .frame rfl rfl rfl id (SendCall.written_duty _ _)
  | closeSwap => exact .frame rfl rfl rfl (fun hl => nomatch hl) rfl
  | dialDropRealm port a id | connCloseRemove d =>
      exact .frame rfl rfl rfl (Live.of_lookup · (hdel _) rfl) rfl
  | readerDisc realm d hl =>
      by_cases hd : d = c
      · subst hd
        exact .tear rfl rfl (by simp) (not_live_of_delete (hs.realms _ _ hl).2 rfl) rfl
          (Or.inl rfl) rfl
      · exact .frame rfl rfl (by simp [Ne.symm hd]) (Live.of_lookup · (hdel _) rfl) rfl
  | readerOverflow realm d =>
      by_cases hd : d = c
      · subst hd
        exact .tear rfl rfl (by simp) (not_live_of_delete hp.2 rfl) rfl
          (Or.inr (if_pos rfl)) rfl
      · exact .frame rfl rfl (by simp [Ne.symm hd]) (Live.of_lookup · (hdel _) rfl)
          (if_neg hd).symm
  | readerLookupUnknown realm data hl =>
      have happ := processed_append s c realm data hsince
      by_cases hr : realm = (s.table.conns c).realmID
      · rw [if_pos hr] at happ
        refine .miss data (fun hlive => ?_) happ rfl rfl rfl rfl rfl
        rw [hr] at hl
        exact nomatch hl.symm.trans hlive
      · rw [if_neg hr, List.append_nil] at happ
        exact .frame happ rfl rfl id rfl
  | readerLookup realm data d hl =>
      have happ := processed_append s c realm data hsince
      by_cases hr : realm = (s.table.conns c).realmID
      · rw [if_pos hr] at happ
        rw [hr] at hl
        by_cases hd : d = c
        · subst hd
          exact .find data hl happ rfl rfl rfl rfl (if_pos rfl)
        · refine .miss data (fun hlive => hd ?_) happ rfl rfl rfl rfl (if_neg hd)
          exact Option.some.inj (hl.symm.trans hlive)
      · rw [if_neg hr, List.append_nil] at happ
        have hd : d ≠ c := fun hd => hr (hd ▸ (hs.realms _ _ hl).2.symm)
        exact .frame happ rfl rfl id (if_neg hd)
  | readerEnqueue realm d data =>
      have hr := hset d { s.table.conns d with dataCh := (s.table.conns d).dataCh ++ [data] } rfl
      by_cases hd : d = c
      · subst hd
        exact .put data (processed_congr rfl rfl hr) (by simp) rfl
          (Live.of_lookup · (fun _ => id) hr) rfl (if_pos rfl) rfl
      · exact .frame (processed_congr rfl rfl hr) (by simp [Ne.symm hd]) rfl
          (Live.of_lookup · (fun _ => id) hr) (if_neg hd).symm
  | dialInstall port a id m hm =>
      by_cases hc : c = s.table.connCount
      · have hb := hblank c hc.ge
        refine .make hc ?_ hb.enqueued hb.torn rfl rfl
        simp [Shared.processed, hc]
      · have hr : ((s.table.install m id port).conns c).realmID = (s.table.conns c).realmID := by
          simp [Table.install, hc]
        refine .frame (processed_congr rfl (by simp [hc]) hr) rfl rfl
          (Live.of_lookup · (fun id' hl => ?_) hr) rfl
        rw [Table.install_lookup _ _ _ _ hm] at hl
        split at hl
        · exact absurd (Option.some.inj hl).symm hc
        · exact hl
  | _ => exact .frame rfl rfl rfl id rfl

theorem Acts.deliveryAct (h : Acts s pc s' pc') (hs : s.Scoped) (hp : pc.Scoped s)
    (hblank : ∀ c, s.table.connCount ≤ c → s.Blank c) (c : ConnId)
    (hsince : s.hist.installedAt c ≤ s.hist.inbox.length) : DeliveryAct c s pc s' pc' := by
  rcases h with ⟨rfl, h⟩ | h
  · exact h.deliveryAct c
  · exact h.deliveryAct hs hp hblank c hsince

/-- The reader at `rp` has enqueued for `c` a prefix of what it processed for its realm since `c`
was installed; all of it while `c` is in `t.realms` and its queue not full; nothing after it
tore the realm down. -/
structure Delivered (c : ConnId) (s : Shared) (rp : Pc) : Prop where
  ofProcessed : s.hist.enqueued c ++ (rp.duty c).payload <+: s.processed c
  live : s.Live c → rp.duty c ≠ .tear →
    s.hist.enqueued c ++ (rp.duty c).payload = s.processed c
  torn : ∀ e, s.hist.torn c = some e → s.hist.enqueued c = e ∧ ¬ s.Live c ∧ rp.duty c = .none

/-- The reader moved. -/
theorem DeliveryAct.delivered (h : DeliveryAct c s pc s' pc') (hd : Delivered c s pc) :
    Delivered c s' pc' := by
  cases h with
  | frame hpr he ht hl hu =>
      refine ⟨?_, fun hlive hne => ?_, fun e hte => ?_⟩
      · rw [he, hpr, hu]
        exact hd.ofProcessed
      · rw [he, hpr, hu]
        exact hd.live (hl hlive) (hu ▸ hne)
      · obtain ⟨h₁, h₂, h₃⟩ := hd.torn e (ht ▸ hte)
        exact ⟨he.trans h₁, fun hlive => h₂ (hl hlive), hu.trans h₃⟩
  | make hc hpr he ht _ hu =>
      refine ⟨?_, fun _ _ => ?_, fun e hte => ?_⟩
      · rw [he, hpr, hu]
        exact List.prefix_rfl
      · rw [he, hpr, hu]
        rfl
      · rw [ht] at hte
        cases hte
  | find data hlive hpr he ht _ hu hu' =>
      have hall := hd.live hlive (by rw [hu]; exact nofun)
      rw [hu, Duty.payload_none, List.append_nil] at hall
      have hnew : s'.hist.enqueued c ++ (pc'.duty c).payload = s'.processed c := by
        rw [he, hpr, hu', hall, Duty.payload_put]
      refine ⟨hnew ▸ List.prefix_rfl, fun _ _ => hnew, fun e hte => ?_⟩
      exact absurd hlive (hd.torn e (ht ▸ hte)).2.1
  | miss data hlive hpr he ht _ hu hu' =>
      refine ⟨?_, fun h => absurd h hlive, fun e hte => ?_⟩
      · have hpre := hd.ofProcessed
        rw [hu] at hpre
        rw [he, hpr, hu']
        exact hpre.trans (List.prefix_append _ _)
      · exact ⟨he.trans (hd.torn e (ht ▸ hte)).1, hlive, hu'⟩
  | put data hpr he ht hl _ hu hu' =>
      have hsame : s'.hist.enqueued c ++ (pc'.duty c).payload =
          s.hist.enqueued c ++ (pc.duty c).payload := by
        rw [he, hu, hu', Duty.payload_put, Duty.payload_none, List.append_nil]
      refine ⟨?_, fun hlive _ => ?_, fun e hte => ?_⟩
      · rw [hsame, hpr]
        exact hd.ofProcessed
      · rw [hsame, hpr]
        exact hd.live (hl hlive) (by rw [hu]; exact nofun)
      · have hnone := (hd.torn e (ht ▸ hte)).2.2
        rw [hu] at hnone
        cases hnone
  | full data he _ hu hu' =>
      subst he
      refine ⟨?_, fun _ hne => absurd hu' hne, fun e hte => ?_⟩
      · rw [hu', Duty.payload_tear, List.append_nil]
        exact (List.prefix_append _ _).trans hd.ofProcessed
      · have hnone := (hd.torn e hte).2.2
        rw [hu] at hnone
        cases hnone
  | tear hpr he ht hlive _ hu hu' =>
      refine ⟨?_, fun h => absurd h hlive, fun e hte => ?_⟩
      · rw [he, hpr, hu', Duty.payload_none, List.append_nil]
        exact (List.prefix_append _ _).trans hd.ofProcessed
      · rw [ht] at hte
        exact ⟨he.trans (Option.some.inj hte), hlive, hu'⟩

/-- Another goroutine moved. -/
theorem DeliveryAct.delivered_other {rp : Pc} (h : DeliveryAct c s pc s' pc')
    (hr : pc.ofReader = false) (hmade : s.table.connCount ≤ c → rp.duty c = .none)
    (hd : Delivered c s rp) : Delivered c s' rp := by
  cases h with
  | frame hpr he ht hl _ =>
      have hframe : DeliveryAct c s rp s' rp := .frame hpr he ht hl rfl
      exact hframe.delivered hd
  | make hc hpr he ht _ _ =>
      refine ⟨?_, fun _ _ => ?_, fun e hte => ?_⟩
      · rw [he, hpr, hmade hc.ge]
        exact List.prefix_rfl
      · rw [he, hpr, hmade hc.ge]
        rfl
      · rw [ht] at hte
        cases hte
  | find | miss | put | full | tear => simp_all

/-- The reader has no duty for a `Conn` that is not made yet. -/
theorem Pc.Scoped.duty_none (h : pc.Scoped s) (hc : s.table.connCount ≤ c) : pc.duty c = .none := by
  unfold Pc.duty
  split
  · exact if_neg (h.1.trans_le hc).ne
  · exact if_neg (h.1.trans_le hc).ne
  · rfl

/-- No `Conn` was installed in the future. -/
theorem installedAt_le (h : system.Reach ok w) (c : ConnId) :
    w.shared.hist.installedAt c ≤ w.shared.hist.inbox.length := by
  refine system_invariant
    (I := fun w => w.shared.hist.installedAt c ≤ w.shared.hist.inbox.length) ?_ ?_ ?_ h
  · intro now session _
    exact le_rfl
  · intro w t ch s pc _ hi _ _ ha
    rcases ha with ⟨rfl, _⟩ | ha
    · exact hi
    · generalize w.thr t = p at ha
      cases ha with
      | readerLookupUnknown | readerLookup =>
          rw [List.length_append]
          exact hi.trans (Nat.le_add_right _ _)
      | dialInstall =>
          simp only [Function.update_apply]
          split
          · exact le_rfl
          · exact hi
      | _ => exact hi
  · intro w d _ hi
    exact hi

theorem delivered (h : system.Reach ok w) (c : ConnId) : Delivered c w.shared (w.thr 0) := by
  refine system_invariant (I := fun w => Delivered c w.shared (w.thr 0)) ?_ ?_ ?_ h
  · intro now session _
    refine ⟨List.nil_prefix, fun _ _ => rfl, fun e he => ?_⟩
    cases he
  · intro w t ch s pc hr hi _ _ ha
    have hsc := scope hr
    have hact := ha.deliveryAct hsc.shared (hsc.thr t) hsc.blank c (installedAt_le hr c)
    by_cases ht : t = 0
    · subst ht
      simpa using hact.delivered hi
    · have h0 : Function.update w.thr t pc 0 = w.thr 0 := Function.update_of_ne (Ne.symm ht) _ _
      dsimp only
      rw [h0]
      refine hact.delivered_other ?_ ?_ hi
      · by_contra hne
        exact ht (reader_unique hr (Bool.of_not_eq_false hne))
      · exact fun hc => (hsc.thr 0).duty_none hc
  · intro w d _ hi
    exact ⟨hi.ofProcessed, hi.live, hi.torn⟩

/-! ### End of file -/

/-- A `Read` that drains the queue has seen the `Conn` closed. -/
def Pc.Drains (s : Shared) : Pc → Prop
  | .read (.drain c _) => (s.table.conns c).closed = true
  | _ => True

theorem Pc.Drains.of_readOf (h : ∀ c, pc.readOf c = none) : pc.Drains s := by
  unfold Pc.Drains
  split
  · rename_i c n
    have hc : (Pc.read (.drain c n)).readOf c = some (.drain c n) := if_pos rfl
    rw [h c] at hc
    cases hc
  · trivial

theorem Acts.drains (h : Acts s pc s' pc') : pc'.Drains s' := by
  rcases h with ⟨rfl, h⟩ | h
  · cases h with
    | readDrain _ _ _ hcl => exact hcl
    | sendCheckClosed | sendCheckExpired | sendSelectClosed | sendSelectDone
    | sendSelectTimeout | closeAgain => exact .of_readOf (Resumes.readOf (by simp))
    | _ => trivial
  · cases h with
    | sendGiveBack | sendRelease | signalInterrupt | closeCallback | readerCount =>
        exact .of_readOf (Resumes.readOf (by simp))
    | sendWriteOk | sendWriteFail | sendBlockedOk | sendBlockedFail =>
        exact .of_readOf fun _ => SendCall.written_readOf _ _ _
    | _ => trivial

theorem drains (h : system.Reach ok w) (t : ℕ) : (w.thr t).Drains w.shared := by
  revert t
  refine system_invariant (I := fun w => ∀ t, (w.thr t).Drains w.shared) ?_ ?_ ?_ h
  · intro now session _
    exact forall_startThreads trivial trivial trivial
  · intro w t ch s pc hr hi _ _ ha
    refine forall_update ha.drains fun u _ => ?_
    have hu := hi u
    have hsc := (scope hr).thr u
    unfold Pc.Drains at hu ⊢
    split at hu
    · rename_i c n he
      rw [he] at hsc
      exact ha.closed_mono hsc.1 hu
    · trivial
  · intro w d _ hi
    exact hi

/-- The only action that returns EOF. -/
theorem Acts.eof (h : Acts s pc s' pc')
    (he : s'.hist.reads c = s.hist.reads c ++ [.error .eof]) :
    ∃ n, pc = .read (.drain c n) ∧ (s.table.conns c).dataCh = [] := by
  have hno : s.hist.reads c ≠ s.hist.reads c ++ [.error .eof] := by simp
  have hlog : ∀ (d : ConnId) (r : Except ReadError Bytes),
      (s.hist.logRead d r).reads c = s.hist.reads c ++ [.error .eof] → d = c ∧ r = .error .eof := by
    intro d r hr
    by_cases hd : d = c
    · subst hd
      simpa [History.logRead] using hr
    · simp only [History.logRead, Function.update_of_ne (Ne.symm hd)] at hr
      exact absurd hr hno
  rcases h with ⟨rfl, _⟩ | h
  · exact absurd he hno
  · cases h with
    | readEof d n hq =>
        obtain ⟨rfl, _⟩ := hlog d _ he
        exact ⟨n, rfl, hq⟩
    | readBuffered d | readExpired d | readTimeout d | readCopy d => cases (hlog d _ he).2
    | _ => exact absurd he hno

/-- **Inbound stream integrity.**  If calls of `Read` on `c` do not overlap, then in every
reachable state

* the bytes returned by `Read` are a prefix of the payload data that the reader processed for
  the realm since `c` was installed, and what was returned, is in the hand of the `Read` in
  progress, left over and queued is what was enqueued: in particular a `Read` that returns an
  error consumes nothing;
* a `Read` returns EOF only when everything enqueued has been returned; if the reader tore the
  realm down, this is what was enqueued before, and it did unless the `Conn` or the tunnel was
  closed on this side. -/
theorem stream_integrity (h : system.Reach (OneConsumer c) w) :
    returnedBytes (w.shared.hist.reads c) <+: (w.shared.processed c).flatten ∧
    (∃ r, Consumer c w.thr r ∧ (w.shared.stream c).Conserved r) ∧
    ∀ t ch s pc, next w.shared (w.thr t) ch = some (s, pc) →
      s.hist.reads c = w.shared.hist.reads c ++ [.error .eof] →
      returnedBytes (w.shared.hist.reads c) = (w.shared.hist.enqueued c).flatten ∧
      (∀ e, w.shared.hist.torn c = some e →
        returnedBytes (w.shared.hist.reads c) = e.flatten) ∧
      (w.shared.hist.closeCalled c = false → w.shared.life.closed = false →
        ∃ e, w.shared.hist.torn c = some e) := by
  obtain ⟨r, hcons, hst⟩ := stream_conserved h
  have hd := delivered h c
  refine ⟨?_, ⟨r, hcons, hst⟩, fun t ch s pc hn he => ?_⟩
  · have henq : w.shared.hist.enqueued c <+: w.shared.processed c :=
      (List.prefix_append _ _).trans hd.ofProcessed
    have hret : returnedBytes (w.shared.hist.reads c) <+: (w.shared.hist.enqueued c).flatten := by
      have hbytes := hst.bytes
      simp only [List.append_assoc] at hbytes
      exact ⟨_, hbytes⟩
    obtain ⟨rest, hrest⟩ := henq
    rw [← hrest, List.flatten_append]
    exact hret.trans (List.prefix_append _ _)
  · obtain ⟨n, hpc, hq⟩ := (next_cases hn).eof he
    have hr : r = some (.drain c n) := by
      have hro : (w.thr t).readOf c = some (.drain c n) := by rw [hpc]; exact if_pos rfl
      exact hcons.eq_some hro
    subst hr
    have hempty : (w.shared.stream c).readBuf = [] := hst.empty trivial
    have hall : returnedBytes (w.shared.hist.reads c) = (w.shared.hist.enqueued c).flatten := by
      have hbytes := hst.bytes
      rw [hempty] at hbytes
      simpa [Shared.stream, inHand, hq] using hbytes
    refine ⟨hall, fun e hte => ?_, fun hnc hopen => ?_⟩
    · rw [hall, (hd.torn e hte).1]
    · have hdr := drains h t
      rw [hpc] at hdr
      rcases (reasons h).conns c hdr with ht | hcc | hlc
      · exact Option.ne_none_iff_exists'.mp ht
      · rw [hnc] at hcc
        cases hcc
      · rw [hopen] at hlc
        cases hlc

/-- A `Dial` that is granted, a payload of three bytes read in two calls, a DISC, and EOF. -/
def readScript : List (Label Choice Time) :=
  grantScript 2 7 ++ receiveScript (newPayloadBody 7 [1, 2, 3]) 5 ++
    acts 3 [.call (.read 0 2), .go, .select .data, .go, .call (.read 0 2), .go] ++
    receiveScript (newStatusBody 7 statusDisconnect) 8 ++ acts 3 [.call (.read 0 2), .go, .go]

theorem stream_integrity_readScript :
    ∃ w, system.exec (ReadBy 0 3) (start 1 newSession) readScript = some w ∧
      w.shared.hist.reads 0 = [.ok [1, 2], .ok [3], .error .eof] ∧
      returnedBytes (w.shared.hist.reads 0) <+: (w.shared.processed 0).flatten := by
  have hrun : (system.exec (ReadBy 0 3) (start 1 newSession) readScript).map (fun w =>
      w.shared.hist.reads 0) = some [.ok [1, 2], .ok [3], .error .eof] := by
    decide +kernel
  obtain ⟨w, hw, he⟩ := Option.map_eq_some_iff.mp hrun
  have hr : system.Reach (OneConsumer 0) w := ReadBy.oneConsumer (reach_of_exec (by decide) hw)
  exact ⟨w, hw, he, (stream_integrity hr).1⟩

end DahuaP2p.Tunnel
