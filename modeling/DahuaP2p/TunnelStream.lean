import DahuaP2p.TunnelScope

/-! # The inbound byte stream of a `Conn`

Payloads pass from the queue `dataCh` of a `Conn` and its leftover buffer `readBuf` to the calls
of `Read`.  `Stream` is what one `Conn` has of this path, and `ReadStep` what a `Read` in progress
does to it.  No byte is lost or duplicated: what was returned, what the `Read` in progress has in
hand, the leftover and the queue together are what was enqueued (`Stream.Conserved`).
`Acts.streamAct` proves that the actions of a tunnel do nothing else to a stream, and with one
consumer the bytes are conserved in every reachable state (`stream_conserved`). -/

namespace DahuaP2p.Tunnel

open BigEndian Ptcp Threads

/-! ### Streams -/

/-- The path of the inbound bytes of one `Conn`. -/
structure Stream where
  readBuf : Bytes
  queue : List Bytes
  enqueued : List Bytes
  reads : List (Except ReadError Bytes)

/-- The bytes that calls of `Read` returned. -/
def returnedBytes (rs : List (Except ReadError Bytes)) : Bytes :=
  rs.flatMap fun
    | .ok b => b
    | .error _ => []

/-- The reader puts a payload into the queue. -/
def Stream.enqueue (st : Stream) (data : Bytes) : Stream :=
  { st with queue := st.queue ++ [data], enqueued := st.enqueued ++ [data] }

/-- A `Read` returns. -/
def Stream.log (st : Stream) (r : Except ReadError Bytes) : Stream :=
  { st with reads := st.reads ++ [r] }

/-- A `Read` has found the leftover buffer empty and waits for the queue. -/
def ReadPc.Waits : ReadPc → Prop
  | .drain _ _ => True
  | .select _ _ _ _ => True
  | _ => False

/-- One action of a `Read`; `none` when it returns. -/
inductive ReadStep (st : Stream) : ReadPc → Stream → Option ReadPc → Prop
  | buffered (c : ConnId) (n : ℕ) :
      ReadStep st (.lock c n)
        (({ st with readBuf := st.readBuf.drop n } : Stream).log (.ok (st.readBuf.take n))) none
  | wait (c : ConnId) (n : ℕ) (p : ReadPc) : st.readBuf = [] → p.Waits →
      ReadStep st (.lock c n) st (some p)
  | again (p : ReadPc) (c : ConnId) (n : ℕ) : p.Waits → ReadStep st p st (some (.lock c n))
  | fail (p : ReadPc) (e : ReadError) : (∀ c n d, p ≠ .copy c n d) →
      ReadStep st p (st.log (.error e)) none
  | take (p : ReadPc) (c : ConnId) (n : ℕ) (data : Bytes) (rest : List Bytes) : p.Waits →
      st.queue = data :: rest → ReadStep st p { st with queue := rest } (some (.copy c n data))
  | copy (c : ConnId) (n : ℕ) (data : Bytes) :
      ReadStep st (.copy c n data)
        (({ st with readBuf := st.readBuf ++ data.drop n } : Stream).log (.ok (data.take n))) none

/-- The bytes that the `Read` in progress has taken from the queue. -/
def inHand : Option ReadPc → Bytes
  | some (.copy _ _ data) => data
  | _ => []

/-- The `Read` in progress is past the leftover buffer. -/
def PastBuffer : Option ReadPc → Prop
  | none => False
  | some (.lock _ _) => False
  | some _ => True

/-- Every enqueued byte was returned, is in hand, left over, or queued, in this order. -/
structure Stream.Conserved (st : Stream) (r : Option ReadPc) : Prop where
  bytes : returnedBytes st.reads ++ inHand r ++ st.readBuf ++ st.queue.flatten =
    st.enqueued.flatten
  empty : PastBuffer r → st.readBuf = []

variable {st st' : Stream} {r r' : Option ReadPc} {p : ReadPc}

@[simp] theorem returnedBytes_ok (rs : List (Except ReadError Bytes)) (b : Bytes) :
    returnedBytes (rs ++ [.ok b]) = returnedBytes rs ++ b := by
  simp [returnedBytes]

@[simp] theorem returnedBytes_error (rs : List (Except ReadError Bytes)) (e : ReadError) :
    returnedBytes (rs ++ [.error e]) = returnedBytes rs := by
  simp [returnedBytes]

theorem Stream.Conserved.enqueue (h : st.Conserved r) (data : Bytes) :
    (st.enqueue data).Conserved r := by
  refine ⟨?_, h.empty⟩
  simp only [Stream.enqueue, List.flatten_append, List.flatten_cons, List.flatten_nil,
    List.append_nil, ← h.bytes, List.append_assoc]

theorem ReadPc.Waits.pastBuffer (h : p.Waits) : PastBuffer (some p) := by
  cases p <;> trivial

theorem ReadPc.Waits.inHand (h : p.Waits) : inHand (some p) = [] := by
  cases p with
  | copy => exact absurd h id
  | _ => rfl

/-- Every action of a `Read` conserves the bytes. -/
theorem ReadStep.conserved (h : ReadStep st p st' r') (hc : st.Conserved (some p)) :
    st'.Conserved r' := by
  have hb := hc.bytes
  have hsplit : ∀ (n : ℕ) (b rest : Bytes), b.take n ++ (b.drop n ++ rest) = b ++ rest := by
    intro n b rest
    rw [← List.append_assoc, List.take_append_drop]
  cases h with
  | buffered c n =>
      refine ⟨?_, False.elim⟩
      simp only [inHand, List.append_nil, List.append_assoc] at hb
      simp only [Stream.log, returnedBytes_ok, inHand, List.append_nil, List.append_assoc, hsplit,
        hb]
  | wait c n p hr hw =>
      refine ⟨?_, fun _ => hr⟩
      rw [hw.inHand]
      exact hb
  | again p c n hw =>
      refine ⟨?_, False.elim⟩
      rw [hw.inHand] at hb
      exact hb
  | fail p e hp =>
      refine ⟨?_, False.elim⟩
      have hnone : inHand (some p) = [] := by
        cases p with
        | copy c n d => exact absurd rfl (hp c n d)
        | _ => rfl
      rw [hnone] at hb
      simpa only [Stream.log, returnedBytes_error, inHand] using hb
  | take p c n data rest hw hq =>
      have hempty := hc.empty hw.pastBuffer
      refine ⟨?_, fun _ => hempty⟩
      rw [hw.inHand, hq, hempty] at hb
      simpa only [inHand, hempty, List.append_nil, List.flatten_cons, List.append_assoc] using hb
  | copy c n data =>
      refine ⟨?_, False.elim⟩
      have hempty := hc.empty trivial
      simp only [inHand, hempty, List.append_nil, List.append_assoc] at hb
      simp only [Stream.log, returnedBytes_ok, inHand, hempty, List.append_nil, List.nil_append,
        List.append_assoc, hsplit, hb]

/-! ### The stream of a `Conn` -/

def Shared.stream (s : Shared) (c : ConnId) : Stream where
  readBuf := (s.table.conns c).readBuf
  queue := (s.table.conns c).dataCh
  enqueued := s.hist.enqueued c
  reads := s.hist.reads c

/-- The `Read` of `c` that the goroutine is in. -/
def Pc.readOf (c : ConnId) : Pc → Option ReadPc
  | .read p => if p.conn = c then some p else none
  | _ => none

@[simp] theorem Resumes.readOf {pc : Pc} (h : Resumes pc) (c : ConnId) : pc.readOf c = none := by
  cases h <;> rfl

@[simp] theorem SendCall.written_readOf (k : SendCall) (e : Option SendError) (c : ConnId) :
    (k.written e).readOf c = none := by
  rcases k.written_cases e with ⟨_, _, h⟩ | ⟨_, h⟩ <;> rw [h] <;> rfl

variable {s s' : Shared} {pc pc' : Pc} {c : ConnId}

theorem stream_congr (hb : (s'.table.conns c).readBuf = (s.table.conns c).readBuf)
    (hq : (s'.table.conns c).dataCh = (s.table.conns c).dataCh)
    (he : s'.hist.enqueued c = s.hist.enqueued c) (hr : s'.hist.reads c = s.hist.reads c) :
    s'.stream c = s.stream c := by
  unfold Shared.stream
  rw [hb, hq, he, hr]

/-- What an action does to the stream of `c`: nothing, enqueue a payload, start a `Read`, or go
on with one. -/
inductive StreamAct (c : ConnId) (s : Shared) (pc : Pc) (s' : Shared) (pc' : Pc) : Prop
  | frame : pc.readOf c = none → pc'.readOf c = none → s'.stream c = s.stream c →
      StreamAct c s pc s' pc'
  | enqueue (data : Bytes) : pc.readOf c = none → pc'.readOf c = none →
      s'.stream c = (s.stream c).enqueue data → StreamAct c s pc s' pc'
  | call (n : ℕ) : pc = .idle → pc' = .read (.lock c n) → s' = s → StreamAct c s pc s' pc'
  | read (p : ReadPc) : pc.readOf c = some p →
      ReadStep (s.stream c) p (s'.stream c) (pc'.readOf c) → StreamAct c s pc s' pc'

/-- A `Read` goes on. -/
theorem StreamAct.of_read {p p' : ReadPc} (hp : p'.conn = p.conn)
    (hstep : p.conn = c → ReadStep (s.stream c) p (s'.stream c) (some p'))
    (hframe : p.conn ≠ c → s'.stream c = s.stream c) :
    StreamAct c s (.read p) s' (.read p') := by
  by_cases hc : p.conn = c
  · have hr : (Pc.read p').readOf c = some p' := if_pos (hp.trans hc)
    refine .read p (if_pos hc) ?_
    rw [hr]
    exact hstep hc
  · exact .frame (if_neg hc) (if_neg (hp ▸ hc)) (hframe hc)

/-- A `Read` returns. -/
theorem StreamAct.of_return {p : ReadPc}
    (hstep : p.conn = c → ReadStep (s.stream c) p (s'.stream c) none)
    (hframe : p.conn ≠ c → s'.stream c = s.stream c) :
    StreamAct c s (.read p) s' .idle := by
  by_cases hc : p.conn = c
  · exact .read p (if_pos hc) (hstep hc)
  · exact .frame (if_neg hc) rfl (hframe hc)

theorem Local.streamAct (h : Local s pc pc') (c : ConnId) : StreamAct c s pc s pc' := by
  cases h with
  | callRead d n =>
      by_cases hd : d = c
      · subst hd
        exact .call n rfl rfl rfl
      · exact .frame rfl (if_neg hd) rfl
  | readDrain d n hb | readWait d n hb =>
      exact .of_read rfl (fun hd => .wait d n _ (hd ▸ hb) trivial) fun _ => rfl
  | readClosed d n | readChanged d n =>
      exact .of_read rfl (fun _ => .again _ d n trivial) fun _ => rfl
  | sendCheckClosed | sendCheckExpired | sendSelectClosed | sendSelectDone | sendSelectTimeout
  | closeAgain => exact .frame rfl (Resumes.readOf (by simp) c) rfl
  | _ => exact .frame rfl rfl rfl

/-- A `Read` returns an error. -/
theorem streamAct_fail (p : ReadPc) (e : ReadError) (hp : ∀ c n d, p ≠ .copy c n d) (c : ConnId) :
    StreamAct c s (.read p) { s with hist := s.hist.logRead p.conn (.error e) } .idle := by
  refine .of_return (fun hd => ?_) fun hd => ?_
  · subst hd
    simpa [Shared.stream, Stream.log, History.logRead] using
      (ReadStep.fail p e hp : ReadStep (s.stream p.conn) _ _ _)
  · simp [Shared.stream, History.logRead, Ne.symm hd]

/-- A `Read` takes a payload from the queue. -/
theorem streamAct_take (p : ReadPc) (n : ℕ) {data : Bytes} {rest : List Bytes} (hw : p.Waits)
    (hq : (s.table.conns p.conn).dataCh = data :: rest) (c : ConnId) :
    StreamAct c s (.read p)
      { s with table := s.table.setConn p.conn { s.table.conns p.conn with dataCh := rest } }
      (.read (.copy p.conn n data)) := by
  refine .of_read rfl (fun hd => ?_) fun hd => ?_
  · subst hd
    simpa [Shared.stream] using
      (ReadStep.take p p.conn n data rest hw hq : ReadStep (s.stream p.conn) _ _ _)
  · simp [Shared.stream, Table.setConn_conns_of_ne _ _ _ _ (Ne.symm hd)]

theorem Effect.streamAct (h : Effect s pc s' pc')
    (hblank : ∀ c, s.table.connCount ≤ c → s.Blank c) (c : ConnId) :
    StreamAct c s pc s' pc' := by
  have hset : ∀ (d : ConnId) (cn : Conn), cn.readBuf = (s.table.conns d).readBuf →
      cn.dataCh = (s.table.conns d).dataCh →
      ((s.table.setConn d cn).conns c).readBuf = (s.table.conns c).readBuf ∧
        ((s.table.setConn d cn).conns c).dataCh = (s.table.conns c).dataCh :=
    fun d cn hb hq => ⟨s.table.setConn_field d c cn Conn.readBuf hb,
      s.table.setConn_field d c cn Conn.dataCh hq⟩
  have hother : ∀ (d : ConnId) (cn : Conn), d ≠ c →
      (s.table.setConn d cn).conns c = s.table.conns c :=
    fun d cn hd => s.table.setConn_conns_of_ne d c cn (Ne.symm hd)
  cases h with
  | setDeadline d t =>
      refine .frame rfl rfl (stream_congr ?_ ?_ rfl rfl)
      · rw [Shared.setWriteDeadline_field _ _ _ _ Conn.readBuf fun _ _ _ => rfl,
          Shared.setReadDeadline_field _ _ _ _ Conn.readBuf fun _ _ _ => rfl]
      · rw [Shared.setWriteDeadline_field _ _ _ _ Conn.dataCh fun _ _ _ => rfl,
          Shared.setReadDeadline_field _ _ _ _ Conn.dataCh fun _ _ _ => rfl]
  | setReadDeadline d t =>
      exact .frame rfl rfl (stream_congr
        (Shared.setReadDeadline_field _ _ _ _ Conn.readBuf fun _ _ _ => rfl)
        (Shared.setReadDeadline_field _ _ _ _ Conn.dataCh fun _ _ _ => rfl) rfl rfl)
  | setWriteDeadline d t =>
      exact .frame rfl rfl (stream_congr
        (Shared.setWriteDeadline_field _ _ _ _ Conn.readBuf fun _ _ _ => rfl)
        (Shared.setWriteDeadline_field _ _ _ _ Conn.dataCh fun _ _ _ => rfl) rfl rfl)
  | signalSetClosed d | signalCloseCh d | readerConn _ d | dialGranted _ _ _ d
  | connCloseEnter d =>
      exact .frame rfl rfl (stream_congr (hset d _ (by rfl) (by rfl)).1
        (hset d _ (by rfl) (by rfl)).2 rfl rfl)
  | sendGiveBack | sendRelease | signalInterrupt | closeCallback | readerCount =>
      exact .frame rfl (Resumes.readOf (by simp) c) rfl
  | sendWriteOk | sendWriteFail | sendBlockedOk | sendBlockedFail =>
      exact .frame rfl (SendCall.written_readOf _ _ _) rfl
  | readerEnqueue realm d data =>
      by_cases hd : d = c
      · subst hd
        exact .enqueue data rfl rfl (by simp [Shared.stream, Stream.enqueue])
      · exact .frame rfl rfl (by simp [Shared.stream, hother d _ hd, Ne.symm hd])
  | dialInstall port a id m =>
      refine .frame rfl rfl ?_
      by_cases hc : c = s.table.connCount
      · have hb := hblank c hc.ge
        subst hc
        simp [Shared.stream, Table.install_conns_self, hb.conn, blankConn]
      · simp [Shared.stream, Table.install, hc]
  | readBuffered d n _ =>
      refine .of_return (fun hd => ?_) fun hd => ?_
      · obtain rfl : d = c := hd
        simpa [Shared.stream, Stream.log, History.logRead] using
          (ReadStep.buffered d n : ReadStep (s.stream d) _ _ _)
      · have hd : d ≠ c := hd
        simp [Shared.stream, History.logRead, hother d _ hd, Ne.symm hd]
  | readExpired d n => exact streamAct_fail (.lock d n) .deadlineExceeded (by simp) c
  | readTimeout d n t ch => exact streamAct_fail (.select d n t ch) .deadlineExceeded (by simp) c
  | readEof d n => exact streamAct_fail (.drain d n) .eof (by simp) c
  | readDrained d n data rest hq => exact streamAct_take (.drain d n) n trivial hq c
  | readData d n t ch data rest hq => exact streamAct_take (.select d n t ch) n trivial hq c
  | readCopy d n data =>
      refine .of_return (fun hd => ?_) fun hd => ?_
      · obtain rfl : d = c := hd
        simpa [Shared.stream, Stream.log, History.logRead] using
          (ReadStep.copy d n data : ReadStep (s.stream d) _ _ _)
      · have hd : d ≠ c := hd
        simp [Shared.stream, History.logRead, hother d _ hd, Ne.symm hd]
  | _ => exact .frame rfl rfl rfl

theorem Acts.streamAct (h : Acts s pc s' pc') (hblank : ∀ c, s.table.connCount ≤ c → s.Blank c)
    (c : ConnId) : StreamAct c s pc s' pc' := by
  rcases h with ⟨rfl, h⟩ | h
  · exact h.streamAct c
  · exact h.streamAct hblank c

/-! ### One consumer -/

/-- Calls of `Read` on `c` do not overlap. -/
def OneConsumer (c : ConnId) (w : World Shared Pc) : Label Choice Time → Prop
  | .thread _ (.call (.read d _)) => d = c → ∀ u, (w.thr u).readOf c = none
  | _ => True

/-- The `Read` of `c` in progress, if any, is the only one. -/
def Consumer (c : ConnId) (thr : ℕ → Pc) : Option ReadPc → Prop
  | none => ∀ t, (thr t).readOf c = none
  | some p => ∃ t, (thr t).readOf c = some p ∧ ∀ u, u ≠ t → (thr u).readOf c = none

section consumer
variable {thr : ℕ → Pc} {t : ℕ}

/-- Another goroutine moved. -/
theorem Consumer.update_other (h : Consumer c thr r) (ht : (thr t).readOf c = none)
    (hp : pc'.readOf c = none) : Consumer c (Function.update thr t pc') r := by
  have hsame : ∀ u, (Function.update thr t pc' u).readOf c = (thr u).readOf c := by
    intro u
    by_cases hu : u = t
    · rw [hu, Function.update_self, hp, ht]
    · rw [Function.update_of_ne hu]
  cases r with
  | none => exact fun u => (hsame u).trans (h u)
  | some p =>
      obtain ⟨v, hv, honly⟩ := h
      exact ⟨v, (hsame v).trans hv, fun u hu => (hsame u).trans (honly u hu)⟩

/-- A goroutine that no other one competes with. -/
theorem Consumer.of_others (h : ∀ u, u ≠ t → (thr u).readOf c = none) :
    Consumer c (Function.update thr t pc') (pc'.readOf c) := by
  have hothers : ∀ u, u ≠ t → (Function.update thr t pc' u).readOf c = none := by
    intro u hu
    rw [Function.update_of_ne hu]
    exact h u hu
  cases hr : pc'.readOf c with
  | none =>
      intro u
      by_cases hu : u = t
      · rw [hu, Function.update_self, hr]
      · exact hothers u hu
  | some p => exact ⟨t, by rw [Function.update_self, hr], hothers⟩

/-- A goroutine in a `Read` is the consumer, and no other goroutine is in one. -/
theorem Consumer.others {q : ReadPc} (h : Consumer c thr (some q))
    (ht : (thr t).readOf c = some p) : q = p ∧ ∀ u, u ≠ t → (thr u).readOf c = none := by
  obtain ⟨v, hv, honly⟩ := h
  obtain rfl : t = v := by
    by_contra hne
    rw [honly t hne] at ht
    cases ht
  exact ⟨Option.some.inj (hv.symm.trans ht), honly⟩

theorem Consumer.eq_some (h : Consumer c thr r) (ht : (thr t).readOf c = some p) :
    r = some p := by
  cases r with
  | none =>
      rw [h t] at ht
      cases ht
  | some q => rw [(h.others ht).1]

/-- The consumer moved. -/
theorem Consumer.update_self (h : Consumer c thr (some p)) (ht : (thr t).readOf c = some p) :
    Consumer c (Function.update thr t pc') (pc'.readOf c) :=
  .of_others (h.others ht).2

end consumer

/-- A `Read` starts by its call. -/
theorem call_of_read {ch : Choice} {n : ℕ} (h : next s .idle ch = some (s', .read (.lock c n))) :
    ch = .call (.read c n) := by
  cases ch with
  | call d =>
      cases d <;> simp only [next, stepCall] at h <;> (try split at h) <;> (try split at h) <;>
        simp_all
  | _ => cases h

/-- **Conservation.**  With one consumer, in every reachable state each byte enqueued for the
`Conn` was returned, is in hand, left over, or queued. -/
theorem stream_conserved {w : World Shared Pc} (h : system.Reach (OneConsumer c) w) :
    ∃ r, Consumer c w.thr r ∧ (w.shared.stream c).Conserved r := by
  refine system_invariant
    (I := fun w => ∃ r, Consumer c w.thr r ∧ (w.shared.stream c).Conserved r) ?_ ?_ ?_ h
  · intro now session _
    exact ⟨none, forall_startThreads (P := fun p => p.readOf c = none) rfl rfl rfl,
      rfl, False.elim⟩
  · rintro w t ch s pc hr ⟨r, hcons, hst⟩ hok hn ha
    cases ha.streamAct (scope hr).blank c with
    | frame h₀ h₁ he => exact ⟨r, hcons.update_other h₀ h₁, he ▸ hst⟩
    | enqueue data h₀ h₁ he => exact ⟨r, hcons.update_other h₀ h₁, he ▸ hst.enqueue data⟩
    | call n h₀ h₁ he =>
        subst h₁ he
        rw [h₀] at hn
        obtain rfl := call_of_read hn
        have hfree : ∀ u, (w.thr u).readOf c = none := hok rfl
        have hlock : (Pc.read (.lock c n)).readOf c = some (.lock c n) := if_pos rfl
        have hnone : r = none := by
          cases r with
          | none => rfl
          | some p =>
              obtain ⟨v, hv, _⟩ := hcons
              rw [hfree v] at hv
              cases hv
        subst hnone
        refine ⟨_, .of_others fun u _ => hfree u, ?_⟩
        rw [hlock]
        exact ⟨hst.bytes, False.elim⟩
    | read p h₀ hstep =>
        obtain rfl := hcons.eq_some h₀
        exact ⟨_, hcons.update_self h₀, hstep.conserved hst⟩
  · rintro w d _ ⟨r, hcons, hst⟩
    exact ⟨r, hcons, hst⟩

theorem exists_of_readOf (h : pc.readOf c ≠ none) : ∃ q, pc = .read q := by
  cases pc with
  | read q => exact ⟨q, rfl⟩
  | _ => exact absurd rfl h

/-- All calls of `Read` on `c` are made by goroutine `t`. -/
def ReadBy (c : ConnId) (t : ℕ) (_ : World Shared Pc) : Label Choice Time → Prop
  | .thread u (.call (.read d _)) => d = c → u = t
  | _ => True

instance (c : ConnId) (t : ℕ) (w : World Shared Pc) (l : Label Choice Time) :
    Decidable (ReadBy c t w l) := by
  rcases l with ⟨u, _ | k⟩ | e
  all_goals try exact .isTrue trivial
  rcases k with _ | _
  all_goals try exact .isTrue trivial
  exact inferInstanceAs (Decidable (_ = c → u = t))

/-- Only goroutine `t` is in a `Read` of `c`. -/
theorem ReadBy.only {w : World Shared Pc} {t u : ℕ} (h : system.Reach (ReadBy c t) w)
    (hu : (w.thr u).readOf c ≠ none) : u = t := by
  revert u
  refine system_invariant (I := fun w => ∀ {u}, (w.thr u).readOf c ≠ none → u = t) ?_ ?_ ?_ h
  · intro now session _ u hu
    exact absurd (forall_startThreads (P := fun p => p.readOf c = none) rfl rfl rfl u) hu
  · intro w v ch s pc hr hi hok hn ha u
    refine forall_update (P := fun u (p : Pc) => p.readOf c ≠ none → u = t) (fun hp => ?_)
      (fun x _ hx => hi hx) u
    cases ha.streamAct (scope hr).blank c with
    | frame _ h₁ _ | enqueue _ _ h₁ _ => exact absurd h₁ hp
    | call n h₀ h₁ _ =>
        subst h₁
        rw [h₀] at hn
        obtain rfl := call_of_read hn
        exact hok rfl
    | read p h₀ _ => exact hi (by rw [h₀]; exact nofun)
  · intro w d _ hi u hu
    exact hi hu

/-- A goroutine that makes all the calls is one consumer. -/
theorem ReadBy.oneConsumer_step {w w' : World Shared Pc} {t : ℕ} {l : Label Choice Time}
    (hr : system.Reach (ReadBy c t) w) (hok : ReadBy c t w l) (hs : system.step w l = some w') :
    OneConsumer c w l := by
  cases l with
  | env d => trivial
  | thread u ch =>
      obtain ⟨s, p, hn, _⟩ := interleave_step_thread.mp hs
      cases ch with
      | call d =>
          cases d with
          | read d n =>
              rintro rfl v
              by_contra hv
              have hvu : v = u := (ReadBy.only hr hv).trans (hok rfl).symm
              obtain ⟨q, hq⟩ := exists_of_readOf (hvu ▸ hv)
              rw [hq] at hn
              cases q <;> cases hn
          | _ => trivial
      | _ => trivial

theorem ReadBy.oneConsumer {w : World Shared Pc} {t : ℕ} (h : system.Reach (ReadBy c t) w) :
    system.Reach (OneConsumer c) w :=
  h.mono fun _ _ _ hr hok hs => ReadBy.oneConsumer_step hr hok hs

end DahuaP2p.Tunnel
