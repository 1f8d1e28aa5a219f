import DahuaP2p.TunnelDelivery

/-! # What `Read` returns

Two expectations of a reader of a `Conn`, and what they depend on.

* **Progress.** A `Read` into a buffer that is not empty returns bytes or an error, as long as no
  payload without data is put into the queue (`no_empty_read`).  Nothing rejects such a payload:
  `parseBody` accepts it, the reader puts it into the queue, and `Read` returns zero bytes and no
  error for it (`empty_payload`).
* **End of file.** After EOF a `Read` returns nothing but EOF, as long as EOF is not returned
  before the `Conn` is out of `t.realms` and the reader has no payload for it in hand (`eof_final`).
  Both may happen: the closed flag is set by another goroutine, while the reader is between its
  look at the table and the queue (`data_after_eof`). -/

namespace DahuaP2p.Tunnel

open BigEndian Ptcp Threads

variable {s s' : Shared} {pc pc' : Pc} {c : ConnId} {w : World Shared Pc} {p : ReadPc}
  {ok : World Shared Pc → Label Choice Time → Prop}

/-- Only the reader puts payloads into a queue. -/
theorem DeliveryAct.put_of_enqueued (h : DeliveryAct c s pc s' pc') {data : Bytes}
    (he : s'.hist.enqueued c = s.hist.enqueued c ++ [data]) :
    pc.ofReader = true ∧ pc.duty c = .put data := by
  have hno : s.hist.enqueued c ≠ s.hist.enqueued c ++ [data] := by simp
  cases h with
  | put d _ hd _ _ hr hu =>
      obtain rfl : d = data := by simpa using hd.symm.trans he
      exact ⟨hr, hu⟩
  | make _ _ h0 => simp [h0] at he
  | full _ hs =>
      subst hs
      exact absurd he hno
  | frame _ h0 | find _ _ _ h0 | miss _ _ _ h0 | tear _ h0 => exact absurd (h0.symm.trans he) hno

theorem ReadStep.queue_subset {st st' : Stream} {r : Option ReadPc} (h : ReadStep st p st' r) :
    st'.queue ⊆ st.queue := by
  cases h with
  | take _ _ _ data rest _ hq =>
      rw [hq]
      exact List.subset_cons_self data rest
  | _ => exact List.Subset.refl _

/-! ### Progress -/

/-- The size of the buffer of a `Read`. -/
def ReadPc.size : ReadPc → ℕ
  | lock _ n => n
  | drain _ n => n
  | select _ n _ _ => n
  | copy _ n _ => n

/-- No payload without data is put into the queue of `c`. -/
def NonemptyPayloads (c : ConnId) (w : World Shared Pc) : Label Choice Time → Prop
  | .thread t _ => [] ∉ ((w.thr t).duty c).payload
  | .env _ => True

/-- Calls of `Read` on `c` have a buffer. -/
def WithBuffer (c : ConnId) : Label Choice Time → Prop
  | .thread _ (.call (.read d n)) => d = c → 0 < n
  | _ => True

/-- The `Read` has a buffer, and data if it is about to copy. -/
def ReadPc.Loaded (p : ReadPc) : Prop := 0 < p.size ∧ ∀ c n data, p = .copy c n data → data ≠ []

theorem ReadPc.Loaded.of_size {p' : ReadPc} (h : p.Loaded) (hsize : p'.size = p.size)
    (hcopy : ∀ c n data, p' ≠ .copy c n data) : p'.Loaded :=
  ⟨hsize ▸ h.1, fun c n data he => absurd he (hcopy c n data)⟩

theorem take_ne_nil {data : Bytes} {n : ℕ} (hn : 0 < n) (hd : data ≠ []) : data.take n ≠ [] := by
  rw [Ne, List.take_eq_nil_iff, not_or]
  exact ⟨hn.ne', hd⟩

/-- A `Read` goes on, or returns bytes or an error. -/
theorem Acts.loaded (h : Acts s (.read p) s' pc') (hp : p.Loaded)
    (hq : ∀ data ∈ (s.table.conns p.conn).dataCh, data ≠ []) :
    (∃ p', pc' = .read p' ∧ p'.Loaded ∧ s'.hist.reads = s.hist.reads) ∨
      pc' = .idle ∧ ∃ r, r ≠ .ok [] ∧ s'.hist = s.hist.logRead p.conn r := by
  have htake : ∀ (n : ℕ) (data : Bytes) (rest : List Bytes), p.size = n →
      (s.table.conns p.conn).dataCh = data :: rest → (ReadPc.copy p.conn n data).Loaded := by
    rintro n data rest rfl hdata
    refine ⟨hp.1, fun c n' d he => ?_⟩
    cases he
    exact hq data (by rw [hdata]; exact List.mem_cons_self)
  rcases h with ⟨rfl, h⟩ | h
  · cases h with
    | readDrain c n => exact Or.inl ⟨.drain c n, rfl, hp.of_size rfl nofun, rfl⟩
    | readWait c n => exact Or.inl ⟨_, rfl, hp.of_size rfl nofun, rfl⟩
    | readClosed c n | readChanged c n =>
        exact Or.inl ⟨.lock c n, rfl, hp.of_size rfl nofun, rfl⟩
  · cases h with
    | readBuffered c n hb =>
        exact Or.inr ⟨rfl, _, fun he => take_ne_nil hp.1 hb (Except.ok.inj he), rfl⟩
    | readExpired | readEof | readTimeout =>
        exact Or.inr ⟨rfl, .error _, fun he => (nomatch he), rfl⟩
    | readDrained c n data rest hd => exact Or.inl ⟨_, rfl, htake n data rest rfl hd, rfl⟩
    | readData c n _ _ data rest hd => exact Or.inl ⟨_, rfl, htake n data rest rfl hd, rfl⟩
    | readCopy c n data =>
        have hdata := hp.2 c n data rfl
        exact Or.inr ⟨rfl, _, fun he => take_ne_nil hp.1 hdata (Except.ok.inj he), rfl⟩

theorem Pc.read_of_readOf (h : pc.readOf c = some p) : pc = .read p ∧ p.conn = c := by
  cases pc with
  | read q =>
      simp only [Pc.readOf, Option.ite_none_right_eq_some, Option.some.injEq] at h
      obtain ⟨hc, rfl⟩ := h
      exact ⟨rfl, hc⟩
  | _ => cases h

/-- The queue of `c` and the hands of its `Read`s hold no payload without data, and no `Read` has
returned without bytes or an error. -/
structure Progress (c : ConnId) (w : World Shared Pc) : Prop where
  queue : ∀ data ∈ (w.shared.stream c).queue, data ≠ []
  hand : ∀ t p, (w.thr t).readOf c = some p → p.Loaded
  reads : ∀ r ∈ (w.shared.stream c).reads, r ≠ .ok []

theorem Progress.hand_update {t : ℕ} (hi : Progress c w)
    (hpc : ∀ p, pc.readOf c = some p → p.Loaded) :
    ∀ u p, (Function.update w.thr t pc u).readOf c = some p → p.Loaded :=
  forall_update (P := fun _ (q : Pc) => ∀ p, q.readOf c = some p → p.Loaded) hpc
    fun u _ => hi.hand u

/-- A `Read` of `c` takes a step. -/
theorem Progress.read {t : ℕ} (hi : Progress c w) (hp : (w.thr t).readOf c = some p)
    (ha : Acts w.shared (w.thr t) s pc)
    (hstep : ReadStep (w.shared.stream c) p (s.stream c) (pc.readOf c)) :
    Progress c ⟨s, Function.update w.thr t pc⟩ := by
  have hload := hi.hand t p hp
  obtain ⟨hread, rfl⟩ := Pc.read_of_readOf hp
  have hqueue : ∀ data ∈ (s.stream p.conn).queue, data ≠ [] :=
    fun data hd => hi.queue data (hstep.queue_subset hd)
  rw [hread] at ha
  rcases ha.loaded hload hi.queue with ⟨p', rfl, hload', hreads⟩ | ⟨rfl, r, hne, hreads⟩
  · refine ⟨hqueue, hi.hand_update fun p₁ hp₁ => ?_, ?_⟩
    · obtain ⟨he, -⟩ := Pc.read_of_readOf hp₁
      cases he
      exact hload'
    · have hsame : (s.stream p.conn).reads = (w.shared.stream p.conn).reads :=
        congrFun hreads p.conn
      rw [hsame]
      exact hi.reads
  · refine ⟨hqueue, hi.hand_update nofun, ?_⟩
    have hlog : (s.stream p.conn).reads = (w.shared.stream p.conn).reads ++ [r] := by
      simp [Shared.stream, hreads, History.logRead]
    rw [hlog]
    exact List.forall_mem_append.mpr ⟨hi.reads, List.forall_mem_singleton.mpr hne⟩

theorem progress (h : system.Reach (fun w l => NonemptyPayloads c w l ∧ WithBuffer c l) w) :
    Progress c w := by
  refine system_invariant (I := Progress c) ?_ ?_ ?_ h
  · intro now session _
    refine ⟨fun data hd => (nomatch hd), fun t p hp => ?_, fun r hr => (nomatch hr)⟩
    have hnone := forall_startThreads (P := fun p => p.readOf c = none) rfl rfl rfl t
    exact absurd (hnone.symm.trans hp) nofun
  · intro w t ch s pc hr hi hok hn ha
    have hsc := scope hr
    cases ha.streamAct hsc.blank c with
    | frame _ hpc he =>
        exact ⟨he ▸ hi.queue, hi.hand_update (by rw [hpc]; nofun), he ▸ hi.reads⟩
    | enqueue data _ hpc he =>
        have hact := ha.deliveryAct hsc.shared (hsc.thr t) hsc.blank c (installedAt_le hr c)
        have hduty := (hact.put_of_enqueued (congrArg Stream.enqueued he)).2
        have hdata : data ≠ [] := by
          rintro rfl
          have hnot : [] ∉ ((w.thr t).duty c).payload := hok.1
          rw [hduty] at hnot
          exact hnot List.mem_cons_self
        refine ⟨?_, hi.hand_update (by rw [hpc]; nofun), ?_⟩
        · rw [he]
          exact List.forall_mem_append.mpr ⟨hi.queue, List.forall_mem_singleton.mpr hdata⟩
        · rw [he]
          exact hi.reads
    | call n hidle hpc he =>
        subst he hpc
        rw [hidle] at hn
        obtain rfl := call_of_read hn
        refine ⟨hi.queue, hi.hand_update fun p hp => ?_, hi.reads⟩
        obtain ⟨he, -⟩ := Pc.read_of_readOf hp
        cases he
        exact ⟨hok.2 rfl, nofun⟩
    | read p hp hstep => exact hi.read hp ha hstep
  · intro w d _ hi
    exact ⟨hi.queue, hi.hand, hi.reads⟩

/-- **`Read` makes progress.**  In every run in which no payload without data is put into the queue
of `c` and calls of `Read` on `c` have a buffer, each of them returns bytes or an error. -/
theorem no_empty_read
    (h : system.Reach (fun w l => NonemptyPayloads c w l ∧ WithBuffer c l) w) :
    ∀ r ∈ w.shared.hist.reads c, (∃ data, r = .ok data ∧ data ≠ []) ∨ ∃ e, r = .error e := by
  intro r hr
  cases r with
  | ok data => exact Or.inl ⟨data, rfl, fun he => (progress h).reads _ hr (by rw [he])⟩
  | error e => exact Or.inr ⟨e, rfl⟩

instance (c : ConnId) (w : World Shared Pc) : ∀ l, Decidable (NonemptyPayloads c w l)
  | .thread t _ => inferInstanceAs (Decidable ([] ∉ ((w.thr t).duty c).payload))
  | .env _ => .isTrue trivial

instance (c : ConnId) (l : Label Choice Time) : Decidable (WithBuffer c l) := by
  rcases l with ⟨t, _ | k⟩ | e
  all_goals try exact .isTrue trivial
  rcases k with _ | _
  all_goals try exact .isTrue trivial
  exact inferInstanceAs (Decidable (_ = c → 0 < _))

theorem no_empty_read_readScript :
    ∃ w, system.exec (fun w l => NonemptyPayloads 0 w l ∧ WithBuffer 0 l) (start 1 newSession)
        readScript = some w ∧ w.shared.hist.reads 0 = [.ok [1, 2], .ok [3], .error .eof] ∧
      ∀ r ∈ w.shared.hist.reads 0, (∃ data, r = .ok data ∧ data ≠ []) ∨ ∃ e, r = .error e := by
  have hrun : (system.exec (fun w l => NonemptyPayloads 0 w l ∧ WithBuffer 0 l)
      (start 1 newSession) readScript).map (fun w => w.shared.hist.reads 0) =
      some [.ok [1, 2], .ok [3], .error .eof] := by
    decide +kernel
  obtain ⟨w, hw, he⟩ := Option.map_eq_some_iff.mp hrun
  exact ⟨w, hw, he, no_empty_read (reach_of_exec (by decide) hw)⟩

/-- A payload without data, and a `Read` with a buffer of 16 bytes. -/
def emptyPayloadScript : List (Label Choice Time) :=
  grantScript 2 7 ++ receiveScript (newPayloadBody 7 []) 5 ++
    acts 3 [.call (.read 0 16), .go, .select .data, .go]

/-- `Read` returns zero bytes and no error. -/
theorem empty_payload :
    (system.exec (fun _ l => WithBuffer 0 l) (start 1 newSession) emptyPayloadScript).map
      (fun w => w.shared.hist.reads 0) = some [.ok []] := by
  decide +kernel

/-! ### End of file -/

/-- The goroutine is about to look for the last payloads of `c`, which is closed. -/
def Pc.draining (c : ConnId) : Pc → Bool
  | .read (.drain d _) => d = c
  | _ => false

/-- A `Read` of `c` returns EOF only when `c` is out of `t.realms` and the reader has no payload for
it in hand. -/
def EofSettled (c : ConnId) (w : World Shared Pc) : Label Choice Time → Prop
  | .thread t _ => (w.thr t).draining c = true → (w.shared.table.conns c).dataCh = [] →
      ¬ w.shared.Live c ∧ ((w.thr 0).duty c).payload = []
  | .env _ => True

/-- No more payloads can come for `c`, and every `Read` of it finds nothing. -/
structure Ended (c : ConnId) (w : World Shared Pc) : Prop where
  made : c < w.shared.table.connCount
  closed : (w.shared.table.conns c).closed = true
  readBuf : (w.shared.table.conns c).readBuf = []
  queue : (w.shared.table.conns c).dataCh = []
  gone : ¬ w.shared.Live c
  duty : ((w.thr 0).duty c).payload = []
  reading : ∀ t p, (w.thr t).readOf c = some p → ∃ n, p = .lock c n ∨ p = .drain c n

section ended
variable {t : ℕ}

theorem DeliveryAct.gone (h : DeliveryAct c s pc s' pc') (hc : c < s.table.connCount)
    (hl : ¬ s.Live c) : ¬ s'.Live c := by
  cases h with
  | frame _ _ _ hkeep | put _ _ _ _ hkeep => exact fun hlive => hl (hkeep hlive)
  | make hnew => exact absurd hnew hc.ne
  | find _ hlive => exact absurd hlive hl
  | miss _ hgone | tear _ _ _ hgone => exact hgone
  | full _ hs =>
      subst hs
      exact hl

/-- The reader gets no payload for a `Conn` that it cannot find. -/
theorem DeliveryAct.duty_gone (h : DeliveryAct c s pc s' pc') (hl : ¬ s.Live c)
    (hd : (pc.duty c).payload = []) : (pc'.duty c).payload = [] := by
  cases h with
  | frame _ _ _ _ hsame =>
      rw [hsame]
      exact hd
  | find _ hlive => exact absurd hlive hl
  | full data _ _ hput =>
      rw [hput] at hd
      cases hd
  | make _ _ _ _ _ hnone | miss _ _ _ _ _ _ _ hnone | put _ _ _ _ _ _ _ hnone
  | tear _ _ _ _ _ _ hnone =>
      rw [hnone]
      rfl

/-- A `Read` of a closed `Conn` without data returns EOF. -/
theorem Acts.ended (h : Acts s (.read p) s' pc') (hp : ∃ n, p = .lock c n ∨ p = .drain c n)
    (hcl : (s.table.conns c).closed = true) (hbuf : (s.table.conns c).readBuf = [])
    (hq : (s.table.conns c).dataCh = []) :
    (∃ n, pc' = .read (.drain c n) ∧ s' = s) ∨
      pc' = .idle ∧ s' = { s with hist := s.hist.logRead c (.error .eof) } := by
  obtain ⟨n, rfl | rfl⟩ := hp
  · rcases h with ⟨rfl, h⟩ | h
    · cases h with
      | readDrain => exact Or.inl ⟨n, rfl, rfl⟩
      | readWait _ _ _ hopen => exact absurd (hcl.symm.trans hopen) nofun
    · cases h with
      | readBuffered _ _ hne => exact absurd hbuf hne
      | readExpired _ _ _ hopen => exact absurd (hcl.symm.trans hopen) nofun
  · rcases h with ⟨rfl, h⟩ | h
    · cases h
    · cases h with
      | readDrained _ _ _ _ hdata => exact absurd (hq.symm.trans hdata) nofun
      | readEof => exact Or.inr ⟨rfl, rfl⟩

/-- Nothing but EOF is returned from an ended stream, and it stays ended. -/
theorem Ended.step (hr : system.Reach ok w) (hi : Ended c w) (ha : Acts w.shared (w.thr t) s pc) :
    Ended c ⟨s, Function.update w.thr t pc⟩ ∧
      (s.hist.reads c = w.shared.hist.reads c ∨
        s.hist.reads c = w.shared.hist.reads c ++ [.error .eof]) := by
  have hsc := scope hr
  have hact := ha.deliveryAct hsc.shared (hsc.thr t) hsc.blank c (installedAt_le hr c)
  have hduty : ((Function.update w.thr t pc 0).duty c).payload = [] := by
    by_cases ht : t = 0
    · subst ht
      rw [Function.update_self]
      exact hact.duty_gone hi.gone hi.duty
    · rw [Function.update_of_ne (Ne.symm ht)]
      exact hi.duty
  -- what is left to show depends on what happens to the stream
  have hend : ∀ {rs}, (s.stream c).readBuf = [] → (s.stream c).queue = [] →
      (∀ p, pc.readOf c = some p → ∃ n, p = .lock c n ∨ p = .drain c n) → s.hist.reads c = rs →
      Ended c ⟨s, Function.update w.thr t pc⟩ ∧ s.hist.reads c = rs :=
    fun hbuf hq hpc hrs => ⟨⟨hi.made.trans_le ha.extends.count, ha.closed_mono hi.made hi.closed,
      hbuf, hq, hact.gone hi.made hi.gone, hduty,
      forall_update (P := fun _ (q : Pc) => ∀ p, q.readOf c = some p →
        ∃ n, p = .lock c n ∨ p = .drain c n) hpc fun u _ => hi.reading u⟩, hrs⟩
  cases ha.streamAct hsc.blank c with
  | frame _ hpc he =>
      have hrs : s.hist.reads c = w.shared.hist.reads c := congrArg Stream.reads he
      refine (hend ?_ ?_ (by rw [hpc]; nofun) hrs).imp_right Or.inl
      · rw [he]
        exact hi.readBuf
      · rw [he]
        exact hi.queue
  | enqueue data _ _ he =>
      obtain ⟨hreader, hput⟩ := hact.put_of_enqueued (congrArg Stream.enqueued he)
      have hnot := hi.duty
      rw [← reader_unique hr hreader, hput] at hnot
      cases hnot
  | call n _ hpc he =>
      subst he hpc
      refine (hend hi.readBuf hi.queue (fun p hp => ⟨n, Or.inl ?_⟩) rfl).imp_right Or.inl
      cases (Pc.read_of_readOf hp).1
      rfl
  | read p hp _ =>
      rw [(Pc.read_of_readOf hp).1] at ha
      rcases ha.ended (hi.reading t p hp) hi.closed hi.readBuf hi.queue with
        ⟨n, rfl, rfl⟩ | ⟨rfl, rfl⟩
      · refine (hend hi.readBuf hi.queue (fun p hp => ⟨n, Or.inr ?_⟩) rfl).imp_right Or.inl
        cases (Pc.read_of_readOf hp).1
        rfl
      · exact (hend hi.readBuf hi.queue nofun (by simp [History.logRead])).imp_right Or.inr

/-- EOF is returned at the end of the stream. -/
theorem Ended.of_eof (hr : system.Reach (OneConsumer c) w)
    (hok : (w.thr t).draining c = true → (w.shared.table.conns c).dataCh = [] →
      ¬ w.shared.Live c ∧ ((w.thr 0).duty c).payload = [])
    (ha : Acts w.shared (w.thr t) s pc)
    (he : s.hist.reads c = w.shared.hist.reads c ++ [.error .eof]) :
    Ended c ⟨s, Function.update w.thr t pc⟩ := by
  obtain ⟨n, hpc, hq⟩ := ha.eof he
  have hread : (w.thr t).readOf c = some (.drain c n) := by
    rw [hpc]
    exact if_pos rfl
  obtain ⟨r, hcons, hst⟩ := stream_conserved hr
  obtain rfl := hcons.eq_some hread
  have hcl := drains hr t
  have hmade := (scope hr).thr t
  rw [hpc] at hcl hmade
  obtain ⟨hgone, hduty⟩ := hok (by rw [hpc]; exact decide_eq_true rfl) hq
  -- before the last step the stream is at its end
  have hbefore : Ended c w :=
    { made := hmade.1
      closed := hcl
      readBuf := hst.empty trivial
      queue := hq
      gone := hgone
      duty := hduty
      reading := fun u p hp => by
        by_cases hu : u = t
        · rw [hu, hread] at hp
          exact ⟨n, Or.inr (Option.some.inj hp).symm⟩
        · exact absurd (((hcons.others hread).2 u hu).symm.trans hp) nofun }
  exact (hbefore.step hr ha).1

end ended

theorem ReadStep.reads {st st' : Stream} {r : Option ReadPc} (h : ReadStep st p st' r) :
    st'.reads = st.reads ∨ ∃ res, st'.reads = st.reads ++ [res] := by
  cases h with
  | wait | again | take => exact Or.inl rfl
  | buffered | fail | copy => exact Or.inr ⟨_, rfl⟩

/-- At most one `Read` returns in a step. -/
theorem StreamAct.reads (h : StreamAct c s pc s' pc') :
    s'.hist.reads c = s.hist.reads c ∨ ∃ r, s'.hist.reads c = s.hist.reads c ++ [r] := by
  cases h with
  | frame _ _ he | enqueue _ _ _ he => exact Or.inl (congrArg Stream.reads he)
  | call _ _ _ he =>
      rw [he]
      exact Or.inl rfl
  | read _ _ hstep => exact hstep.reads

/-- **EOF is final.**  If calls of `Read` on `c` do not overlap and none of them returns EOF while
`c` is in `t.realms` or the reader has a payload for it in hand, then after EOF every `Read` of `c`
returns EOF. -/
theorem eof_final (h : system.Reach (fun w l => OneConsumer c w l ∧ EofSettled c w l) w) :
    (w.shared.hist.reads c).Pairwise fun r later => r = .error .eof → later = .error .eof := by
  refine (system_invariant (I := fun w => (.error .eof ∈ w.shared.hist.reads c → Ended c w) ∧
    (w.shared.hist.reads c).Pairwise fun r later => r = .error .eof → later = .error .eof)
    ?_ ?_ ?_ h).2
  · intro now session _
    exact ⟨fun he => (nomatch he), .nil⟩
  · rintro w t ch s pc hr ⟨hend, hpair⟩ hok _ ha
    dsimp only
    by_cases heof : .error .eof ∈ w.shared.hist.reads c
    · obtain ⟨hend', he | he⟩ := (hend heof).step hr ha
      · rw [he]
        exact ⟨fun _ => hend', hpair⟩
      · rw [he]
        refine ⟨fun _ => hend', List.pairwise_append.mpr ⟨hpair, List.pairwise_singleton _ _, ?_⟩⟩
        intro r _ later hl _
        exact List.mem_singleton.mp hl
    · have hone : system.Reach (OneConsumer c) w := hr.mono fun _ _ _ _ h _ => h.1
      rcases (ha.streamAct (scope hr).blank c).reads with he | ⟨r, he⟩
      · rw [he]
        exact ⟨fun h => absurd h heof, hpair⟩
      · refine ⟨fun hmem => ?_, ?_⟩
        · rw [he, List.mem_append, List.mem_singleton] at hmem
          have hr : .error .eof = r := hmem.resolve_left heof
          exact .of_eof hone hok.2 ha (hr ▸ he)
        · rw [he]
          refine List.pairwise_append.mpr ⟨hpair, List.pairwise_singleton _ _, ?_⟩
          rintro _ hmem later _ rfl
          exact absurd hmem heof
  · rintro w d _ ⟨hend, hpair⟩
    refine ⟨fun he => ?_, hpair⟩
    have hi := hend he
    exact ⟨hi.made, hi.closed, hi.readBuf, hi.queue, hi.gone, hi.duty, hi.reading⟩

instance (s : Shared) (c : ConnId) : Decidable (s.Live c) :=
  inferInstanceAs (Decidable (s.table.lookup (s.table.conns c).realmID = some c))

instance (c : ConnId) (w : World Shared Pc) : ∀ l, Decidable (EofSettled c w l)
  | .thread t _ => inferInstanceAs (Decidable ((w.thr t).draining c = true →
      (w.shared.table.conns c).dataCh = [] →
        ¬ w.shared.Live c ∧ ((w.thr 0).duty c).payload = []))
  | .env _ => .isTrue trivial

/-- EOF after a DISC, and once more. -/
theorem eof_final_readScript :
    ∃ w, system.exec (fun w l => ReadBy 0 3 w l ∧ EofSettled 0 w l) (start 1 newSession)
        (readScript ++ acts 3 [.call (.read 0 2), .go, .go]) = some w ∧
      w.shared.hist.reads 0 = [.ok [1, 2], .ok [3], .error .eof, .error .eof] ∧
      (w.shared.hist.reads 0).Pairwise fun r later => r = .error .eof → later = .error .eof := by
  have hrun : (system.exec (fun w l => ReadBy 0 3 w l ∧ EofSettled 0 w l) (start 1 newSession)
      (readScript ++ acts 3 [.call (.read 0 2), .go, .go])).map (fun w =>
        w.shared.hist.reads 0) = some [.ok [1, 2], .ok [3], .error .eof, .error .eof] := by
    decide +kernel
  obtain ⟨w, hw, he⟩ := Option.map_eq_some_iff.mp hrun
  have hr : system.Reach (fun w l => ReadBy 0 3 w l ∧ EofSettled 0 w l) w :=
    reach_of_exec (by decide) hw
  refine ⟨w, hw, he, eof_final (hr.mono fun w l w' hw hok hs => ⟨?_, hok.2⟩)⟩
  exact ReadBy.oneConsumer_step (hw.mono fun _ _ _ _ h _ => h.1) hok.1 hs

/-- The reader has found the `Conn` for a payload when `Tunnel.Close` closes the `Conn`; a `Read`
returns EOF, the reader goes on, and the next `Read` returns the payload. -/
def lateEnqueueScript : List (Label Choice Time) :=
  grantScript 2 7 ++ receiveScript (newPayloadBody 7 [1]) 3 ++
    acts 4 [.call .close, .go, .go, .go, .index 0, .go] ++
    acts 3 [.call (.read 0 16), .go, .go] ++ acts 0 [.go] ++
    acts 3 [.call (.read 0 16), .go, .go, .go]

theorem data_after_eof :
    (system.exec (ReadBy 0 3) (start 1 newSession) lateEnqueueScript).map
      (fun w => w.shared.hist.reads 0) = some [.error .eof, .ok [1]] := by
  decide +kernel

end DahuaP2p.Tunnel
