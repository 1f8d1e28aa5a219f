import DahuaP2p.TunnelGrants
import DahuaP2p.TunnelOrder

/-! # The fragments of a write (`Conn.Write`)

`Conn.Write` cuts its argument into chunks of `maxPayloadSize` bytes and sends one packet for each,
until one of the sends fails.

* **The record.** For each goroutine, what its current `Write` was given and the packets that it has
  transmitted since (`WriteRun`); a packet is transmitted when the UDP write succeeds.
* **Fragments.** `Fragments realm ps data`: the packets are payloads of the realm with 1 to
  `maxPayloadSize` bytes each, and carry `data` in this order.
* `Pc.Wrote` says for every control state of `Write` how far it is: the packets transmitted are
  fragments of the first `n` bytes, or of one chunk more between the UDP write and the return of
  `sendPacketFor`.  `write_fragments` is the result at its return. -/

namespace DahuaP2p.Tunnel

open BigEndian Ptcp Threads

variable {s s' : Shared} {pc pc' : Pc} {w : World Shared Pc}
  {ok : World Shared Pc → Label Choice Time → Prop}

/-! ### The record -/

/-- The argument of a `Write` and what was transmitted for it. -/
structure WriteRun where
  arg : Bytes := []
  sent : List Packet := []

/-- The packets whose UDP write succeeded in an action. -/
def transmittedIn (s s' : Shared) : List Packet :=
  s'.hist.transmitted.drop s.hist.transmitted.length

/-- The record begins anew with every `Write`. -/
def WriteRun.note (r : WriteRun) (s : Shared) (pc : Pc) (s' : Shared) : WriteRun :=
  match pc with
  | .write (.enter _ p) => ⟨p, []⟩
  | _ => { r with sent := r.sent ++ transmittedIn s s' }

def writeNote (a : ℕ → WriteRun) (t : ℕ) (s : Shared) (pc : Pc) (s' : Shared) (_ : Pc) :
    ℕ → WriteRun :=
  Function.update a t ((a t).note s pc s')

/-- The tunnel with the record of its writes. -/
def writeSystem : System (World Shared Pc × (ℕ → WriteRun)) (Label Choice Time) :=
  recorded writeNote fun _ => {}

/-! ### Fragments -/

/-- The packets carry `data` in pieces, as payloads of the realm. -/
structure Fragments (realm : UInt32) (ps : List Packet) (data : Bytes) : Prop where
  payload : ∀ p ∈ ps, ∃ d : Bytes, p.body = newPayloadBody realm d ∧ 1 ≤ d.length ∧
    d.length ≤ maxPayloadSize
  joined : (ps.flatMap fun p => p.body.data) = data

theorem Fragments.nil (realm : UInt32) : Fragments realm [] [] :=
  ⟨fun p hp => by simp at hp, rfl⟩

theorem Fragments.concat {realm : UInt32} {ps : List Packet} {data chunk : Bytes} {q : Packet}
    (h : Fragments realm ps data) (hq : q.body = newPayloadBody realm chunk)
    (hpos : 1 ≤ chunk.length) (hmax : chunk.length ≤ maxPayloadSize) :
    Fragments realm (ps ++ [q]) (data ++ chunk) := by
  refine ⟨fun p hp => ?_, ?_⟩
  · rcases List.mem_append.mp hp with hp | hp
    · exact h.payload p hp
    · obtain rfl := List.mem_singleton.mp hp
      exact ⟨chunk, hq, hpos, hmax⟩
  · simp [h.joined, hq, newPayloadBody]

/-- A fragment on the wire. -/
theorem Fragments.wire {realm : UInt32} {ps : List Packet} {data : Bytes}
    (h : Fragments realm ps data) {q : Packet} (hq : q ∈ ps) :
    parsePacket q.serialize = .ok q ∧ q.serialize.length ≤ 1316 := by
  obtain ⟨d, hbody, _, hmax⟩ := h.payload q hq
  have hmax : d.length ≤ 1280 := hmax
  have hwf : WellFormed q.body := by
    rw [hbody]
    exact .payload realm d (by omega)
  refine ⟨Packet.parse_serialize hwf, ?_⟩
  have hlen : q.serialize.length = 24 + q.body.len := q.serialize_length
  have hblen : q.body.len = d.length + 12 := by rw [hbody]; rfl
  omega

/-- The next chunk after `n` bytes and what remains after it. -/
structure Slice (arg : Bytes) (n : ℕ) (chunk rest : Bytes) : Prop where
  chunk : chunk = (arg.drop n).take maxPayloadSize
  rest : rest = (arg.drop n).drop maxPayloadSize
  more : n < arg.length
  aligned : n % maxPayloadSize = 0

section slice
variable {arg chunk rest : Bytes} {n : ℕ} (h : Slice arg n chunk rest)
include h

theorem Slice.chunk_length : chunk.length = min maxPayloadSize (arg.length - n) := by
  rw [h.chunk, List.length_take, List.length_drop]

theorem Slice.chunk_pos : 1 ≤ chunk.length := by
  have hlen := h.chunk_length
  have hmore := h.more
  simp only [maxPayloadSize] at hlen
  omega

theorem Slice.chunk_le : chunk.length ≤ maxPayloadSize := by
  rw [h.chunk_length]
  exact Nat.min_le_left _ _

theorem Slice.take_add : arg.take (n + chunk.length) = arg.take n ++ chunk := by
  rw [List.take_add, h.chunk_length, h.chunk]
  congr 1
  rw [← List.length_drop, ← List.take_eq_take_min]

/-- What remains is a rest of the argument, and nothing after a chunk that is not full. -/
theorem Slice.next : rest = arg.drop (n + chunk.length) ∧ n + chunk.length ≤ arg.length ∧
    (rest ≠ [] → (n + chunk.length) % maxPayloadSize = 0) := by
  have hlen := h.chunk_length
  have hmore := h.more
  have haligned := h.aligned
  simp only [maxPayloadSize] at hlen haligned ⊢
  have hrest : rest = arg.drop (n + 1280) := by
    rw [h.rest, List.drop_drop]
    rfl
  rcases Nat.lt_or_ge (arg.length - n) 1280 with hlt | hge
  · have hnil : rest = [] := by
      rw [hrest]
      exact List.drop_eq_nil_of_le (by omega)
    refine ⟨?_, by omega, fun hne => absurd hnil hne⟩
    rw [hnil]
    exact (List.drop_eq_nil_of_le (by omega)).symm
  · have hfull : chunk.length = 1280 := by omega
    rw [hfull]
    exact ⟨hrest, by omega, fun _ => by omega⟩

end slice

/-! ### How far a write is -/

/-- Inside `sendPacketFor`; `done` if the UDP write of the chunk has succeeded. -/
def SendCall.Wrote (r : WriteRun) (done : Bool) : SendCall → Prop
  | write realm _ n chunk rest => Slice r.arg n chunk rest ∧
      Fragments realm r.sent (r.arg.take (if done then n + chunk.length else n))
  | _ => True

/-- The UDP write has succeeded. -/
def SendPc.done (p : SendPc) : Bool := p.outcome = some none

theorem SendPc.done_of_outcome {p : SendPc} {e : Option SendError} (h : p.outcome = some e) :
    p.done = e.isNone := by
  cases e <;> simp [SendPc.done, h]

def Pc.Wrote (s : Shared) (r : WriteRun) : Pc → Prop
  | .write (.check _ p) => r = ⟨p, []⟩
  | .write (.loop c n p) => p = r.arg.drop n ∧ n ≤ r.arg.length ∧
      (p ≠ [] → n % maxPayloadSize = 0) ∧
      Fragments (s.table.conns c).realmID r.sent (r.arg.take n)
  | .write (.ret c n e) => n ≤ r.arg.length ∧
      Fragments (s.table.conns c).realmID r.sent (r.arg.take n) ∧
      (e = none → n = r.arg.length) ∧
      (e ≠ none → n % maxPayloadSize = 0 ∧ (r.arg ≠ [] → n < r.arg.length))
  | .send p k => k.Wrote r p.done ∧ ∀ q ∈ (Pc.send p k).unsent, q.body = k.body
  | _ => True

/-- A `Write` that has not sent anything. -/
theorem wrote_nothing (s : Shared) (c : ConnId) (p : Bytes) (e : SendError) :
    (Pc.write (.ret c 0 (some e))).Wrote s ⟨p, []⟩ := by
  refine ⟨Nat.zero_le _, Fragments.nil _, fun he => (by cases he), fun _ => ⟨rfl, fun hne => ?_⟩⟩
  exact List.length_pos_iff.mpr hne

variable {r : WriteRun} {k : SendCall} {e : Option SendError}

/-- `sendPacketFor` returns. -/
theorem SendCall.Wrote.ret (h : k.Wrote r e.isNone) (hk : k.Scoped s) : (k.ret e).Wrote s r := by
  cases k with
  | write realm c n chunk rest =>
      obtain ⟨hslice, hfrag⟩ := h
      have hrealm : (s.table.conns c).realmID = realm := hk.1.2
      cases e with
      | none =>
          obtain ⟨hrest, hle, haligned⟩ := hslice.next
          refine ⟨hrest, hle, haligned, ?_⟩
          rw [hrealm]
          exact hfrag
      | some e =>
          refine ⟨hslice.more.le, ?_, fun he => (by cases he),
            fun _ => ⟨hslice.aligned, fun _ => hslice.more⟩⟩
          rw [hrealm]
          exact hfrag
  | connClose realm c i =>
      cases e with
      | none =>
          simp only [SendCall.ret]
          split
          · exact ⟨trivial, fun q hq => by cases hq⟩
          · trivial
      | some e => trivial
  | dial => cases e <;> trivial
  | _ => trivial

/-- The UDP write of the chunk succeeds. -/
theorem SendCall.Wrote.transmit {q : Packet} (h : k.Wrote r false) (hq : q.body = k.body) :
    k.Wrote { r with sent := r.sent ++ [q] } true := by
  cases k with
  | write realm c n chunk rest =>
      obtain ⟨hslice, hfrag⟩ := h
      refine ⟨hslice, ?_⟩
      rw [if_pos rfl, hslice.take_add]
      exact hfrag.concat hq hslice.chunk_pos hslice.chunk_le
  | _ => trivial

theorem SendCall.Wrote.written (h : k.Wrote r e.isNone) : (k.written e).Wrote s r := by
  rcases k.written_cases e with ⟨c, _, hw⟩ | ⟨_, hw⟩
  · rw [hw]
    refine ⟨?_, fun q hq => by cases hq⟩
    rw [SendPc.done_of_outcome rfl]
    exact h
  · rw [hw]
    refine ⟨?_, fun q hq => by cases hq⟩
    rw [SendPc.done_of_outcome rfl]
    exact h

/-- Whatever is not in a `Write` has nothing to show. -/
theorem Background.wrote (h : Background pc) : pc.Wrote s r := by
  cases h <;> first | exact ⟨trivial, fun q hq => by cases hq⟩ | trivial

theorem SignalCall.ret_wrote (j : SignalCall) (c : ConnId) : (j.ret c).Wrote s r := by
  rcases j with _ | _ | _ | _ | _ <;> first | exact ⟨trivial, fun q hq => by cases hq⟩ | trivial

/-! ### One action -/

/-- An action transmits the packet in hand, or nothing. -/
theorem Acts.transmittedIn_cases (h : Acts s pc s' pc') :
    transmittedIn s s' = [] ∨ ∃ p k q, pc = .send p k ∧ pc.unsent = [q] ∧ p.done = false ∧
      transmittedIn s s' = [q] ∧ pc' = k.written none := by
  have hsame : s'.hist.transmitted = s.hist.transmitted →
      transmittedIn s s' = [] := by
    intro he
    rw [transmittedIn, he, List.drop_length]
  rcases h with ⟨rfl, _⟩ | h
  · exact Or.inl (hsame rfl)
  · cases h with
    | sendWriteOk k q | sendBlockedOk k q =>
        refine Or.inr ⟨_, k, q, rfl, rfl, rfl, ?_, rfl⟩
        simp [transmittedIn, History.transmit, History.hand]
    | _ => exact Or.inl (hsame rfl)

/-- `sendPacketFor` goes on, without a packet in hand. -/
theorem Pc.Wrote.keep {p p' : SendPc} (h : (Pc.send p k).Wrote s r) (hd : p'.done = p.done)
    (hu : (Pc.send p' k).unsent = []) : (Pc.send p' k).Wrote s' r := by
  refine ⟨?_, fun q hq => ?_⟩
  · rw [hd]
    exact h.1
  · rw [hu] at hq
    cases hq

theorem Pc.Wrote.ret {p : SendPc} (h : (Pc.send p k).Wrote s r) (hk : k.Scoped s)
    (hd : p.done = e.isNone) : (k.ret e).Wrote s r := by
  have hwrote := h.1
  rw [hd] at hwrote
  exact hwrote.ret hk

/-- The realm ID of a `Conn` is the same in a later memory. -/
theorem Pc.Wrote.mono (h : pc.Wrote s r) (hp : pc.Scoped s) (he : s.Extends s') :
    pc.Wrote s' r := by
  cases pc with
  | write p =>
      cases p with
      | loop c n q =>
          have hrealm := he.realmID c (Shared.Returned.mono hp (.refl s)).1
          obtain ⟨hrest, hle, haligned, hfrag⟩ := h
          refine ⟨hrest, hle, haligned, ?_⟩
          rw [hrealm]
          exact hfrag
      | ret c n e =>
          have hrealm := he.realmID c (Shared.Returned.mono hp (.refl s)).1
          obtain ⟨hle, hfrag, hret⟩ := h
          refine ⟨hle, ?_, hret⟩
          rw [hrealm]
          exact hfrag
      | _ => exact h
  | _ => exact h

/-- A control state that `Write` can not be in. -/
theorem Pc.Wrote.of_enter (hk : k.writer = none) : (Pc.send .enter k).Wrote s r := by
  refine ⟨?_, fun q hq => by cases hq⟩
  cases k with
  | write => cases hk
  | _ => trivial

/-- Outside the first action of `Write`, an action that transmits nothing adds nothing. -/
theorem WriteRun.note_quiet (hq : transmittedIn s s' = []) (hpc : ∀ c p, pc ≠ .write (.enter c p)) :
    r.note s pc s' = r := by
  unfold WriteRun.note
  split
  · exact absurd rfl (hpc _ _)
  · rw [hq, List.append_nil]

/-- An action that transmits nothing. -/
theorem Local.wrote (h : Local s pc pc') (hpc : ∀ c p, pc ≠ .write (.enter c p))
    (hp : pc.Scoped s) (hw : pc.Wrote s r) : pc'.Wrote s r := by
  cases h with
  | writeClosed c p | writeEnter c p => exact absurd rfl (hpc c p)
  | sendEnter | sendEnterWriter | sendCheck | sendSelectChanged | sendWonDone | sendWon
  | sendReadDeadline => exact hw.keep rfl rfl
  | sendCheckClosed | sendCheckExpired | sendSelectClosed | sendSelectDone | sendSelectTimeout =>
      exact hw.ret hp rfl
  | closeDisc | connCloseDisc => exact Pc.Wrote.of_enter rfl
  | closeAgain k => exact k.ret_background.wrote
  | writeTunnelClosed c p =>
      rw [show r = ⟨p, []⟩ from hw]
      exact wrote_nothing s c p _
  | writeCheck c p =>
      rw [show r = ⟨p, []⟩ from hw]
      exact ⟨rfl, Nat.zero_le _, fun _ => rfl, Fragments.nil _⟩
  | writeAll c n =>
      obtain ⟨hrest, hle, _, hfrag⟩ := hw
      have hlen : n = r.arg.length := by
        have := List.drop_eq_nil_iff.mp hrest.symm
        omega
      exact ⟨hle, hfrag, fun _ => hlen, fun he => absurd rfl he⟩
  | writeChunk c n p hne =>
      obtain ⟨hrest, hle, haligned, hfrag⟩ := hw
      have hmore : n < r.arg.length := by
        by_contra hge
        exact hne (hrest.trans (List.drop_eq_nil_of_le (Nat.le_of_not_lt hge)))
      refine ⟨⟨⟨?_, ?_, hmore, haligned hne⟩, hfrag⟩, fun q hq => by cases hq⟩
      · rw [hrest]
      · rw [hrest]
  | _ => trivial

/-- An action that transmits nothing. -/
theorem Effect.wrote (h : Effect s pc s' pc') (hq : transmittedIn s s' = [])
    (hp : pc.Scoped s) (hw : pc.Wrote s r) : pc'.Wrote s' r := by
  cases h with
  | sendOnce | sendOnceWriter | sendTake | sendTakeWriter | sendLockDeadline | sendSetDeadline
  | sendRelock | sendClear => exact hw.keep rfl rfl
  | sendSkip | sendSetDeadlineError => exact hw.keep rfl rfl
  | sendGiveBack k =>
      have hk : k.Scoped s := hp
      exact (hw.ret hk rfl).mono hk.ret ⟨le_rfl, fun _ _ => rfl, fun _ => id⟩
  | sendRelease k e =>
      have hk : k.Scoped s := hp
      have hret := hw.ret hk (SendPc.done_of_outcome rfl)
      exact hret.mono hk.ret ⟨le_rfl, fun _ _ => rfl, fun _ => id⟩
  | sendBuild k =>
      refine ⟨hw.1, fun q hq => ?_⟩
      obtain rfl := List.mem_singleton.mp hq
      rfl
  | sendWriteOk => simp [transmittedIn, History.transmit, History.hand] at hq
  | sendBlockedOk => simp [transmittedIn, History.transmit] at hq
  | sendWriteFail | sendBlockedFail => exact SendCall.Wrote.written hw.1
  | sendWriteBlock => exact hw
  | signalInterrupt c k => exact k.ret_wrote c
  | closeCallback k => exact k.ret_background.wrote
  | readerCount q => exact (dispatch_background q.body).wrote
  | heartbeatBeat | flushLock | dialRegister => exact Pc.Wrote.of_enter rfl
  | _ => trivial

/-- One action of the goroutine. -/
theorem Acts.wrote (h : Acts s pc s' pc') (hp : pc.Scoped s) (hw : pc.Wrote s r) :
    pc'.Wrote s' (r.note s pc s') := by
  by_cases hpc : ∃ c p, pc = .write (.enter c p)
  · obtain ⟨c, p, rfl⟩ := hpc
    rcases h with ⟨rfl, h⟩ | h
    · cases h with
      | writeClosed => exact wrote_nothing s' c p _
      | writeEnter => rfl
    · cases h
  · have hne : ∀ c p, pc ≠ .write (.enter c p) := fun c p he => hpc ⟨c, p, he⟩
    rcases h.transmittedIn_cases with hq | ⟨p, k, q, rfl, hu, hd, hq, rfl⟩
    · rw [WriteRun.note_quiet hq hne]
      rcases h with ⟨rfl, h⟩ | h
      · exact h.wrote hne hp hw
      · exact h.wrote hq hp hw
    · have hbody : q.body = k.body := hw.2 q (by rw [hu]; exact List.mem_singleton_self q)
      have hwrote := hw.1
      rw [hd] at hwrote
      have hnote : r.note s (.send p k) s' = { r with sent := r.sent ++ [q] } := by
        rw [← hq]
        rfl
      rw [hnote]
      exact (hwrote.transmit hbody).written

/-- Every goroutine's `Write` is as far as its control state says. -/
theorem wrote {a : ℕ → WriteRun} (h : writeSystem.Reach (fun p => ok p.1) (w, a)) (t : ℕ) :
    (w.thr t).Wrote w.shared (a t) := by
  revert t
  refine recorded_invariant (I := fun w a => ∀ t, (w.thr t).Wrote w.shared (a t)) ?_ ?_ ?_ h
  · intro now session _
    exact forall_startThreads trivial trivial trivial
  · intro w a t ch s pc hr hi _ _ ha u
    have hscope := scope hr
    by_cases hu : u = t
    · subst hu
      simp only [writeNote, Function.update_self]
      exact ha.wrote (hscope.thr u) (hi u)
    · simp only [writeNote, Function.update_of_ne hu]
      exact (hi u).mono (hscope.thr u) ha.extends
  · intro w a d _ hi t
    exact (hi t).mono (scope ‹_› |>.thr t) ⟨le_rfl, fun _ _ => rfl, fun _ => id⟩

/-- **Writes fragment exactly.**  When a `Write` returns `n` and `e`, the packets that it has
transmitted are datagrams of at most 1316 bytes that parse back to payloads of the `Conn`'s realm
with 1 to 1280 bytes each, and carry exactly the first `n` bytes of its argument.  If the argument
is not empty, `n` is its length exactly when there is no error; with an error `n` is a multiple of
1280. -/
theorem write_fragments {a : ℕ → WriteRun} (h : writeSystem.Reachable (w, a)) {t : ℕ} {c : ConnId}
    {n : ℕ} {e : Option SendError} (ht : w.thr t = .write (.ret c n e)) :
    (∀ q ∈ (a t).sent, parsePacket q.serialize = .ok q ∧ q.serialize.length ≤ 1316 ∧
      ∃ data : Bytes, q.body = newPayloadBody (w.shared.table.conns c).realmID data ∧
        1 ≤ data.length ∧ data.length ≤ 1280) ∧
    ((a t).sent.flatMap fun q => q.body.data) = (a t).arg.take n ∧ n ≤ (a t).arg.length ∧
    ((a t).arg ≠ [] → (n = (a t).arg.length ↔ e = none)) ∧ (e ≠ none → n % 1280 = 0) := by
  have hw := @wrote _ (fun _ _ => True) a h t
  rw [ht] at hw
  obtain ⟨hle, hfrag, hall, hfail⟩ := hw
  refine ⟨fun q hq => ?_, hfrag.joined, hle, fun hne => ⟨fun hn => ?_, hall⟩,
    fun he => (hfail he).1⟩
  · exact ⟨(hfrag.wire hq).1, (hfrag.wire hq).2, hfrag.payload q hq⟩
  · by_contra he
    have := (hfail he).2 hne
    omega

/-- A `Write` of 1281 bytes whose second packet fails. -/
def fragmentScript : List (Label Choice Time) :=
  grantScript 2 7 ++
    acts 3 [.call (.write 0 (List.replicate 1281 5))] ++ acts 3 (gos 5) ++
    acts 3 [.select .permit, .go, .go, .go, .udp .ok, .go, .udp .ok] ++ acts 3 (gos 6) ++
    acts 3 [.select .permit, .go, .go, .go, .udp .ok, .go, .udp .fail] ++ acts 3 (gos 3)

/-- It returns 1280 and an error, and has transmitted one packet of 1316 bytes. -/
theorem write_fragments_second_fails :
    ∃ w a, writeSystem.exec (fun _ _ => True) (start 1 newSession, fun _ => {}) fragmentScript =
        some (w, a) ∧
      w.thr 3 = .write (.ret 0 1280 (some .io)) ∧
      (a 3).arg.length = 1281 ∧ (a 3).sent.map (fun q => q.serialize.length) = [1316] ∧
      ((a 3).sent.flatMap fun q => q.body.data) = (a 3).arg.take 1280 := by
  have hrun : (writeSystem.exec (fun _ _ => True) (start 1 newSession, fun _ => {})
      fragmentScript).map (fun p => decide (p.1.thr 3 = .write (.ret 0 1280 (some .io)) ∧
        (p.2 3).arg.length = 1281 ∧ (p.2 3).sent.map (fun q => q.serialize.length) = [1316])) =
      some true := by
    decide +kernel
  obtain ⟨⟨w, a⟩, hw, he⟩ := Option.map_eq_some_iff.mp hrun
  obtain ⟨hthr, hlen, hsent⟩ := of_decide_eq_true he
  have hstart : writeSystem.Reachable (start 1 newSession, fun _ => {}) :=
    .init ⟨⟨1, newSession, by decide, rfl⟩, rfl⟩
  exact ⟨w, a, hw, hthr, hlen, hsent, (write_fragments (hstart.exec hw) hthr).2.1⟩

end DahuaP2p.Tunnel
