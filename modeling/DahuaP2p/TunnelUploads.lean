import DahuaP2p.TunnelWriters
import DahuaP2p.TunnelSetters

/-! # The outbound byte stream of a `Conn`

`write_fragments` is about one call of `Write`.  Here is what all the calls on a `Conn` do together,
if one goroutine writes to it at a time, as `io.Copy` does.

* **The record.** The bytes that the calls have reported as written, one call after the other, and
  the payload bytes that were transmitted for them (`Uploads`).
* `upload_integrity`: what was transmitted is what was reported, followed by the first bytes of the
  argument of the call in progress.  No byte is lost, sent twice or out of order, whichever calls
  fail and whatever the other goroutines do. -/

namespace DahuaP2p.Tunnel

open BigEndian Ptcp Threads

variable {s s' : Shared} {pc pc' : Pc} {w : World Shared Pc} {c : ConnId}

/-! ### The record -/

/-- For every goroutine its last call of `Write`, and for a `Conn` what its calls have reported and
what was transmitted for them. -/
structure Uploads where
  runs : ℕ → WriteRun := fun _ => {}
  reported : Bytes := []
  wire : Bytes := []

/-- The data of packets. -/
def dataOf (ps : List Packet) : Bytes := ps.flatMap fun q => q.body.data

@[simp] theorem dataOf_append (ps qs : List Packet) :
    dataOf (ps ++ qs) = dataOf ps ++ dataOf qs := by
  simp [dataOf]

/-- What a `Write` on `c` that returns now has reported. -/
def WriteRun.report (c : ConnId) (r : WriteRun) : Pc → Bytes
  | .write (.ret d n _) => if d = c then r.arg.take n else []
  | _ => []

def Uploads.note (c : ConnId) (a : Uploads) (t : ℕ) (s : Shared) (pc : Pc) (s' : Shared)
    (_ : Pc) : Uploads where
  runs := writeNote a.runs t s pc s' pc
  reported := a.reported ++ (a.runs t).report c pc
  wire := a.wire ++ if pc.writesTo = some c then dataOf (transmittedIn s s') else []

/-- The tunnel with the record of the writes to `c`. -/
def uploadSystem (c : ConnId) : System (World Shared Pc × Uploads) (Label Choice Time) :=
  recorded (Uploads.note c) {}

/-! ### One writer -/

/-- The `Conn` of a `Write`, from its call on. -/
def Pc.inWrite : Pc → Option ConnId
  | .write (.enter c _) => some c
  | pc => pc.writesTo

/-- Calls of `Write` on `c` do not overlap. -/
def OneWriter (c : ConnId) (w : World Shared Pc) : Label Choice Time → Prop
  | .thread _ (.call (.write d _)) => d = c → ∀ u, (w.thr u).inWrite ≠ some c
  | _ => True

theorem Pc.inWrite_of_writesTo (h : pc.writesTo = some c) : pc.inWrite = some c := by
  cases pc with
  | write p =>
      cases p with
      | enter d q => cases h
      | _ => exact h
  | _ => exact h

section returns
variable (k : SendCall) (e : Option SendError) (j : SignalCall)

@[simp] theorem SendCall.ret_inWrite : (k.ret e).inWrite = k.writer := by
  cases k <;> cases e <;> simp only [SendCall.ret] <;> (try split) <;> rfl

@[simp] theorem SendCall.written_inWrite : (k.written e).inWrite = k.writer := by
  rcases k.written_cases e with ⟨_, _, h⟩ | ⟨_, h⟩ <;> rw [h] <;> rfl

@[simp] theorem SignalCall.ret_inWrite : (j.ret c).inWrite = none := by
  rcases j with _ | _ | _ | _ | _ <;> rfl

theorem Background.inWrite (h : Background pc) : pc.inWrite = none := by
  cases h <;> rfl

end returns

/-- A `Write` goes on until it returns. -/
theorem Acts.writesTo_of (h : Acts s pc s' pc') (hw : pc.writesTo = some c) :
    pc'.writesTo = some c ∨ ∃ n e, pc = .write (.ret c n e) := by
  rcases h with ⟨rfl, h⟩ | h
  · cases h with
    | sendCheckClosed | sendCheckExpired | sendSelectClosed | sendSelectDone | sendSelectTimeout =>
        rw [SendCall.ret_writesTo]
        exact Or.inl hw
    | writeRet d n e =>
        cases hw
        exact Or.inr ⟨n, e, rfl⟩
    | _ => first | exact Or.inl hw | cases hw
  · cases h with
    | sendGiveBack | sendRelease =>
        rw [SendCall.ret_writesTo]
        exact Or.inl hw
    | sendWriteOk | sendWriteFail | sendBlockedOk | sendBlockedFail =>
        rw [SendCall.written_writesTo]
        exact Or.inl hw
    | _ => first | exact Or.inl hw | cases hw

/-- A `Write` begins with its call. -/
theorem Acts.inWrite (h : Acts s pc s' pc') (hw : pc'.inWrite = some c) :
    pc.inWrite = some c ∨ pc = .idle := by
  rcases h with ⟨rfl, h⟩ | h
  · cases h with
    | callWrite => exact Or.inr rfl
    | sendCheckClosed | sendCheckExpired | sendSelectClosed | sendSelectDone | sendSelectTimeout =>
        rw [SendCall.ret_inWrite] at hw
        exact Or.inl hw
    | closeAgain k =>
        rw [k.ret_background.inWrite] at hw
        cases hw
    | _ => first | exact Or.inl hw | cases hw
  · cases h with
    | sendGiveBack | sendRelease =>
        rw [SendCall.ret_inWrite] at hw
        exact Or.inl hw
    | sendWriteOk | sendWriteFail | sendBlockedOk | sendBlockedFail =>
        rw [SendCall.written_inWrite] at hw
        exact Or.inl hw
    | signalInterrupt =>
        rw [SignalCall.ret_inWrite] at hw
        cases hw
    | closeCallback k =>
        rw [k.ret_background.inWrite] at hw
        cases hw
    | readerCount q =>
        rw [(dispatch_background q.body).inWrite] at hw
        cases hw
    | _ => exact Or.inl hw

theorem call_of_write {ch : Choice} (h : next s .idle ch = some (s', pc))
    (hw : pc.inWrite = some c) : ∃ p, ch = .call (.write c p) := by
  cases ch with
  | call d =>
      cases d with
      | write d p =>
          simp only [next, stepCall] at h
          split at h
          · cases h
            cases hw
            exact ⟨p, rfl⟩
          · cases h
      | _ =>
          simp only [next, stepCall] at h
          repeat' split at h
          all_goals cases h
          all_goals cases hw
  | _ => cases h

/-! ### What was transmitted -/

/-- The part of the argument that was transmitted. -/
theorem Pc.Wrote.part {r : WriteRun} (h : pc.Wrote s r) (hw : pc.writesTo = some c) :
    ∃ k, k ≤ r.arg.length ∧ dataOf r.sent = r.arg.take k := by
  cases pc with
  | write p =>
      cases p with
      | enter => cases hw
      | check d p =>
          obtain rfl : r = ⟨p, []⟩ := h
          exact ⟨0, Nat.zero_le _, rfl⟩
      | loop d n p => exact ⟨n, h.2.1, h.2.2.2.joined⟩
      | ret d n e => exact ⟨n, h.1, h.2.1.joined⟩
  | send p k =>
      cases k with
      | write realm d n chunk rest =>
          obtain ⟨hslice, hfrag⟩ := h.1
          refine ⟨_, ?_, hfrag.joined⟩
          have hnext := hslice.next.2.1
          split <;> omega
      | _ => cases hw
  | _ => cases hw

/-- The calls of `Write` on `c` are one after the other, and what was transmitted is accounted
for. -/
structure Uploaded (c : ConnId) (s : Shared) (thr : ℕ → Pc) (a : Uploads) : Prop where
  wrote : ∀ t, (thr t).Wrote s (a.runs t)
  one : ∀ t u, (thr t).inWrite = some c → (thr u).inWrite = some c → t = u
  busy : ∀ t, (thr t).writesTo = some c → a.wire = a.reported ++ dataOf (a.runs t).sent
  free : (∀ t, (thr t).writesTo ≠ some c) → a.wire = a.reported

section step
variable {thr : ℕ → Pc} {t : ℕ} {a : Uploads}

theorem Uploaded.alone (hi : Uploaded c s thr a) (ht : (thr t).inWrite = some c) {u : ℕ}
    (hu : u ≠ t) : (thr u).writesTo ≠ some c :=
  fun hw => hu (hi.one u t (Pc.inWrite_of_writesTo hw) ht)

theorem transmittedIn_self (s : Shared) : transmittedIn s s = [] := by
  simp [transmittedIn]

/-- The writer moves, and is not in another `Write` before it has returned. -/
theorem Uploaded.one_update (hi : Uploaded c s thr a)
    (hpc : pc.inWrite = some c → (thr t).inWrite = some c ∨ ∀ u, (thr u).inWrite ≠ some c) :
    ∀ u v, (Function.update thr t pc u).inWrite = some c →
      (Function.update thr t pc v).inWrite = some c → u = v := by
  have hcase : ∀ u, (Function.update thr t pc u).inWrite = some c → u = t ∨
      (u ≠ t ∧ (thr u).inWrite = some c) := by
    intro u hu
    by_cases hut : u = t
    · exact Or.inl hut
    · rw [Function.update_of_ne hut] at hu
      exact Or.inr ⟨hut, hu⟩
  have hself : ∀ u, u ≠ t → (thr u).inWrite = some c → pc.inWrite ≠ some c := by
    intro u hut hu hp
    rcases hpc hp with ht | hnone
    · exact hut (hi.one u t hu ht)
    · exact hnone u hu
  intro u v hu hv
  rcases hcase u hu with rfl | ⟨hut, hu'⟩
  · rw [Function.update_self] at hu
    rcases hcase v hv with rfl | ⟨hvt, hv'⟩
    · rfl
    · exact absurd hu (hself v hvt hv')
  · rcases hcase v hv with rfl | ⟨_, hv'⟩
    · rw [Function.update_self] at hv
      exact absurd hv (hself u hut hu')
    · exact hi.one u v hu' hv'

/-- One action of a goroutine. -/
theorem Uploaded.step (hi : Uploaded c s thr a) (ha : Acts s (thr t) s' pc)
    (hscope : ∀ u, (thr u).Scoped s)
    (hpc : pc.inWrite = some c → (thr t).inWrite = some c ∨ ∀ u, (thr u).inWrite ≠ some c) :
    Uploaded c s' (Function.update thr t pc) (a.note c t s (thr t) s' pc) := by
  have hruns : ∀ u, u ≠ t → (a.note c t s (thr t) s' pc).runs u = a.runs u :=
    fun u hu => Function.update_of_ne hu ..
  have hself : (a.note c t s (thr t) s' pc).runs t = (a.runs t).note s (thr t) s' :=
    Function.update_self ..
  have hwrote : ∀ u, (Function.update thr t pc u).Wrote s'
      ((a.note c t s (thr t) s' pc).runs u) := by
    refine forall_update (P := fun u p => Pc.Wrote s' ((a.note c t s (thr t) s' pc).runs u) p) ?_ ?_
    · rw [hself]
      exact ha.wrote (hscope t) (hi.wrote t)
    · intro u hu
      rw [hruns u hu]
      exact (hi.wrote u).mono (hscope u) ha.extends
  have hone := hi.one_update hpc
  by_cases hret : ∃ n e, thr t = .write (.ret c n e)
  · -- the call returns, and reports what it has transmitted
    obtain ⟨n, e, ht⟩ := hret
    have hw := hi.wrote t
    rw [ht] at ha hw
    obtain ⟨rfl, rfl⟩ := ha.write_ret
    have hwire : (a.note c t s' (thr t) s' .idle).wire =
        (a.note c t s' (thr t) s' .idle).reported := by
      have hdata : dataOf (a.runs t).sent = (a.runs t).arg.take n := hw.2.1.joined
      simp only [Uploads.note, ht, WriteRun.report, if_true, transmittedIn_self]
      rw [← hdata, ← hi.busy t (by rw [ht]; rfl)]
      simp [dataOf]
    refine ⟨hwrote, hone, fun u hu => ?_, fun _ => hwire⟩
    by_cases hut : u = t
    · rw [hut, Function.update_self] at hu
      cases hu
    · rw [Function.update_of_ne hut] at hu
      exact absurd hu (hi.alone (by rw [ht]; rfl) hut)
  have hreported : (a.note c t s (thr t) s' pc).reported = a.reported := by
    unfold Uploads.note WriteRun.report
    dsimp only
    split
    · split
      · rename_i ht hd
        exact absurd ⟨_, _, hd ▸ ht⟩ hret
      · exact List.append_nil _
    · exact List.append_nil _
  by_cases hw : (thr t).writesTo = some c
  · -- the call goes on, and may transmit a packet
    have hstays := (ha.writesTo_of hw).resolve_right hret
    have henter : ∀ d p, thr t ≠ .write (.enter d p) := by
      intro d p ht
      rw [ht] at hw
      cases hw
    have hsent : (a.note c t s (thr t) s' pc).wire =
        a.wire ++ dataOf (transmittedIn s s') := by
      simp only [Uploads.note, if_pos hw]
    have hrun : ((a.note c t s (thr t) s' pc).runs t).sent =
        (a.runs t).sent ++ transmittedIn s s' := by
      rw [hself]
      unfold WriteRun.note
      split
      · exact absurd ‹_› (henter _ _)
      · rfl
    refine ⟨hwrote, hone, fun u hu => ?_, fun hnone => ?_⟩
    · by_cases hut : u = t
      · subst hut
        rw [hsent, hreported, hrun, dataOf_append, ← List.append_assoc, ← hi.busy u hw]
      · rw [Function.update_of_ne hut] at hu
        exact absurd hu (hi.alone (Pc.inWrite_of_writesTo hw) hut)
    · exact absurd (by rw [Function.update_self]; exact hstays) (hnone t)
  · have hwire : (a.note c t s (thr t) s' pc).wire = a.wire := by
      simp only [Uploads.note, if_neg hw, List.append_nil]
    refine ⟨hwrote, hone, fun u hu => ?_, fun hnone => ?_⟩
    · rw [hwire, hreported]
      by_cases hut : u = t
      · -- a call begins, while there is no other one
        subst hut
        rw [Function.update_self] at hu
        obtain ⟨p, ht⟩ := (ha.writesTo hu).resolve_left hw
        have hrun : ((a.note c u s (thr u) s' pc).runs u).sent = [] := by
          rw [hself, ht]
          rfl
        have hfree : ∀ v, (thr v).writesTo ≠ some c := by
          intro v
          by_cases hvu : v = u
          · rw [hvu]
            exact hw
          · exact hi.alone (by rw [ht]; rfl) hvu
        rw [hrun, hi.free hfree]
        simp [dataOf]
      · rw [Function.update_of_ne hut] at hu
        rw [hruns u hut, hi.busy u hu]
    · rw [hwire, hreported]
      refine hi.free fun u => ?_
      by_cases hut : u = t
      · rw [hut]
        exact hw
      · have hu := hnone u
        rwa [Function.update_of_ne hut] at hu

end step

theorem uploaded {a : Uploads}
    (h : (uploadSystem c).Reach (fun p => OneWriter c p.1) (w, a)) :
    Uploaded c w.shared w.thr a := by
  refine recorded_invariant (I := fun w a => Uploaded c w.shared w.thr a) ?_ ?_ ?_ h
  · intro now session _
    have hidle : ∀ t, (startThreads t).inWrite = none :=
      forall_startThreads (P := fun p => p.inWrite = none) rfl rfl rfl
    have hwrote : ∀ t, (startThreads t).Wrote (start now session).shared {} :=
      forall_startThreads (P := fun p => p.Wrote (start now session).shared {}) trivial trivial
        trivial
    refine ⟨hwrote, fun t u ht => ?_, fun t ht => ?_, fun _ => rfl⟩
    · cases (hidle t).symm.trans ht
    · cases (hidle t).symm.trans (Pc.inWrite_of_writesTo ht)
  · intro w a t ch s pc hr hi hok hn ha
    refine hi.step ha (scope hr).thr fun hw => ?_
    rcases ha.inWrite hw with ht | hidle
    · exact Or.inl ht
    · rw [hidle] at hn
      obtain ⟨p, rfl⟩ := call_of_write hn hw
      exact Or.inr (hok rfl)
  · intro w a d hr hi
    exact ⟨fun t => (hi.wrote t).mono ((scope hr).thr t) ⟨le_rfl, fun _ _ => rfl, fun _ => id⟩,
      hi.one, hi.busy, hi.free⟩

/-- **The outbound stream is intact.**  If the calls of `Write` on a `Conn` do not overlap, the data
of the packets that were transmitted for it is what its calls have reported as written, one after
the other, followed by the first bytes of the argument of the call in progress, if there is one; and
when that call returns, these are the bytes that it reports, as many as the number says. -/
theorem upload_integrity {a : Uploads}
    (h : (uploadSystem c).Reach (fun p => OneWriter c p.1) (w, a)) :
    ((∀ t, (w.thr t).writesTo ≠ some c) → a.wire = a.reported) ∧
    (∀ t, (w.thr t).writesTo = some c →
      ∃ k, k ≤ (a.runs t).arg.length ∧ a.wire = a.reported ++ (a.runs t).arg.take k) ∧
    ∀ t n e, w.thr t = .write (.ret c n e) → n ≤ (a.runs t).arg.length ∧
      a.wire = a.reported ++ (a.runs t).arg.take n := by
  have hi := uploaded h
  refine ⟨hi.free, fun t hw => ?_, fun t n e ht => ?_⟩
  · obtain ⟨k, hk, hdata⟩ := (hi.wrote t).part hw
    exact ⟨k, hk, by rw [hi.busy t hw, hdata]⟩
  · have hw := hi.wrote t
    rw [ht] at hw
    have hdata : dataOf (a.runs t).sent = (a.runs t).arg.take n := hw.2.1.joined
    exact ⟨hw.1, by rw [hi.busy t (by rw [ht]; rfl), hdata]⟩

/-- No call of `Write` on `c` begins while one of the first `n` goroutines is in one. -/
def freeToWrite (n : ℕ) (c : ConnId) (w : World Shared Pc) : Label Choice Time → Bool
  | .thread _ (.call (.write d _)) =>
      d ≠ c || (List.range n).all fun u => (w.thr u).inWrite ≠ some c
  | _ => true

/-- Only the first `n` goroutines take steps, and their calls of `Write` on `c` do not overlap. -/
def WritersBelow (n : ℕ) (c : ConnId) (w : World Shared Pc) (l : Label Choice Time) : Prop :=
  l.below n = true ∧ freeToWrite n c w l = true

instance (n : ℕ) (c : ConnId) (w : World Shared Pc) (l : Label Choice Time) :
    Decidable (WritersBelow n c w l) :=
  inferInstanceAs (Decidable (_ ∧ _))

theorem WritersBelow.oneWriter {n : ℕ} {l : Label Choice Time}
    (h : system.Reach (WritersBelow n c) w) (hn : 2 ≤ n) (hok : WritersBelow n c w l) :
    OneWriter c w l := by
  unfold OneWriter
  split
  · rintro rfl u
    rcases lt_or_ge u n with hu | hu
    · have hall := (Bool.or_eq_true_iff.mp hok.2).resolve_left (by simp)
      exact of_decide_eq_true (List.all_eq_true.mp hall u (List.mem_range.mpr hu))
    · rw [idle_of_below h hn hu]
      nofun
  · trivial

/-- A `Write` of two bytes, and then one of 1281 bytes whose second packet fails. -/
def uploadScript : List (Label Choice Time) :=
  grantScript 2 7 ++ acts 3 (.call (.write 0 [1, 2]) :: gos 2) ++ chunkScript 3 ++
    acts 3 (gos 2) ++ acts 3 (.call (.write 0 (List.replicate 1281 5)) :: gos 2) ++ chunkScript 3 ++
    acts 3 (gos 3) ++ acts 3 [.select .permit, .go, .go, .go, .udp .ok, .go, .udp .fail] ++
    acts 3 (gos 3)

theorem upload_integrity_second_fails :
    ∃ w a, (uploadSystem 0).exec (fun p => WritersBelow 4 0 p.1) (start 1 newSession, {})
        uploadScript = some (w, a) ∧
      w.thr 3 = .write (.ret 0 1280 (some .io)) ∧ a.reported = [1, 2] ∧
      1280 ≤ (a.runs 3).arg.length ∧ a.wire = [1, 2] ++ (a.runs 3).arg.take 1280 := by
  have hrun : ((uploadSystem 0).exec (fun p => WritersBelow 4 0 p.1) (start 1 newSession, {})
      uploadScript).map (fun p => (p.1.thr 3, p.2.reported)) =
        some (.write (.ret 0 1280 (some .io)), [1, 2]) := by
    decide +kernel
  obtain ⟨⟨w, a⟩, hw, he⟩ := Option.map_eq_some_iff.mp hrun
  obtain ⟨hthr, hreported⟩ := Prod.mk.inj he
  have hreach : (uploadSystem 0).Reach (fun p => WritersBelow 4 0 p.1) (w, a) :=
    System.Reach.exec (.init ⟨⟨1, newSession, by decide, rfl⟩, rfl⟩) hw
  have hone : (uploadSystem 0).Reach (fun p => OneWriter 0 p.1) (w, a) :=
    hreach.mono fun p l _ hr hok _ => WritersBelow.oneWriter hr.unlog (by decide) hok
  obtain ⟨hlen, hwire⟩ := (upload_integrity hone).2.2 3 1280 _ hthr
  exact ⟨w, a, hw, hthr, hreported, hlen, by rw [hwire, hreported]⟩

end DahuaP2p.Tunnel
