import DahuaP2p.TunnelWrites

/-! # Concurrent writes (`Conn.Write`)

The send permit orders packets, and a `Write` takes it anew for every chunk.

* **Chunks.** `chunks p` is what the loop of `Write` cuts its argument into.
* **The record.** The calls of `Write` in the order in which they began, with their results, and
  the packets transmitted for them, each with the number of its call (`WriteLog`).
* `Pc.left` are the chunks that a `Write` has still to transmit.  Every action transmits none or
  the first of them (`Acts.left`), so that what a call has transmitted, with what is left, is its
  argument in chunks (`Ordered`).
* `writes_merge`: the packets of two calls are a merge of the chunks of the one and of the other,
  and for arguments of one chunk each come in one of two orders.  `writes_alternate` is a run in
  which longer ones take turns. -/

namespace DahuaP2p.Tunnel

open BigEndian Ptcp Threads

variable {s s' : Shared} {pc pc' : Pc} {w : World Shared Pc}
  {ok : World Shared Pc → Label Choice Time → Prop}

/-! ### Chunks -/

/-- The pieces that the loop of `Write` sends. -/
def chunks (p : Bytes) : List Bytes :=
  if p = [] then [] else p.take maxPayloadSize :: chunks (p.drop maxPayloadSize)
termination_by p.length
decreasing_by
  have hpos : 0 < p.length := List.length_pos_iff.mpr ‹_›
  rw [List.length_drop, maxPayloadSize]
  omega

@[simp] theorem chunks_nil : chunks [] = [] := by
  rw [chunks, if_pos rfl]

theorem chunks_of_ne {p : Bytes} (h : p ≠ []) :
    chunks p = p.take maxPayloadSize :: chunks (p.drop maxPayloadSize) := by
  rw [chunks, if_neg h]

theorem chunks_flatten (p : Bytes) : (chunks p).flatten = p := by
  induction p using chunks.induct with
  | case1 => rw [chunks_nil, List.flatten_nil]
  | case2 p hne ih => rw [chunks_of_ne hne, List.flatten_cons, ih, List.take_append_drop]

theorem chunks_length_le_one {p : Bytes} (h : p.length ≤ maxPayloadSize) :
    (chunks p).length ≤ 1 := by
  by_cases hp : p = []
  · rw [hp, chunks_nil]
    exact Nat.zero_le 1
  · rw [chunks_of_ne hp, List.drop_eq_nil_of_le h, chunks_nil]
    exact le_rfl

/-! ### The record -/

/-- A call of `Write` and what it returned. -/
structure WriteCall where
  conn : ConnId
  arg : Bytes
  result : Option (ℕ × Option SendError) := none
deriving DecidableEq

/-- The calls of `Write` and what was transmitted for them. -/
structure WriteLog where
  calls : List WriteCall := []
  /-- The call that a goroutine made last. -/
  current : ℕ → ℕ := fun _ => 0
  wire : List (ℕ × Packet) := []

/-- The packets of call `i`, in the order in which they were transmitted. -/
def WriteLog.sent (a : WriteLog) (i : ℕ) : List Packet := tagged (fun m => m = i) a.wire

/-- The packets of the calls `i` and `j`, in the order in which they were transmitted. -/
def WriteLog.sentBy (a : WriteLog) (i j : ℕ) : List Packet :=
  tagged (fun m => decide (m = i) || decide (m = j)) a.wire

/-- The payloads of packets. -/
def payloads (ps : List Packet) : List Bytes := ps.map fun q => q.body.data

/-- The `Conn` of a `Write` that has begun. -/
def Pc.writesTo : Pc → Option ConnId
  | .write (.check c _) => some c
  | .write (.loop c _ _) => some c
  | .write (.ret c _ _) => some c
  | .send _ k => k.writer
  | _ => none

namespace WriteLog

/-- A goroutine begins a call. -/
def enter (a : WriteLog) (t : ℕ) (c : ConnId) (p : Bytes) : WriteLog :=
  { a with calls := a.calls ++ [{ conn := c, arg := p }]
           current := Function.update a.current t a.calls.length }

/-- Its call returns. -/
def ret (a : WriteLog) (t : ℕ) (n : ℕ) (e : Option SendError) : WriteLog :=
  { a with calls := a.calls.modify (a.current t) fun x => { x with result := some (n, e) } }

/-- Packets are transmitted for its call. -/
def transmit (a : WriteLog) (t : ℕ) (ps : List Packet) : WriteLog :=
  { a with wire := a.wire ++ ps.map (a.current t, ·) }

/-- What an action adds to the record. -/
def note (a : WriteLog) (t : ℕ) (s : Shared) (pc : Pc) (s' : Shared) (_ : Pc) : WriteLog :=
  match pc with
  | .write (.enter c p) => a.enter t c p
  | .write (.ret _ n e) => a.ret t n e
  | _ => if pc.writesTo.isSome then a.transmit t (transmittedIn s s') else a

end WriteLog

/-- The tunnel with the record of the calls of `Write`. -/
def writerSystem : System (World Shared Pc × WriteLog) (Label Choice Time) :=
  recorded WriteLog.note {}

/-! ### What is left to transmit -/

/-- Inside `sendPacketFor`, whose UDP write has the given outcome. -/
def SendCall.left (outcome : Option (Option SendError)) : SendCall → Option (List Bytes)
  | write _ _ _ chunk rest =>
      match outcome with
      | none => some (chunk :: chunks rest)
      | some none => some (chunks rest)
      | some (some _) => none
  | _ => none

/-- The chunks that a `Write` has still to transmit, if it has not failed. -/
def Pc.left : Pc → Option (List Bytes)
  | .write (.enter _ p) => some (chunks p)
  | .write (.check _ p) => some (chunks p)
  | .write (.loop _ _ p) => some (chunks p)
  | .write (.ret _ _ none) => some []
  | .send p k => k.left p.outcome
  | _ => none

section returns
variable (k : SendCall) (e : Option SendError) (c : ConnId) (j : SignalCall)

@[simp] theorem SendCall.left_failed (e : SendError) : k.left (some (some e)) = none := by
  cases k <;> rfl

@[simp] theorem SendCall.ret_left : (k.ret e).left = k.left (some e) := by
  cases k <;> cases e <;> simp only [SendCall.ret] <;> (try split) <;> rfl

@[simp] theorem SendCall.written_left : (k.written e).left = k.left (some e) := by
  rcases k.written_cases e with ⟨_, _, h⟩ | ⟨_, h⟩ <;> rw [h] <;> rfl

@[simp] theorem SignalCall.ret_left : (j.ret c).left = none := by
  rcases j with _ | _ | _ | _ | _ <;> rfl

theorem Background.left (h : Background pc) : pc.left = none := by
  cases h <;> rfl

@[simp] theorem SendCall.ret_writesTo : (k.ret e).writesTo = k.writer := by
  cases k <;> cases e <;> simp only [SendCall.ret] <;> (try split) <;> rfl

@[simp] theorem SendCall.written_writesTo : (k.written e).writesTo = k.writer := by
  rcases k.written_cases e with ⟨_, _, h⟩ | ⟨_, h⟩ <;> rw [h] <;> rfl

@[simp] theorem SignalCall.ret_writesTo : (j.ret c).writesTo = none := by
  rcases j with _ | _ | _ | _ | _ <;> rfl

theorem Background.writesTo (h : Background pc) : pc.writesTo = none := by
  cases h <;> rfl

end returns

/-! ### One action -/

/-- A goroutine is in a `Write` once it has made its first action. -/
theorem Acts.writesTo {c : ConnId} (h : Acts s pc s' pc') (hw : pc'.writesTo = some c) :
    pc.writesTo = some c ∨ ∃ p, pc = .write (.enter c p) := by
  rcases h with ⟨rfl, h⟩ | h
  · cases h with
    | sendCheckClosed | sendCheckExpired | sendSelectClosed | sendSelectDone | sendSelectTimeout =>
        rw [SendCall.ret_writesTo] at hw
        exact Or.inl hw
    | closeAgain k =>
        rw [k.ret_background.writesTo] at hw
        cases hw
    | writeClosed c p | writeEnter c p =>
        cases hw
        exact Or.inr ⟨p, rfl⟩
    | writeRet => cases hw
    | _ => exact Or.inl hw
  · cases h with
    | sendGiveBack | sendRelease =>
        rw [SendCall.ret_writesTo] at hw
        exact Or.inl hw
    | sendWriteOk | sendWriteFail | sendBlockedOk | sendBlockedFail =>
        rw [SendCall.written_writesTo] at hw
        exact Or.inl hw
    | signalInterrupt =>
        rw [SignalCall.ret_writesTo] at hw
        cases hw
    | closeCallback k =>
        rw [k.ret_background.writesTo] at hw
        cases hw
    | readerCount q =>
        rw [(dispatch_background q.body).writesTo] at hw
        cases hw
    | _ => exact Or.inl hw

/-- A local action leaves what is left. -/
theorem Local.left {ds : List Bytes} (h : Local s pc pc') (hl : pc'.left = some ds) :
    pc.left = some ds ∨ pc = .idle := by
  cases h with
  | callWrite => exact Or.inr rfl
  | sendCheckClosed | sendCheckExpired | sendSelectClosed | sendSelectDone | sendSelectTimeout =>
      rw [SendCall.ret_left, SendCall.left_failed] at hl
      cases hl
  | closeAgain k =>
      rw [k.ret_background.left] at hl
      cases hl
  | writeAll =>
      cases hl
      exact Or.inl (congrArg some chunks_nil)
  | writeChunk c n p hne =>
      rw [← hl]
      exact Or.inl (congrArg some (chunks_of_ne hne))
  | _ => first | exact Or.inl hl | cases hl

/-- So does one that changes the memory and transmits nothing. -/
theorem Effect.left {ds : List Bytes} (h : Effect s pc s' pc') (hq : transmittedIn s s' = [])
    (hl : pc'.left = some ds) : pc.left = some ds := by
  cases h with
  | sendGiveBack =>
      rw [SendCall.ret_left, SendCall.left_failed] at hl
      cases hl
  | sendRelease =>
      rw [SendCall.ret_left] at hl
      exact hl
  | sendSkip | sendSetDeadlineError =>
      simp [Pc.left, SendPc.outcome] at hl
  | sendWriteOk => simp [transmittedIn, History.transmit, History.hand] at hq
  | sendBlockedOk => simp [transmittedIn, History.transmit] at hq
  | sendWriteFail | sendBlockedFail =>
      rw [SendCall.written_left, SendCall.left_failed] at hl
      cases hl
  | signalInterrupt =>
      rw [SignalCall.ret_left] at hl
      cases hl
  | closeCallback k =>
      rw [k.ret_background.left] at hl
      cases hl
  | readerCount q =>
      rw [(dispatch_background q.body).left] at hl
      cases hl
  | _ => exact hl

/-- A packet in hand is that of the call. -/
theorem unsent_body (h : system.Reach ok w) {t : ℕ} {p : SendPc} {k : SendCall} {q : Packet}
    (ht : w.thr t = .send p k) (hq : q ∈ (w.thr t).unsent) : q.body = k.body := by
  obtain ⟨a, ha⟩ : ∃ a, writeSystem.Reach (fun p => ok p.1) (w, a) := h.exists_log
  have hw := wrote ha t
  rw [ht] at hw hq
  exact hw.2 q hq

/-- **What an action transmits** is the first of the chunks that were left. -/
theorem Acts.left {ds : List Bytes} (h : Acts s pc s' pc')
    (hbody : ∀ p k q, pc = .send p k → q ∈ pc.unsent → q.body = k.body)
    (hl : pc'.left = some ds) :
    pc.left = some (payloads (transmittedIn s s') ++ ds) ∨ pc = .idle := by
  rcases h.transmittedIn_cases with hq | ⟨p, k, q, rfl, hu, hd, hq, rfl⟩
  · rw [hq]
    rcases h with ⟨rfl, h⟩ | h
    · exact h.left hl
    · exact Or.inl (h.left hq hl)
  · have hdata := hbody p k q rfl (by rw [hu]; exact List.mem_singleton_self q)
    have hopen : p.outcome = none := by
      cases p with
      | write | blocked => rfl
      | _ => cases hu
    rw [SendCall.written_left] at hl
    cases k with
    | write realm c n chunk rest =>
        cases hl
        rw [hq, Pc.left, hopen, payloads, List.map_singleton, hdata]
        exact Or.inl rfl
    | _ => cases hl

/-- The first action of `Write`. -/
theorem Acts.write_enter {c : ConnId} {p : Bytes} (h : Acts s (.write (.enter c p)) s' pc') :
    s' = s ∧ pc'.writesTo = some c ∧ ∀ ds, pc'.left = some ds → ds = chunks p := by
  rcases h with ⟨rfl, h⟩ | h
  · cases h with
    | writeClosed => exact ⟨rfl, rfl, fun ds hl => by cases hl⟩
    | writeEnter => exact ⟨rfl, rfl, fun ds hl => (Option.some.inj hl).symm⟩
  · cases h

/-- The last action of `Write`. -/
theorem Acts.write_ret {c : ConnId} {n : ℕ} {e : Option SendError}
    (h : Acts s (.write (.ret c n e)) s' pc') : s' = s ∧ pc' = .idle := by
  rcases h with ⟨rfl, h⟩ | h
  · cases h
    exact ⟨rfl, rfl⟩
  · cases h

/-! ### Whole runs -/

namespace WriteLog

variable {a a' : WriteLog} {t i : ℕ} {c : ConnId} {p : Bytes} {n : ℕ} {e : Option SendError}

theorem enter_calls_of_lt (hi : i < a.calls.length) : (a.enter t c p).calls[i]? = a.calls[i]? :=
  List.getElem?_append_left hi

theorem enter_calls_new :
    (a.enter t c p).calls[a.calls.length]? = some { conn := c, arg := p } :=
  List.getElem?_concat_length

theorem ret_calls_self : (a.ret t n e).calls[a.current t]? =
    a.calls[a.current t]?.map fun x => { x with result := some (n, e) } := by
  rw [ret, List.getElem?_modify_eq]
  rfl

theorem ret_calls_of_ne (hi : a.current t ≠ i) : (a.ret t n e).calls[i]? = a.calls[i]? :=
  List.getElem?_modify_ne _ _ hi

theorem transmit_sent_self (ps : List Packet) :
    (a.transmit t ps).sent (a.current t) = a.sent (a.current t) ++ ps := by
  rw [sent, transmit, tagged_append, tagged_map, if_pos (decide_eq_true rfl)]
  rfl

theorem transmit_sent_of_ne (ps : List Packet) (hi : a.current t ≠ i) :
    (a.transmit t ps).sent i = a.sent i := by
  rw [sent, transmit, tagged_append, tagged_map, if_neg (by simpa using hi), List.append_nil]
  rfl

variable (a) in
/-- Call `i`, on which a goroutine with the control state `pc` works, is one for `c` that has not
returned.  What it has transmitted and what is left are its argument in chunks. -/
def Working (i : ℕ) (pc : Pc) (c : ConnId) : Prop :=
  ∃ x, a.calls[i]? = some x ∧ x.conn = c ∧ x.result = none ∧
    ∀ ds, pc.left = some ds → payloads (a.sent i) ++ ds = chunks x.arg

theorem Working.lt (h : a.Working i pc c) : i < a.calls.length := by
  obtain ⟨x, hx, _⟩ := h
  exact (List.getElem?_eq_some_iff.mp hx).1

/-- What the others do for their calls. -/
theorem Working.frame (h : a.Working i pc c) (hcalls : a'.calls[i]? = a.calls[i]?)
    (hsent : a'.sent i = a.sent i) : a'.Working i pc c := by
  obtain ⟨x, hx, hconn, hres, hleft⟩ := h
  refine ⟨x, hcalls.trans hx, hconn, hres, ?_⟩
  rw [hsent]
  exact hleft

variable (a) in
/-- The packet is a payload of the realm of its call. -/
def Carried (s : Shared) (m : ℕ × Packet) : Prop :=
  ∃ x realm data, a.calls[m.1]? = some x ∧ s.Named realm x.conn ∧
    m.2.body = newPayloadBody realm data

theorem Carried.lt {m : ℕ × Packet} (h : a.Carried s m) : m.1 < a.calls.length := by
  obtain ⟨x, _, _, hx, _⟩ := h
  exact (List.getElem?_eq_some_iff.mp hx).1

/-- The calls keep their numbers and their `Conn`s. -/
theorem Carried.mono {m : ℕ × Packet} (h : a.Carried s m) (he : s.Extends s')
    (hcalls : ∀ x, a.calls[m.1]? = some x → ∃ x', a'.calls[m.1]? = some x' ∧ x'.conn = x.conn) :
    a'.Carried s' m := by
  obtain ⟨x, realm, data, hx, hnamed, hbody⟩ := h
  obtain ⟨x', hx', hconn⟩ := hcalls x hx
  refine ⟨x', realm, data, hx', ?_, hbody⟩
  rw [hconn]
  exact hnamed.mono he

end WriteLog

/-- The calls of `Write` are in order. -/
structure Ordered (s : Shared) (thr : ℕ → Pc) (a : WriteLog) : Prop where
  /-- A goroutine in a `Write` works on its last call. -/
  current : ∀ t c, (thr t).writesTo = some c → a.Working (a.current t) (thr t) c
  /-- No two goroutines work on one call. -/
  apart : ∀ t u, t ≠ u → (thr t).writesTo ≠ none → (thr u).writesTo ≠ none →
    a.current t ≠ a.current u
  carried : ∀ m ∈ a.wire, a.Carried s m
  /-- A call that succeeded has transmitted its argument. -/
  finished : ∀ i x n, a.calls[i]? = some x → x.result = some (n, none) →
    payloads (a.sent i) = chunks x.arg

namespace Ordered

variable {a : WriteLog} {thr : ℕ → Pc} {t : ℕ} {c : ConnId} (hi : Ordered s thr a)
include hi

theorem current_lt {u : ℕ} (hu : (thr u).writesTo ≠ none) : a.current u < a.calls.length := by
  obtain ⟨d, hd⟩ := Option.ne_none_iff_exists'.mp hu
  exact (hi.current u d hd).lt

/-- A new call has transmitted nothing. -/
theorem sent_new : a.sent a.calls.length = [] := by
  refine tagged_of_none fun m hm => ?_
  exact decide_eq_false (hi.carried m hm).lt.ne

/-- A call begins. -/
theorem enter {p : Bytes} (hw : pc.writesTo = some c)
    (hleft : ∀ ds, pc.left = some ds → ds = chunks p) :
    Ordered s (Function.update thr t pc) (a.enter t c p) := by
  have hself : (a.enter t c p).current t = a.calls.length := Function.update_self ..
  have hother {u : ℕ} (hu : u ≠ t) : (a.enter t c p).current u = a.current u :=
    Function.update_of_ne hu ..
  refine ⟨fun u d hd => ?_, fun u v huv hu hv => ?_, fun m hm => ?_, fun i x n hx hres => ?_⟩
  · by_cases hut : u = t
    · subst hut
      rw [Function.update_self] at hd ⊢
      obtain rfl : c = d := Option.some.inj (hw.symm.trans hd)
      rw [hself]
      refine ⟨_, WriteLog.enter_calls_new, rfl, rfl, fun ds hl => ?_⟩
      have hnew : (a.enter u c p).sent a.calls.length = [] := hi.sent_new
      rw [hnew, hleft ds hl]
      rfl
    · rw [Function.update_of_ne hut] at hd ⊢
      rw [hother hut]
      have hwork := hi.current u d hd
      exact hwork.frame (WriteLog.enter_calls_of_lt hwork.lt) rfl
  · by_cases hut : u = t
    · subst hut
      rw [Function.update_of_ne huv.symm] at hv
      rw [hself, hother huv.symm]
      exact (hi.current_lt hv).ne'
    · rw [Function.update_of_ne hut] at hu
      by_cases hvt : v = t
      · subst hvt
        rw [hself, hother hut]
        exact (hi.current_lt hu).ne
      · rw [Function.update_of_ne hvt] at hv
        rw [hother hut, hother hvt]
        exact hi.apart u v huv hu hv
  · have hm := hi.carried m hm
    exact hm.mono (.refl s) fun x hx => ⟨x, (WriteLog.enter_calls_of_lt hm.lt).trans hx, rfl⟩
  · rcases getElem?_concat_cases hx with ⟨_, hx⟩ | ⟨_, rfl⟩
    · exact hi.finished i x n hx hres
    · cases hres

/-- A call returns. -/
theorem ret {n : ℕ} {e : Option SendError} (ht : thr t = .write (.ret c n e)) :
    Ordered s (Function.update thr t .idle) (a.ret t n e) := by
  have hw : (thr t).writesTo = some c := by
    rw [ht]
    rfl
  -- the others work on other calls
  have hother {u : ℕ} (hu : (Function.update thr t .idle u).writesTo ≠ none) :
      u ≠ t ∧ (thr u).writesTo ≠ none ∧ a.current t ≠ a.current u := by
    by_cases hut : u = t
    · rw [hut, Function.update_self] at hu
      exact absurd rfl hu
    · rw [Function.update_of_ne hut] at hu
      exact ⟨hut, hu, hi.apart t u (Ne.symm hut) (by simp [hw]) hu⟩
  obtain ⟨x₀, hx₀, _, _, hleft⟩ := hi.current t c hw
  refine ⟨fun u d hd => ?_, fun u v huv hu hv => ?_, fun m hm => ?_, fun i x m hx hres => ?_⟩
  · obtain ⟨hut, _, hne⟩ := hother (u := u) (by rw [hd]; exact Option.some_ne_none d)
    rw [Function.update_of_ne hut] at hd ⊢
    exact (hi.current u d hd).frame (WriteLog.ret_calls_of_ne hne) rfl
  · exact hi.apart u v huv (hother hu).2.1 (hother hv).2.1
  · refine (hi.carried m hm).mono (.refl s) fun x hx => ?_
    by_cases hm : a.current t = m.1
    · rw [← hm] at hx ⊢
      refine ⟨{ x with result := some (n, e) }, ?_, rfl⟩
      rw [WriteLog.ret_calls_self, hx]
      rfl
    · exact ⟨x, (WriteLog.ret_calls_of_ne hm).trans hx, rfl⟩
  · by_cases hit : a.current t = i
    · subst hit
      rw [WriteLog.ret_calls_self, hx₀] at hx
      cases hx
      cases hres
      rw [← hleft [] (by rw [ht]; rfl), List.append_nil]
      rfl
    · exact hi.finished i x m ((WriteLog.ret_calls_of_ne hit).symm.trans hx) hres

/-- Packets are transmitted for a call. -/
theorem transmit (hw : (thr t).writesTo = some c) {ps : List Packet} (he : s.Extends s')
    (hpc : pc.writesTo = none ∨ pc.writesTo = some c)
    (hleft : ∀ ds, pc.left = some ds → (thr t).left = some (payloads ps ++ ds))
    (hps : ∀ q ∈ ps, ∃ realm data, s.Named realm c ∧ q.body = newPayloadBody realm data) :
    Ordered s' (Function.update thr t pc) (a.transmit t ps) := by
  have hne : (thr t).writesTo ≠ none := by simp [hw]
  obtain ⟨x₀, hx₀, hconn, hnone, hsofar⟩ := hi.current t c hw
  have hback {u : ℕ} (hu : (Function.update thr t pc u).writesTo ≠ none) :
      (thr u).writesTo ≠ none := by
    by_cases hut : u = t
    · rw [hut]
      exact hne
    · rwa [Function.update_of_ne hut] at hu
  refine ⟨fun u d hd => ?_, fun u v huv hu hv => ?_, fun m hm => ?_, fun i x n hx hres => ?_⟩
  · by_cases hut : u = t
    · subst hut
      rw [Function.update_self] at hd ⊢
      rcases hpc with hpc | hpc
      · rw [hpc] at hd
        cases hd
      · obtain rfl : c = d := Option.some.inj (hpc.symm.trans hd)
        refine ⟨x₀, hx₀, hconn, hnone, fun ds hl => ?_⟩
        have hsent : (a.transmit u ps).sent (a.current u) = _ := WriteLog.transmit_sent_self ps
        rw [← hsofar _ (hleft ds hl), ← List.append_assoc, payloads, payloads, payloads,
          ← List.map_append, ← hsent]
        rfl
    · rw [Function.update_of_ne hut] at hd ⊢
      have hcur := hi.apart t u (Ne.symm hut) hne (by simp [hd])
      exact (hi.current u d hd).frame rfl (WriteLog.transmit_sent_of_ne ps hcur)
  · exact hi.apart u v huv (hback hu) (hback hv)
  · rcases List.mem_append.mp hm with hm | hm
    · exact (hi.carried m hm).mono he fun x hx => ⟨x, hx, rfl⟩
    · obtain ⟨q, hq, rfl⟩ := List.mem_map.mp hm
      obtain ⟨realm, data, hnamed, hbody⟩ := hps q hq
      refine ⟨x₀, realm, data, hx₀, ?_, hbody⟩
      rw [hconn]
      exact hnamed.mono he
  · by_cases hit : a.current t = i
    · subst hit
      rw [Option.some.inj (hx.symm.trans hx₀), hnone] at hres
      cases hres
    · rw [WriteLog.transmit_sent_of_ne ps hit]
      exact hi.finished i x n hx hres

/-- A goroutine acts outside of `Write`. -/
theorem other (he : s.Extends s') (hpc : pc.writesTo = none) :
    Ordered s' (Function.update thr t pc) a := by
  have hback {u : ℕ} (hu : (Function.update thr t pc u).writesTo ≠ none) :
      Function.update thr t pc u = thr u := by
    by_cases hut : u = t
    · rw [hut, Function.update_self] at hu
      exact absurd hpc hu
    · exact Function.update_of_ne hut ..
  refine ⟨fun u d hd => ?_, fun u v huv hu hv => ?_, fun m hm => ?_, hi.finished⟩
  · have hsame := hback (u := u) (by rw [hd]; exact Option.some_ne_none d)
    rw [hsame] at hd ⊢
    exact hi.current u d hd
  · rw [hback hu] at hu
    rw [hback hv] at hv
    exact hi.apart u v huv hu hv
  · exact (hi.carried m hm).mono he fun x hx => ⟨x, hx, rfl⟩

/-- One action of a goroutine. -/
theorem step (ha : Acts s (thr t) s' pc) (hscope : (thr t).Scoped s)
    (hbody : ∀ p k q, thr t = .send p k → q ∈ (thr t).unsent → q.body = k.body) :
    Ordered s' (Function.update thr t pc) (a.note t s (thr t) s' pc) := by
  by_cases henter : ∃ c p, thr t = .write (.enter c p)
  · obtain ⟨c, p, ht⟩ := henter
    rw [ht] at ha ⊢
    obtain ⟨rfl, hw, hleft⟩ := ha.write_enter
    exact hi.enter hw hleft
  by_cases hret : ∃ c n e, thr t = .write (.ret c n e)
  · obtain ⟨c, n, e, ht⟩ := hret
    rw [ht] at ha ⊢
    obtain ⟨rfl, rfl⟩ := ha.write_ret
    exact hi.ret ht
  have hnote : a.note t s (thr t) s' pc =
      if (thr t).writesTo.isSome then a.transmit t (transmittedIn s s') else a := by
    unfold WriteLog.note
    split
    · exact absurd ⟨_, _, ‹_›⟩ henter
    · exact absurd ⟨_, _, _, ‹_›⟩ hret
    · rfl
  have hwrites {d : ConnId} (hd : pc.writesTo = some d) : (thr t).writesTo = some d :=
    (ha.writesTo hd).resolve_right fun ⟨p, ht⟩ => henter ⟨d, p, ht⟩
  rw [hnote]
  cases hw : (thr t).writesTo with
  | none =>
      refine hi.other ha.extends ?_
      rw [Option.eq_none_iff_forall_not_mem]
      intro d hd
      cases hw.symm.trans (hwrites hd)
  | some c =>
      refine hi.transmit hw ha.extends ?_ (fun ds hl => ?_) fun q hq => ?_
      · cases hd : pc.writesTo with
        | none => exact Or.inl rfl
        | some d => exact Or.inr ((hwrites hd).symm.trans hw)
      · refine (ha.left hbody hl).resolve_right fun hidle => ?_
        rw [hidle] at hw
        cases hw
      · rcases ha.transmittedIn_cases with hnil | ⟨p, k, q', ht, hu, _, hone, _⟩
        · rw [hnil] at hq
          cases hq
        · rw [hone, List.mem_singleton] at hq
          subst hq
          have hq := hbody p k q ht (by rw [hu]; exact List.mem_singleton_self q)
          rw [ht] at hw hscope
          cases k with
          | write realm d n chunk rest =>
              cases hw
              exact ⟨realm, chunk, hscope.1, hq⟩
          | _ => cases hw

end Ordered

theorem ordered {a : WriteLog} (h : writerSystem.Reach (fun p => ok p.1) (w, a)) :
    Ordered w.shared w.thr a := by
  refine recorded_invariant (I := fun w a => Ordered w.shared w.thr a) ?_ ?_ ?_ h
  · intro now session _
    have hidle : ∀ t, (startThreads t).writesTo = none :=
      forall_startThreads (P := fun p => p.writesTo = none) rfl rfl rfl
    refine ⟨fun t c hw => ?_, fun t u _ hw => ?_, fun m hm => ?_, fun i x n hx => ?_⟩
    · cases (hidle t).symm.trans hw
    · exact absurd (hidle t) hw
    · cases hm
    · cases hx
  · intro w a t ch s pc hr hi _ _ ha
    exact hi.step ha ((scope hr).thr t) fun p k q ht hq => unsent_body hr ht hq
  · intro w a d _ hi
    have he : w.shared.Extends { w.shared with now := w.shared.now + d } :=
      ⟨le_rfl, fun _ _ => rfl, fun _ => id⟩
    exact ⟨hi.current, hi.apart, fun m hm => (hi.carried m hm).mono he fun x hx => ⟨x, hx, rfl⟩,
      hi.finished⟩

/-! ### Two calls -/

/-- **Concurrent writes.**  The packets of two `Write` calls on one `Conn` that have succeeded are
payloads of its realm, and in the order in which they were transmitted a merge of the chunks of the
one argument and the chunks of the other.  If neither argument is longer than 1280 bytes, the data
transmitted is one of them followed by the other. -/
theorem writes_merge {a : WriteLog} (h : writerSystem.Reachable (w, a)) {i j : ℕ}
    {x y : WriteCall} {c : ConnId} {n m : ℕ} (hij : i ≠ j) (hx : a.calls[i]? = some x)
    (hy : a.calls[j]? = some y) (hxc : x.conn = c) (hyc : y.conn = c)
    (hxr : x.result = some (n, none)) (hyr : y.result = some (m, none)) :
    (∀ q ∈ a.sentBy i j, ∃ data,
      q.body = newPayloadBody (w.shared.table.conns c).realmID data) ∧
    Merges (chunks x.arg) (chunks y.arg) (payloads (a.sentBy i j)) ∧
    (x.arg.length ≤ 1280 → y.arg.length ≤ 1280 →
      (payloads (a.sentBy i j)).flatten = x.arg ++ y.arg ∨
        (payloads (a.sentBy i j)).flatten = y.arg ++ x.arg) := by
  have hi := @ordered _ (fun _ _ => True) a h
  have hmerge : Merges (chunks x.arg) (chunks y.arg) (payloads (a.sentBy i j)) := by
    rw [← hi.finished i x n hx hxr, ← hi.finished j y m hy hyr]
    refine (merges_tagged (fun k hk => ?_) a.wire).map _
    exact decide_eq_false fun hkj => hij ((of_decide_eq_true hk).symm.trans hkj)
  refine ⟨fun q hq => ?_, hmerge, fun hxl hyl => ?_⟩
  · obtain ⟨k, hk, hmem⟩ := mem_tagged hq
    obtain ⟨z, realm, data, hz, hnamed, hbody⟩ := hi.carried _ hmem
    have hzc : z.conn = c := by
      rcases Bool.or_eq_true_iff.mp hk with hk | hk
      · obtain rfl := of_decide_eq_true hk
        rw [Option.some.inj (hz.symm.trans hx), hxc]
      · obtain rfl := of_decide_eq_true hk
        rw [Option.some.inj (hz.symm.trans hy), hyc]
    rw [hzc] at hnamed
    rw [hnamed.2]
    exact ⟨data, hbody⟩
  · rcases hmerge.of_length_le_one (chunks_length_le_one hxl) (chunks_length_le_one hyl) with
      hdata | hdata
    · rw [hdata, List.flatten_append, chunks_flatten, chunks_flatten]
      exact Or.inl rfl
    · rw [hdata, List.flatten_append, chunks_flatten, chunks_flatten]
      exact Or.inr rfl

/-- A `Dial` that is granted, and two calls of `Write` on its `Conn` up to their loops. -/
def writersScript (p p' : Bytes) : List (Label Choice Time) :=
  grantScript 2 7 ++ acts 3 [.call (.write 0 p)] ++ acts 4 [.call (.write 0 p')] ++
    acts 3 (gos 2) ++ acts 4 (gos 2)

/-- Goroutine `t` transmits one chunk. -/
def chunkScript (t : ℕ) : List (Label Choice Time) :=
  acts t (gos 3) ++ acts t [.select .permit, .go, .go, .go, .udp .ok, .go, .udp .ok] ++
    acts t (gos 3)

/-- Two short writes at the same time. -/
theorem writes_merge_short :
    ∃ w a, writerSystem.exec (fun _ _ => True) (start 1 newSession, {})
        (writersScript [1] [2, 3] ++ chunkScript 4 ++ chunkScript 3 ++ acts 3 (gos 2) ++
          acts 4 (gos 2)) = some (w, a) ∧
      a.calls = [⟨0, [1], some (1, none)⟩, ⟨0, [2, 3], some (2, none)⟩] ∧
      ((payloads (a.sentBy 0 1)).flatten = [1, 2, 3] ∨
        (payloads (a.sentBy 0 1)).flatten = [2, 3, 1]) := by
  have hrun : (writerSystem.exec (fun _ _ => True) (start 1 newSession, {})
      (writersScript [1] [2, 3] ++ chunkScript 4 ++ chunkScript 3 ++ acts 3 (gos 2) ++
        acts 4 (gos 2))).map (fun p => p.2.calls) =
      some [⟨0, [1], some (1, none)⟩, ⟨0, [2, 3], some (2, none)⟩] := by
    decide +kernel
  obtain ⟨⟨w, a⟩, hw, he⟩ := Option.map_eq_some_iff.mp hrun
  have hcalls : a.calls = [⟨0, [1], some (1, none)⟩, ⟨0, [2, 3], some (2, none)⟩] := he
  have hstart : writerSystem.Reachable (start 1 newSession, {}) :=
    .init ⟨⟨1, newSession, by decide, rfl⟩, rfl⟩
  have hfirst : a.calls[0]? = some ⟨0, [1], some (1, none)⟩ := by rw [hcalls]; rfl
  have hsecond : a.calls[1]? = some ⟨0, [2, 3], some (2, none)⟩ := by rw [hcalls]; rfl
  obtain ⟨_, _, hshort⟩ :=
    writes_merge (hstart.exec hw) Nat.zero_ne_one hfirst hsecond rfl rfl rfl rfl
  exact ⟨w, a, hw, hcalls, hshort (by decide) (by decide)⟩

/-- Two goroutines in the loops of their calls take turns, chunk by chunk, until both return. -/
def turnsScript : List (Label Choice Time) :=
  chunkScript 3 ++ chunkScript 4 ++ chunkScript 3 ++ chunkScript 4 ++ acts 3 (gos 2) ++
    acts 4 (gos 2)

/-- Two writes of 1281 bytes each on an open `Conn` at the same time, both of which succeed: what is
transmitted is neither of them followed by the other. -/
theorem writes_alternate :
    ∃ w₁ a₁ w a, writerSystem.exec (fun _ _ => True) (start 1 newSession, {})
        (writersScript (List.replicate 1281 1) (List.replicate 1281 2)) = some (w₁, a₁) ∧
      writerSystem.exec (fun _ _ => True) (w₁, a₁) turnsScript = some (w, a) ∧
      (w₁.thr 3).writesTo = some 0 ∧ (w₁.thr 4).writesTo = some 0 ∧
      (w.shared.table.conns 0).closed = false ∧
      a.calls = [⟨0, List.replicate 1281 1, some (1281, none)⟩,
        ⟨0, List.replicate 1281 2, some (1281, none)⟩] ∧
      (payloads (a.sentBy 0 1)).flatten ≠ List.replicate 1281 1 ++ List.replicate 1281 2 ∧
      (payloads (a.sentBy 0 1)).flatten ≠ List.replicate 1281 2 ++ List.replicate 1281 1 := by
  have hrun : (writerSystem.exec (fun _ _ => True) (start 1 newSession, {})
      (writersScript (List.replicate 1281 1) (List.replicate 1281 2))).bind (fun p₁ =>
        (writerSystem.exec (fun _ _ => True) p₁ turnsScript).map fun p => decide (
          (p₁.1.thr 3).writesTo = some 0 ∧ (p₁.1.thr 4).writesTo = some 0 ∧
          (p.1.shared.table.conns 0).closed = false ∧
          p.2.calls = [⟨0, List.replicate 1281 1, some (1281, none)⟩,
            ⟨0, List.replicate 1281 2, some (1281, none)⟩] ∧
          (payloads (p.2.sentBy 0 1)).flatten ≠ List.replicate 1281 1 ++ List.replicate 1281 2 ∧
          (payloads (p.2.sentBy 0 1)).flatten ≠ List.replicate 1281 2 ++ List.replicate 1281 1)) =
      some true := by
    decide +kernel
  obtain ⟨⟨w₁, a₁⟩, hw₁, hrun⟩ := Option.bind_eq_some_iff.mp hrun
  obtain ⟨⟨w, a⟩, hw, he⟩ := Option.map_eq_some_iff.mp hrun
  exact ⟨w₁, a₁, w, a, hw₁, hw, of_decide_eq_true he⟩

end DahuaP2p.Tunnel
