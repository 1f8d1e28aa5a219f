import DahuaP2p.BridgeServe
import Mathlib.Data.Set.Card

/-! # The realms of the bridge

Every entry of the tunnel's `t.realms` belongs to a `handle` goroutine: it is that of the BIND
attempt its `Dial` is in, or that of its device.  Only that goroutine closes the `Conn`, and its
`Close` does not return before the entry is gone (`closed_gone`), whichever of the four ways of
tearing a realm down was first.  So there are never more entries than `handle` goroutines that
run (`realm_cap`), and these are at most as many as the slots (`slots_counted`). -/

namespace DahuaP2p.Serve

open Threads
open Tunnel (ConnId Time)

variable {cfg : Config} {s s' : Shared} {pc pc' : Pc} {w w' : World Shared Pc} {c : ConnId}

/-! ### Stages of `handle` -/

inductive Stage where
  /-- There is no device yet. -/
  | before
  /-- There is a device to close. -/
  | serving
  /-- The device is closed, or there was none. -/
  | after
deriving DecidableEq

def callerStage : Negotiation.Caller → Stage
  | .dialError => .before
  | .callback => .serving
  | .deferred => .after

def stage : Negotiation.Pc → Stage
  | .realm .dial _ => .before
  | .realm (.once k) _ => callerStage k
  | .realm (.doneNegotiate k) _ => callerStage k
  | .realm (.unlockNegotiate k) _ => callerStage k
  | .realm (.onceDone k) _ => callerStage k
  | .realm _ _ => .serving
  | .closeUpstream => .after
  | .returned => .after
  | _ => .before

theorem callerStage_ret (k : Negotiation.Caller) : stage k.ret = callerStage k := by
  cases k <;> rfl

theorem advance_stage {n n' : Negotiation.Pc} {ch : Negotiation.Choice}
    (h : Negotiation.advance n ch = some n') (hm : mustCall n = false) :
    stage n' = stage n ∨ stage n = .before ∧ stage n' = .after := by
  unfold Negotiation.advance at h
  split at h
  all_goals cases h
  all_goals first
    | exact Or.inl rfl
    | exact Or.inl (callerStage_ret _)
    | exact Or.inr ⟨rfl, rfl⟩
    | cases hm

/-- Without a call, no device is opened or closed. -/
theorem next_stage {g g' : Negotiation.Shared} {n n' : Negotiation.Pc} {ch : Negotiation.Choice}
    (h : Negotiation.next g n ch = some (g', n')) (hm : mustCall n = false) :
    stage n' = stage n ∨ stage n = .before ∧ stage n' = .after := by
  unfold Negotiation.next at h
  split at h
  · split at h <;> cases h
    exact Or.inl rfl
  · split at h <;> cases h <;> exact Or.inl rfl
  · split at h <;> cases h
    exact Or.inl rfl
  · cases h
    exact Or.inl rfl
  · split at h <;> cases h
    exact Or.inl rfl
  · obtain ⟨n₁, hadv, he⟩ := Option.map_eq_some_iff.mp h
    cases he
    exact advance_stage hadv hm

/-! ### Who is inside which method -/

/-- `handle` is about to close its device. -/
def closesDevice : Negotiation.Pc → Bool
  | .realm .copyBoth _ => true
  | .realm .closeDevice _ => true
  | _ => false

/-- The device and the call of a `handle` goroutine fit its control state. -/
structure Fits (n : Negotiation.Pc) (device : Option ConnId) (p : Tunnel.Pc) : Prop where
  before : stage n = .before → device = none
  serving : stage n = .serving → device ≠ none
  dial : p.method = .dial → ∃ f, n = .realm .dial f
  close : ∀ c, p.method = .connClose c → device = some c
  closes : closesDevice n = true → p = .idle ∨ ∃ c, p.method = .connClose c

/-- Only `handle` goroutines dial, and only they close a `Conn`, their own device. -/
def Pc.Fits : Pc → Prop
  | .tunnel p => p.method = .other
  | .serve (.closing p) => p ≠ .idle ∧ p.method = .other
  | .handle n device p => Serve.Fits n device p
  | _ => True

/-- Outside of calls, the control state and the device are all that counts. -/
theorem Fits.of_idle {n : Negotiation.Pc} {device : Option ConnId}
    (hb : stage n = .before → device = none) (hs : stage n = .serving → device ≠ none) :
    Fits n device .idle where
  before := hb
  serving := hs
  dial h := by cases h
  close _ h := by cases h
  closes _ := Or.inl rfl

/-- What a call from `handle` is good for. -/
theorem calls_method {device : Option ConnId} {n : Negotiation.Pc} {k : Tunnel.Call}
    (h : calls device n k = true) :
    (k.method = .dial → ∃ f, n = .realm .dial f) ∧
      (∀ c, k.method = .connClose c → device = some c) ∧
      (closesDevice n = true → ∃ c, k.method = .connClose c) := by
  have hplain : ∀ m : Tunnel.Call, m.method = .other → closesDevice n = false →
      (m.method = .dial → ∃ f, n = .realm .dial f) ∧
      (∀ c, m.method = .connClose c → device = some c) ∧
      (closesDevice n = true → ∃ c, m.method = .connClose c) := by
    intro m hm hn
    simp [hm, hn]
  unfold calls at h
  split at h
  · exact ⟨fun _ => ⟨_, rfl⟩, nofun, nofun⟩
  · exact hplain _ rfl rfl
  · exact hplain _ rfl rfl
  · exact hplain _ rfl rfl
  · exact hplain _ rfl rfl
  · exact hplain _ rfl rfl
  · refine ⟨nofun, fun c hc => ?_, fun _ => ⟨_, rfl⟩⟩
    cases hc
    exact of_decide_eq_true h
  · refine ⟨nofun, fun c hc => ?_, fun _ => ⟨_, rfl⟩⟩
    cases hc
    exact of_decide_eq_true h
  · cases h

/-- A goroutine that makes no reserved call gets into no reserved method. -/
theorem method_of_unreserved {tn tn' : Tunnel.Shared} {p p' : Tunnel.Pc} {ch : Tunnel.Choice}
    (h : Tunnel.next tn p ch = some (tn', p')) (hres : reserved ch = false)
    (hp : p.method = .other) : p'.method = .other := by
  by_cases hidle : p = .idle
  · subst hidle
    cases ch with
    | call k =>
        rw [Tunnel.next_idle_method h]
        cases k with
        | dial | connClose => cases hres
        | _ => rfl
    | _ => cases h
  · rcases (Tunnel.next_cases h).method hidle with hret | hsame
    · rw [hret]
      rfl
    · rw [hsame, hp]

/-- A goroutine inside a method that dials nothing and closes no `Conn` stays out of both. -/
theorem method_of_inside {tn tn' : Tunnel.Shared} {p p' : Tunnel.Pc} {ch : Tunnel.Choice}
    (h : Tunnel.next tn p ch = some (tn', p')) (hidle : p ≠ .idle) (hidle' : p' ≠ .idle) :
    p'.method = p.method :=
  ((Tunnel.next_cases h).method hidle).resolve_left hidle'

/-- A call returns. -/
theorem Fits.resume {n : Negotiation.Pc} {device : Option ConnId} {p : Tunnel.Pc}
    (h : Fits n device p) : (Serve.resume device p n).Fits := by
  have hkeep : ∀ n', stage n' = stage n → (Pc.handle n' device .idle).Fits :=
    fun n' hn => .of_idle (fun hs => h.before (hn ▸ hs)) (fun hs => h.serving (hn ▸ hs))
  unfold Serve.resume
  split
  · split
    · exact .of_idle (fun hs => by cases hs) (fun _ => Option.some_ne_none _)
    · trivial
    · exact hkeep _ rfl
  · exact hkeep _ rfl
  · exact .of_idle (fun hs => by cases hs) (fun hs => by cases hs)
  · exact hkeep _ rfl

theorem Acts.fits (h : Acts cfg s pc s' pc') (hp : pc.Fits) : pc'.Fits := by
  cases h with
  | tunnel p p' ch tn hres hn => exact method_of_unreserved hn hres hp
  | run => exact .of_idle (fun _ => rfl) (fun hs => by cases hs)
  | shutdown p' tn hn =>
      cases hn
      exact ⟨Tunnel.Pc.noConfusion, rfl⟩
  | closing p p' ch tn hidle hn => exact ⟨hidle, (method_of_inside hn hp.1 hidle).trans hp.2⟩
  | call n device k p' tn hcalls hn =>
      have hm := Tunnel.next_idle_method hn
      obtain ⟨hdial, hclose, hcloses⟩ := calls_method hcalls
      exact
        { before := hp.before
          serving := hp.serving
          dial := by rw [hm]; exact hdial
          close := by rw [hm]; exact hclose
          closes := fun hc => Or.inr (by rw [hm]; exact hcloses hc) }
  | inside n device p p' ch tn hidle hidle' hn =>
      have hm := method_of_inside hn hidle hidle'
      exact
        { before := hp.before
          serving := hp.serving
          dial := by rw [hm]; exact hp.dial
          close := by rw [hm]; exact hp.close
          closes := fun hc => Or.inr (by rw [hm]; exact (hp.closes hc).resolve_left hidle) }
  | ret n device p ch tn _ _ => exact hp.resume
  | control n n' device c g hmust hn =>
      rcases next_stage hn hmust with hsame | ⟨hbefore, hafter⟩
      · exact .of_idle (fun hs => hp.before (hsame ▸ hs)) (fun hs => hp.serving (hsame ▸ hs))
      · refine .of_idle (fun hs => ?_) (fun hs => ?_)
        · rw [hafter] at hs
          cases hs
        · rw [hafter] at hs
          cases hs
  | silent f p' tn hn =>
      cases hn
      exact
        { before := fun _ => rfl
          serving := fun hs => by cases hs
          dial := fun hm => by cases hm
          close := fun c hm => by cases hm
          closes := fun hc => by cases hc }
  | retire | giveUp => exact .of_idle (fun _ => rfl) (fun hs => by cases hs)
  | done => rfl
  | _ => trivial

/-! ### Invariants of the bridge -/

theorem reachable_thread (hr : (system cfg).Reachable w) {t : ℕ} {ch : Choice}
    (hn : next cfg w.shared (w.thr t) ch = some (s, pc)) :
    (system cfg).Reachable ⟨s, Function.update w.thr t pc⟩ :=
  System.Reachable.step hr (l := .thread t ch) (interleave_step_thread.mpr ⟨s, pc, hn, rfl⟩)

/-- **Invariant rule**: the start, one action of a goroutine, the clock. -/
theorem serve_invariant {I : World Shared Pc → Prop}
    (hstart : ∀ now session, 0 < now → I (start now session))
    (hstep : ∀ w t s pc, (system cfg).Reachable w →
      (system cfg).Reachable ⟨s, Function.update w.thr t pc⟩ → I w →
      Acts cfg w.shared (w.thr t) s pc → I ⟨s, Function.update w.thr t pc⟩)
    (htime : ∀ w d s, I w → passTime w.shared d = some s → I ⟨s, w.thr⟩)
    (h : (system cfg).Reachable w) : I w := by
  refine interleave_invariant ?_ ?_ ?_ h
  · rintro w ⟨now, session, hnow, rfl⟩
    exact hstart now session hnow
  · intro w t ch s pc hr hi _ hn
    exact hstep w t s pc hr (reachable_thread hr hn) hi (next_acts hn)
  · intro w d s _ hi _ hs
    exact htime w d s hi hs

theorem forall_startThreads {P : Pc → Prop} (hreader : P (.tunnel (.reader .top)))
    (hheartbeat : P (.tunnel (.heartbeat .loop))) (hserve : P (.serve .accept))
    (hidle : P (.tunnel .idle)) (t : ℕ) : P (startThreads t) :=
  match t with
  | 0 => hreader
  | 1 => hheartbeat
  | 2 => hserve
  | _ + 3 => hidle

/-- **What a goroutine has established**, with a value that none of these has in hand. -/
theorem serve_held {α : Type} {f : Pc → Option α} {P : Shared → α → Prop}
    (hreader : f (.tunnel (.reader .top)) = none)
    (hheartbeat : f (.tunnel (.heartbeat .loop)) = none) (hserve : f (.serve .accept) = none)
    (hidle : f (.tunnel .idle) = none)
    (hkeep : ∀ w t s pc u a, (system cfg).Reachable w → Acts cfg w.shared (w.thr t) s pc →
      f (w.thr u) = some a → P w.shared a → P s a)
    (hnew : ∀ w t s pc a, (system cfg).Reachable w →
      (system cfg).Reachable ⟨s, Function.update w.thr t pc⟩ →
      Acts cfg w.shared (w.thr t) s pc → f pc = some a → f (w.thr t) = some a ∨ P s a)
    (htime : ∀ s d s' a, passTime s d = some s' → P s a → P s' a)
    (h : (system cfg).Reachable w) {t : ℕ} {a : α} (ht : f (w.thr t) = some a) :
    P w.shared a := by
  refine interleave_held ?_ ?_ ?_ htime h ht
  · rintro w t ⟨now, session, _, rfl⟩
    exact forall_startThreads (P := fun p => f p = none) hreader hheartbeat hserve hidle t
  · intro w t ch s pc u a hr hn
    exact hkeep w t s pc u a hr (next_acts hn)
  · intro w t ch s pc a hr _ hn
    exact hnew w t s pc a hr (reachable_thread hr hn) (next_acts hn)

theorem fits (h : (system cfg).Reachable w) (t : ℕ) : (w.thr t).Fits := by
  revert t
  refine serve_invariant (I := fun w => ∀ t, (w.thr t).Fits) ?_ ?_ ?_ h
  · intro now session _
    exact forall_startThreads rfl rfl trivial rfl
  · intro w t s pc _ _ hi ha
    exact forall_update (ha.fits (hi t)) fun u _ => hi u
  · intro w d s hi _
    exact hi

/-- The action as one of the tunnel, if it is one. -/
theorem Acts.tunnel_acts (h : Acts cfg s pc s' pc') :
    (s'.tunnel = s.tunnel ∧ pc'.inside = pc.inside) ∨
      Tunnel.Acts s.tunnel pc.inside s'.tunnel pc'.inside := by
  rcases h.tunnel_cases with hsame | ⟨ch, hn⟩
  · exact Or.inl hsame
  · exact Or.inr (Tunnel.next_cases hn)

theorem Acts.connCount_le (h : Acts cfg s pc s' pc') :
    s.tunnel.table.connCount ≤ s'.tunnel.table.connCount := by
  rcases h.tunnel_acts with ⟨htn, _⟩ | ha
  · rw [htn]
  · exact ha.extends.count

theorem Acts.unlisted (h : Acts cfg s pc s' pc') (hc : c < s.tunnel.table.connCount)
    (hu : s.tunnel.Unlisted c) : s'.tunnel.Unlisted c := by
  rcases h.tunnel_acts with ⟨htn, _⟩ | ha
  · rw [htn]
    exact hu
  · exact ha.unlisted hc hu

/-! ### Who owns a `Conn` -/

/-- The `Conn` that a `handle` goroutine is responsible for: its device, or that of its `Dial`. -/
def Pc.owns : Pc → Option ConnId
  | .handle _ (some c) _ => some c
  | .handle _ none p => p.dialled
  | _ => none

/-- A call that returns gives its `Conn` to `handle`. -/
theorem Fits.resume_owns {n : Negotiation.Pc} {device : Option ConnId} {p : Tunnel.Pc}
    (h : Fits n device p) (ho : (Serve.resume device p n).owns = some c) :
    (Pc.handle n device p).owns = some c := by
  have hidle : ∀ n', (Pc.handle n' device .idle).owns = some c →
      (Pc.handle n device p).owns = some c := by
    intro n' h'
    cases device with
    | some d => exact h'
    | none => cases h'
  unfold Serve.resume at ho
  split at ho
  · obtain rfl : device = none := h.before rfl
    split at ho
    · exact ho
    · cases ho
    · cases ho
  · exact hidle _ ho
  · exact hidle _ ho
  · exact hidle _ ho

/-- A goroutine gets a `Conn` only by making it. -/
theorem Acts.owns (h : Acts cfg s pc s' pc') (hp : pc.Fits) (ho : pc'.owns = some c) :
    pc.owns = some c ∨ c = s.tunnel.table.connCount ∧ pc'.inside.dialled = some c := by
  cases h with
  | call n device k p' tn _ hn =>
      cases device with
      | some d => exact Or.inl ho
      | none => exact ((Tunnel.next_cases hn).of_dialled ho).imp id fun hc => ⟨hc, ho⟩
  | inside n device p p' ch tn _ _ hn =>
      cases device with
      | some d => exact Or.inl ho
      | none => exact ((Tunnel.next_cases hn).of_dialled ho).imp id fun hc => ⟨hc, ho⟩
  | ret n device p ch tn _ _ => exact Or.inl (hp.resume_owns ho)
  | control n n' device =>
      cases device with
      | some d => exact Or.inl ho
      | none => cases ho
  | silent f p' tn hn =>
      cases hn
      cases ho
  | _ => cases ho

theorem owns_lt (h : (system cfg).Reachable w) {t : ℕ} (ht : (w.thr t).owns = some c) :
    c < w.shared.tunnel.table.connCount := by
  refine serve_held (f := Pc.owns) (P := fun s c => c < s.tunnel.table.connCount)
    rfl rfl rfl rfl ?_ ?_ ?_ h ht
  · intro w t s pc u c _ ha _ hlt
    exact hlt.trans_le ha.connCount_le
  · intro w t s pc c hr hnext ha ho
    refine (ha.owns (fits hr t) ho).imp_right fun hnew => ?_
    have hscoped := (Tunnel.scope (tunnelOf_reachable hnext)).thr t
    simp only [tunnelOf, Function.update_self] at hscoped
    exact hscoped.of_dialled hnew.2
  · intro s d s' c hs hlt
    cases hs
    exact hlt

/-- No two goroutines are responsible for one `Conn`. -/
theorem owns_unshared (h : (system cfg).Reachable w) : Unshared Pc.owns w.thr := by
  refine serve_invariant (I := fun w => Unshared Pc.owns w.thr) ?_ ?_ ?_ h
  · intro now session _ t u a ht
    have hnone := forall_startThreads (P := fun p => p.owns = none) rfl rfl rfl rfl t
    have ht : (startThreads t).owns = some a := ht
    rw [hnone] at ht
    cases ht
  · intro w t s pc hr _ hi ha
    refine hi.update fun c hc => ?_
    rcases ha.owns (fits hr t) hc with hkeep | ⟨hnew, _⟩
    · exact Or.inl hkeep
    · refine Or.inr fun u _ hu => ?_
      exact (owns_lt hr hu).ne hnew
  · intro w d s hi _
    exact hi

/-! ### The entry is gone when `Conn.Close` returns -/

/-- Only `handle` calls `Dial` and `Conn.Close`. -/
theorem Pc.Fits.exists_handle (h : pc.Fits) (hm : pc.inside.method ≠ .other) :
    ∃ n device p, pc = .handle n device p := by
  cases pc with
  | tunnel p => exact absurd h hm
  | serve p =>
      cases p with
      | closing p => exact absurd h.2 hm
      | _ => exact absurd rfl hm
  | handle n device p => exact ⟨n, device, p, rfl⟩
  | _ => exact absurd rfl hm

/-- Only the owner of a `Conn` is inside its `Close`. -/
theorem Pc.Fits.of_connClose (h : pc.Fits) (hm : pc.inside.method = .connClose c) :
    pc.owns = some c := by
  obtain ⟨n, device, p, rfl⟩ := h.exists_handle (by rw [hm]; nofun)
  obtain rfl : device = some c := h.close c hm
  rfl

/-- A `Close` that finds its `Conn` closed already finds no entry either: whoever closed the
`Conn` had removed the entry, or is the same goroutine, which has removed it since. -/
theorem late_unlisted (h : (system cfg).Reachable w) {t : ℕ}
    (ht : (w.thr t).inside.late = some c) : w.shared.tunnel.Unlisted c := by
  refine serve_held (f := fun p => p.inside.late) (P := fun s c => s.tunnel.Unlisted c)
    rfl rfl rfl rfl ?_ ?_ ?_ h ht
  · intro w t s pc u c hr ha hu hgone
    have howns := (fits hr u).of_connClose (Tunnel.Pc.method_of_late hu)
    exact ha.unlisted (owns_lt hr howns) hgone
  · intro w t s pc c hr _ ha hl
    rcases ha.tunnel_acts with ⟨_, hsame⟩ | hacts
    · rw [hsame] at hl
      exact Or.inl hl
    · refine (hacts.late hl).imp_right fun ⟨henter, hclosed⟩ => ?_
      -- The goroutine enters `Close`, so nobody else is inside it.
      have hm : (w.thr t).inside.method = .connClose c := by rw [henter]; rfl
      have howns := (fits hr t).of_connClose hm
      refine ha.unlisted (owns_lt hr howns) ?_
      rcases Tunnel.unlisted_of_closed (tunnelOf_reachable hr) hclosed with hgone | ⟨v, hv⟩
      · exact hgone
      · have hv : (w.thr v).inside.removing = some c := hv
        have hvt : v = t := owns_unshared hr v t c
          ((fits hr v).of_connClose (Tunnel.Pc.method_of_removing hv)) howns
        rw [hvt, henter] at hv
        cases hv
  · intro s d s' c hs hgone
    cases hs
    exact hgone

/-- The device that a `handle` goroutine has closed. -/
def Pc.closedDevice : Pc → Option ConnId
  | .handle n (some c) _ => if stage n = .after then some c else none
  | _ => none

/-- `handle` gets past the closing of its device by the return of `Conn.Close`. -/
theorem Acts.closedDevice (h : Acts cfg s pc s' pc') (hp : pc.Fits)
    (hc : pc'.closedDevice = some c) :
    pc.closedDevice = some c ∨
      pc.inside.method = .connClose c ∧ pc.inside ≠ .idle ∧ pc'.inside = .idle := by
  cases h with
  | call n device =>
      cases device with
      | some d => exact Or.inl hc
      | none => cases hc
  | inside n device =>
      cases device with
      | some d => exact Or.inl hc
      | none => cases hc
  | ret n device p ch tn hidle hn =>
      have hkeep : ∀ n', stage n' = stage n → (Pc.handle n' device .idle).closedDevice = some c →
          (Pc.handle n device p).closedDevice = some c := by
        intro n' hsame h'
        cases device with
        | some d => simpa only [Pc.closedDevice, hsame] using h'
        | none => cases h'
      unfold resume at hc
      split at hc
      · split at hc
        · cases hc
        · cases hc
        · exact Or.inl (hkeep (.realm (.once .dialError) _) rfl hc)
      · exact Or.inl (hkeep (.realm .closeDevice _) rfl hc)
      · obtain ⟨d, hm⟩ := (hp.closes rfl).resolve_left hidle
        have hd : device = some d := hp.close d hm
        rw [hd] at hc
        cases hc
        exact Or.inr ⟨hm, hidle, resume_inside device p _⟩
      · exact Or.inl (hkeep _ rfl hc)
  | control n n' device ch g hmust hn =>
      cases device with
      | some d =>
          rcases next_stage hn hmust with hsame | ⟨hbefore, _⟩
          · refine Or.inl ?_
            simp only [Pc.closedDevice, hsame] at hc
            exact hc
          · cases hp.before hbefore
      | none => cases hc
  | _ => cases hc

theorem Pc.owns_of_closedDevice (h : pc.closedDevice = some c) : pc.owns = some c := by
  cases pc with
  | handle n device p =>
      cases device with
      | some d =>
          simp only [Pc.closedDevice, Option.ite_none_right_eq_some] at h
          exact h.2
      | none => cases h
  | _ => cases h

/-- **`handle` leaves no entry behind**: the device it has closed is out of the table. -/
theorem closed_gone (h : (system cfg).Reachable w) {t : ℕ}
    (ht : (w.thr t).closedDevice = some c) : w.shared.tunnel.Unlisted c := by
  refine serve_held (f := Pc.closedDevice) (P := fun s c => s.tunnel.Unlisted c)
    rfl rfl rfl rfl ?_ ?_ ?_ h ht
  · intro w t s pc u c hr ha hu hgone
    exact ha.unlisted (owns_lt hr (Pc.owns_of_closedDevice hu)) hgone
  · intro w t s pc c hr _ ha hc
    refine (ha.closedDevice (fits hr t) hc).imp_right fun ⟨hm, hidle, hret⟩ => ?_
    rcases ha.tunnel_acts with ⟨_, hsame⟩ | hacts
    · exact absurd (hsame.symm.trans hret) hidle
    · have hscope := Tunnel.scope (tunnelOf_reachable hr)
      rcases hacts.connClose_returns hscope.shared (hscope.thr t) hm hret with hgone | hlate
      · exact hgone
      · exact ha.unlisted (owns_lt hr ((fits hr t).of_connClose hm)) (late_unlisted hr hlate)
  · intro s d s' c hs hgone
    cases hs
    exact hgone

/-! ### Every entry has its `handle` -/

/-- The goroutine runs `handle`. -/
def Pc.active : Pc → Bool
  | .handle .returned _ _ => false
  | .handle _ _ _ => true
  | .dialTimeout _ => true
  | _ => false

/-- The `Conn` that a running `handle` is responsible for. -/
def Pc.keeps (pc : Pc) : Option ConnId := if pc.active then pc.owns else none

theorem Pc.keeps_eq_some : pc.keeps = some c ↔ pc.active = true ∧ pc.owns = some c :=
  Option.ite_none_right_eq_some

theorem Pc.active_handle {n : Negotiation.Pc} {device : Option ConnId} {p : Tunnel.Pc} :
    (Pc.handle n device p).active = true ↔ n ≠ .returned := by
  cases n <;> simp [Pc.active]

/-- A `Dial` that is about to return has nothing else to do. -/
theorem idle_of_ret {tn tn' : Tunnel.Shared} {p' : Tunnel.Pc} {ch : Tunnel.Choice}
    {r : Except Tunnel.DialError ConnId}
    (h : Tunnel.next tn (.dial (.ret r)) ch = some (tn', p')) : p' = .idle := by
  rcases Tunnel.next_cases h with ⟨_, ha⟩ | ha
  · cases ha
  · cases ha with
    | dialRet => rfl

/-- When a call returns, `handle` still has its `Conn`, or the entry of a failed attempt is
gone. -/
theorem Fits.resume_keeps {n : Negotiation.Pc} {device : Option ConnId} {p : Tunnel.Pc}
    (h : Fits n device p) (hn : n ≠ .returned)
    (ho : device = some c ∨ device = none ∧ p = .dial (.ret (.ok c))) :
    (Serve.resume device p n).keeps = some c := by
  rcases ho with rfl | ⟨rfl, rfl⟩
  · unfold Serve.resume
    split
    · cases h.before rfl
    · rfl
    · rfl
    · exact Pc.keeps_eq_some.mpr ⟨Pc.active_handle.mpr hn, rfl⟩
  · obtain ⟨f, rfl⟩ := h.dial rfl
    rfl

/-- `handle` is responsible for its `Conn` until the entry is gone or the device is closed. -/
theorem Acts.keeps (h : Acts cfg s pc s' pc') (hs : s.tunnel.Scoped)
    (hin : pc.inside.Scoped s.tunnel) (hp : pc.Fits) (hk : pc.keeps = some c) :
    pc'.keeps = some c ∨ s'.tunnel.Unlisted c ∨ pc'.closedDevice = some c := by
  obtain ⟨hact, ho⟩ := Pc.keeps_eq_some.mp hk
  cases h with
  | call n device k p' tn =>
      have hact' : (Pc.handle n device p').active = true :=
        Pc.active_handle.mpr (Pc.active_handle.mp hact)
      cases device with
      | some d => exact Or.inl (Pc.keeps_eq_some.mpr ⟨hact', ho⟩)
      | none => cases ho
  | inside n device p p' ch tn _ hidle hn =>
      have hact' : (Pc.handle n device p').active = true :=
        Pc.active_handle.mpr (Pc.active_handle.mp hact)
      cases device with
      | some d => exact Or.inl (Pc.keeps_eq_some.mpr ⟨hact', ho⟩)
      | none =>
          rcases (Tunnel.next_cases hn).dialled hs hin ho with hkeep | hgone | hret
          · exact Or.inl (Pc.keeps_eq_some.mpr ⟨hact', hkeep⟩)
          · exact Or.inr (Or.inl hgone)
          · rw [hret] at hn
            exact absurd (idle_of_ret hn) hidle
  | ret n device p ch tn _ hn =>
      have hne := Pc.active_handle.mp hact
      cases device with
      | some d =>
          cases ho
          exact Or.inl (hp.resume_keeps hne (Or.inl rfl))
      | none =>
          rcases (Tunnel.next_cases hn).dialled hs hin ho with hkeep | hgone | hret
          · cases hkeep
          · exact Or.inr (Or.inl hgone)
          · exact Or.inl (hp.resume_keeps hne (Or.inr ⟨rfl, hret⟩))
  | control n n' device ch g hmust hn =>
      cases device with
      | some d =>
          cases ho
          by_cases hret : n' = .returned
          · subst hret
            exact Or.inr (Or.inr rfl)
          · exact Or.inl (Pc.keeps_eq_some.mpr ⟨Pc.active_handle.mpr hret, rfl⟩)
      | none => cases ho
  | release => cases hact
  | _ => cases ho

/-- A goroutine inside `Dial` runs `handle`. -/
theorem Pc.Fits.keeps_of_dialled (h : pc.Fits) (hd : pc.inside.dialled = some c) :
    pc.keeps = some c := by
  have hm := Tunnel.Pc.method_of_dialled hd
  obtain ⟨n, device, p, rfl⟩ := h.exists_handle (by rw [hm]; nofun)
  obtain ⟨f, rfl⟩ := h.dial hm
  obtain rfl : device = none := h.before rfl
  exact Pc.keeps_eq_some.mpr ⟨rfl, hd⟩

/-- **Every entry belongs to a running `handle`.** -/
theorem listed_kept (h : (system cfg).Reachable w) {id : UInt32}
    (hl : w.shared.tunnel.table.lookup id = some c) : ∃ t, (w.thr t).keeps = some c := by
  revert id c
  refine serve_invariant (I := fun w => ∀ {c id}, w.shared.tunnel.table.lookup id = some c →
    ∃ t, (w.thr t).keeps = some c) ?_ ?_ ?_ h
  · intro now session _ c id hl
    cases hl
  · intro w t s pc hr hnext hi ha c id hl
    have hold : w.shared.tunnel.table.lookup id = some c →
        ∃ u, (Function.update w.thr t pc u).keeps = some c := by
      intro hold
      obtain ⟨u, hu⟩ := hi hold
      by_cases hut : u = t
      · subst hut
        have hscope := Tunnel.scope (tunnelOf_reachable hr)
        rcases ha.keeps hscope.shared (hscope.thr u) (fits hr u) hu with hk | hgone | hcl
        · exact exists_update_self hk
        · exact absurd hl (hgone id)
        · have hgone := closed_gone hnext (t := u) (c := c) (by simpa using hcl)
          exact absurd hl (hgone id)
      · exact exists_update hut hu
    rcases ha.tunnel_acts with ⟨htn, _⟩ | hacts
    · exact hold (htn ▸ hl)
    · rcases hacts.listed hl with hbefore | ⟨_, hnew⟩
      · exact hold hbefore
      · have hfits := fits hnext t
        simp only [Function.update_self] at hfits
        exact exists_update_self (hfits.keeps_of_dialled hnew)
  · intro w d s hi hs c id hl
    cases hs
    exact hi hl

/-! ### Slots -/

/-- The goroutine has a slot. -/
def Pc.holdsSlot : Pc → Bool
  | .handle _ _ _ => true
  | .dialTimeout _ => true
  | _ => false

theorem resume_holdsSlot (device : Option ConnId) (p : Tunnel.Pc) (n : Negotiation.Pc) :
    (resume device p n).holdsSlot = true := by
  unfold resume
  split
  · split <;> rfl
  all_goals rfl

/-- What an action does to the slots: nothing, take one for a new goroutine, run that goroutine,
release the slot. -/
theorem Acts.slots (h : Acts cfg s pc s' pc') :
    (s'.slots = s.slots ∧ s'.started = s.started ∧ pc'.holdsSlot = pc.holdsSlot) ∨
    (s.slots < connectionLimit cfg ∧ s'.slots = s.slots + 1 ∧ s'.started = s.started + 1 ∧
      pc'.holdsSlot = pc.holdsSlot) ∨
    (s'.slots = s.slots ∧ s'.started + 1 = s.started ∧ pc.holdsSlot = false ∧
      pc'.holdsSlot = true) ∨
    (s'.slots + 1 = s.slots ∧ s'.started = s.started ∧ pc.holdsSlot = true ∧
      pc'.holdsSlot = false) := by
  cases h with
  | take hlt => exact Or.inr (Or.inl ⟨hlt, rfl, rfl, rfl⟩)
  | run hst =>
      exact Or.inr (Or.inr (Or.inl ⟨rfl, Nat.succ_pred_eq_of_ne_zero hst, rfl, rfl⟩))
  | release device hsl =>
      exact Or.inr (Or.inr (Or.inr ⟨Nat.succ_pred_eq_of_ne_zero hsl, rfl, rfl, rfl⟩))
  | ret n device p ch tn => exact Or.inl ⟨rfl, rfl, resume_holdsSlot device p n⟩
  | _ => exact Or.inl ⟨rfl, rfl, rfl⟩

/-- Every token in the channel is that of a goroutine, and the channel is not overfull. -/
theorem slots_counted (h : (system cfg).Reachable w) :
    ∃ n, Counted (fun p : Pc => p.holdsSlot = true) w.thr n ∧
      n + w.shared.started = w.shared.slots ∧ w.shared.slots ≤ connectionLimit cfg := by
  refine serve_invariant (I := fun w => ∃ n, Counted (fun p : Pc => p.holdsSlot = true) w.thr n ∧
    n + w.shared.started = w.shared.slots ∧ w.shared.slots ≤ connectionLimit cfg) ?_ ?_ ?_ h
  · intro now session _
    refine ⟨0, Counted.of_none fun t => ?_, rfl, Nat.zero_le _⟩
    have hnone := forall_startThreads (P := fun p => p.holdsSlot = false) rfl rfl rfl rfl t
    simp only [start, hnone]
    decide
  · rintro w t s pc _ _ ⟨n, hn, hsum, hle⟩ ha
    rcases ha.slots with ⟨hsl, hst, hpc⟩ | ⟨hlt, hsl, hst, hpc⟩ | ⟨hsl, hst, hno, hyes⟩ |
      ⟨hsl, hst, hyes, hno⟩
    · exact ⟨n, hn.keep (by rw [hpc]), by dsimp only; omega, by dsimp only; omega⟩
    · exact ⟨n, hn.keep (by rw [hpc]), by dsimp only; omega, by dsimp only; omega⟩
    · refine ⟨n + 1, hn.add (by simp [hno]) hyes, ?_, ?_⟩ <;> dsimp only <;> omega
    · obtain ⟨m, rfl⟩ := Nat.exists_eq_add_one.mpr (hn.pos hyes)
      refine ⟨m, hn.remove hyes (by simp [hno]), ?_, ?_⟩ <;> dsimp only <;> omega
  · intro w d s hi hs
    cases hs
    exact hi

/-! ### The cap -/

/-- The goroutines that run `handle`. -/
def handles (w : World Shared Pc) : Set ℕ := {t | (w.thr t).active = true}

theorem Pc.holdsSlot_of_active (h : pc.active = true) : pc.holdsSlot = true := by
  cases pc with
  | handle | dialTimeout => rfl
  | _ => cases h

/-- The goroutines that run `handle` are finitely many, at most as many as the slots. -/
theorem handles_le (h : (system cfg).Reachable w) :
    (handles w).Finite ∧ (handles w).ncard ≤ connectionLimit cfg := by
  obtain ⟨n, ⟨ts, hcard, hts⟩, hsum, hle⟩ := slots_counted h
  have hsub : handles w ⊆ ↑ts := fun t ht => (hts t).mpr (Pc.holdsSlot_of_active ht)
  refine ⟨ts.finite_toSet.subset hsub, ?_⟩
  have hncard := Set.ncard_le_ncard hsub ts.finite_toSet
  rw [Set.ncard_coe_finset, hcard] at hncard
  omega

/-- Distinct entries name distinct `Conn`s, and those have distinct owners. -/
theorem activeRealms_le (h : (system cfg).Reachable w) (hfin : (handles w).Finite)
    (howner : ∀ id c, w.shared.tunnel.table.lookup id = some c →
      ∃ t ∈ handles w, (w.thr t).owns = some c) :
    w.shared.tunnel.table.activeRealms ≤ (handles w).ncard := by
  have hnamed := (Tunnel.scope (tunnelOf_reachable h)).shared.realms
  have hlookup : ∀ e ∈ w.shared.tunnel.table.entries,
      w.shared.tunnel.table.lookup e.1 = some e.2 :=
    fun e he => Tunnel.lookup_of_mem_entries he
  choose! owner hact howns using fun e he => howner _ _ (hlookup e he)
  have hinj : Set.InjOn owner {e | e ∈ w.shared.tunnel.table.entries} := by
    intro a ha b hb hab
    have ha' := howns a ha
    rw [hab, howns b hb] at ha'
    have hconn : b.2 = a.2 := Option.some.inj ha'
    have hid : a.1 = b.1 := by
      rw [← (hnamed _ _ (hlookup a ha)).2, ← (hnamed _ _ (hlookup b hb)).2, hconn]
    exact Prod.ext hid hconn.symm
  calc w.shared.tunnel.table.activeRealms
      = w.shared.tunnel.table.entries.toFinset.card :=
        (List.toFinset_card_of_nodup (Tunnel.entries_nodup _)).symm
    _ = {e | e ∈ w.shared.tunnel.table.entries}.ncard := by
        rw [← Set.ncard_coe_finset, List.coe_toFinset]
    _ ≤ (handles w).ncard := Set.ncard_le_ncard_of_injOn owner hact hinj hfin

/-- **Bridge realm cap.**  In every run of the bridge, with any arrivals, `Dial` retries, DISCs,
overflows, proxy endings and shutdowns, the tunnel has at most as many realms as goroutines run
`handle`, and these are at most `min maxConns maxRealms`.  Every entry is that of the `Conn`
which one of these goroutines has as its device or is dialling; and when a `handle` has returned
and its goroutine is about to release its slot, no entry names its device. -/
theorem realm_cap (h : (system cfg).Reachable w) :
    (handles w).Finite ∧ w.shared.tunnel.table.activeRealms ≤ (handles w).ncard ∧
      (handles w).ncard ≤ min cfg.maxConns cfg.maxRealms ∧
      (∀ id c, w.shared.tunnel.table.lookup id = some c →
        ∃ t ∈ handles w, (w.thr t).owns = some c) ∧
      ∀ t device p, w.thr t = .handle .returned device p →
        ∀ c ∈ device, w.shared.tunnel.Unlisted c := by
  obtain ⟨hfin, hlimit⟩ := handles_le h
  rw [connectionLimit_eq] at hlimit
  have howner : ∀ id c, w.shared.tunnel.table.lookup id = some c →
      ∃ t ∈ handles w, (w.thr t).owns = some c := by
    intro id c hl
    obtain ⟨t, ht⟩ := listed_kept h hl
    obtain ⟨hact, ho⟩ := Pc.keeps_eq_some.mp ht
    exact ⟨t, hact, ho⟩
  refine ⟨hfin, activeRealms_le h hfin howner, hlimit, howner, fun t device p ht c hc => ?_⟩
  obtain rfl : device = some c := hc
  exact closed_gone h (t := t) (by rw [ht]; rfl)

/-- Goroutine `t` moves inside the tunnel. -/
def tunnelActs (t : ℕ) (choices : List Tunnel.Choice) : List (Label Choice Time) :=
  choices.map fun ch => .thread t (.tunnel ch)

/-- Goroutine `t` goes on in `handle`. -/
def controlActs (t : ℕ) (choices : List Negotiation.Choice) : List (Label Choice Time) :=
  choices.map fun ch => .thread t (.control ch)

/-- The reader receives a datagram and takes `n` actions on it. -/
def receive (body : Ptcp.Body) (n : ℕ) : List (Label Choice Time) :=
  tunnelActs 0 [.go, .recv (.data (Tunnel.datagram body))] ++ tunnelActs 0 (Tunnel.gos n)

/-- A connection is accepted, its `handle` dials realm 7 and gets a device. -/
def dialScript : List (Label Choice Time) :=
  .thread 2 .go :: .thread 2 .go :: .thread 3 .go :: controlActs 3 (List.replicate 6 .ok) ++
    tunnelActs 3 [.call (.dial 554), .go, .go, .go, .draw 7] ++ tunnelActs 3 (Tunnel.gos 5) ++
    tunnelActs 3 [.udp .ok, .go] ++
    receive (Ptcp.newStatusBody 7 Ptcp.statusConnect) 4 ++ tunnelActs 3 [.select .conn, .go]

/-- The device ends the realm, and `handle` closes its `Conn` after that. -/
def discScript : List (Label Choice Time) :=
  receive (Ptcp.newStatusBody 7 Ptcp.statusDisconnect) 8 ++ controlActs 3 [.ok, .fail] ++
    tunnelActs 3 [.call (.connClose 0)] ++ tunnelActs 3 (Tunnel.gos 5) ++
    controlActs 3 (List.replicate 5 .ok)

theorem realm_cap_discScript :
    ∃ cfg w w', (system cfg).exec (fun _ _ => True) (start 1 Ptcp.newSession) dialScript = some w ∧
      (system cfg).exec (fun _ _ => True) w discScript = some w' ∧
      w.shared.tunnel.table.activeRealms = 1 ∧ 1 ≤ (handles w).ncard ∧
      w'.thr 3 = .handle .returned (some 0) .idle ∧ w'.shared.slots = 1 ∧
      w'.shared.tunnel.Unlisted 0 := by
  let cfg : Config := ⟨2, 3, by decide, by decide⟩
  have hrun : ((system cfg).exec (fun _ _ => True) (start 1 Ptcp.newSession) dialScript).map
      (fun w => decide (w.shared.tunnel.table.activeRealms = 1 ∧
        ((system cfg).exec (fun _ _ => True) w discScript).map (fun w' =>
          (w'.thr 3, w'.shared.slots)) = some (.handle .returned (some 0) .idle, 1))) =
      some true := by
    decide +kernel
  obtain ⟨w, hw, he⟩ := Option.map_eq_some_iff.mp hrun
  obtain ⟨hone, hrun'⟩ := of_decide_eq_true he
  obtain ⟨w', hw', he'⟩ := Option.map_eq_some_iff.mp hrun'
  obtain ⟨hthr, hslots⟩ := Prod.mk.inj he'
  have hstart : (system cfg).Reachable (start 1 Ptcp.newSession) :=
    .init ⟨1, Ptcp.newSession, by decide, rfl⟩
  have hr : (system cfg).Reachable w := System.Reach.exec hstart hw
  have hcap := (realm_cap hr).2.1
  rw [hone] at hcap
  exact ⟨cfg, w, w', hw, hw', hone, hcap, hthr, hslots,
    (realm_cap (System.Reach.exec hr hw')).2.2.2.2 3 _ _ hthr 0 rfl⟩

end DahuaP2p.Serve
