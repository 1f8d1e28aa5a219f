import DahuaP2p.ManagerCounts

/-! # Handshakes in flight

The representation of `m.sessions` and `m.inflight` (`representation`).

* An `inflightConn` belongs to the `Acquire` that made it until `close(inf.done)`
  (`Pc.owns`).  Nobody else writes it, so a waiter reads how that handshake has ended
  (`Pc.outcome`).
* `m.inflight` has exactly the handshakes that are going on (`Pc.handshake`); this is what
  `delete(m.inflight, key)` in the commit of `Acquire` needs, which does not look at what it
  deletes.
* `ConnAct` names the four ways in which an action changes the in-flight table.
* `Shared.load`: a key with a fixed port has at most one session or handshake. -/

namespace DahuaP2p.Manager

open Threads

variable {s s' : Shared} {pc pc' : Pc} {ok : World Shared Pc → Label Choice Empty → Prop}
  {w : World Shared Pc} {t u : ℕ} {key : SessionKey} {inf : InflightId}

/-! ### The owner of an `inflightConn` -/

/-- The handshake that this goroutine has put into `m.inflight`. -/
def Pc.handshake : Pc → Option (SessionKey × InflightId)
  | .acquire cfg (.connect inf) | .acquire cfg (.commit inf _) => some (sessionKeyFor cfg, inf)
  | _ => none

/-- The `inflightConn` that this goroutine has made and not closed yet. -/
def Pc.owns : Pc → Option InflightId
  | .acquire _ (.connect inf) | .acquire _ (.commit inf _) | .acquire _ (.setOnClose inf _ _)
  | .acquire _ (.forget inf _ _) | .acquire _ (.finish inf _) => some inf
  | .close _ (.unused _ inf _) | .forget _ (.unused _ inf _) => some inf
  | _ => none

/-- How the handshake of this goroutine has ended: with that error, or with none. -/
def Pc.outcome : Pc → Option (Option AcquireError)
  | .acquire _ (.setOnClose _ _ _) | .acquire _ (.forget _ _ _) => some none
  | .acquire _ (.finish _ (.ok _)) => some none
  | .acquire _ (.finish _ (.error e)) => some (some e)
  | .close _ (.unused _ _ e) | .forget _ (.unused _ _ e) => some (some e)
  | _ => none

theorem Pc.owns_of_handshake (h : pc.handshake = some (key, inf)) : pc.owns = some inf := by
  unfold Pc.handshake at h
  split at h
  · cases h
    rfl
  · cases h
    rfl
  · cases h

section ret
variable (k : CloseBy) (c : ClientId)

theorem CloseBy.ret_owns : k.ret.owns = (Pc.close c k).owns := by cases k <;> rfl

theorem CloseBy.ret_handshake : k.ret.handshake = none := by cases k <;> rfl

theorem CloseBy.ret_outcome : k.ret.outcome = (Pc.close c k).outcome := by cases k <;> rfl

end ret

/-- How an action changes the in-flight table. -/
inductive ConnAct (s : Shared) : Pc → Shared → Pc → Prop
  | keep {pc pc' : Pc} {s' : Shared} : s'.inflight = s.inflight → s'.conns = s.conns →
      s'.connCount = s.connCount → pc'.owns = pc.owns → pc'.handshake = pc.handshake →
      pc'.outcome = pc.outcome → ConnAct s pc s' pc'
  | begin (cfg : Config) : s.inflight.lookup (sessionKeyFor cfg) = none →
      ConnAct s (.acquire cfg (.select [])) (s.beginHandshake (sessionKeyFor cfg))
        (.acquire cfg (.connect s.connCount))
  | ended {s' : Shared} {pc' : Pc} (cfg : Config) (inf : InflightId) (client : Option ClientId)
      (e : Option AcquireError) : s'.inflight = s.inflight.erase (sessionKeyFor cfg) →
      s'.conns = Function.update s.conns inf { s.conns inf with err := e } →
      s'.connCount = s.connCount → pc'.owns = some inf → pc'.handshake = none →
      pc'.outcome = some e → ConnAct s (.acquire cfg (.commit inf client)) s' pc'
  | finish (cfg : Config) (inf : InflightId) (r : Except AcquireError (ClientId × Ticket)) :
      ConnAct s (.acquire cfg (.finish inf r)) (s.setConn inf { s.conns inf with done := true })
        (.acquire cfg (.ret r))

theorem Acts.connAct (h : Acts s pc s' pc') : ConnAct s pc s' pc' := by
  cases h with
  | begin cfg _ hnone => exact .begin cfg hnone
  | commitFailed cfg inf => exact .ended cfg inf none _ rfl rfl rfl rfl rfl rfl
  | commitClosed cfg inf c => exact .ended cfg inf (some c) _ rfl rfl rfl rfl rfl rfl
  | commit cfg inf c => exact .ended cfg inf (some c) none rfl rfl rfl rfl rfl rfl
  | finish cfg inf r => exact .finish cfg inf r
  | closeAgain c k | closeQuiet c k =>
      exact .keep rfl rfl rfl (k.ret_owns c) k.ret_handshake (k.ret_outcome c)
  | closeNotify c k => exact .keep rfl rfl rfl (by cases k <;> rfl) rfl (by cases k <;> rfl)
  | forget c k =>
      refine .keep rfl rfl rfl ?_ k.ret_handshake ?_
      · rw [k.ret_owns c]
        cases k <;> rfl
      · rw [k.ret_outcome c]
        cases k <;> rfl
  | _ => exact .keep rfl rfl rfl rfl rfl rfl

/-! ### The table -/

/-- The in-flight table and its owners. -/
structure Handshakes (w : World Shared Pc) : Prop where
  unshared : Unshared Pc.owns w.thr
  owned : ∀ t inf, (w.thr t).owns = some inf →
    inf < w.shared.connCount ∧ (w.shared.conns inf).done = false
  outcome : ∀ t inf e, (w.thr t).owns = some inf → (w.thr t).outcome = some e →
    (w.shared.conns inf).err = e
  recorded : ∀ t key inf, (w.thr t).handshake = some (key, inf) →
    w.shared.inflight.lookup key = some inf
  running : ∀ key inf, w.shared.inflight.lookup key = some inf →
    ∃ t, (w.thr t).handshake = some (key, inf)
  settled : ∀ inf < w.shared.connCount,
    (w.shared.conns inf).done = true ∨ ∃ t, (w.thr t).owns = some inf
  waiting : ∀ t cfg inf, w.thr t = .acquire cfg (.wait inf) → inf < w.shared.connCount

section step

theorem ConnAct.connCount_le (h : ConnAct s pc s' pc') : s.connCount ≤ s'.connCount := by
  cases h with
  | keep _ _ hcount | ended _ _ _ _ _ _ hcount => exact hcount.ge
  | begin => exact Nat.le_succ _
  | finish => exact le_rfl

/-- Only its owner changes an `inflightConn`. -/
theorem ConnAct.conns_of_not_owns (h : ConnAct s pc s' pc') (hlt : inf < s.connCount)
    (hown : pc.owns ≠ some inf) : s'.conns inf = s.conns inf := by
  cases h with
  | keep _ hconns => rw [hconns]
  | begin => exact Function.update_of_ne hlt.ne _ _
  | ended cfg i client e _ hconns =>
      rw [hconns, Function.update_of_ne]
      rintro rfl
      exact hown rfl
  | finish cfg i =>
      refine Function.update_of_ne ?_ _ _
      rintro rfl
      exact hown rfl

theorem ConnAct.owned (h : ConnAct s pc s' pc')
    (hi : ∀ inf, pc.owns = some inf → inf < s.connCount ∧ (s.conns inf).done = false)
    (hown : pc'.owns = some inf) : inf < s'.connCount ∧ (s'.conns inf).done = false := by
  cases h with
  | keep _ hconns hcount howns =>
      rw [hconns, hcount]
      exact hi inf (howns ▸ hown)
  | begin =>
      cases hown
      exact ⟨Nat.lt_succ_self _, by simp [Shared.beginHandshake, Shared.setConn]⟩
  | ended cfg i client e _ hconns hcount howns =>
      obtain rfl : i = inf := Option.some.inj (howns ▸ hown)
      rw [hconns, hcount, Function.update_self]
      exact hi i rfl
  | finish => cases hown

theorem ConnAct.outcome (h : ConnAct s pc s' pc') {e : Option AcquireError}
    (hi : ∀ inf e, pc.owns = some inf → pc.outcome = some e → (s.conns inf).err = e)
    (hown : pc'.owns = some inf) (hend : pc'.outcome = some e) : (s'.conns inf).err = e := by
  cases h with
  | keep _ hconns _ howns _ hout =>
      rw [hconns]
      exact hi inf e (howns ▸ hown) (hout ▸ hend)
  | begin => cases hend
  | ended cfg i client e' _ hconns _ howns _ hout =>
      obtain rfl : i = inf := Option.some.inj (howns ▸ hown)
      rw [hconns, Function.update_self]
      exact Option.some.inj (hout ▸ hend)
  | finish => cases hend

theorem ConnAct.recorded (h : ConnAct s pc s' pc')
    (hi : ∀ key inf, pc.handshake = some (key, inf) → s.inflight.lookup key = some inf)
    (hs : pc'.handshake = some (key, inf)) : s'.inflight.lookup key = some inf := by
  cases h with
  | keep hin _ _ _ hshake =>
      rw [hin]
      exact hi key inf (hshake ▸ hs)
  | begin cfg =>
      cases hs
      exact AList.lookup_insert _
  | ended cfg i client e _ _ _ _ hshake =>
      rw [hshake] at hs
      cases hs
  | finish => cases hs

/-- The handshakes of the other goroutines stay in the table. -/
theorem ConnAct.recorded_other (h : ConnAct w.shared (w.thr t) s pc) (hh : Handshakes w)
    (hu : u ≠ t) (hs : (w.thr u).handshake = some (key, inf)) :
    s.inflight.lookup key = some inf := by
  have hin := hh.recorded u key inf hs
  have hself := hh.recorded t
  have hne : (w.thr t).owns ≠ some inf :=
    fun ho => hu (hh.unshared u t inf (Pc.owns_of_handshake hs) ho)
  generalize w.thr t = p at h hself hne
  cases h with
  | keep e => rw [e, hin]
  | begin cfg hnone =>
      rw [← hin]
      refine AList.lookup_insert_ne ?_
      rintro rfl
      rw [hin] at hnone
      cases hnone
  | ended cfg i client e hinf =>
      rw [hinf, AList.lookup_erase_ne, hin]
      rintro rfl
      have hi := hself _ _ rfl
      rw [hin] at hi
      exact hne hi.symm
  | finish => exact hin

theorem ConnAct.running (h : ConnAct w.shared (w.thr t) s pc) (hh : Handshakes w)
    (hin : s.inflight.lookup key = some inf) :
    ∃ u, (Function.update w.thr t pc u).handshake = some (key, inf) := by
  have hold := hh.running key inf
  -- a goroutine that goes on with the handshake is this one or another one
  have hother : (w.thr t).handshake ≠ some (key, inf) → w.shared.inflight.lookup key = some inf →
      ∃ u, (Function.update w.thr t pc u).handshake = some (key, inf) := by
    intro hne hlook
    obtain ⟨u, hu⟩ := hold hlook
    exact exists_update (f := Pc.handshake) (fun e => hne (e ▸ hu)) hu
  generalize hp : w.thr t = p at h hother
  cases h with
  | keep e _ _ _ hshake =>
      rw [e] at hin
      by_cases hself : p.handshake = some (key, inf)
      · exact exists_update_self (f := Pc.handshake) (hshake.trans hself)
      · exact hother hself hin
  | begin cfg =>
      by_cases hk : key = sessionKeyFor cfg
      · rw [hk] at hin ⊢
        obtain rfl := Option.some.inj ((AList.lookup_insert _).symm.trans hin)
        exact exists_update_self (f := Pc.handshake) rfl
      · exact hother (fun e => nomatch e) ((AList.lookup_insert_ne hk).symm.trans hin)
  | ended cfg i client e hinf =>
      rw [hinf] at hin
      have hk : key ≠ sessionKeyFor cfg := by
        rintro rfl
        rw [AList.lookup_erase] at hin
        cases hin
      rw [AList.lookup_erase_ne hk] at hin
      exact hother (fun e => hk (Prod.mk.inj (Option.some.inj e)).1.symm) hin
  | finish => exact hother (fun e => nomatch e) hin

theorem ConnAct.settled (h : ConnAct w.shared (w.thr t) s pc) (hh : Handshakes w)
    (hlt : inf < s.connCount) :
    (s.conns inf).done = true ∨ ∃ u, (Function.update w.thr t pc u).owns = some inf := by
  have hold := hh.settled inf
  have hconn : inf < w.shared.connCount → (w.thr t).owns ≠ some inf →
      s.conns inf = w.shared.conns inf := h.conns_of_not_owns
  have hother : (w.thr t).owns ≠ some inf → inf < w.shared.connCount →
      (s.conns inf).done = true ∨ ∃ u, (Function.update w.thr t pc u).owns = some inf := by
    intro hne hbefore
    rw [hconn hbefore hne]
    refine (hold hbefore).imp_right fun ⟨u, hu⟩ => ?_
    exact exists_update (f := Pc.owns) (fun e => hne (e ▸ hu)) hu
  generalize w.thr t = p at h hother
  cases h with
  | keep _ _ hcount howns =>
      by_cases hself : p.owns = some inf
      · exact .inr (exists_update_self (f := Pc.owns) (howns.trans hself))
      · exact hother hself (hcount ▸ hlt)
  | begin cfg =>
      by_cases hnew : inf = w.shared.connCount
      · exact .inr (exists_update_self (f := Pc.owns) (by rw [hnew]; rfl))
      · exact hother (fun e => nomatch e) (lt_of_le_of_ne (Nat.lt_succ_iff.mp hlt) hnew)
  | ended cfg i client e _ _ hcount howns =>
      by_cases hself : i = inf
      · exact .inr (exists_update_self (f := Pc.owns) (hself ▸ howns))
      · exact hother (fun e => hself (Option.some.inj e)) (hcount ▸ hlt)
  | finish cfg i =>
      by_cases hself : inf = i
      · left
        rw [hself]
        simp [Shared.setConn]
      · exact hother (fun e => hself (Option.some.inj e).symm) hlt

/-- A goroutine only waits for a handshake that it has found in the table. -/
theorem Acts.waiting (h : Acts w.shared (w.thr t) s pc) (hh : Handshakes w) {cfg : Config}
    (hpc : pc = .acquire cfg (.wait inf)) : inf < s.connCount := by
  generalize w.thr t = p at h
  cases h with
  | await cfg' i hlook =>
      cases hpc
      obtain ⟨u, hu⟩ := hh.running _ _ hlook
      exact (hh.owned u inf (Pc.owns_of_handshake hu)).1
  | closeAgain c k | closeQuiet c k | forget c k => cases k <;> cases hpc
  | _ => cases hpc

end step

theorem handshakes (h : system.Reach ok w) : Handshakes w := by
  refine system_invariant (I := Handshakes) ?_ ?_ h
  · refine ⟨?_, ?_, ?_, ?_, ?_, ?_, ?_⟩
    · intro t u inf hi
      cases hi
    · intro t inf hi
      cases hi
    · intro t inf e hi
      cases hi
    · intro t key inf hi
      cases hi
    · intro key inf hi
      cases hi
    · intro inf hi
      cases hi
    · intro t cfg inf hi
      cases hi
  · intro w t ch s pc _ hh _ _ ha
    have hc := ha.connAct
    have hother : ∀ u, u ≠ t → ∀ inf, (w.thr u).owns = some inf →
        s.conns inf = w.shared.conns inf := fun u hu inf ho =>
      hc.conns_of_not_owns (hh.owned u inf ho).1 fun hself => hu (hh.unshared u t inf ho hself)
    refine ⟨hh.unshared.update fun inf ho => ?_, ?_, ?_, ?_, fun key inf => hc.running hh,
      fun inf => hc.settled hh, ?_⟩
    · have hlt := fun u ho => (hh.owned u inf ho).1
      generalize w.thr t = p at hc
      cases hc with
      | keep _ _ _ howns => exact .inl (howns ▸ ho)
      | begin =>
          cases ho
          exact .inr fun u _ hu => lt_irrefl _ (hlt u hu)
      | ended cfg i client e _ _ _ howns => exact .inl (howns.symm.trans ho)
      | finish => cases ho
    · refine forall_update (P := fun _ p => ∀ inf, Pc.owns p = some inf →
        inf < s.connCount ∧ (s.conns inf).done = false) (fun inf => hc.owned (hh.owned t)) ?_
      intro u hu inf ho
      rw [hother u hu inf ho]
      exact ⟨lt_of_lt_of_le (hh.owned u inf ho).1 hc.connCount_le, (hh.owned u inf ho).2⟩
    · refine forall_update (P := fun _ p => ∀ inf e, Pc.owns p = some inf → p.outcome = some e →
        (s.conns inf).err = e) (fun inf e => hc.outcome (hh.outcome t)) ?_
      intro u hu inf e ho
      rw [hother u hu inf ho]
      exact hh.outcome u inf e ho
    · exact forall_update (P := fun _ p => ∀ key inf, Pc.handshake p = some (key, inf) →
        s.inflight.lookup key = some inf) (fun key inf => hc.recorded (hh.recorded t))
        fun u hu key inf => hc.recorded_other hh hu
    · exact forall_update (P := fun _ p => ∀ cfg inf, p = Pc.acquire cfg (.wait inf) →
        inf < s.connCount) (fun cfg inf => ha.waiting hh)
        fun u _ cfg inf hw => lt_of_lt_of_le (hh.waiting u cfg inf hw) hc.connCount_le

/-- There is one handshake for a key at a time. -/
theorem Handshakes.one_per_key (hh : Handshakes w) {inf' : InflightId}
    (ht : (w.thr t).handshake = some (key, inf)) (hu : (w.thr u).handshake = some (key, inf')) :
    t = u := by
  have hsame : inf' = inf :=
    Option.some.inj ((hh.recorded u key inf' hu).symm.trans (hh.recorded t key inf ht))
  subst hsame
  exact hh.unshared t u inf' (Pc.owns_of_handshake ht) (Pc.owns_of_handshake hu)

/-! ### Empty lists -/

theorem SessionMap.store_ne_nil (m : SessionMap) (list : List ClientId) {key' : SessionKey}
    (h : ∀ key, m.lookup key ≠ some []) : (m.store key list).lookup key' ≠ some [] := by
  unfold SessionMap.store
  by_cases hk : key' = key
  · subst hk
    split
    · rw [AList.lookup_erase]
      simp
    · rw [AList.lookup_insert]
      simpa
  · split
    · rw [AList.lookup_erase_ne hk]
      exact h key'
    · rw [AList.lookup_insert_ne hk]
      exact h key'

/-- A key whose last session has gone is deleted. -/
theorem no_empty_list (h : system.Reach ok w) : ∀ key, w.shared.sessions.lookup key ≠ some [] := by
  refine system_invariant (I := fun w => ∀ key, w.shared.sessions.lookup key ≠ some []) ?_ ?_ h
  · intro key hk
    cases hk
  · intro w t ch s pc _ hi _ _ ha key
    have hact := ha.listAct
    generalize w.thr t = p at hact
    cases hact with
    | keep e =>
        rw [e]
        exact hi key
    | prune cfg live e =>
        rw [e]
        exact w.shared.sessions.store_ne_nil live hi
    | append cfg inf c => exact w.shared.sessions.store_ne_nil _ hi
    | remove k c _ e =>
        rw [e]
        exact w.shared.sessions.store_ne_nil _ hi
    | clear _ e =>
        rw [e]
        intro hk
        cases hk

/-! ### Fixed ports -/

/-- The sessions and handshakes of a key. -/
def Shared.load (s : Shared) (key : SessionKey) : ℕ :=
  (s.sessions.get key).length + (s.inflight.lookup key).toList.length

/-- Without a commit the list of a key does not grow. -/
theorem ListAct.length_le (h : ListAct s pc s') (hk : Knows s pc)
    (hc : ∀ cfg inf c, pc ≠ .acquire cfg (.commit inf (some c))) :
    (s'.sessions.get key).length ≤ (s.sessions.get key).length := by
  cases h with
  | keep e => rw [e]
  | prune cfg live e =>
      rw [e, SessionMap.get_store]
      split
      · next hkey =>
          have hsub := hk.1
          rw [List.append_nil] at hsub
          rw [hkey]
          exact hsub.length_le
      · exact le_rfl
  | append cfg inf c => exact absurd rfl (hc cfg inf c)
  | remove k c _ e =>
      rw [e, SessionMap.get_store]
      split
      · next hkey =>
          rw [hkey]
          exact List.length_erase_le
      · exact le_rfl
  | clear _ e =>
      rw [e]
      exact Nat.zero_le _

theorem lookup_erase_length_le (m : AList fun _ : SessionKey => InflightId) (key' : SessionKey) :
    ((m.erase key').lookup key).toList.length ≤ (m.lookup key).toList.length := by
  by_cases hk : key = key'
  · rw [hk, AList.lookup_erase]
    exact Nat.zero_le _
  · rw [AList.lookup_erase_ne hk]

theorem Acts.load (h : Acts s pc s' pc') (hk : Knows s pc)
    (hrec : ∀ key inf, pc.handshake = some (key, inf) → s.inflight.lookup key = some inf)
    (hport : key.p2pPort ≠ 0) (hi : s.load key ≤ 1) : s'.load key ≤ 1 := by
  have hlist : (∀ cfg inf c, pc ≠ .acquire cfg (.commit inf (some c))) →
      (s'.sessions.get key).length ≤ (s.sessions.get key).length := h.listAct.length_le hk
  unfold Shared.load at hi ⊢
  cases h with
  | begin cfg hcap =>
      by_cases hkey : key = sessionKeyFor cfg
      · subst hkey
        have hnil : s.sessions.get (sessionKeyFor cfg) = [] := by
          by_contra hne
          exact hcap ⟨hport, hne⟩
        simp [Shared.beginHandshake, Shared.setConn, hnil]
      · simp only [Shared.beginHandshake, Shared.setConn, AList.lookup_insert_ne hkey]
        exact hi
  | commit cfg inf c =>
      by_cases hkey : key = sessionKeyFor cfg
      · subst hkey
        rw [hrec _ inf rfl] at hi
        simp only [Option.toList_some, List.length_singleton] at hi
        simp only [Shared.commit, Shared.setManaged, Shared.endHandshake, AList.lookup_erase,
          SessionMap.get_store_self, List.length_append, List.length_singleton, Option.toList_none,
          List.length_nil]
        omega
      · simp only [Shared.commit, Shared.setManaged, Shared.endHandshake,
          AList.lookup_erase_ne hkey, SessionMap.get_store_of_ne _ _ _ _ hkey]
        exact hi
  | commitFailed cfg inf | commitClosed cfg inf c =>
      refine le_trans (Nat.add_le_add_left ?_ _) hi
      exact lookup_erase_length_le _ _
  | _ => exact le_trans (Nat.add_le_add_right (hlist (by simp)) _) hi

theorem load_le_one (h : system.Reach ok w) :
    ∀ key, key.p2pPort ≠ 0 → w.shared.load key ≤ 1 := by
  refine system_invariant (I := fun w => ∀ key, key.p2pPort ≠ 0 → w.shared.load key ≤ 1) ?_ ?_ h
  · intro key _
    exact Nat.zero_le _
  · intro w t ch s pc hr hi _ _ ha key hport
    exact ha.load ((listing hr).knows t) ((handshakes hr).recorded t) hport (hi key hport)

/-! ### The representation -/

/-- The representation of `m.sessions` and `m.inflight`. -/
structure Representation (w : World Shared Pc) : Prop where
  once : ∀ key, (w.shared.sessions.get key).Nodup
  one_list : ∀ key key' c, c ∈ w.shared.sessions.get key → c ∈ w.shared.sessions.get key' →
    key' = key
  nonempty : ∀ key, w.shared.sessions.lookup key ≠ some []
  maxRealms : ∀ key, ∀ c ∈ w.shared.sessions.get key,
    (w.shared.managed c).maxRealms = key.maxRealms
  /-- `m.inflight` has the handshakes that are going on. -/
  inflight : ∀ key inf, w.shared.inflight.lookup key = some inf ↔
    ∃ t, (w.thr t).handshake = some (key, inf)
  one_handshake : ∀ key t u inf inf', (w.thr t).handshake = some (key, inf) →
    (w.thr u).handshake = some (key, inf') → t = u
  fixedPort : ∀ key, key.p2pPort ≠ 0 → w.shared.load key ≤ 1
  /-- Nobody waits for a handshake that has been abandoned. -/
  awaited : ∀ t cfg inf, w.thr t = .acquire cfg (.wait inf) →
    (w.shared.conns inf).done = true ∨ ∃ u, (w.thr u).owns = some inf
  /-- The waiters of a finished handshake get its error or retry the selection. -/
  waiter : ∀ t cfg inf, w.thr t = .acquire cfg (.wait inf) → (w.shared.conns inf).done = true →
    next w.shared (w.thr t) .go = some (w.shared, .acquire cfg
      (match (w.shared.conns inf).err with
        | some e => .ret (.error e)
        | none => .lock))
  /-- What the waiters get is what the `Acquire` with the handshake returns. -/
  outcome : ∀ t cfg inf r, w.thr t = .acquire cfg (.finish inf r) →
    (w.shared.conns inf).err = match r with
      | .error e => some e
      | .ok _ => none

theorem next_wait {cfg : Config} (hpc : pc = .acquire cfg (.wait inf))
    (hdone : (s.conns inf).done = true) : next s pc .go = some (s, .acquire cfg
      (match (s.conns inf).err with
        | some e => .ret (.error e)
        | none => .lock)) := by
  rw [hpc]
  simp only [next, stepAcquire, hdone, if_true]
  cases (s.conns inf).err with
  | none => rfl
  | some e => rfl

/-- **Representation.** In every state, with `m.mu` free or not, the lists and the in-flight table
are in order, and the result of a finished handshake does not change any more. -/
theorem representation (h : system.Reachable w) :
    Representation w ∧ ∀ t ch s pc, next w.shared (w.thr t) ch = some (s, pc) →
      ∀ inf < w.shared.connCount, (w.shared.conns inf).done = true →
        s.conns inf = w.shared.conns inf := by
  have hl := listing h
  have hh := handshakes h
  refine ⟨?_, fun t ch s pc hn inf hlt hdone => ?_⟩
  · refine ⟨hl.nodup, fun _ _ _ => hl.one_list, no_empty_list h, ?_, ?_, ?_, load_le_one h, ?_,
      fun t cfg inf => next_wait, ?_⟩
    · exact fun key c hc => (maxRealms_of_listed h key c hc).1
    · exact fun key inf => ⟨hh.running key inf, fun ⟨t, ht⟩ => hh.recorded t key inf ht⟩
    · exact fun key t u inf inf' => hh.one_per_key
    · exact fun t cfg inf hpc => hh.settled inf (hh.waiting t cfg inf hpc)
    · intro t cfg inf r hpc
      refine hh.outcome t inf _ (by rw [hpc]; rfl) ?_
      rw [hpc]
      cases r <;> rfl
  · refine (next_cases hn).connAct.conns_of_not_owns hlt fun hown => ?_
    rw [(hh.owned t inf hown).2] at hdone
    cases hdone

/-- A camera that is reached through one local port. -/
def fixedPort : Config := { singleRealm with p2pPort := 5000 }

/-- A second `Acquire` waits for the handshake of the first one, which fails. -/
def failedScript : List (Label Choice Empty) :=
  acts 0 ([.call (.acquire fixedPort)] ++ gos 3) ++
    acts 1 ([.call (.acquire fixedPort)] ++ gos 3) ++ acts 0 [.handshake false, .go, .go]

/-- The second `Acquire` returns the error of that handshake. -/
theorem representation_failedScript :
    ∃ w, system.exec (fun _ _ => True) start failedScript = some w ∧
      w.thr 1 = .acquire fixedPort (.wait 0) ∧
      next w.shared (w.thr 1) .go =
        some (w.shared, .acquire fixedPort (.ret (.error (.handshake 0)))) := by
  have hrun : (system.exec (fun _ _ => True) start failedScript).map (fun w => decide
      (w.thr 1 = .acquire fixedPort (.wait 0) ∧ (w.shared.conns 0).done = true ∧
        (w.shared.conns 0).err = some (.handshake 0))) = some true := by
    decide +kernel
  obtain ⟨w, hw, he⟩ := Option.map_eq_some_iff.mp hrun
  obtain ⟨hwait, hdone, herr⟩ := of_decide_eq_true he
  refine ⟨w, hw, hwait, ?_⟩
  rw [(representation (reach_of_exec hw)).1.waiter 1 fixedPort 0 hwait hdone, herr]

end DahuaP2p.Manager
