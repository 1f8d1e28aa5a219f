import DahuaP2p.ManagerLists

/-! # Tickets

Every acquisition of a session has a ticket.  In a run in which each `Release` belongs to an
`Acquire` that has returned (`Paired`), a ticket goes from the `Acquire` to the caller, from the
caller to the `Release`, and is then gone; in the meantime it is live (`tickets`).

`TicketAct` names the five things an action can do with tickets. -/

namespace DahuaP2p.Manager

open Threads

variable {s s' : Shared} {pc pc' : Pc} {w : World Shared Pc} {t : ℕ} {c d : ClientId}

/-! ### Paired runs -/

/-- A `Release` is for the client that an earlier `Acquire` has returned to this caller, with the
serial of that `Acquire`, and the only one for it. -/
def Paired (w : World Shared Pc) : Label Choice Empty → Prop
  | .thread _ (.call (.release serial c n)) =>
      ∃ m ∈ w.shared.hist.held, n = some m ∧ w.shared.hist.owner m = c ∧
        w.shared.hist.serial m = serial
  | _ => True

instance (w : World Shared Pc) (l : Label Choice Empty) : Decidable (Paired w l) := by
  unfold Paired
  split <;> infer_instance

theorem CloseBy.ret_ne_release (k : CloseBy) (serial : String) (n : Option Ticket) :
    k.ret ≠ .release serial c n := by
  cases k with
  | user | timer | spawned | all | unused => exact fun h => nomatch h

theorem call_of_release {ch : Choice} {serial : String} {n : Option Ticket}
    (h : next s pc ch = some (s', .release serial c n)) :
    pc = .idle ∧ ch = .call (.release serial c n) := by
  have hidle : pc = .idle := by
    generalize hq : Pc.release serial c n = q at h
    cases next_cases h with
    | callRelease => rfl
    | closeAgain d k | closeQuiet d k | forget d k =>
        exact absurd hq.symm (k.ret_ne_release serial n)
    | _ => cases hq
  subst hidle
  refine ⟨rfl, ?_⟩
  cases ch with
  | call c =>
      cases c with
      | release serial' c' n' =>
          cases h
          rfl
      | acquire | closeAll => cases h
      | retire | close | timer | spawned =>
          obtain ⟨_, he⟩ := Option.ite_none_right_eq_some.mp h
          cases he
  | _ => cases h

/-! ### What an action does with tickets -/

/-- The ticket that an `Acquire` is going to return or a `Release` is going to settle. -/
def Pc.carried : Pc → Option (Ticket × ClientId)
  | .acquire _ (.setOnClose _ c n) | .acquire _ (.forget _ c n)
  | .acquire _ (.finish _ (.ok (c, n))) | .acquire _ (.ret (.ok (c, n))) => some (n, c)
  | .release _ c (some n) => some (n, c)
  | _ => none

theorem CloseBy.ret_carried (k : CloseBy) : k.ret.carried = none := by cases k <;> rfl

/-- What an action does with tickets. -/
inductive TicketAct (s : Shared) : Pc → Shared → Pc → Prop
  | keep {pc pc' : Pc} {s' : Shared} : s'.hist = s.hist → pc'.carried = pc.carried →
      TicketAct s pc s' pc'
  | issue {pc pc' : Pc} {s' : Shared} (c : ClientId) (serial : String) :
      Issues s pc s' c serial → pc'.carried = some (s.hist.tickets, c) → TicketAct s pc s' pc'
  | hold (cfg : Config) (c : ClientId) (n : Ticket) :
      TicketAct s (.acquire cfg (.ret (.ok (c, n))))
        { s with hist := { s.hist with held := insert n s.hist.held } } .idle
  | giveUp (serial : String) (c : ClientId) (n : Option Ticket) :
      TicketAct s .idle { s with hist := s.hist.giveUp n } (.release serial c n)
  | settle {s' : Shared} (serial : String) (c : ClientId) (n : Option Ticket)
      (armedAt : TimerId → ℕ) : s'.hist = { s.hist.release c n with armedAt := armedAt } →
      TicketAct s (.release serial c n) s' .idle

theorem Acts.ticketAct (h : Acts s pc s' pc') : TicketAct s pc s' pc' := by
  cases h with
  | callRelease serial c n => exact .giveUp serial c n
  | reserve cfg c todo _ hcap => exact .issue c cfg.serial (.reserve cfg c todo hcap) rfl
  | commit cfg inf c => exact .issue c cfg.serial (.commit cfg inf c) rfl
  | finish cfg inf r => exact .keep rfl (by cases r <;> rfl)
  | retOk cfg c n => exact .hold cfg c n
  | releaseShared key c n | releaseRetired key c n | releaseIdle key c n =>
      exact .settle key.serial c n _ rfl
  | releaseUnknown serial c n => exact .settle serial c n _ rfl
  | closeAgain c k | closeQuiet c k | forget c k => exact .keep rfl k.ret_carried
  | _ => exact .keep rfl rfl

/-- Tickets are issued, or the live ones get fewer. -/
theorem TicketAct.live (h : TicketAct s pc s' pc') :
    (∃ c serial, Issues s pc s' c serial ∧ pc'.carried = some (s.hist.tickets, c)) ∨
    (s'.hist.tickets = s.hist.tickets ∧ s'.hist.owner = s.hist.owner ∧
      s'.hist.serial = s.hist.serial ∧ s'.hist.acquired = s.hist.acquired ∧
      ∀ c, s'.hist.live c ⊆ s.hist.live c) := by
  cases h with
  | keep e =>
      rw [e]
      exact .inr ⟨rfl, rfl, rfl, rfl, fun _ => Finset.Subset.refl _⟩
  | issue c serial hissue hcarried => exact .inl ⟨c, serial, hissue, hcarried⟩
  | hold => exact .inr ⟨rfl, rfl, rfl, rfl, fun _ => Finset.Subset.refl _⟩
  | giveUp serial c n =>
      cases n with
      | none => exact .inr ⟨rfl, rfl, rfl, rfl, fun _ => Finset.Subset.refl _⟩
      | some n => exact .inr ⟨rfl, rfl, rfl, rfl, fun _ => Finset.Subset.refl _⟩
  | settle serial c n armedAt e =>
      rw [e]
      refine .inr ⟨rfl, rfl, rfl, rfl, fun d => ?_⟩
      cases n with
      | none => exact Finset.Subset.refl _
      | some n =>
          by_cases hd : d = c
          · rw [hd]
            simp only [History.release, Function.update_self]
            exact Finset.erase_subset _ _
          · simp only [History.release, Function.update_of_ne hd]
            exact Finset.Subset.refl _

theorem History.mem_issue_live {h : History} {serial : String} {n : Ticket} :
    n ∈ (h.issue c serial).live d ↔ n ∈ h.live d ∨ n = h.tickets ∧ d = c := by
  by_cases hd : d = c
  · subst hd
    simp [History.issue, or_comm]
  · simp [History.issue, hd]

/-- A new ticket makes one more. -/
theorem History.card_issue {h : History} (hi : ∀ n ∈ h.live c, n < h.tickets) (serial : String) :
    ((h.issue c serial).live c).card = (h.live c).card + 1 := by
  simp only [History.issue, Function.update_self]
  exact Finset.card_insert_of_notMem fun hmem => lt_irrefl _ (hi _ hmem)

/-! ### The invariant -/

/-- The state of the tickets. -/
structure Tickets (w : World Shared Pc) : Prop where
  issued : ∀ c, ∀ n ∈ w.shared.hist.live c, n < w.shared.hist.tickets ∧
    w.shared.hist.owner n = c ∧ w.shared.hist.serial n = (w.shared.managed c).key.serial ∧
    0 < w.shared.hist.acquired c
  held : ∀ n ∈ w.shared.hist.held, n ∈ w.shared.hist.live (w.shared.hist.owner n)
  carried : ∀ t n c, (w.thr t).carried = some (n, c) →
    n ∈ w.shared.hist.live c ∧ n ∉ w.shared.hist.held
  unshared : Unshared Pc.carried w.thr
  releases : ∀ t serial c n, w.thr t = .release serial c n →
    ∃ m, n = some m ∧ w.shared.hist.serial m = serial

namespace Tickets

theorem held_lt (ht : Tickets w) {n : Ticket} (h : n ∈ w.shared.hist.held) :
    n < w.shared.hist.tickets := (ht.issued _ n (ht.held n h)).1

theorem carried_lt (ht : Tickets w) {n : Ticket} (h : (w.thr t).carried = some (n, c)) :
    n < w.shared.hist.tickets := (ht.issued c n (ht.carried t n c h).1).1

/-- Two goroutines do not carry the same ticket. -/
theorem carried_ne (ht : Tickets w) {u : ℕ} {m n : Ticket} (hu : u ≠ t)
    (hm : (w.thr t).carried = some (m, d)) (hn : (w.thr u).carried = some (n, c)) : n ≠ m := by
  rintro rfl
  have hc := (ht.issued c n (ht.carried u n c hn).1).2.1
  have hd := (ht.issued d n (ht.carried t n d hm).1).2.1
  obtain rfl : c = d := hc.symm.trans hd
  exact hu (ht.unshared u t (n, c) hn hm)

/-- The client of a `Release` has the serial that the caller gives. -/
theorem release_serial (ht : Tickets w) {serial : String} {n : Option Ticket}
    (h : w.thr t = .release serial c n) :
    ∃ m, n = some m ∧ m ∈ w.shared.hist.live c ∧ (w.shared.managed c).key.serial = serial := by
  obtain ⟨m, rfl, hserial⟩ := ht.releases t serial c n h
  have hlive := (ht.carried t m c (by rw [h]; rfl)).1
  refine ⟨m, rfl, hlive, ?_⟩
  rw [← (ht.issued c m hlive).2.2.1]
  exact hserial

end Tickets

section step
variable {ch : Choice}

/-- The serial of an acquisition is the one of the session's key. -/
theorem Issues.key_serial (hl : Listing w) {serial : String}
    (hi : Issues w.shared (w.thr t) s c serial) : (s.managed c).key.serial = serial := by
  have hknows := hl.knows t
  generalize w.thr t = p at hi hknows
  cases hi with
  | reserve cfg c todo =>
      have hkey := hl.key _ c (hknows List.mem_cons_self)
      simp [Shared.reserve, Shared.setManaged, hkey, sessionKeyFor]
  | commit cfg inf c => simp [Shared.commit, Shared.setManaged, sessionKeyFor]

theorem Acts.issued (ha : Acts w.shared (w.thr t) s pc) (hl : Listing w)
    (hi : ∀ c, ∀ n ∈ w.shared.hist.live c, n < w.shared.hist.tickets ∧
      w.shared.hist.owner n = c ∧ w.shared.hist.serial n = (w.shared.managed c).key.serial ∧
      0 < w.shared.hist.acquired c)
    (c : ClientId) (n : Ticket) (hn : n ∈ s.hist.live c) :
    n < s.hist.tickets ∧ s.hist.owner n = c ∧ s.hist.serial n = (s.managed c).key.serial ∧
      0 < s.hist.acquired c := by
  have hold : n ∈ w.shared.hist.live c → n < w.shared.hist.tickets ∧
      w.shared.hist.owner n = c ∧ w.shared.hist.serial n = (s.managed c).key.serial ∧
      0 < s.hist.acquired c := by
    intro hmem
    obtain ⟨hlt, howner, hserial, hmade⟩ := hi c n hmem
    rw [(ha.frozen_of_made hl hmade).1]
    exact ⟨hlt, howner, hserial, lt_of_lt_of_le hmade (ha.acquired_le c)⟩
  rcases ha.ticketAct.live with ⟨d, serial, hissue, _⟩ | ⟨htickets, howner, hserial, _, hsub⟩
  · have e := hissue.hist
    rw [e] at hn
    rcases History.mem_issue_live.mp hn with hmem | ⟨rfl, rfl⟩
    · obtain ⟨hlt, howner, hserial, hmade⟩ := hold hmem
      rw [e] at hmade ⊢
      have hne : n ≠ w.shared.hist.tickets := Nat.ne_of_lt hlt
      refine ⟨Nat.lt_succ_of_lt hlt, ?_, ?_, hmade⟩
      · simp only [History.issue, Function.update_of_ne hne]
        exact howner
      · simp only [History.issue, Function.update_of_ne hne]
        exact hserial
    · rw [hissue.key_serial hl, e]
      simp [History.issue]
  · rw [htickets, howner, hserial]
    exact hold (hsub c hn)

/-- A live ticket was issued for its session, with the serial of the session's key. -/
theorem issued {ok : World Shared Pc → Label Choice Empty → Prop} (h : system.Reach ok w) :
    ∀ c, ∀ n ∈ w.shared.hist.live c, n < w.shared.hist.tickets ∧ w.shared.hist.owner n = c ∧
      w.shared.hist.serial n = (w.shared.managed c).key.serial ∧
      0 < w.shared.hist.acquired c := by
  refine system_invariant (I := fun w => ∀ c, ∀ n ∈ w.shared.hist.live c,
    n < w.shared.hist.tickets ∧ w.shared.hist.owner n = c ∧
      w.shared.hist.serial n = (w.shared.managed c).key.serial ∧
      0 < w.shared.hist.acquired c) ?_ ?_ h
  · intro c n hn
    exact absurd hn (Finset.notMem_empty n)
  · intro w t ch s pc hr hi _ _ ha
    exact ha.issued (listing hr) hi

theorem History.mem_release_live {h : History} {m n : Ticket} (hn : n ∈ h.live d) (hne : n ≠ m) :
    n ∈ (h.release c (some m)).live d := by
  by_cases hd : d = c
  · rw [hd] at hn ⊢
    simp only [History.release, Function.update_self]
    exact Finset.mem_erase.mpr ⟨hne, hn⟩
  · simp only [History.release, Function.update_of_ne hd]
    exact hn

theorem Acts.held (ha : Acts w.shared (w.thr t) s pc) (ht : Tickets w) (n : Ticket)
    (hn : n ∈ s.hist.held) : n ∈ s.hist.live (s.hist.owner n) := by
  have hcarried := ht.carried t
  have hact := ha.ticketAct
  generalize w.thr t = p at hact hcarried
  cases hact with
  | keep e =>
      rw [e] at hn ⊢
      exact ht.held n hn
  | issue c serial hissue =>
      rw [hissue.hist] at hn ⊢
      have hne : n ≠ w.shared.hist.tickets := Nat.ne_of_lt (ht.held_lt hn)
      refine History.mem_issue_live.mpr (.inl ?_)
      simp only [History.issue, Function.update_of_ne hne]
      exact ht.held n hn
  | hold cfg c m =>
      rcases Finset.mem_insert.mp hn with rfl | hold
      · have hlive := (hcarried n c rfl).1
        rw [← (ht.issued c n hlive).2.1] at hlive
        exact hlive
      · exact ht.held n hold
  | giveUp serial c m =>
      cases m with
      | none => exact ht.held n hn
      | some m => exact ht.held n (Finset.mem_of_mem_erase hn)
  | settle serial c m armedAt e =>
      rw [e] at hn ⊢
      cases m with
      | none => exact ht.held n hn
      | some m =>
          have hne : n ≠ m := fun h => (hcarried m c rfl).2 (h ▸ hn)
          exact History.mem_release_live (ht.held n hn) hne

theorem Acts.carried_other (ha : Acts w.shared (w.thr t) s pc) (ht : Tickets w) {u : ℕ}
    (hu : u ≠ t) {n : Ticket} (hn : (w.thr u).carried = some (n, c)) :
    n ∈ s.hist.live c ∧ n ∉ s.hist.held := by
  obtain ⟨hlive, hheld⟩ := ht.carried u n c hn
  have hne : ∀ m d, (w.thr t).carried = some (m, d) → n ≠ m := fun m d hm => ht.carried_ne hu hm hn
  have hact := ha.ticketAct
  generalize w.thr t = p at hact hne
  cases hact with
  | keep e =>
      rw [e]
      exact ⟨hlive, hheld⟩
  | issue d serial hissue =>
      rw [hissue.hist]
      exact ⟨History.mem_issue_live.mpr (.inl hlive), hheld⟩
  | hold cfg d m =>
      refine ⟨hlive, fun hmem => ?_⟩
      rcases Finset.mem_insert.mp hmem with e | hold
      · exact hne m d rfl e
      · exact hheld hold
  | giveUp serial d m =>
      cases m with
      | none => exact ⟨hlive, hheld⟩
      | some m => exact ⟨hlive, fun hmem => hheld (Finset.mem_of_mem_erase hmem)⟩
  | settle serial d m armedAt e =>
      rw [e]
      cases m with
      | none => exact ⟨hlive, hheld⟩
      | some m => exact ⟨History.mem_release_live hlive (hne m d rfl), hheld⟩

/-- A goroutine gets a ticket when it is issued, or when the caller that holds it releases. -/
theorem Acts.carried_own (ha : Acts w.shared (w.thr t) s pc) (hok : Paired w (.thread t ch))
    (hnext : next w.shared (w.thr t) ch = some (s, pc)) {n : Ticket}
    (hn : pc.carried = some (n, c)) :
    ((w.thr t).carried = some (n, c) ∧ s.hist = w.shared.hist) ∨
    (n = w.shared.hist.tickets ∧ ∃ serial, s.hist = w.shared.hist.issue c serial) ∨
    (n ∈ w.shared.hist.held ∧ w.shared.hist.owner n = c ∧
      s.hist = w.shared.hist.giveUp (some n)) := by
  have hcall := @call_of_release w.shared s (w.thr t)
  have hact := ha.ticketAct
  generalize w.thr t = p at hact hcall hnext
  cases hact with
  | keep e hsame =>
      rw [hsame] at hn
      exact .inl ⟨hn, e⟩
  | issue d serial hissue hnew =>
      rw [hnew] at hn
      cases hn
      exact .inr (.inl ⟨rfl, serial, hissue.hist⟩)
  | hold | settle => cases hn
  | giveUp serial d m =>
      obtain ⟨_, rfl⟩ := hcall hnext
      obtain ⟨k, hk, rfl, howner, _⟩ := hok
      cases hn
      exact .inr (.inr ⟨hk, howner, rfl⟩)

theorem Acts.serial_eq (ha : Acts s pc s' pc') {n : Ticket} (hn : n < s.hist.tickets) :
    s'.hist.serial n = s.hist.serial n := by
  rcases ha.ticketAct.live with ⟨d, serial, hissue, _⟩ | ⟨_, _, hserial, _⟩
  · rw [hissue.hist]
    simp only [History.issue, Function.update_of_ne (Nat.ne_of_lt hn)]
  · rw [hserial]

theorem Acts.releases_own (ha : Acts w.shared (w.thr t) s pc) (ht : Tickets w)
    (hok : Paired w (.thread t ch)) (hnext : next w.shared (w.thr t) ch = some (s, pc))
    {serial : String} {n : Option Ticket} (hpc : pc = .release serial c n) :
    ∃ m, n = some m ∧ s.hist.serial m = serial := by
  subst hpc
  obtain ⟨_, rfl⟩ := call_of_release hnext
  obtain ⟨m, hheld, rfl, _, hserial⟩ := hok
  exact ⟨m, rfl, (ha.serial_eq (ht.held_lt hheld)).trans hserial⟩

end step

/-- The tickets are in order in every state of a paired run. -/
theorem tickets (h : system.Reach Paired w) : Tickets w := by
  refine system_invariant (I := Tickets) ?_ ?_ h
  · refine ⟨fun c n hn => ?_, fun n hn => ?_, fun t n c hn => ?_, fun t u a ha => ?_,
      fun t serial c n hpc => ?_⟩
    · exact absurd hn (Finset.notMem_empty n)
    · exact absurd hn (Finset.notMem_empty n)
    · cases hn
    · cases ha
    · cases hpc
  · intro w t ch s pc hr ht hok hn ha
    refine ⟨ha.issued (listing hr) ht.issued, ha.held ht, ?_, ?_, ?_⟩
    · refine forall_update (P := fun _ p => ∀ n c, Pc.carried p = some (n, c) →
        n ∈ s.hist.live c ∧ n ∉ s.hist.held) ?_ fun u hu n c => ha.carried_other ht hu
      intro n c hc
      rcases ha.carried_own hok hn hc with ⟨hold, e⟩ | ⟨rfl, serial, e⟩ | ⟨hheld, rfl, e⟩
      · rw [e]
        exact ht.carried t n c hold
      · rw [e]
        exact ⟨History.mem_issue_live.mpr (.inr ⟨rfl, rfl⟩),
          fun hmem => lt_irrefl _ (ht.held_lt hmem)⟩
      · rw [e]
        exact ⟨ht.held n hheld, Finset.notMem_erase n _⟩
    · refine ht.unshared.update fun a hc => ?_
      rcases ha.carried_own hok hn (n := a.1) (c := a.2) hc with
        ⟨hold, _⟩ | ⟨hnew, _⟩ | ⟨hheld, _, _⟩
      · exact .inl hold
      · refine .inr fun u _ hu => ?_
        have hlt := ht.carried_lt (n := a.1) (c := a.2) hu
        rw [hnew] at hlt
        exact lt_irrefl _ hlt
      · exact .inr fun u _ hu => (ht.carried u a.1 a.2 hu).2 hheld
    · refine forall_update (P := fun _ p => ∀ serial c n, p = Pc.release serial c n →
        ∃ m, n = some m ∧ s.hist.serial m = serial) ?_ fun u _ serial c n hpc => ?_
      · exact fun serial c n => ha.releases_own ht hok hn
      · obtain ⟨m, rfl, hserial⟩ := ht.releases u serial c n hpc
        have hlt := ht.carried_lt (t := u) (n := m) (c := c) (by rw [hpc]; rfl)
        exact ⟨m, rfl, (ha.serial_eq hlt).trans hserial⟩

end DahuaP2p.Manager
