import DahuaP2p.TunnelLocks
import DahuaP2p.ManagerForget

/-! # The tunnel behind the manager

The manager sees a tunnel through `Close`, `SetOnClose`, `Retire`, `IsClosed` and `IsRetired`, and
its model has each of them as one atomic action on a `Manager.Tunnel`.  In the model of the tunnel
`Close` takes many steps.  `view_simulates` relates the two: seen through `Shared.view`, where a
tunnel counts as closed from the moment its socket is, every step of the tunnel is one of the
actions of the manager's model (`Manager.Tunnel.Moves`) or invisible.

* `t.mu` is taken from the moment `Close` sets `t.closed` to the moment it has closed the socket
  (`Guarded`), so whoever gets the lock sees the view.
* The callback runs exactly where the manager's model has it: after the step that closes, when it
  was installed then, and in a `SetOnClose` that comes too late.

`CloseAct` says the same of the calls of `Close`, for models in which they take many steps. -/

namespace DahuaP2p

open Threads

/-! ### Atomic actions -/

namespace Manager

/-- The atomic actions on a tunnel. -/
inductive Tunnel.Moves (tun : Tunnel) : Tunnel → Prop
  | keep : Moves tun tun
  | retire : Moves tun { tun with retired := true }
  | install : tun.closed = false → Moves tun { tun with onClose := true }
  | close : tun.closed = false → Moves tun { tun with closed := true }

end Manager

namespace Tunnel

variable {s s' : Shared} {pc pc' : Pc} {ok : World Shared Pc → Label Choice Time → Prop}
  {w : World Shared Pc}

/-! ### The view -/

/-- What the manager sees of the tunnel. -/
def Shared.view (s : Shared) : Manager.Tunnel where
  closed := s.life.socketClosed
  retired := s.life.retired
  onClose := s.life.onClose

/-- The goroutine has closed the socket, and is about to run the callback if there is one. -/
def Pc.notifying : Pc → Bool
  | .close (.callback _) _ => true
  | _ => false

@[simp] theorem Resumes.notifying (h : Resumes pc) : pc.notifying = false := by
  cases h <;> rfl

@[simp] theorem SendCall.written_notifying (k : SendCall) (e : Option SendError) :
    (k.written e).notifying = false := by
  rcases k.written_cases e with ⟨_, _, h⟩ | ⟨_, h⟩ <;> rw [h] <;> rfl

/-- How an action changes what the manager sees. -/
inductive LifeAct (s : Shared) : Pc → Shared → Pc → Prop
  | keep {pc pc' : Pc} {s' : Shared} : s'.view = s.view → s'.locks.mu = s.locks.mu →
      s'.life.closed = s.life.closed → s'.life.callbacks = s.life.callbacks →
      pc'.notifying = false → LifeAct s pc s' pc'
  | retire : LifeAct s .idle { s with life.retired := true } .idle
  | setOnCloseLate : s.locks.mu = false → s.life.closed = true →
      LifeAct s .idle { s with life.callbacks := s.life.callbacks + 1 } .idle
  | setOnClose : s.locks.mu = false → s.life.closed = false →
      LifeAct s .idle { s with life.onClose := true } .idle
  | enter {s' : Shared} (k : CloseCall) : s.locks.mu = false → s.life.closed = false →
      s'.view = s.view → s'.locks.mu = true → s'.life.closed = true →
      s'.life.callbacks = s.life.callbacks →
      LifeAct s (.close .enter k) s' (.close .stopAck k)
  | finish (k : CloseCall) :
      LifeAct s (.close .finish k) { s with locks.mu := false, life.socketClosed := true }
        (.close (.callback s.life.onClose) k)
  | callback (k : CloseCall) (installed : Bool) :
      LifeAct s (.close (.callback installed) k)
        { s with life.callbacks := s.life.callbacks + if installed then 1 else 0 } k.ret

theorem Acts.lifeAct (h : Acts s pc s' pc') : LifeAct s pc s' pc' := by
  rcases h with ⟨rfl, h⟩ | h
  · refine .keep rfl rfl rfl rfl ?_
    cases h with
    | sendCheckClosed | sendCheckExpired | sendSelectClosed | sendSelectDone | sendSelectTimeout
    | closeAgain => simp
    | _ => rfl
  · cases h with
    | retire => exact .retire
    | setOnCloseLate hmu hc => exact .setOnCloseLate hmu hc
    | setOnClose hmu hc => exact .setOnClose hmu hc
    | closeEnter k hmu hc => exact .enter k hmu hc rfl rfl rfl rfl
    | closeFinish k => exact .finish k
    | closeCallback k b => exact .callback k b
    | sendGiveBack | sendRelease | signalInterrupt | readerCount | sendWriteOk | sendWriteFail
    | sendBlockedOk | sendBlockedFail => exact .keep rfl rfl rfl rfl (by simp)
    | _ => exact .keep rfl rfl rfl rfl rfl

/-! ### The lock -/

/-- `t.mu` is taken while `t.closed` is set and the socket not closed yet, and only then. -/
def Guarded (s : Shared) : Prop :=
  s.locks.mu = true ∧ s.life.closed = true ∧ s.view.closed = false ∨
    s.locks.mu = false ∧ s.life.closed = s.view.closed

theorem Guarded.of_free (h : Guarded s) (hmu : s.locks.mu = false) :
    s.life.closed = s.view.closed := by
  rcases h with ⟨ht, _⟩ | ⟨_, he⟩
  · rw [hmu] at ht
    cases ht
  · exact he

theorem Guarded.of_taken (h : Guarded s) (hmu : s.locks.mu = true) :
    s.life.closed = true ∧ s.view.closed = false := by
  rcases h with ⟨_, h⟩ | ⟨hf, _⟩
  · exact h
  · rw [hmu] at hf
    cases hf

theorem LifeAct.guarded (h : LifeAct s pc s' pc') (hg : Guarded s)
    (hfinish : ∀ k, pc = .close .finish k → s.locks.mu = true) : Guarded s' := by
  cases h with
  | keep hview hmu hclosed =>
      unfold Guarded
      rw [hview, hmu, hclosed]
      exact hg
  | retire | setOnCloseLate | setOnClose | callback => exact hg
  | enter k hmu hopen hview htaken hclosed =>
      refine .inl ⟨htaken, hclosed, ?_⟩
      rw [hview, ← hg.of_free hmu, hopen]
  | finish k => exact .inr ⟨rfl, (hg.of_taken (hfinish k rfl)).1⟩

/-- The lock guards the flag, and a callback only runs when the socket is closed. -/
theorem guarded (h : system.Reach ok w) :
    Guarded w.shared ∧ ∀ t, (w.thr t).notifying = true → w.shared.view.closed = true := by
  refine system_invariant (I := fun w => Guarded w.shared ∧
    ∀ t, (w.thr t).notifying = true → w.shared.view.closed = true) ?_ ?_ ?_ h
  · refine fun now session _ => ⟨.inr ⟨rfl, rfl⟩, ?_⟩
    exact forall_startThreads (P := fun p => p.notifying = true → _) (fun h => nomatch h)
      (fun h => nomatch h) (fun h => nomatch h)
  · intro w t ch s pc hr hi _ _ ha
    have hfinish : ∀ k, w.thr t = .close .finish k → w.shared.locks.mu = true := by
      intro k hpc
      have hx := (resource_exclusive hr .mu).not_free (t := t) (by rw [hpc]; rfl)
      simpa [Shared.free] using hx
    have hact := ha.lifeAct
    have hstays : w.shared.view.closed = true → s.view.closed = true := by
      generalize w.thr t = p at hact
      cases hact with
      | keep hview | enter _ _ _ hview =>
          rw [hview]
          exact id
      | retire | setOnCloseLate | setOnClose | callback => exact id
      | finish => exact fun _ => rfl
    refine ⟨hact.guarded hi.1 hfinish, ?_⟩
    refine forall_update (P := fun _ p => Pc.notifying p = true → s.view.closed = true) ?_
      fun u _ hu => hstays (hi.2 u hu)
    intro hpc
    generalize w.thr t = p at hact
    cases hact with
    | keep _ _ _ _ hno =>
        rw [hno] at hpc
        cases hpc
    | finish => rfl
    | callback => simp at hpc
    | _ => cases hpc
  · intro w d _ hi
    exact hi

/-! ### Simulation -/

/-- One step of the tunnel, seen by the manager: an atomic action, and the callback runs where the
manager's model has it. -/
structure Simulates (s : Shared) (pc : Pc) (ch : Choice) (s' : Shared) (pc' : Pc) : Prop where
  moves : s.view.Moves s'.view
  /-- The goroutine that closes the tunnel runs the callback that is installed then. -/
  notifies : s.view.closed = false → s'.view.closed = true →
    ∃ k, pc' = .close (.callback s.view.onClose) k
  /-- A second `Close` returns without effect. -/
  again : ∀ k, pc = .close .enter k → s.view.closed = true → s' = s ∧ pc' = k.ret
  /-- `SetOnClose` installs the callback, or runs it when it comes too late. -/
  installs : pc = .idle → ch = .call .setOnClose →
    if s.view.closed then s'.life.callbacks = s.life.callbacks + 1 ∧ s'.view = s.view
    else s'.life.callbacks = s.life.callbacks ∧ s'.view = { s.view with onClose := true }
  /-- The callback runs at no other time. -/
  callbacks : s'.life.callbacks ≠ s.life.callbacks →
    s.view.closed = true ∧
      ((∃ k, pc = .close (.callback true) k) ∨ pc = .idle ∧ ch = .call .setOnClose)

theorem next_setOnClose {ch : Choice} (hn : next s .idle ch = some (s', pc'))
    (h : s'.life.callbacks ≠ s.life.callbacks) : ch = .call .setOnClose := by
  cases ch with
  | call c =>
      cases c with
      | setOnClose => rfl
      | close | dial =>
          cases hn
          exact absurd rfl h
      | _ =>
          simp only [next, stepCall] at hn
          split at hn
          all_goals cases hn
          exact absurd rfl h
  | _ => cases hn

theorem simulates_installs (hg : Guarded s)
    (hn : next s .idle (.call .setOnClose) = some (s', pc')) :
    if s.view.closed then s'.life.callbacks = s.life.callbacks + 1 ∧ s'.view = s.view
    else s'.life.callbacks = s.life.callbacks ∧ s'.view = { s.view with onClose := true } := by
  simp only [next, stepCall] at hn
  split at hn
  · cases hn
  · rw [← hg.of_free (Bool.of_not_eq_true ‹_›)]
    split at hn
    · cases hn
      rw [if_pos ‹_›]
      exact ⟨rfl, rfl⟩
    · cases hn
      rw [if_neg ‹_›]
      exact ⟨rfl, rfl⟩

theorem simulates_again {ch : Choice} {k : CloseCall} (hg : Guarded s)
    (hn : next s (.close .enter k) ch = some (s', pc')) (hclosed : s.view.closed = true) :
    s' = s ∧ pc' = k.ret := by
  cases ch with
  | go =>
      simp only [next, stepClose] at hn
      split at hn
      · cases hn
      · rw [← hg.of_free (Bool.of_not_eq_true ‹_›)] at hclosed
        rw [if_pos hclosed] at hn
        cases hn
        exact ⟨rfl, rfl⟩
  | _ => cases hn

/-- **Refinement.** Every step of a goroutine of the tunnel is an atomic action of the manager's
model, or invisible to the manager; and whoever gets `t.mu` sees the view. -/
theorem view_simulates (h : system.Reach ok w) :
    (w.shared.locks.mu = false → w.shared.life.closed = w.shared.view.closed) ∧
    ∀ t ch s pc, next w.shared (w.thr t) ch = some (s, pc) →
      Simulates w.shared (w.thr t) ch s pc := by
  obtain ⟨hg, hnotify⟩ := guarded h
  refine ⟨hg.of_free, fun t ch s pc hn => ?_⟩
  have hact := (next_cases hn).lifeAct
  have hcallback := hnotify t
  have hfinish : ∀ k, w.thr t = .close .finish k → w.shared.view.closed = false := by
    intro k hpc
    have hx := (resource_exclusive h .mu).not_free (t := t) (by rw [hpc]; rfl)
    exact (hg.of_taken (by simpa [Shared.free] using hx)).2
  generalize w.thr t = p at hn hact hcallback hfinish
  refine ⟨?_, ?_, ?_, ?_, ?_⟩
  · cases hact with
    | keep hview | enter _ _ _ hview =>
        rw [hview]
        exact .keep
    | setOnCloseLate | callback => exact .keep
    | retire => exact .retire
    | setOnClose hmu hopen => exact .install (hg.of_free hmu ▸ hopen)
    | finish k => exact .close (hfinish k rfl)
  · intro hopen hclosed
    cases hact with
    | keep hview | enter _ _ _ hview =>
        rw [hview, hopen] at hclosed
        cases hclosed
    | finish k => exact ⟨k, rfl⟩
    | _ =>
        change w.shared.view.closed = true at hclosed
        rw [hopen] at hclosed
        cases hclosed
  · rintro k rfl hclosed
    exact simulates_again hg hn hclosed
  · rintro rfl rfl
    exact simulates_installs hg hn
  · intro hne
    cases hact with
    | keep _ _ _ hsame | enter _ _ _ _ _ _ hsame => exact absurd hsame hne
    | retire | setOnClose | finish => exact absurd rfl hne
    | setOnCloseLate hmu hclosed =>
        exact ⟨hg.of_free hmu ▸ hclosed, .inr ⟨rfl, next_setOnClose hn hne⟩⟩
    | callback k b =>
        cases b with
        | false => exact absurd rfl hne
        | true => exact ⟨hcallback rfl, .inl ⟨k, rfl⟩⟩

/-! ### Inside `Close` -/

def SendCall.closeCall : SendCall → Option CloseCall
  | closeDisc _ _ _ k => some k
  | _ => none

def SignalCall.closeCall : SignalCall → Option CloseCall
  | close _ _ k => some k
  | _ => none

/-- The call of `Tunnel.Close` that the goroutine is in. -/
def Pc.closeCall : Pc → Option CloseCall
  | .close _ k => some k
  | .signal _ _ j => j.closeCall
  | .send _ k => k.closeCall
  | _ => none

section returns
variable (k : SendCall) (e : Option SendError) (j : SignalCall) (c : ConnId)

theorem SendCall.ret_closeCall : (k.ret e).closeCall = k.closeCall := by
  cases k <;> cases e <;> simp only [SendCall.ret] <;> (try split) <;> rfl

theorem SendCall.written_closeCall : (k.written e).closeCall = k.closeCall := by
  rcases k.written_cases e with ⟨_, _, h⟩ | ⟨_, h⟩ <;> rw [h] <;> rfl

theorem SignalCall.ret_closeCall : (j.ret c).closeCall = j.closeCall := by
  rcases j with _ | _ | _ | _ | _ <;> rfl

end returns

theorem Background.closeCall (h : Background pc) : pc.closeCall = none := by
  cases h <;> rfl

/-- What an action is to those who see the view and the calls of `Close`. -/
inductive CloseAct (s : Shared) : Pc → Shared → Pc → Prop
  | keep {pc pc' : Pc} {s' : Shared} : s'.view = s.view → pc'.closeCall = pc.closeCall →
      pc.notifying = false → pc'.notifying = false → CloseAct s pc s' pc'
  | retire : CloseAct s .idle { s with life.retired := true } .idle
  | setOnClose (life : Life) : CloseAct s .idle { s with life := life } .idle
  | enter {pc : Pc} {s' : Shared} (k : CloseCall) : s'.view = s.view → pc.closeCall = none →
      (k = .user → pc = .idle) → CloseAct s pc s' (.close .enter k)
  | again (k : CloseCall) : s.locks.mu = false → s.life.closed = true →
      CloseAct s (.close .enter k) s k.ret
  | finish (k : CloseCall) :
      CloseAct s (.close .finish k) { s with locks.mu := false, life.socketClosed := true }
        (.close (.callback s.life.onClose) k)
  | callback {s' : Shared} (k : CloseCall) (installed : Bool) : s'.view = s.view →
      CloseAct s (.close (.callback installed) k) s' k.ret

theorem Acts.closeAct (h : Acts s pc s' pc') : CloseAct s pc s' pc' := by
  rcases h with ⟨rfl, h⟩ | h
  · cases h with
    | callClose => exact .enter .user rfl rfl fun _ => rfl
    | closeAgain k hmu hc => exact .again k hmu hc
    | sendCheckClosed k | sendCheckExpired k | sendSelectClosed k | sendSelectDone k
    | sendSelectTimeout k =>
        exact .keep rfl (k.ret_closeCall _) rfl (Resumes.notifying (k.ret_resumes _))
    | _ => exact .keep rfl rfl rfl rfl
  · cases h with
    | retire => exact .retire
    | setOnCloseLate | setOnClose => exact .setOnClose _
    | closeFinish k => exact .finish k
    | closeCallback k b => exact .callback k b rfl
    | readerErrClose | heartbeatMissed | heartbeatStalled | flushClose =>
        exact .enter _ rfl rfl CloseCall.noConfusion
    | sendGiveBack k | sendRelease k =>
        exact .keep rfl (k.ret_closeCall _) rfl (Resumes.notifying (k.ret_resumes _))
    | sendWriteOk k | sendWriteFail k | sendBlockedOk k | sendBlockedFail k =>
        exact .keep rfl (k.written_closeCall _) rfl (k.written_notifying _)
    | signalInterrupt c j =>
        exact .keep rfl (j.ret_closeCall c) rfl (Resumes.notifying (j.ret_resumes c))
    | readerCount =>
        exact .keep rfl (dispatch_background _).closeCall rfl
          (Resumes.notifying (dispatch_resumes _))
    | _ => exact .keep rfl rfl rfl rfl

/-- `SetOnClose` takes one step. -/
theorem setOnClose_idle (h : next s .idle (.call .setOnClose) = some (s', pc')) : pc' = .idle := by
  unfold next stepCall at h
  dsimp only at h
  split at h
  · cases h
  · split at h <;> (cases h; rfl)

/-- What a call does at once, apart from `SetOnClose`. -/
theorem call_view {call : Call} (hcall : call ≠ .setOnClose)
    (h : next s .idle (.call call) = some (s', pc')) :
    s' = { s with life.retired := true } ∧ pc' = .idle ∨
    s'.view = s.view ∧ (pc' = .close .enter .user ∨ pc'.closeCall = none) := by
  cases call with
  | close =>
      cases h
      exact .inr ⟨rfl, .inl rfl⟩
  | dial =>
      cases h
      exact .inr ⟨rfl, .inr rfl⟩
  | retire =>
      obtain ⟨_, he⟩ := Option.ite_none_left_eq_some.mp h
      cases he
      exact .inl ⟨rfl, rfl⟩
  | setOnClose => exact absurd rfl hcall
  | _ =>
      obtain ⟨_, he⟩ := Option.ite_none_right_eq_some.mp h
      cases he
      exact .inr ⟨rfl, .inr rfl⟩

/-! ### Whose goroutine it is -/

def SendCall.role : SendCall → CloseCall
  | closeDisc _ _ _ k => k
  | readerSync | readerOverflow _ _ => .reader
  | flush => .flush
  | heartbeat => .heartbeat
  | dial _ _ _ _ | connClose _ _ _ | write _ _ _ _ _ => .user

def SignalCall.role : SignalCall → CloseCall
  | close _ _ k => k
  | readerDisc | readerOverflow _ => .reader
  | connClose _ => .user

/-- Who would be the caller if the goroutine called `Tunnel.Close`. -/
def Pc.role : Pc → CloseCall
  | .close _ k => k
  | .signal _ _ j => j.role
  | .send _ k => k.role
  | .reader _ => .reader
  | .heartbeat _ => .heartbeat
  | .flush _ => .flush
  | _ => .user

section returns
variable (k : SendCall) (e : Option SendError) (j : SignalCall) (l : CloseCall) (c : ConnId)

theorem SendCall.ret_role : (k.ret e).role = k.role := by
  cases k <;> cases e <;> simp only [SendCall.ret] <;> (try split) <;> rfl

theorem SendCall.written_role : (k.written e).role = k.role := by
  rcases k.written_cases e with ⟨_, _, h⟩ | ⟨_, h⟩ <;> rw [h] <;> rfl

theorem SignalCall.ret_role : (j.ret c).role = j.role := by
  rcases j with _ | _ | _ | _ | _ <;> rfl

theorem CloseCall.ret_role : l.ret = .idle ∨ l.ret.role = l := by
  cases l <;> first | exact .inl rfl | exact .inr rfl

end returns

theorem dispatch_role (b : Ptcp.Body) : (dispatch b).role = .reader := by
  unfold dispatch
  split
  case h_3 => split <;> (try split) <;> rfl
  all_goals rfl

/-- A goroutine keeps its role until it returns. -/
theorem Acts.role (h : Acts s pc s' pc') (hidle : pc ≠ .idle) :
    pc' = .idle ∨ pc'.role = pc.role := by
  rcases h with ⟨rfl, h⟩ | h
  · cases h with
    | callClose | callDial | callConnClose | callWrite | callRead => exact absurd rfl hidle
    | sendCheckClosed k | sendCheckExpired k | sendSelectClosed k | sendSelectDone k
    | sendSelectTimeout k => exact Or.inr (k.ret_role _)
    | closeAgain k => exact k.ret_role
    | _ => first | exact Or.inr rfl | exact Or.inl rfl
  · cases h with
    | sendGiveBack k | sendRelease k => exact Or.inr (k.ret_role _)
    | sendWriteOk k | sendWriteFail k | sendBlockedOk k | sendBlockedFail k =>
        exact Or.inr (k.written_role _)
    | signalInterrupt c j => exact Or.inr (j.ret_role c)
    | closeCallback k => exact k.ret_role
    | readerCount q => exact Or.inr (dispatch_role q.body)
    | retire | setOnCloseLate | setOnClose | setDeadline | setReadDeadline | setWriteDeadline
    | flushFires => exact absurd rfl hidle
    | _ => first | exact Or.inr rfl | exact Or.inl rfl

end Tunnel

end DahuaP2p
