import DahuaP2p.Broadcast
import DahuaP2p.TunnelOrphans

/-! # No lost wake-up

A `Read`, and a `Write` in `acquireSendPermit`, take down the deadline of their `Conn`, its closed
flag and a notification channel under `c.mu`, and wait in a `select`.  The setters replace deadline
and channel and close the old channel; so deadlines and channels are a `Broadcast.Board`, with one
key for each direction of each `Conn`.

`Dial` makes both channels together with the `Conn` and nothing sets them to `nil`, so the fields
are no options here, and the branches that make a missing channel have no counterpart. -/

namespace DahuaP2p.Tunnel

open BigEndian Broadcast Ptcp Threads

variable {s s' : Shared} {pc pc' : Pc} {c : ConnId} {w w' : World Shared Pc}
  {ok : World Shared Pc → Label Choice Time → Prop}

/-! ### The board of a tunnel -/

/-- The direction a deadline is for. -/
inductive Direction
  | read | write
  deriving DecidableEq

def Conn.deadline (cn : Conn) : Direction → Time
  | .read => cn.readDeadline
  | .write => cn.writeDeadline

def Conn.deadlineChanged (cn : Conn) : Direction → ChanId
  | .read => cn.readDeadlineChanged
  | .write => cn.writeDeadlineChanged

/-- The deadlines and notification channels. -/
def Table.board (tb : Table) : Board (ConnId × Direction) Time where
  count := tb.chanCount
  closed := tb.chanClosed
  value k := (tb.conns k.1).deadline k.2
  chan k := (tb.conns k.1).deadlineChanged k.2

/-- The keys in use. -/
def Table.made (tb : Table) : Set (ConnId × Direction) := {k | k.1 < tb.connCount}

theorem Table.setConn_board (tb : Table) (d : ConnId) (cn : Conn)
    (hd : cn.deadline = (tb.conns d).deadline)
    (hc : cn.deadlineChanged = (tb.conns d).deadlineChanged) :
    (tb.setConn d cn).board = tb.board := by
  have hval : (tb.setConn d cn).board.value = tb.board.value := by
    funext k
    exact congrFun (tb.setConn_field d k.1 cn Conn.deadline hd) k.2
  have hchan : (tb.setConn d cn).board.chan = tb.board.chan := by
    funext k
    exact congrFun (tb.setConn_field d k.1 cn Conn.deadlineChanged hc) k.2
  rw [Board.mk.injEq]
  exact ⟨rfl, rfl, hval, hchan⟩

/-- What a setter does to the table is a `post`. -/
theorem Table.board_post (tb : Table) (c : ConnId) (cn : Conn) (r : Direction) (t : Time)
    (hd : cn.deadline = Function.update (tb.conns c).deadline r t)
    (hc : cn.deadlineChanged = Function.update (tb.conns c).deadlineChanged r tb.chanCount) :
    Table.board { tb with
      chanClosed := Function.update tb.chanClosed ((tb.conns c).deadlineChanged r) true
      chanCount := tb.chanCount + 1
      conns := Function.update tb.conns c cn } = tb.board.post (c, r) t := by
  have hkey : ∀ (β : Type) (f : Conn → Direction → β) (b : β),
      f cn = Function.update (f (tb.conns c)) r b → ∀ k : ConnId × Direction,
        f (Function.update tb.conns c cn k.1) k.2 =
          Function.update (fun k : ConnId × Direction => f (tb.conns k.1) k.2) (c, r) b k := by
    rintro β f b hf ⟨d, q⟩
    by_cases hdc : d = c
    · subst hdc
      by_cases hq : q = r
      · subst hq
        simp [hf]
      · simp [hf, hq]
    · simp [hdc]
  rw [Board.mk.injEq]
  exact ⟨rfl, rfl, funext (hkey _ Conn.deadline t hd), funext (hkey _ Conn.deadlineChanged _ hc)⟩

theorem Shared.setReadDeadline_board (s : Shared) (c : ConnId) (t : Time) :
    (s.setReadDeadline c t).table.board = s.table.board.post (c, .read) t := by
  rw [← s.table.board_post c { s.table.conns c with
    readDeadline := t, readDeadlineChanged := s.table.chanCount }]
  · simp [Shared.setReadDeadline, Table.notifyReadDeadline, Table.setConn, Conn.deadlineChanged]
  · funext r
    cases r <;> rfl
  · funext r
    cases r <;> rfl

theorem Shared.setWriteDeadline_board (s : Shared) (c : ConnId) (t : Time) :
    (s.setWriteDeadline c t).table.board = s.table.board.post (c, .write) t := by
  rw [← s.table.board_post c { s.table.conns c with
    writeDeadline := t, writeDeadlineChanged := s.table.chanCount }]
  · simp [Shared.setWriteDeadline, Table.notifyWriteDeadline, Table.setConn, Conn.deadlineChanged]
  · funext r
    cases r <;> rfl
  · funext r
    cases r <;> rfl

section panics
variable (s : Shared) (c : ConnId) (t : Time)

/-- A setter panics if the channel it closes is closed. -/
theorem Shared.setReadDeadline_panicked :
    (s.setReadDeadline c t).life.panicked =
      (s.life.panicked || s.table.board.closed (s.table.board.chan (c, .read))) := by
  simp only [Shared.setReadDeadline, Life.closing, Table.setConn_conns_self]
  rfl

theorem Shared.setWriteDeadline_panicked :
    (s.setWriteDeadline c t).life.panicked =
      (s.life.panicked || s.table.board.closed (s.table.board.chan (c, .write))) := by
  simp only [Shared.setWriteDeadline, Life.closing, Table.setConn_conns_self]
  rfl

end panics

theorem Table.install_board (tb : Table) (m : RealmMap) (id port : UInt32) :
    (tb.install m id port).board =
      (tb.board.add (tb.connCount, .read) 0).add (tb.connCount, .write) 0 := by
  have hkey : ∀ k : ConnId × Direction,
      ((tb.install m id port).board.value k, (tb.install m id port).board.chan k) =
        (((tb.board.add (tb.connCount, .read) 0).add (tb.connCount, .write) 0).value k,
          ((tb.board.add (tb.connCount, .read) 0).add (tb.connCount, .write) 0).chan k) := by
    rintro ⟨d, r⟩
    by_cases hd : d = tb.connCount
    · subst hd
      cases r <;> simp [Table.board, Board.add, Table.install_conns_self, Conn.deadline,
        Conn.deadlineChanged]
    · simp [Table.board, Board.add, Table.install, hd]
  rw [Board.mk.injEq]
  exact ⟨rfl, rfl, funext fun k => (Prod.mk.inj (hkey k)).1,
    funext fun k => (Prod.mk.inj (hkey k)).2⟩

theorem Table.install_made (tb : Table) (m : RealmMap) (id port : UInt32) :
    (tb.install m id port).made =
      insert (tb.connCount, .write) (insert (tb.connCount, .read) tb.made) := by
  ext ⟨d, r⟩
  have hlt : (d, r) ∈ (tb.install m id port).made ↔ d < tb.connCount ∨ d = tb.connCount :=
    Nat.lt_succ_iff_lt_or_eq
  rw [hlt]
  cases r <;> simp [Table.made, or_comm]

/-- Deadlines are set, for `Conn`s that `Dial` has returned. -/
def Shared.Posts (s s' : Shared) : Prop :=
  ∃ ps : List ((ConnId × Direction) × Time), (∀ p ∈ ps, s.hist.returned p.1.1 = true) ∧
    s'.table.board = s.table.board.posts ps ∧ s'.table.made = s.table.made

/-- The setters post, and `Dial` adds two keys. -/
theorem Acts.board (h : Acts s pc s' pc') :
    s.Posts s' ∨ ∃ m id port, s'.table = s.table.install m id port := by
  have hsame : s'.table.board = s.table.board → s'.table.made = s.table.made → s.Posts s' :=
    fun hb hm => ⟨[], by simp, hb, hm⟩
  rcases h with ⟨rfl, _⟩ | h
  · exact Or.inl (hsame rfl rfl)
  · cases h with
    | setDeadline d t hret =>
        left
        refine ⟨[((d, .read), t), ((d, .write), t)], by simp [hret], ?_, rfl⟩
        rw [Shared.setWriteDeadline_board, Shared.setReadDeadline_board]
        rfl
    | setReadDeadline d t hret =>
        exact Or.inl ⟨[((d, .read), t)], by simp [hret], s.setReadDeadline_board d t, rfl⟩
    | setWriteDeadline d t hret =>
        exact Or.inl ⟨[((d, .write), t)], by simp [hret], s.setWriteDeadline_board d t, rfl⟩
    | signalSetClosed d | connCloseEnter d | signalCloseCh d | readerConn _ d | readerEnqueue _ d
    | dialGranted _ _ _ d | readBuffered d | readDrained d | readData d | readCopy d =>
        exact Or.inl (hsame (s.table.setConn_board d _ (by rfl) (by rfl)) rfl)
    | dialInstall port a id m => exact Or.inr ⟨m, id, port, rfl⟩
    | _ => exact Or.inl (hsame rfl rfl)

/-! ### Channels are closed once -/

/-- The channels of the tunnel's `Conn`s are open and differ. -/
theorem board_valid (h : system.Reach ok w) : w.shared.table.board.Valid w.shared.table.made := by
  refine system_invariant (I := fun w => w.shared.table.board.Valid w.shared.table.made)
    ?_ ?_ ?_ h
  · intro now session _
    exact ⟨fun k hk => absurd hk (Nat.not_lt_zero _), fun k hk => absurd hk (Nat.not_lt_zero _),
      fun k hk => absurd hk (Nat.not_lt_zero _), fun _ _ => rfl⟩
  · intro w t ch s pc hr hi _ _ ha
    have hret := (scope hr).shared.returned
    rcases ha.board with ⟨ps, hps, hb, hm⟩ | ⟨m, id, port, htab⟩
    · rw [hb, hm]
      exact hi.posts fun p hp => hret _ (hps p hp)
    · have hread : (w.shared.table.connCount, Direction.read) ∉ w.shared.table.made :=
        lt_irrefl w.shared.table.connCount
      have hwrite : (w.shared.table.connCount, Direction.write) ∉
          insert (w.shared.table.connCount, Direction.read) w.shared.table.made := by
        simp [Table.made]
      rw [htab, Table.install_board, Table.install_made]
      exact (hi.add hread).add hwrite
  · intro w d _ hi
    exact hi

/-- Where channels are open until they are closed once, an action does not panic. -/
theorem Acts.unpanicked (h : Acts s pc s' pc') (hs : s.life.panicked = false)
    (hv : s.table.board.Valid s.table.made)
    (hret : ∀ c, s.hist.returned c = true → c < s.table.connCount)
    (honce : ∀ c, (s.table.conns c).closeOnce = (s.table.conns c).closeCh)
    (hdone : s.life.done = s.life.closed) : s'.life.panicked = false := by
  rcases h with ⟨rfl, _⟩ | h
  · exact hs
  · cases h with
    | setDeadline d t hd =>
        -- the second setter finds the board of the first
        have hmade : (d, Direction.read) ∈ s.table.made := hret d hd
        have hread := hv.isOpen (d, .read) hmade
        have hwrite := (hv.post (v := t) hmade).isOpen (d, .write) (hret d hd)
        rw [Shared.setWriteDeadline_panicked, Shared.setReadDeadline_board, hwrite,
          Shared.setReadDeadline_panicked, hs, hread]
        rfl
    | setReadDeadline d t hd =>
        rw [Shared.setReadDeadline_panicked, hs, hv.isOpen (d, .read) (hret d hd)]
        rfl
    | setWriteDeadline d t hd =>
        rw [Shared.setWriteDeadline_panicked, hs, hv.isOpen (d, .write) (hret d hd)]
        rfl
    | signalCloseCh d k hfirst =>
        rw [honce] at hfirst
        simp [Life.closing, hs, hfirst]
    | closeEnter k _ hopen =>
        rw [← hdone] at hopen
        simp [Life.closing, hs, hopen]
    | _ => exact hs

theorem not_panicked (h : system.Reach ok w) : w.shared.life.panicked = false := by
  refine system_invariant (I := fun w => w.shared.life.panicked = false) ?_ ?_ ?_ h
  · intro now session _
    rfl
  · intro w t ch s pc hr hi _ _ ha
    exact ha.unpanicked hi (board_valid hr) (scope hr).shared.returned (closeCh_of_closed hr).once
      (done_eq_closed hr)
  · intro w d _ hi
    exact hi

/-! ### The waiters -/

/-- What a goroutine in a `select` has taken down. -/
def Pc.waits : Pc → Option ((ConnId × Direction) × Time × ChanId)
  | .read (.select c _ d ch) => some ((c, .read), d, ch)
  | .send (.select d ch) k => k.writer.map fun c => ((c, .write), d, ch)
  | _ => none

@[simp] theorem Resumes.waits (h : Resumes pc) : pc.waits = none := by
  cases h <;> rfl

@[simp] theorem SendCall.written_waits (k : SendCall) (e : Option SendError) :
    (k.written e).waits = none := by
  rcases k.written_cases e with ⟨_, _, h⟩ | ⟨_, h⟩ <;> rw [h] <;> rfl

/-- A goroutine that begins to wait has taken down what the board shows. -/
theorem Acts.waits (h : Acts s pc s' pc') {k : ConnId × Direction} {d : Time} {ch : ChanId}
    (hp : pc'.waits = some (k, d, ch)) : s' = s ∧ s.table.board.Seen k d ch := by
  rcases h with ⟨rfl, h⟩ | h
  · refine ⟨rfl, ?_⟩
    cases h with
    | sendCheck j c hj =>
        simp only [Pc.waits, hj, Option.map_some] at hp
        cases hp
        exact Or.inl ⟨rfl, rfl⟩
    | readWait c n =>
        cases hp
        exact Or.inl ⟨rfl, rfl⟩
    | sendCheckClosed | sendCheckExpired | sendSelectClosed | sendSelectDone | sendSelectTimeout
    | closeAgain =>
        rw [Resumes.waits (by simp)] at hp
        cases hp
    | _ => cases hp
  · cases h with
    | sendWriteOk | sendWriteFail | sendBlockedOk | sendBlockedFail =>
        rw [SendCall.written_waits] at hp
        cases hp
    | sendGiveBack | sendRelease | signalInterrupt | closeCallback | readerCount =>
        rw [Resumes.waits (by simp)] at hp
        cases hp
    | _ => cases hp

/-- What was taken down stays valid. -/
theorem Acts.seen (h : Acts s pc s' pc') {k : ConnId × Direction} {d : Time} {ch : ChanId}
    (hk : k ∈ s.table.made) (hseen : s.table.board.Seen k d ch) :
    s'.table.board.Seen k d ch := by
  rcases h.board with ⟨ps, _, hb, _⟩ | ⟨m, id, port, htab⟩
  · rw [hb]
    exact hseen.posts
  · have hne : ∀ r, k ≠ (s.table.connCount, r) := by
      rintro r rfl
      exact absurd hk (lt_irrefl s.table.connCount)
    rw [htab, Table.install_board]
    exact (hseen.add (hne _)).add (hne _)

theorem Pc.Scoped.of_waits (h : pc.Scoped s) {k : ConnId × Direction} {d : Time} {ch : ChanId}
    (hp : pc.waits = some (k, d, ch)) : k ∈ s.table.made := by
  cases pc with
  | read p =>
      cases p with
      | select =>
          cases hp
          exact h.1
      | _ => cases hp
  | send p j =>
      cases p with
      | select =>
          cases j with
          | write =>
              cases hp
              exact h.2.1
          | _ => cases hp
      | _ => cases hp
  | _ => cases hp

theorem seen (h : system.Reach ok w) {t : ℕ} {k : ConnId × Direction} {d : Time} {ch : ChanId}
    (ht : (w.thr t).waits = some (k, d, ch)) : w.shared.table.board.Seen k d ch := by
  refine system_held (f := Pc.waits) (P := fun s q => s.table.board.Seen q.1 q.2.1 q.2.2)
    rfl rfl rfl ?_ ?_ (fun _ _ _ hseen => hseen) h ht
  · rintro w t s pc u ⟨k, d, ch⟩ hr ha hu hseen
    exact ha.seen (Pc.Scoped.of_waits ((scope hr).thr u) hu) hseen
  · rintro w t s pc ⟨k, d, ch⟩ _ ha hp
    obtain ⟨rfl, hseen⟩ := ha.waits hp
    exact Or.inr hseen

/-- A goroutine that waits has seen the present state of its `Conn`, or will be woken. -/
theorem waiting (h : system.Reach ok w) {t : ℕ} {r : Direction} {d : Time} {ch : ChanId}
    (ht : (w.thr t).waits = some ((c, r), d, ch)) :
    (d = (w.shared.table.conns c).deadline r ∧ ch = (w.shared.table.conns c).deadlineChanged r ∧
      (w.shared.table.conns c).closed = false) ∨
    w.shared.table.chanClosed ch = true ∨ (w.shared.table.conns c).closeCh = true ∨
      ∃ u, (w.thr u).signalling = some c := by
  cases hcl : (w.shared.table.conns c).closed with
  | true => exact Or.inr (Or.inr ((closeCh_of_closed h).closed c hcl))
  | false =>
      rcases seen h ht with ⟨hd, hch⟩ | hclosed
      · exact Or.inl ⟨hd, hch, rfl⟩
      · exact Or.inr (Or.inl hclosed)

/-- **No lost wake-up.**  A `Read` and a `Write` blocked in their `select` have the deadline and the
open flag that their `Conn` still has, or a channel they wait on is closed, or a `signalClosed` has
yet to close `closeCh`; and no channel has been closed twice. -/
theorem no_lost_wakeup (h : system.Reachable w) :
    (∀ t c n d ch, w.thr t = .read (.select c n d ch) →
      (d = (w.shared.table.conns c).readDeadline ∧
        ch = (w.shared.table.conns c).readDeadlineChanged ∧
        (w.shared.table.conns c).closed = false) ∨
      w.shared.table.chanClosed ch = true ∨ (w.shared.table.conns c).closeCh = true ∨
        ∃ u, (w.thr u).signalling = some c) ∧
    (∀ t k c d ch, w.thr t = .send (.select d ch) k → k.writer = some c →
      (d = (w.shared.table.conns c).writeDeadline ∧
        ch = (w.shared.table.conns c).writeDeadlineChanged ∧
        (w.shared.table.conns c).closed = false) ∨
      w.shared.table.chanClosed ch = true ∨ (w.shared.table.conns c).closeCh = true ∨
        ∃ u, (w.thr u).signalling = some c) ∧
    w.shared.life.panicked = false := by
  refine ⟨fun t c n d ch ht => ?_, fun t k c d ch ht hk => ?_, not_panicked h⟩
  · refine waiting h (t := t) (r := .read) ?_
    rw [ht]
    rfl
  · refine waiting h (t := t) (r := .write) ?_
    rw [ht]
    simp [Pc.waits, hk]

/-- A `Write` has the socket; another `Write` and a `Read` wait; the deadlines are set and `Close`
has set the closed flag. -/
def wakeScript : List (Label Choice Time) :=
  blockedScript ++ acts 5 (.call (.write 0 [2]) :: gos 5) ++ acts 6 [.call (.read 0 2), .go] ++
    acts 7 [.call (.setDeadline 0 100)] ++ acts 4 [.call (.connClose 0), .go]

theorem no_lost_wakeup_wakeScript :
    ∃ w, system.exec (fun _ _ => True) (start 1 newSession) wakeScript = some w ∧
      w.thr 6 = .read (.select 0 2 0 0) ∧ w.thr 5 = .send (.select 0 1) (.write 7 0 0 [2] []) ∧
      (w.shared.table.conns 0).closed = true ∧
      (w.shared.table.chanClosed 0 = true ∨ (w.shared.table.conns 0).closeCh = true ∨
        ∃ u, (w.thr u).signalling = some 0) ∧
      (w.shared.table.chanClosed 1 = true ∨ (w.shared.table.conns 0).closeCh = true ∨
        ∃ u, (w.thr u).signalling = some 0) := by
  have hrun : (system.exec (fun _ _ => True) (start 1 newSession) wakeScript).map (fun w =>
      (w.thr 6, w.thr 5, (w.shared.table.conns 0).closed)) =
      some (.read (.select 0 2 0 0), .send (.select 0 1) (.write 7 0 0 [2] []), true) := by
    decide +kernel
  obtain ⟨w, hw, he⟩ := Option.map_eq_some_iff.mp hrun
  obtain ⟨h₆, he⟩ := Prod.mk.inj he
  obtain ⟨h₅, hclosed⟩ := Prod.mk.inj he
  have hr : system.Reachable w := reach_of_exec (by decide) hw
  obtain ⟨hreads, hwrites, _⟩ := no_lost_wakeup hr
  have hnot : ∀ {p q : Prop}, ¬ (p ∧ q ∧ (w.shared.table.conns 0).closed = false) := by
    rintro p q ⟨_, _, hopen⟩
    rw [hclosed] at hopen
    cases hopen
  exact ⟨w, hw, h₆, h₅, hclosed, (hreads 6 0 2 0 0 h₆).resolve_left hnot,
    (hwrites 5 _ 0 0 1 h₅ rfl).resolve_left hnot⟩

end DahuaP2p.Tunnel
