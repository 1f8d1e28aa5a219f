import DahuaP2p.Handshake
import DahuaP2p.DirectSession

/-! # The dialogue of the handshake

`Handshake` asks its questions over three sockets and may stop after any of them.

* `Question` and `script`: what is asked, over which socket, and in which order.  Only the request
  that starts the relay depends on an answer, by the token of the agent.
* `Talks m k`: the first `m` sockets are open and have asked the first `k` questions of the script,
  and no step between two questions changes that (`Net.Quiet`).  A request asks the next question
  (`request_talks`).
* `dialogue_script`: however the handshake ends, its sockets have asked the questions up to some
  point of the script, each socket its own ones, numbered from 1; what else a socket has sent came
  after the whole script.
* `handshake_provenance`: the session of a handshake that succeeds was opened with a sign that the
  socket of the relay has received from the agent. -/

namespace DahuaP2p.Dh

open BigEndian GoStrings Ptcp Programs Prog Ownership

/-! ### Questions -/

/-- The requests of the handshake. -/
inductive Question where
  | probeServer
  | onlineServer
  | probeDevice
  | infoDevice
  | onlineRelay
  | channel
  | relayAgent
  | relayStart (token : Bytes)
  | relayChannel
deriving DecidableEq, Repr

/-- The sockets are numbered in the order in which the variables get them. -/
def Handle.index : Handle → ℕ
  | mainClient => 0
  | p2pClient => 1
  | deviceClient => 2

theorem index_ne {h h' : Handle} (hne : h ≠ h') : h.index ≠ h'.index := by
  cases h <;> cases h' <;> first | exact absurd rfl hne | decide

namespace Question

/-- The variable whose socket asks. -/
def handle : Question → Handle
  | probeServer | onlineServer | onlineRelay => .mainClient
  | probeDevice | infoDevice | relayAgent | relayStart _ | relayChannel => .p2pClient
  | channel => .deviceClient

def path (serial : Bytes) : Question → Bytes
  | probeServer => ascii "/probe/p2psrv"
  | onlineServer => ascii "/online/p2psrv/" ++ serial
  | probeDevice => ascii "/probe/device/" ++ serial
  | infoDevice => ascii "/info/device/" ++ serial
  | onlineRelay => ascii "/online/relay"
  | channel => ascii "/device/" ++ serial ++ ascii "/p2p-channel"
  | relayAgent => ascii "/relay/agent"
  | relayStart token => ascii "/relay/start/" ++ token
  | relayChannel => ascii "/device/" ++ serial ++ ascii "/relay-channel"

/-- The question is asked with a body. -/
def posts : Question → Bool
  | channel | relayStart _ | relayChannel => true
  | _ => false

/-- The datagram asks the question, as request number `cseq` of its socket. -/
def AskedBy (serial : Bytes) (q : Question) (cseq : ℕ) (data : Bytes) : Prop :=
  ∃ auth body : Bytes, (q.posts = true ↔ body ≠ []) ∧
    data = (if q.posts then ascii "DHPOST" else ascii "DHGET") ++ ascii " " ++ q.path serial ++
      ascii " HTTP/1.1\r\nCSeq: " ++ decimal cseq ++ ascii "\r\nAuthorization: " ++ auth ++
      ascii "\r\n\r\n" ++ body

end Question

/-- The questions in their order. -/
def script (token : Bytes) : List Question :=
  [.probeServer, .onlineServer, .probeDevice, .infoDevice, .onlineRelay, .channel, .relayAgent,
    .relayStart token, .relayChannel]

/-- What the socket of a variable has to ask of the first `k` questions. -/
def questions (token : Bytes) (k : ℕ) (h : Handle) : List Question :=
  ((script token).take k).filter fun q => q.handle = h

/-- The datagrams ask these questions, one each, with the numbers from 1 on. -/
def Asked (serial : Bytes) (qs : List Question) (sent : List Sent) : Prop :=
  sent.length = qs.length ∧ ∀ (j : ℕ) (q : Question), qs[j]? = some q →
    ∃ s, sent[j]? = some s ∧ q.AskedBy serial (j + 1) s.data

theorem Asked.nil (serial : Bytes) : Asked serial [] [] := ⟨rfl, nofun⟩

theorem Asked.concat {serial : Bytes} {qs : List Question} {sent : List Sent} {q : Question}
    {s : Sent} (h : Asked serial qs sent) (hq : q.AskedBy serial (qs.length + 1) s.data) :
    Asked serial (qs ++ [q]) (sent ++ [s]) := by
  refine ⟨by rw [List.length_append, List.length_append, h.1]; rfl, fun j p hp => ?_⟩
  rcases getElem?_concat_cases hp with ⟨hj, hp⟩ | ⟨rfl, rfl⟩
  · obtain ⟨s', hs', hp⟩ := h.2 j p hp
    rw [List.getElem?_append_left (h.1 ▸ hj)]
    exact ⟨s', hs', hp⟩
  · exact ⟨s, by rw [← h.1, List.getElem?_concat_length], hq⟩

theorem questions_succ {token : Bytes} {k : ℕ} {q : Question} (hq : (script token)[k]? = some q)
    (h : Handle) : questions token (k + 1) h =
      questions token k h ++ if q.handle = h then [q] else [] := by
  rw [questions, List.take_add_one, hq, List.filter_append]
  simp [questions, List.filter_singleton]

/-- Before the relay is started the token does not matter. -/
theorem script_take (token token' : Bytes) {k : ℕ} (hk : k ≤ 7) :
    (script token).take k = (script token').take k := by
  have h : ∀ t, (script t).take k = ((script t).take 7).take k := fun t => by
    rw [List.take_take, Nat.min_eq_left hk]
  rw [h token, h token']
  rfl

/-! ### Sockets that talk -/

section talk
variable (opts : HandshakeOptions) (net₀ : Net)

/-- The local port that a variable's socket is opened with. -/
def Handle.port : Handle → ℤ
  | deviceClient => opts.p2pPort
  | _ => 0

/-- What the socket of a variable will read, if it can be opened. -/
def inboxOf (h : Handle) : List Event :=
  match net₀.listens.getD h.index (fun _ => .error "too many open files") (h.port opts) with
  | .ok l => l.inbox
  | .error _ => []

/-- The first `m` sockets are open and have asked the first `k` questions, and nothing else. -/
structure Talks (m k : ℕ) (token : Bytes) (n : Net) : Prop where
  opened : ∀ q ∈ (script token).take k, q.handle.index < m
  listens : n.listens = net₀.listens.drop m
  asked : ∀ h : Handle, h.index < m →
    Asked opts.serial (questions token k h) (n.sockets h.index).client.sent
  cseq : ∀ h : Handle, h.index < m →
    (n.sockets h.index).cseq = UInt32.ofNat (questions token k h).length
  inbox : ∀ h : Handle, h.index < m →
    (n.sockets h.index).client.inbox <:+ inboxOf opts net₀ h

/-- The first `m` sockets have asked the first `k` questions.  A socket to the agent or to the
device may have sent more, but only after the whole script. -/
structure Told (serial : Bytes) (m k : ℕ) (token : Bytes) (n : Net) : Prop where
  opened : ∀ q ∈ (script token).take k, q.handle.index < m
  asked : ∀ h : Handle, h.index < m → ∃ requests more,
    (n.sockets h.index).client.sent = requests ++ more ∧
      Asked serial (questions token k h) requests ∧
      (more ≠ [] → (script token).length ≤ k ∧ h ≠ .mainClient)

/-- The dialogue has stopped at some point of the script. -/
def Stopped (serial : Bytes) (m : ℕ) (n : Net) : Prop := ∃ k token, Told serial m k token n

variable {opts net₀} {m k : ℕ} {token : Bytes} {n n' : Net}

theorem Talks.told (h : Talks opts net₀ m k token n) : Told opts.serial m k token n :=
  ⟨h.opened, fun v hv => ⟨_, [], (List.append_nil _).symm, h.asked v hv, fun hne => absurd rfl hne⟩⟩

theorem Told.of_sent {serial : Bytes} (h : Told serial m k token n)
    (hsent : ∀ i, (n'.sockets i).client.sent = (n.sockets i).client.sent) :
    Told serial m k token n' :=
  ⟨h.opened, fun v hv => by
    rw [hsent]
    exact h.asked v hv⟩

theorem Talks.stopped (h : Talks opts net₀ m k token n) : Stopped opts.serial m n :=
  ⟨k, token, h.told⟩

theorem Talks.of_token (h : Talks opts net₀ m k token n) (token' : Bytes) (hk : k ≤ 7) :
    Talks opts net₀ m k token' n := by
  have hquestions : questions token' k = questions token k := by
    funext v
    rw [questions, questions, script_take token' token hk]
  refine ⟨?_, h.listens, ?_, ?_, h.inbox⟩
  · rw [script_take token' token hk]
    exact h.opened
  · rw [hquestions]
    exact h.asked
  · rw [hquestions]
    exact h.cseq

/-- A step that neither sends anything nor opens a socket. -/
structure Net.Quiet (n n' : Net) : Prop where
  listens : n'.listens = n.listens
  sent : ∀ i, (n'.sockets i).client.sent = (n.sockets i).client.sent
  cseq : ∀ i, (n'.sockets i).cseq = (n.sockets i).cseq
  inbox : ∀ i, (n'.sockets i).client.inbox <:+ (n.sockets i).client.inbox

instance : IsPreorder Net Net.Quiet where
  refl _ := ⟨rfl, fun _ => rfl, fun _ => rfl, fun _ => List.suffix_rfl⟩
  trans _ _ _ h h' := ⟨h'.listens.trans h.listens, fun i => (h'.sent i).trans (h.sent i),
    fun i => (h'.cseq i).trans (h.cseq i), fun i => (h'.inbox i).trans (h.inbox i)⟩

theorem Talks.quiet (h : Talks opts net₀ m k token n) (hq : n.Quiet n') :
    Talks opts net₀ m k token n' where
  opened := h.opened
  listens := hq.listens.trans h.listens
  asked v hv := by
    rw [hq.sent]
    exact h.asked v hv
  cseq v hv := (hq.cseq _).trans (h.cseq v hv)
  inbox v hv := (hq.inbox _).trans (h.inbox v hv)

/-- Between two questions. -/
theorem quiet_talks {ε α : Type} {x : Prog ε Net α} (hx : x.Keeps Net.Quiet) :
    Triple (Talks opts net₀ m k token) x (fun _ => Talks opts net₀ m k token)
      (Stopped opts.serial m) :=
  hx.triple (fun _ _ hq h => h.quiet hq) fun _ h => h.stopped

end talk

/-! ### Quiet steps -/

section quiet
variable {ε α : Type}

/-- An operation of one client. -/
theorem onSocket_quiet (i : ℕ) {x : Prog ε UDPClient α}
    (hx : x.Keeps fun c c' => c'.sent = c.sent ∧ c'.inbox <:+ c.inbox) :
    (Net.onSocket i x).Keeps Net.Quiet := by
  intro n
  obtain ⟨hsent, hinbox⟩ := hx (n.sockets i).client
  have hi : ∀ j, ((Net.onSocket i x n).2.sockets j).client.sent = (n.sockets j).client.sent ∧
      ((Net.onSocket i x n).2.sockets j).cseq = (n.sockets j).cseq ∧
      ((Net.onSocket i x n).2.sockets j).client.inbox <:+ (n.sockets j).client.inbox := by
    intro j
    by_cases hj : j = i
    · subst hj
      simp only [Net.onSocket, Function.update_self, true_and]
      exact ⟨hsent, hinbox⟩
    · simp only [Net.onSocket, Function.update_of_ne hj, true_and]
      exact List.suffix_rfl
  exact ⟨rfl, fun j => (hi j).1, fun j => (hi j).2.1, fun j => (hi j).2.2⟩

theorem readUntil_suffix (accepts : UDPAddr → Bool) (inbox : List Event) :
    (UDPClient.readUntil accepts inbox).2 <:+ inbox := by
  induction inbox with
  | nil => exact List.suffix_rfl
  | cons e rest ih =>
      match e with
      | .error text => exact List.suffix_cons _ rest
      | .ok (addr, data) =>
          rw [UDPClient.readUntil]
          split
          · exact List.suffix_cons _ rest
          · exact ih.trans (List.suffix_cons _ rest)

theorem recv_inbox : UDPClient.recv.Keeps fun c c' => c'.sent = c.sent ∧ c'.inbox <:+ c.inbox := by
  intro c
  have hsuffix := readUntil_suffix (fun addr => sameUDPAddr (some addr) c.raddr) c.inbox
  unfold UDPClient.recv
  split <;> rename_i heq <;> rw [heq] at hsuffix <;> exact ⟨rfl, hsuffix⟩

theorem readRaw_quiet (i : ℕ) : (Net.readRaw i).Keeps Net.Quiet :=
  onSocket_quiet i (recv_inbox.wrap Cause.io)

theorem read_quiet (lib : Libs) (i : ℕ) : (Net.read lib i).Keeps Net.Quiet := by
  refine (readRaw_quiet i).bind fun data => ?_
  split
  · exact .fail _
  · exact .pure _

theorem resolve_quiet (host : String) (port : ℕ) : (Net.resolve host port).Keeps Net.Quiet := by
  intro n
  unfold Net.resolve
  split <;> exact ⟨rfl, fun _ => rfl, fun _ => rfl, fun _ => List.suffix_rfl⟩

theorem connect_quiet (i : ℕ) (host : String) (port : ℕ) :
    (Net.connect i host port).Keeps Net.Quiet :=
  (resolve_quiet host port).bind fun _ => onSocket_quiet i fun _ => ⟨rfl, List.suffix_rfl⟩

theorem randomBytes_quiet (k : ℕ) : (Net.randomBytes k : Prog ε Net Bytes).Keeps Net.Quiet :=
  fun _ => ⟨rfl, fun _ => rfl, fun _ => rfl, fun _ => List.suffix_rfl⟩

theorem now_quiet : (Net.now : Prog ε Net ℤ).Keeps Net.Quiet :=
  fun _ => ⟨rfl, fun _ => rfl, fun _ => rfl, fun _ => List.suffix_rfl⟩

theorem localPort_quiet (i : ℕ) : (Net.localPort i : Prog ε Net ℕ).Keeps Net.Quiet :=
  fun n => refl n

theorem requireField_quiet (r : Response) (key : String) (e : DhError) :
    (requireField r key e).Keeps Net.Quiet := by
  unfold requireField
  split
  · exact .fail _
  · exact .pure _

theorem hostPort_quiet (lib : Libs) (what : String) (address : Bytes) :
    (hostPort lib what address).Keeps Net.Quiet := by
  unfold hostPort
  split
  · exact .fail _
  · exact .pure _

theorem channelBody_quiet (lib : Libs) (opts : HandshakeOptions) (randsalt cid localAddr : Bytes) :
    (channelBody lib opts randsalt cid localAddr).Keeps Net.Quiet := by
  unfold channelBody
  split
  · refine ((randomBytes_quiet 4).bind fun b => .pure _).bind fun nonce => ?_
    split
    · exact .fail _
    · exact now_quiet.bind fun _ => .pure _
  · exact .pure _

theorem relayBody_quiet (lib : Libs) (opts : HandshakeOptions) (randsalt : Bytes)
    (channelResp : Response) (agentAddr : Bytes) :
    (relayBody lib opts randsalt channelResp agentAddr).Keeps Net.Quiet := by
  unfold relayBody
  split
  · exact now_quiet.bind fun _ => .pure _
  · exact .pure _

theorem readChannel_quiet (lib : Libs) (i : ℕ) : (readChannel lib i).Keeps Net.Quiet := by
  refine ((read_quiet lib i).wrap _).bind fun first => ?_
  have hcheck : ∀ r : Response, (if r.code ≥ 400 then
      if r.code = 403 then fail (.dh .authenticationFailed) else fail (.channel r.status)
      else pure r : Prog Failure Net Response).Keeps Net.Quiet := by
    intro r
    split
    · split
      · exact .fail _
      · exact .fail _
    · exact .pure _
  dsimp only
  split
  · exact ((read_quiet lib i).wrap _).bind hcheck
  · exact (Keeps.pure first).bind hcheck

theorem connectDevice_quiet (lib : Libs) (i : ℕ) (key : Option Bytes) (channelResp : Response) :
    (connectDevice lib i key channelResp).Keeps Net.Quiet := by
  refine (requireField_quiet _ _ _).bind fun rawLAddr => ?_
  refine (requireField_quiet _ _ _).bind fun devicePubAddr => ?_
  refine (hostPort_quiet lib _ _).bind fun host => ?_
  exact ((connect_quiet i _ _).wrap _).bind fun _ => .pure _

end quiet

/-! ### Requests -/

section requests
variable {lib : Libs} {opts : HandshakeOptions} {net₀ : Net} {m k : ℕ} {token : Bytes}

/-- A request takes the next number of its socket, and then sends one datagram. -/
theorem request_eq (lib : Libs) (i : ℕ) (path body : Bytes) (n : Net) :
    ∃ auth random clock, Net.request lib i path body n =
      Net.onSocket i ((UDPClient.send ((if body ≠ [] then ascii "DHPOST" else ascii "DHGET") ++
        ascii " " ++ path ++ ascii " HTTP/1.1\r\nCSeq: " ++
        decimal (((n.sockets i).cseq + 1).toNat : ℕ) ++ ascii "\r\nAuthorization: " ++ auth ++
        ascii "\r\n\r\n" ++ body)).wrap .io)
        { n with
          random := random
          clock := clock
          sockets := Function.update n.sockets i
            { n.sockets i with cseq := (n.sockets i).cseq + 1 } } :=
  ⟨_, _, _, rfl⟩

/-- The next question was asked, by one more datagram of its socket. -/
theorem Talks.ask {n n' : Net} {q : Question} {s : Sent} {client : UDPClient}
    (h : Talks opts net₀ m k token n) (hq : (script token)[k]? = some q)
    (hm : q.handle.index < m)
    (hs : q.AskedBy opts.serial ((questions token k q.handle).length + 1) s.data)
    (hlistens : n'.listens = n.listens)
    (hsockets : n'.sockets = Function.update n.sockets q.handle.index
      { n.sockets q.handle.index with
        cseq := (n.sockets q.handle.index).cseq + 1
        client := client })
    (hsent : client.sent = (n.sockets q.handle.index).client.sent ++ [s])
    (hinbox : client.inbox = (n.sockets q.handle.index).client.inbox) :
    Talks opts net₀ m (k + 1) token n' := by
  refine ⟨?_, hlistens.trans h.listens, ?_, ?_, ?_⟩
  · intro q' hq'
    rw [List.take_add_one, hq, List.mem_append] at hq'
    rcases hq' with hq' | hq'
    · exact h.opened q' hq'
    · simp only [Option.toList_some, List.mem_singleton] at hq'
      exact hq' ▸ hm
  all_goals
    intro v hv
    rw [hsockets]
    by_cases hvq : v = q.handle
  · rw [hvq, Function.update_self, questions_succ hq, if_pos rfl, hsent]
    exact (h.asked _ hm).concat hs
  · rw [Function.update_of_ne (index_ne hvq), questions_succ hq, if_neg (Ne.symm hvq),
      List.append_nil]
    exact h.asked v hv
  · rw [hvq, Function.update_self, questions_succ hq, if_pos rfl, h.cseq _ hm,
      List.length_append, UInt32.ofNat_add]
    rfl
  · rw [Function.update_of_ne (index_ne hvq), questions_succ hq, if_neg (Ne.symm hvq),
      List.append_nil]
    exact h.cseq v hv
  · rw [hvq, Function.update_self, hinbox]
    exact h.inbox _ hm
  · rw [Function.update_of_ne (index_ne hvq)]
    exact h.inbox v hv

/-- What a request has written, or tried to write, asks the next question. -/
theorem request_talks {q : Question} {body : Bytes} (hq : (script token)[k]? = some q)
    (hm : q.handle.index < m) (hbody : q.posts = true ↔ body ≠ []) :
    Triple (Talks opts net₀ m k token)
      (Net.request lib q.handle.index (q.path opts.serial) body)
      (fun _ => Talks opts net₀ m (k + 1) token) (Stopped opts.serial m) := by
  intro n h
  obtain ⟨auth, random, clock, heq⟩ :=
    request_eq lib q.handle.index (q.path opts.serial) body n
  have hcseq : ((n.sockets q.handle.index).cseq + 1).toNat =
      (questions token k q.handle).length + 1 := by
    have hlen : (questions token k q.handle).length ≤ 9 :=
      (List.length_filter_le _ _).trans (List.length_take_le' _ _)
    rw [h.cseq _ hm, UInt32.toNat_add, UInt32.toNat_ofNat']
    simp only [UInt32.toNat_one]
    omega
  have hreq : q.AskedBy opts.serial ((questions token k q.handle).length + 1) _ :=
    ⟨auth, body, hbody, rfl⟩
  have hmethod : (if body ≠ [] then ascii "DHPOST" else ascii "DHGET") =
      if q.posts then ascii "DHPOST" else ascii "DHGET" := by
    simp only [hbody]
  rw [heq, hcseq, hmethod]
  clear heq
  generalize (if q.posts = true then ascii "DHPOST" else ascii "DHGET") ++ _ ++ _ ++ _ ++ _ ++ _ ++
    _ ++ _ ++ _ = req at hreq ⊢
  cases hraddr : (n.sockets q.handle.index).client.raddr with
  | none =>
      simp only [Net.onSocket, Function.update_self, wrap, UDPClient.send, hraddr]
      refine ⟨k, token, h.told.of_sent fun i => ?_⟩
      by_cases hi : i = q.handle.index
      · simp only [hi, Function.update_self]
      · simp only [Function.update_of_ne hi]
  | some addr =>
      simp only [Net.onSocket, Function.update_self, wrap, UDPClient.send, hraddr,
        UDPClient.writeTo]
      cases (n.sockets q.handle.index).client.writes.headD none with
      | none =>
          exact h.ask (s := ⟨addr, req, none⟩) hq hm hreq rfl (Function.update_idem _ _ _) rfl rfl
      | some text =>
          refine ⟨k + 1, token, (?_ : Talks opts net₀ m (k + 1) token _).told⟩
          exact h.ask (s := ⟨addr, req, some text⟩) hq hm hreq rfl (Function.update_idem _ _ _) rfl
            rfl

/-- A request without a body. -/
theorem get_talks {q : Question} (hq : (script token)[k]? = some q) (hm : q.handle.index < m)
    (hget : q.posts = false) :
    Triple (Talks opts net₀ m k token)
      (Net.request lib q.handle.index (q.path opts.serial) [])
      (fun _ => Talks opts net₀ m (k + 1) token) (Stopped opts.serial m) :=
  request_talks hq hm (by simp [hget])

/-- A request with a body. -/
theorem post_talks {q : Question} {body : Bytes} (hq : (script token)[k]? = some q)
    (hm : q.handle.index < m) (hpost : q.posts = true) (hbody : body ≠ []) :
    Triple (Talks opts net₀ m k token)
      (Net.request lib q.handle.index (q.path opts.serial) body)
      (fun _ => Talks opts net₀ m (k + 1) token) (Stopped opts.serial m) :=
  request_talks hq hm (iff_of_true hpost hbody)

end requests

/-! ### Steps of the dialogue -/

section steps
variable (lib : Libs) (opts : HandshakeOptions) {net₀ : Net} {token : Bytes}

theorem findServer_talks : Triple (Talks opts net₀ 1 0 token) (findServer lib opts 0)
    (fun _ => Talks opts net₀ 1 2 token) (Stopped opts.serial 1) := by
  refine (quiet_talks ((connect_quiet 0 _ _).wrap _)).bind fun _ => ?_
  refine ((get_talks (q := .probeServer) rfl Nat.one_pos rfl).wrap _).bind fun _ => ?_
  refine (quiet_talks ((read_quiet lib 0).wrap _)).bind fun _ => ?_
  refine ((get_talks (q := .onlineServer) rfl Nat.one_pos rfl).wrap _).bind fun _ => ?_
  refine (quiet_talks ((read_quiet lib 0).wrap _)).bind fun p2pResp => ?_
  refine (quiet_talks (requireField_quiet _ _ _)).bind fun p2psrv => ?_
  exact quiet_talks (hostPort_quiet lib _ _)

theorem probeDevice_talks (p2pHost : String) (p2pPort : ℕ) :
    Triple (Talks opts net₀ 2 2 token) (probeDevice lib opts 1 p2pHost p2pPort)
      (fun _ => Talks opts net₀ 2 4 token) (Stopped opts.serial 2) := by
  refine (quiet_talks ((connect_quiet 1 _ _).wrap _)).bind fun _ => ?_
  refine ((get_talks (q := .probeDevice) rfl Nat.one_lt_two rfl).wrap _).bind fun _ => ?_
  refine (quiet_talks ((read_quiet lib 1).wrap _)).bind fun _ => ?_
  refine ((get_talks (q := .infoDevice) rfl Nat.one_lt_two rfl).wrap _).bind fun _ => ?_
  refine (quiet_talks ((read_quiet lib 1).wrap _)).bind fun infoResp => ?_
  exact quiet_talks (.pure _)

theorem findRelay_talks : Triple (Talks opts net₀ 2 4 token) (findRelay lib 0)
    (fun _ => Talks opts net₀ 2 5 token) (Stopped opts.serial 2) := by
  refine ((get_talks (q := .onlineRelay) rfl Nat.two_pos rfl).wrap _).bind fun _ => ?_
  refine (quiet_talks ((read_quiet lib 0).wrap _)).bind fun relayResp => ?_
  exact quiet_talks (requireField_quiet _ _ _)

theorem channelBody_ne_nil {randsalt cid localAddr body : Bytes} {n n' : Net}
    (h : channelBody lib opts randsalt cid localAddr n = (.ok body, n')) : body ≠ [] := by
  cases hkey : deviceKey lib opts randsalt with
  | none =>
      simp only [channelBody, hkey] at h
      cases h
      exact List.cons_ne_nil _ _
  | some key =>
      simp only [channelBody, hkey] at h
      obtain ⟨nonce, n₁, _, h⟩ := of_bind_ok h
      cases hencrypt : encryptAddr lib.crypto key nonce localAddr with
      | error e =>
          simp only [hencrypt] at h
          cases h
      | ok encAddr =>
          simp only [hencrypt] at h
          obtain ⟨time, n₂, _, h⟩ := of_bind_ok h
          cases h
          exact List.cons_ne_nil _ _

theorem relayBody_ne_nil {randsalt agentAddr body : Bytes} {channelResp : Response} {n n' : Net}
    (h : relayBody lib opts randsalt channelResp agentAddr n = (.ok body, n')) : body ≠ [] := by
  cases hkey : deviceKey lib opts randsalt with
  | none =>
      simp only [relayBody, hkey] at h
      cases h
      exact List.cons_ne_nil _ _
  | some key =>
      simp only [relayBody, hkey] at h
      obtain ⟨time, n₁, _, h⟩ := of_bind_ok h
      cases h
      exact List.cons_ne_nil _ _

theorem requestChannel_talks (randsalt : Bytes) :
    Triple (Talks opts net₀ 3 5 token) (requestChannel lib opts 2 randsalt)
      (fun _ => Talks opts net₀ 3 6 token) (Stopped opts.serial 3) := by
  refine (quiet_talks ((connect_quiet 2 _ _).wrap _)).bind fun _ => ?_
  refine (quiet_talks (randomBytes_quiet 8)).bind fun cid => ?_
  refine (quiet_talks (localPort_quiet 2)).bind fun port => ?_
  refine ((quiet_talks (channelBody_quiet lib opts _ _ _)).of_value fun _ _ _ =>
    channelBody_ne_nil lib opts).bind fun body => Triple.of_fact fun hbody => ?_
  refine ((post_talks (q := .channel) rfl (by decide) rfl hbody).wrap _).bind fun _ => ?_
  exact quiet_talks (.pure _)

/-- The token is that of the agent. -/
theorem startRelay_talks (relayAddr : Bytes) :
    Triple (Talks opts net₀ 3 6 []) (startRelay lib 1 relayAddr)
      (fun _ n => ∃ token, Talks opts net₀ 3 8 token n) (Stopped opts.serial 3) := by
  refine (quiet_talks (hostPort_quiet lib _ _)).bind fun relay => ?_
  refine (quiet_talks ((connect_quiet 1 _ _).wrap _)).bind fun _ => ?_
  refine ((get_talks (q := .relayAgent) rfl (by decide) rfl).wrap _).bind fun _ => ?_
  refine (quiet_talks ((read_quiet lib 1).wrap _)).bind fun agentResp => ?_
  refine (quiet_talks (requireField_quiet _ _ _)).bind fun token => ?_
  refine (quiet_talks (requireField_quiet _ _ _)).bind fun agentAddr => ?_
  refine (quiet_talks (hostPort_quiet lib _ _)).bind fun agent => ?_
  refine (quiet_talks ((connect_quiet 1 _ _).wrap _)).bind fun _ => ?_
  refine Triple.bind (Q := fun _ => Talks opts net₀ 3 8 token) ?_ fun _ => ?_
  · refine Triple.mono (Triple.wrap ?_ _) (fun n h => h.of_token token (by decide)) fun _ _ h => h
    exact post_talks (q := .relayStart token) rfl (by decide : 1 < 3) rfl (List.cons_ne_nil _ _)
  · refine (quiet_talks ((read_quiet lib 1).wrap _)).bind fun _ => ?_
    exact (quiet_talks (.pure _)).mono (fun _ h => h) fun _ _ h => ⟨token, h⟩

theorem requestRelayChannel_talks (randsalt : Bytes) (channelResp : Response) (agent : Agent) :
    Triple (Talks opts net₀ 3 8 token) (requestRelayChannel lib opts 1 randsalt channelResp agent)
      (fun _ => Talks opts net₀ 3 9 token) (Stopped opts.serial 3) := by
  refine (quiet_talks ((connect_quiet 1 _ _).wrap _)).bind fun _ => ?_
  refine ((quiet_talks (relayBody_quiet lib opts _ _ _)).of_value fun _ _ _ =>
    relayBody_ne_nil lib opts).bind fun body => Triple.of_fact fun hbody => ?_
  refine ((post_talks (q := .relayChannel) rfl (by decide) rfl hbody).wrap _).bind fun _ => ?_
  refine (quiet_talks ((connect_quiet 1 _ _).wrap _)).bind fun _ => ?_
  refine (quiet_talks ((readRaw_quiet 1).wrap _)).bind fun _ => ?_
  exact quiet_talks (.pure _)

/-- After the script a socket to the agent or to the device may send what it likes. -/
theorem onSocket_told {ε α : Type} {serial : Bytes} {i : ℕ} (hi : i ≠ 0)
    {x : Prog ε UDPClient α} (hx : x.Keeps fun c c' => c.sent <+: c'.sent) :
    Triple (Told serial 3 9 token) (Net.onSocket i x) (fun _ => Told serial 3 9 token)
      (Stopped serial 3) := by
  refine Keeps.triple (R := fun n n' : Net =>
      (n'.sockets 0).client.sent = (n.sockets 0).client.sent ∧
        ∀ j, (n.sockets j).client.sent <+: (n'.sockets j).client.sent)
    (fun n => ⟨?_, fun j => ?_⟩) (fun n n' hn h => ⟨h.opened, fun v hv => ?_⟩)
    fun n h => ⟨9, token, h⟩
  · simp only [Net.onSocket, Function.update_of_ne (Ne.symm hi)]
  · by_cases hj : j = i
    · subst hj
      simp only [Net.onSocket, Function.update_self]
      exact hx (n.sockets j).client
    · simp only [Net.onSocket, Function.update_of_ne hj]
      exact List.prefix_rfl
  · obtain ⟨requests, more, hsent, hasked, hmore⟩ := h.asked v hv
    by_cases hmain : v = .mainClient
    · subst hmain
      exact ⟨requests, more, hn.1.trans hsent, hasked, hmore⟩
    · obtain ⟨rest, hrest⟩ := hn.2 v.index
      refine ⟨requests, more ++ rest, ?_, hasked, fun _ => ⟨Nat.le_refl 9, hmain⟩⟩
      rw [← hrest, hsent, List.append_assoc]

end steps

/-! ### Reads -/

section consumes

/-- The reads to come of `c'` are the last ones of those of `c`. -/
def UDPClient.Consumes (c c' : UDPClient) : Prop := c'.inbox <:+ c.inbox

instance : IsPreorder UDPClient UDPClient.Consumes where
  refl _ := List.suffix_rfl
  trans _ _ _ h h' := List.IsSuffix.trans h' h

theorem send_consumes (data : Bytes) : (UDPClient.send data).Keeps UDPClient.Consumes := by
  intro c
  unfold UDPClient.send
  split <;> exact List.suffix_rfl

theorem recv_consumes : UDPClient.recv.Keeps UDPClient.Consumes := fun c => (recv_inbox c).2

theorem sendLocal_consumes (data : Bytes) (local? : Option UDPAddr) :
    (sendLocal data local?).Keeps UDPClient.Consumes := by
  intro c
  cases local? <;> exact List.suffix_rfl

theorem awaitReply_consumes (local? : Option UDPAddr) :
    (awaitReply local?).Keeps UDPClient.Consumes := by
  intro c
  have hsuffix := readUntil_suffix
    (fun addr => sameUDPAddr (some addr) c.raddr || sameUDPAddr (some addr) local?) c.inbox
  unfold awaitReply
  split <;> rename_i heq <;> rw [heq] at hsuffix <;> exact hsuffix

theorem holePunch_consumes (lib : NetLib) (d : Device) (a : Attempt) :
    (holePunch lib d a).Keeps UDPClient.Consumes := by
  unfold holePunch
  split
  · exact .fail _
  · exact ((send_consumes _).wrap _).bind fun _ =>
      (sendLocal_consumes _ _).bind fun _ => awaitReply_consumes _

theorem consumesRule : ClientRule fun _ x => x.Keeps UDPClient.Consumes where
  pure := .pure
  fail := .fail
  bind := .bind
  send data g := (send_consumes data).wrap g
  attempt := recv_consumes.attempt
  recv g := recv_consumes.wrap g

theorem perform_consumes (lib : NetLib) (d : Device) (a : Attempt) :
    (performDirectHandshake lib d a).Keeps UDPClient.Consumes :=
  (holePunch_consumes lib d a).bind fun _ =>
    Keeps.bind (fun _ => List.suffix_rfl) fun _ => consumesRule.establish d a _

/-- The attempts before have read what came first. -/
theorem Calls.consumes {lib : NetLib} {d : Device} {att : ℕ → Attempt}
    {ok : Attempt → UDPClient → Prop} {c₀ c : UDPClient} {k : ℕ}
    (h : Calls lib d att ok c₀ k c) : c₀.Consumes c := by
  induction h with
  | first => exact List.suffix_rfl
  | again _ _ _ _ ih => exact List.IsSuffix.trans (perform_consumes lib d _ _) ih

end consumes

/-! ### The sign -/

theorem signLoop_extends : ∀ n session, (signLoop n session).Keeps UDPClient.Extends
  | 0, session => .pure none
  | n + 1, session => by
      refine UDPClient.recv_extends.attempt.bind fun r => ?_
      cases r with
      | error e => exact (UDPClient.send_extends _).attempt.bind fun _ => signLoop_extends n _
      | ok data =>
          dsimp only
          split
          · exact signLoop_extends n session
          · split
            · exact .pure _
            · exact signLoop_extends n _

theorem requestSign_extends : requestSign.Keeps UDPClient.Extends := by
  refine ((UDPClient.send_extends _).wrap _).bind fun _ => ?_
  refine (UDPClient.recv_extends.wrap _).bind fun syncResp => ?_
  dsimp only
  split
  · exact .fail _
  · refine ((UDPClient.send_extends _).wrap _).bind fun _ => ?_
    refine (signLoop_extends 5 _).bind fun sign => ?_
    split
    · exact .fail _
    · exact .pure _

/-- One of the datagrams came from the agent and is a command with the sign after twelve bytes. -/
def Signed (inbox : List Event) (agent : UDPAddr) (sign : Bytes) : Prop :=
  ∃ data packet, .ok (agent, data) ∈ inbox ∧ parsePacket data = .ok packet ∧
    packet.body.type = .command ∧ sign = packet.body.command.drop 12 ∧ sign ≠ []

/-- What a read returns came from the address to which the client is connected. -/
theorem mem_of_recv {c c' : UDPClient} {data : Bytes} (h : UDPClient.recv c = (.ok data, c')) :
    ∃ addr, c'.raddr = some addr ∧ .ok (addr, data) ∈ c.inbox := by
  have hread : ∀ inbox addr rest, UDPClient.readUntil (fun addr => sameUDPAddr (some addr) c.raddr)
      inbox = (.ok (addr, data), rest) → c.raddr = some addr ∧ .ok (addr, data) ∈ inbox := by
    intro inbox addr rest hr
    induction inbox with
    | nil => cases hr
    | cons e es ih =>
        match e with
        | .error text => cases hr
        | .ok (src, d) =>
            rw [UDPClient.readUntil] at hr
            split at hr
            · rename_i hsrc
              cases hr
              exact ⟨sameUDPAddr_iff.mp hsrc, List.mem_cons_self⟩
            · exact ⟨(ih hr).1, List.mem_cons_of_mem _ (ih hr).2⟩
  unfold UDPClient.recv at h
  split at h
  · rename_i src d rest heq
    cases h
    exact ⟨src, hread _ src rest heq⟩
  · cases h

section sign
variable {inbox : List Event}

variable (inbox) in
/-- The reads to come are among these. -/
def Unread (c : UDPClient) : Prop := c.inbox <:+ inbox

theorem Unread.trans {c c' : UDPClient} (hc : Unread inbox c) (h : c.Consumes c') :
    Unread inbox c' := List.IsSuffix.trans h hc

theorem unread_of_keeps {ε α : Type} {x : Prog ε UDPClient α} (hx : x.Keeps UDPClient.Consumes) :
    Triple (Unread inbox) x (fun _ => Unread inbox) (fun _ => True) :=
  hx.triple (fun _ _ h hc => hc.trans h) fun _ _ => trivial

theorem recv_unread {ε : Type} : Triple (Unread inbox)
    (UDPClient.recv.attempt : Prog ε UDPClient (Except IoError Bytes)) (fun r c =>
      Unread inbox c ∧ ∀ data, r = .ok data →
        ∃ addr, c.raddr = some addr ∧ .ok (addr, data) ∈ inbox) (fun _ => True) := by
  intro c hc
  refine ⟨hc.trans (recv_inbox c).2, fun data hdata => ?_⟩
  have hrecv : UDPClient.recv c = (.ok data, (UDPClient.recv c).2) := Prod.ext hdata rfl
  obtain ⟨addr, haddr, hmem⟩ := mem_of_recv hrecv
  exact ⟨addr, haddr, hc.subset hmem⟩

variable (inbox) in
theorem signLoop_signed : ∀ n session, Triple (Unread inbox) (signLoop n session)
    (fun r c => ∀ sign, r = some sign → ∃ agent, c.raddr = some agent ∧ Signed inbox agent sign)
    (fun _ => True)
  | 0, session => .pure fun _ _ => nofun
  | n + 1, session => by
      refine recv_unread.bind fun r => ?_
      cases r with
      | error e =>
          exact ((unread_of_keeps (send_consumes _).attempt).mono (fun _ h => h.1)
            fun _ _ h => h).bind fun _ => signLoop_signed n _
      | ok data =>
          dsimp only
          split
          · exact (signLoop_signed n session).mono (fun _ h => h.1) fun _ _ h => h
          · rename_i packet hparse
            split
            · rename_i hsign
              refine .pure fun c hc sign heq => ?_
              obtain ⟨agent, hagent, hmem⟩ := hc.2 data rfl
              obtain rfl := Option.some.inj heq
              exact ⟨agent, hagent, data, packet, hmem, hparse, hsign.1, rfl,
                fun hnil => absurd (List.drop_eq_nil_iff.mp hnil) (Nat.not_le.mpr hsign.2)⟩
            · exact (signLoop_signed n _).mono (fun _ h => h.1) fun _ _ h => h

variable (inbox) in
theorem requestSign_signed : Triple (Unread inbox) requestSign
    (fun sign c => ∃ agent, c.raddr = some agent ∧ Signed inbox agent sign) (fun _ => True) := by
  refine (unread_of_keeps ((send_consumes _).wrap _)).bind fun _ => ?_
  refine (unread_of_keeps (recv_consumes.wrap _)).bind fun syncResp => ?_
  dsimp only
  split
  · exact .fail fun _ _ => trivial
  · refine (unread_of_keeps ((send_consumes _).wrap _)).bind fun _ => ?_
    refine (signLoop_signed inbox 5 _).bind fun sign? => ?_
    cases sign? with
    | none => exact .fail fun _ _ => trivial
    | some sign => exact .pure fun c hc => hc sign rfl

end sign

section device
variable (lib : Libs) (opts : HandshakeOptions) {net₀ : Net}

/-- An operation of one client, by what it does to this client. -/
theorem onSocket_triple {ε α : Type} (i : ℕ) {x : Prog ε UDPClient α} {P : UDPClient → Prop}
    {Q : α → UDPClient → Prop} (hx : Triple P x Q (fun _ => True)) :
    Triple (fun n => P (n.sockets i).client) (Net.onSocket i x)
      (fun a n => Q a (n.sockets i).client) (fun _ => True) := by
  intro n hn
  rcases ends x (n.sockets i).client with ⟨a, c, h⟩ | ⟨e, c, h⟩
  · have hend := hx.of_ok hn h
    simp only [Net.onSocket, h, Function.update_self]
    exact hend
  · simp only [Net.onSocket, h]

/-- The socket of the relay has got the sign from the agent, to which it is connected. -/
def SignFrom (inbox : List Event) (sign : Bytes) (n : Net) : Prop :=
  ∃ agent, (n.sockets 1).client.raddr = some agent ∧ Signed inbox agent sign

/-- The other sockets stay as they are. -/
theorem onSocket_other {ε α : Type} {i j : ℕ} (h : i ≠ j) (x : Prog ε UDPClient α) :
    (Net.onSocket j x).Keeps fun n n' => n'.sockets i = n.sockets i := by
  intro n
  simp only [Net.onSocket]
  exact Function.update_of_ne h _ _

theorem findDevice_told (relayAddr randsalt cid : Bytes) :
    Triple (Talks opts net₀ 3 6 []) (findDevice lib opts 1 2 relayAddr randsalt cid)
      (fun device n => (∃ token, Told opts.serial 3 9 token n) ∧
        SignFrom (inboxOf opts net₀ .p2pClient) device.sign n ∧
        Unread (inboxOf opts net₀ .deviceClient) (n.sockets 2).client) (Stopped opts.serial 3) := by
  refine (startRelay_talks lib opts relayAddr).bind fun agent => Triple.of_exists fun token => ?_
  refine (quiet_talks (readChannel_quiet lib 2)).bind fun channelResp => ?_
  refine (quiet_talks (connectDevice_quiet lib 2 _ _)).bind fun addrs => ?_
  refine (requestRelayChannel_talks lib opts randsalt channelResp agent).bind fun _ => ?_
  have hsent : requestSign.Keeps fun c c' => c.sent <+: c'.sent :=
    fun c => (requestSign_extends c).2
  have hsign := onSocket_triple 1 (requestSign_signed (inboxOf opts net₀ .p2pClient))
  have hunread : Triple (fun n => Unread (inboxOf opts net₀ .deviceClient) (n.sockets 2).client)
      (Net.onSocket 1 requestSign)
      (fun _ n => Unread (inboxOf opts net₀ .deviceClient) (n.sockets 2).client) fun _ => True :=
    (onSocket_other (i := 2) (by decide) requestSign).triple (fun n n' heq h => by rwa [heq])
      fun _ _ => trivial
  refine Triple.bind (((onSocket_told (by decide) hsent).and (hsign.and hunread)).mono
    (fun n h => ⟨h.told, h.inbox .p2pClient (by decide), h.inbox .deviceClient (by decide)⟩)
    fun _ _ h => h) fun sign => ?_
  exact .pure fun n h => ⟨⟨token, h.1⟩, h.2⟩

theorem perform_grows (lib : NetLib) (d : Device) (a : Attempt) :
    (performDirectHandshake lib d a).Keeps fun c c' => c.sent <+: c'.sent :=
  fun c => (holePunch_extends lib d a c).2.trans perform_sent

theorem directLoop_grows (lib : NetLib) (d : Device) (att : ℕ → Attempt) :
    ∀ n k, (directLoop lib d att n k).Keeps fun c c' => c.sent <+: c'.sent
  | 0, k => perform_grows lib d (att k)
  | n + 1, k => by
      have htrans : IsPreorder UDPClient fun c c' => c.sent <+: c'.sent :=
        { refl := fun _ => List.prefix_rfl, trans := fun _ _ _ => List.IsPrefix.trans }
      refine (perform_grows lib d (att k)).attempt.bind fun r => ?_
      cases r with
      | ok session => exact .pure session
      | error e => exact directLoop_grows lib d att n (k + 1)

/-- An attempt that succeeds has opened its session with the sign, by packets that were still to
be read. -/
theorem perform_transcript {inbox : List Event} {lib : NetLib} {d : Device} {a : Attempt}
    {c c' : UDPClient} {session : Session}
    (h : performDirectHandshake lib d a c = (.ok session, c')) (hc : Unread inbox c) :
    ∃ c₀ t, Unread inbox c₀ ∧ Transcript.Authenticates t d.sign ∧
      Follows c₀ session t.turns c' := by
  obtain ⟨src, resp, c₁, c₂, c₀, hpunch, hsend, hdrain, t, ht, hfollows⟩ := perform_follows h
  have h₁ := holePunch_consumes lib d a c
  have h₂ := send_consumes (stunConfirmation d a (slice resp 8 20)) { c₁ with raddr := some src }
  have h₀ := consumesRule.drainStun 5 c₂
  rw [hpunch] at h₁
  rw [hsend] at h₂
  rw [hdrain] at h₀
  exact ⟨c₀, t, ((hc.trans h₁).trans h₂).trans h₀, ht, hfollows⟩

theorem directHandshake_transcript (inbox : List Event) (lib : NetLib) (d : Device)
    (att : ℕ → Attempt) :
    Triple (Unread inbox) (directHandshake lib d att)
      (fun session c => ∃ c₀ t, Unread inbox c₀ ∧ Transcript.Authenticates t d.sign ∧
        Follows c₀ session t.turns c) (fun _ => True) := by
  intro c hc
  obtain ⟨k, c₁, hcalls, hrun⟩ : ∃ k c₁, Calls lib d att (fun _ _ => True) c k c₁ ∧
      directHandshake lib d att c = performDirectHandshake lib d (att k) c₁ :=
    directHandshake_calls
  rw [hrun]
  rcases ends (performDirectHandshake lib d (att k)) c₁ with ⟨session, c', h⟩ | ⟨e, c', h⟩
  · rw [h]
    exact perform_transcript h (hc.trans hcalls.consumes)
  · rw [h]
    trivial

/-- The session was opened with the sign that the agent has sent, by packets of the device. -/
def Provenance (relay device : List Event) (session : Session) (n : Net) : Prop :=
  ∃ sign, SignFrom relay sign n ∧ ∃ c₀ t, Unread device c₀ ∧ Transcript.Authenticates t sign ∧
    Follows c₀ session t.turns (n.sockets 2).client

theorem directHandshake_told (device : Device) (att : ℕ → Attempt) (relay inbox : List Event) :
    Triple (fun n => (∃ token, Told opts.serial 3 9 token n) ∧ SignFrom relay device.sign n ∧
        Unread inbox (n.sockets 2).client)
      (Net.onSocket 2 ((directHandshake lib.net device att).wrap Failure.direct))
      (fun session n => (∃ token, Told opts.serial 3 9 token n) ∧ Provenance relay inbox session n)
      (Stopped opts.serial 3) := by
  have hsent : (wrap Failure.direct (directHandshake lib.net device att)).Keeps
      fun c c' => c.sent <+: c'.sent := (directLoop_grows lib.net device att _ _).wrap _
  have htold : Triple (fun n => ∃ token, Told opts.serial 3 9 token n)
      (Net.onSocket 2 ((directHandshake lib.net device att).wrap Failure.direct))
      (fun _ n => ∃ token, Told opts.serial 3 9 token n) (Stopped opts.serial 3) :=
    Triple.of_exists fun token =>
      (onSocket_told (by decide) hsent).mono (fun _ h => h) fun _ _ h => ⟨token, h⟩
  -- the socket of the relay is not used any more
  have hsign : Triple (SignFrom relay device.sign)
      (Net.onSocket 2 ((directHandshake lib.net device att).wrap Failure.direct))
      (fun _ => SignFrom relay device.sign) (fun _ => True) := by
    refine (onSocket_other (i := 1) (by decide) _).triple (fun n n' heq h => ?_) fun _ _ => trivial
    rw [SignFrom, heq]
    exact h
  have hopen := onSocket_triple 2
    ((directHandshake_transcript inbox lib.net device att).wrap Failure.direct)
  refine (htold.and (hsign.and hopen)).mono (fun n h => h) ?_
  exact fun session n h => ⟨h.1, device.sign, h.2⟩

end device

/-! ### The whole handshake -/

section world
variable {opts : HandshakeOptions} {net₀ : Net} {m k : ℕ} {token : Bytes}

/-- `m` sockets were opened, and the network is so. -/
def World.Opened (m : ℕ) (P : Net → Prop) (w : World) : Prop :=
  w.ledger.closes.length = m ∧ P w.net

/-- The dialogue of the sockets opened so far has stopped. -/
def World.Stopped (serial : Bytes) (w : World) : Prop :=
  Dh.Stopped serial w.ledger.closes.length w.net

theorem onNet_opened {ε α : Type} {serial : Bytes} {P : Net → Prop} {Q : α → Net → Prop}
    {x : Prog ε Net α} (hx : Triple P x Q (Stopped serial m)) :
    Triple (World.Opened m P) (World.onNet x) (fun a => World.Opened m (Q a))
      (World.Stopped serial) := by
  rintro w ⟨rfl, hw⟩
  rcases ends x w.net with ⟨a, n, hn⟩ | ⟨e, n, hn⟩
  · have hend := hx.of_ok hw hn
    rw [World.onNet, hn]
    exact ⟨rfl, hend⟩
  · have hend := hx.of_error hw hn
    rw [World.onNet, hn]
    exact hend

/-- A new socket has asked nothing yet. -/
theorem Talks.open {n n' : Net} {h : Handle} {socket : Socket}
    (ht : Talks opts net₀ m k token n) (hm : h.index = m) (hnone : questions token k h = [])
    (hlistens : n'.listens = n.listens.tail)
    (hsockets : n'.sockets = Function.update n.sockets m socket)
    (hsent : socket.client.sent = []) (hcseq : socket.cseq = 0)
    (hinbox : socket.client.inbox <:+ inboxOf opts net₀ h) :
    Talks opts net₀ (m + 1) k token n' := by
  refine ⟨fun q hq => Nat.lt_succ_of_lt (ht.opened q hq), ?_, ?_, ?_, ?_⟩
  · rw [hlistens, ht.listens, List.tail_drop]
  all_goals
    intro v hv
    rw [hsockets]
    by_cases hvh : v = h
  · rw [hvh, hm, Function.update_self, hnone, hsent]
    exact .nil _
  · have hne : v.index ≠ m := hm ▸ index_ne hvh
    rw [Function.update_of_ne hne]
    exact ht.asked v (by omega)
  · rw [hvh, hm, Function.update_self, hnone, hcseq]
    rfl
  · have hne : v.index ≠ m := hm ▸ index_ne hvh
    rw [Function.update_of_ne hne]
    exact ht.cseq v (by omega)
  · rw [hvh, hm, Function.update_self]
    exact hinbox
  · have hne : v.index ≠ m := hm ▸ index_ne hvh
    rw [Function.update_of_ne hne]
    exact ht.inbox v (by omega)

theorem newUDPClientPort_talks {h : Handle} (hm : h.index = m) (hnone : questions token k h = []) :
    Triple (World.Opened m (Talks opts net₀ m k token)) (World.newUDPClientPort h (h.port opts))
      (fun i w => i = m ∧ World.Opened (m + 1) (Talks opts net₀ (m + 1) k token) w)
      (World.Stopped opts.serial) := by
  rintro w ⟨hlen, hw⟩
  have hlisten : w.net.listens.headD (fun _ => .error "too many open files") =
      net₀.listens.getD h.index (fun _ => .error "too many open files") := by
    rw [hw.listens, hm, List.headD_eq_head?_getD, List.head?_drop, List.getD_eq_getElem?_getD]
  cases hl : w.net.listens.headD (fun _ => .error "too many open files") (h.port opts) with
  | error text =>
      simp only [World.newUDPClientPort, hl]
      exact ⟨k, token, hlen ▸ hw.told.of_sent fun _ => rfl⟩
  | ok l =>
      have hinbox : inboxOf opts net₀ h = l.inbox := by rw [inboxOf, ← hlisten, hl]
      simp only [World.newUDPClientPort, hl]
      refine ⟨hlen, by simp [Ledger.opened, hlen], ?_⟩
      exact hw.open hm hnone rfl (by rw [hlen]) rfl rfl (by rw [hinbox])

theorem closeClient_opened {ε : Type} {P : Net → Prop} {E : World → Prop} (h : Handle) :
    Triple (World.Opened m P) (World.closeClient h : Prog ε World Unit)
      (fun _ => World.Opened m P) E := by
  rintro w ⟨hlen, hw⟩
  exact ⟨(Ledger.closedHeld_length w.ledger h).trans hlen, hw⟩

variable (opts net₀) in
theorem handshakeBody_told (lib : Libs) (att : ℕ → Attempt) :
    Triple (World.Opened 0 (Talks opts net₀ 0 0 [])) (handshakeBody lib opts att)
      (fun result => World.Opened 3 fun n => (∃ token, Told opts.serial 3 9 token n) ∧
        Provenance (inboxOf opts net₀ .p2pClient) (inboxOf opts net₀ .deviceClient)
          result.session n)
      (World.Stopped opts.serial) := by
  refine ((newUDPClientPort_talks (h := .mainClient) rfl rfl).wrap _).bind fun mainClient =>
    Triple.of_fact ?_
  rintro rfl
  refine (onNet_opened (findServer_talks lib opts)).bind fun server => ?_
  refine ((newUDPClientPort_talks (h := .p2pClient) rfl rfl).wrap _).bind fun p2pClient =>
    Triple.of_fact ?_
  rintro rfl
  refine (onNet_opened (probeDevice_talks lib opts _ _)).bind fun info => ?_
  refine (onNet_opened (findRelay_talks lib opts)).bind fun relayAddr => ?_
  refine ((newUDPClientPort_talks (h := .deviceClient) rfl rfl).wrap _).bind fun deviceClient =>
    Triple.of_fact ?_
  rintro rfl
  refine (onNet_opened (requestChannel_talks lib opts _)).bind fun cid => ?_
  refine (onNet_opened (findDevice_told lib opts _ _ _)).bind fun device => ?_
  refine (closeClient_opened _).bind fun _ => (closeClient_opened _).bind fun _ => ?_
  refine (onNet_opened (directHandshake_told lib opts device att _ _)).bind fun session => ?_
  exact fun w hw => hw

end world

/-- Before the handshake nothing was asked. -/
theorem start_talks (opts : HandshakeOptions) (net : Net) :
    World.Opened 0 (Talks opts net 0 0 []) (World.start net) :=
  ⟨rfl, fun _ hq => (List.not_mem_nil hq).elim, rfl, fun _ hv => absurd hv (Nat.not_lt_zero _),
    fun _ hv => absurd hv (Nat.not_lt_zero _), fun _ hv => absurd hv (Nat.not_lt_zero _)⟩

/-- **Dialogue.**  However the handshake ends, the sockets that it has opened have asked the
questions of the script up to some point: each socket its own ones, in this order and numbered from
1, with one datagram for each.  Only the sockets to the agent and to the device have sent more, and
only after the whole script.  A handshake that succeeds has asked all the questions. -/
theorem dialogue_script (lib : Libs) (opts : HandshakeOptions) (att : ℕ → Attempt) (net : Net) :
    match handshake lib opts att (World.start net) with
    | (.error _, w) => ∃ k token, Told opts.serial w.ledger.closes.length k token w.net
    | (.ok _, w) => ∃ token, Told opts.serial 3 (script token).length token w.net := by
  have hbody := handshakeBody_told opts net lib att
  rcases ends (handshakeBody lib opts att) (World.start net) with ⟨result, w, h⟩ | ⟨e, w, h⟩
  · simp only [handshake, h]
    exact (hbody.of_ok (start_talks opts net) h).2.1
  · simp only [handshake, h, Ledger.cleanup_length]
    exact hbody.of_error (start_talks opts net) h

theorem handshake_provenance {lib : Libs} {opts : HandshakeOptions} {att : ℕ → Attempt} {net : Net}
    {result : HandshakeResult} {w : World}
    (h : handshake lib opts att (World.start net) = (.ok result, w)) :
    Provenance (inboxOf opts net .p2pClient) (inboxOf opts net .deviceClient) result.session
      w.net := by
  have hbody := handshakeBody_told opts net lib att
  rcases ends (handshakeBody lib opts att) (World.start net) with ⟨r, w', h'⟩ | ⟨e, w', h'⟩
  · simp only [handshake, h'] at h
    cases h
    exact (hbody.of_ok (start_talks opts net) h').2.2
  · simp only [handshake, h'] at h
    cases h

end DahuaP2p.Dh
