import DahuaP2p.RtspGrammar

/-! # Requests and responses in turn

Before the switch to copying, the bridge forwards one request, waits for its response, forwards it,
and only then looks for the next request.

* **In turn.** However `handle` stops, the device has got whole requests and the client the whole
  responses to them, but for one message of which the first bytes may be on their way
  (`handle_lockstep`).  The device gets nothing before the client has sent a complete and valid
  request.
* **The end of the negotiation.** It ends with the first `2xx` response to `PLAY` or `RECORD`, and
  with no other message.  If both sides send such an exchange and nothing fails, `handle` gets there
  and has forwarded exactly these messages (`handle_negotiates`). -/

namespace DahuaP2p.Bridge

open BigEndian Programs Prog Streams Pipe GoStrings

/-! ### What is written -/

section wrote
variable (o : Bytes)

theorem readRTSPLine_wrote (data : Bytes) :
    Triple (fun q => q.out = o ++ data) readRTSPLine
      (fun line q => IsLine line ∧ q.out = o ++ data) (fun q => q.out = o ++ data) := by
  refine Triple.wrap (fun q hq => ?_) _
  unfold Pipe.readSlice
  cases h : q.src.readSlice 0x0A with
  | mk res src =>
      cases res with
      | error e => exact hq
      | ok line => exact ⟨Reader.readSliceLoop_ends h, hq⟩

/-- `writeAll` writes everything, or fails with the first bytes written. -/
theorem writeAll_wrote (line : Bytes) :
    Triple (fun q => q.out = o) (writeAll line) (fun _ q => q.out = o ++ line)
      (fun q => ∃ part, part <+: line ∧ q.out = o ++ part) := by
  unfold writeAll
  cases line with
  | nil => exact .pure fun q hq => by simpa using hq
  | cons b line =>
      intro q hq
      rw [List.length_cons, writeAllLoop, if_neg (List.cons_ne_nil b line)]
      rcases write_run (b :: line) q with ⟨ws, hw⟩ | ⟨e, n, ws, hw⟩
      · have hne : (b :: line).length ≠ 0 := by simp
        rw [bind_of_ok (wrap_of_ok hw), if_neg hne, List.drop_length, writeAllLoop_nil, hq]
        rfl
      · rw [bind_of_error (wrap_of_error hw), hq]
        exact ⟨_, List.take_prefix n (b :: line), rfl⟩

theorem copyNLoop_wrote (turns n : ℕ) (data : Bytes) :
    Triple (fun q => q.out = o ++ data) (copyNLoop turns n)
      (fun _ q => ∃ body : Bytes, body.length = n ∧ q.out = o ++ (data ++ body))
      (fun q => ∃ part : Bytes, part.length ≤ n ∧ q.out = o ++ (data ++ part)) := by
  induction turns generalizing n data with
  | zero => exact .fail fun q hq => ⟨[], Nat.zero_le n, by simpa using hq⟩
  | succ turns ih =>
      unfold copyNLoop copyNTurn
      split
      · rename_i hzero
        exact .pure fun q hq => ⟨[], by simp [hzero], by simpa using hq⟩
      · have hread : Triple (fun q => q.out = o ++ data) (Pipe.read n)
            (fun res q => res.1.length ≤ n ∧ q.out = o ++ data)
            (fun q => ∃ part : Bytes, part.length ≤ n ∧ q.out = o ++ (data ++ part)) :=
          fun q hq => ⟨(Reader.read_length _ _).trans (Nat.min_le_left _ _), hq⟩
        have hwrite : ∀ some : Bytes, some.length ≤ n →
            Triple (fun q => q.out = o ++ data) (writeSome some)
              (fun _ q => q.out = o ++ (data ++ some))
              (fun q => ∃ part : Bytes, part.length ≤ n ∧ q.out = o ++ (data ++ part)) := by
          intro some hsome q hq
          rcases writeSome_run some q with ⟨k, ws, hw⟩ | ⟨e, k, ws, hw⟩
          · rw [hw]
            simp [hq]
          · rw [hw]
            exact ⟨some.take k, (List.length_take_le' _ _).trans hsome, by simp [hq]⟩
        refine hread.bind fun res => .of_fact fun hlen => (hwrite res.1 hlen).bind fun _ => ?_
        split
        · exact .pure fun q hq => ⟨res.1, by omega, hq⟩
        · cases res.2 with
          | some e => exact .fail fun q hq => ⟨res.1, hlen, hq⟩
          | none =>
              refine ((ih (n - res.1.length) (data ++ res.1)).weaken ?_).mono (fun _ hq => hq) ?_
              · rintro q ⟨part, hpart, hq⟩
                exact ⟨res.1 ++ part, by rw [List.length_append]; omega, by simpa using hq⟩
              · rintro _ q ⟨body, hbody, hq⟩
                exact ⟨res.1 ++ body, by rw [List.length_append]; omega, by simpa using hq⟩

/-- What was written since some moment. -/
theorem copies_wrote : Copies (fun data _ q => q.out = o ++ data) (fun data q => q.out = o ++ data)
    (fun data q => q.out = o ++ data) where
  line := readRTSPLine_wrote o
  write data line := by
    refine ((writeAll_wrote (o ++ data) line).weaken fun q hq => ?_).mono (fun _ hq => hq) ?_
    · obtain ⟨part, hpart, hq⟩ := hq
      exact ⟨part, hpart, by rw [hq, List.append_assoc]⟩
    · exact fun _ q hq => by rw [hq, List.append_assoc]
  body data n := fun q hq => copyNLoop_wrote o _ n data q hq
  noBody _ _ hq := hq
  stop _ _ _ hq := hq

/-- What `copyRTSPMessage` has written is a message, or the first bytes of one if it has failed,
whatever the connections do. -/
theorem copyRTSPMessage_wrote :
    Triple (fun q => q.out = o) copyRTSPMessage
      (fun line q => ∃ m : Message, (m.WellFormed ∧ line = m.line) ∧ q.out = o ++ m.bytes)
      (fun q => ∃ part, Begun part ∧ q.out = o ++ part) :=
  (copies_wrote o).message.mono (fun _ hq => by simpa using hq) fun _ _ hq => hq

end wrote

theorem captureRequest_captures (o : Bytes) :
    Triple (fun q => q.out = o) captureRequest
      (fun request q => ∃ m : Message, (m.WellFormed ∧ request = (m.line, m.bytes)) ∧ q.out = o)
      (fun q => q.out = o) := by
  intro q hq
  unfold captureRequest
  rcases ends copyRTSPMessage { q with writes := [], out := [] } with ⟨line, q', h⟩ | ⟨e, q', h⟩
  · obtain ⟨m, ⟨hm, hline⟩, hout⟩ := (copyRTSPMessage_wrote []).of_ok rfl h
    rw [h]
    exact ⟨m, ⟨hm, by rw [hline, hout]; rfl⟩, hq⟩
  · rw [h]
    exact hq

/-! ### In turn -/

/-- The bytes of the requests, and those of the responses. -/
def requests (pairs : List (Message × Message)) : Bytes := pairs.flatMap fun x => x.1.bytes

def responses (pairs : List (Message × Message)) : Bytes := pairs.flatMap fun x => x.2.bytes

@[simp] theorem requests_concat (pairs : List (Message × Message)) (x : Message × Message) :
    requests (pairs ++ [x]) = requests pairs ++ x.1.bytes := by
  simp [requests]

@[simp] theorem responses_concat (pairs : List (Message × Message)) (x : Message × Message) :
    responses (pairs ++ [x]) = responses pairs ++ x.2.bytes := by
  simp [responses]

/-- Requests with their responses, and at most one request more.  None of the responses ends the
negotiation, and the first request is one that `handle` lets pass. -/
structure Exchange (pairs : List (Message × Message)) (more : List Message) : Prop where
  wellFormed : ∀ x ∈ pairs, x.1.WellFormed ∧ x.2.WellFormed
  unfinished : ∀ x ∈ pairs, negotiationFinished x.1.line x.2.line = false
  asked : ∀ q ∈ more, q.WellFormed
  valid : ∀ q, (pairs.map Prod.fst ++ more).head? = some q → validRTSPRequest q.line = true

theorem Exchange.answer {pairs : List (Message × Message)} {q r : Message}
    (h : Exchange pairs [q]) (hr : r.WellFormed)
    (hfin : negotiationFinished q.line r.line = false) : Exchange (pairs ++ [(q, r)]) [] where
  wellFormed := by
    intro x hx
    rcases List.mem_append.mp hx with hx | hx
    · exact h.wellFormed x hx
    · obtain rfl := List.mem_singleton.mp hx
      exact ⟨h.asked q List.mem_cons_self, hr⟩
  unfinished := by
    intro x hx
    rcases List.mem_append.mp hx with hx | hx
    · exact h.unfinished x hx
    · obtain rfl := List.mem_singleton.mp hx
      exact hfin
  asked := nofun
  valid q' hq' := h.valid q' (by simpa using hq')

theorem Exchange.ask {pairs : List (Message × Message)} {q : Message} (h : Exchange pairs [])
    (hne : pairs ≠ []) (hq : q.WellFormed) : Exchange pairs [q] where
  wellFormed := h.wellFormed
  unfinished := h.unfinished
  asked x hx := List.mem_singleton.mp hx ▸ hq
  valid x hx := by
    refine h.valid x ?_
    cases pairs with
    | nil => exact absurd rfl hne
    | cons y ys => simpa using hx

/-- What was written to the device and to the client before the switch. -/
inductive Stage : Bytes → Bytes → Prop
  /-- There was no request yet. -/
  | before : Stage [] []
  /-- The first request is being written. -/
  | first (q : Message) (part : Bytes) : Exchange [] [q] → part <+: q.bytes → Stage part []
  /-- The first bytes of the response to the last request were written. -/
  | response (pairs : List (Message × Message)) (q : Message) (part : Bytes) : Exchange pairs [q] →
      Begun part → Stage (requests pairs ++ q.bytes) (responses pairs ++ part)
  /-- Every request has its response, and the first bytes of the next one were written. -/
  | request (pairs : List (Message × Message)) (part : Bytes) : Exchange pairs [] → pairs ≠ [] →
      Begun part → Stage (requests pairs ++ part) (responses pairs)

/-- The last response has ended the negotiation. -/
def Switched (up down : Bytes) : Prop :=
  ∃ (pairs : List (Message × Message)) (q r : Message), Exchange pairs [q] ∧ r.WellFormed ∧
    negotiationFinished q.line r.line = true ∧ up = requests pairs ++ q.bytes ∧
    down = responses pairs ++ r.bytes

/-- Where the exchange is, or was at the switch. -/
def Told (s : Proxy) : Prop :=
  match s.finished with
  | none => Stage s.up.out s.down.out
  | some (up, down) => Switched up.out down.out

theorem Told.of_stage {s : Proxy} (hfin : s.finished = none) (h : Stage s.up.out s.down.out) :
    Told s := by
  unfold Told
  rw [hfin]
  exact h

/-- The request `q` was written, after the exchange of `pairs`. -/
def Asking (pairs : List (Message × Message)) (q : Message) (s : Proxy) : Prop :=
  s.finished = none ∧ s.up.out = requests pairs ++ q.bytes ∧ s.down.out = responses pairs

/-- Every request has its response. -/
def Answered (pairs : List (Message × Message)) (s : Proxy) : Prop :=
  s.finished = none ∧ s.up.out = requests pairs ∧ s.down.out = responses pairs

theorem response_told {pairs : List (Message × Message)} {q : Message} (h : Exchange pairs [q]) :
    Triple (Asking pairs q) (onDown copyRTSPMessage)
      (fun line s => ∃ r : Message, (r.WellFormed ∧ line = r.line) ∧ s.finished = none ∧
        s.up.out = requests pairs ++ q.bytes ∧ s.down.out = responses pairs ++ r.bytes) Told := by
  refine ((onDown_spec (o := none) (copyRTSPMessage_wrote (responses pairs))
    (R := fun p => p.out = requests pairs ++ q.bytes) fun _ hp => hp).weaken ?_).mono
      (fun _ hs => hs) ?_
  · rintro s ⟨hfin, hup, part, hpart, hdown⟩
    refine .of_stage hfin ?_
    rw [hup, hdown]
    exact .response pairs q part h hpart
  · rintro line s ⟨hfin, hup, r, hr, hdown⟩
    exact ⟨r, hr, hfin, hup, hdown⟩

theorem request_told {pairs : List (Message × Message)} (h : Exchange pairs []) (hne : pairs ≠ []) :
    Triple (Answered pairs) (onUp copyRTSPMessage)
      (fun line s => ∃ q : Message, (q.WellFormed ∧ line = q.line) ∧ Asking pairs q s) Told := by
  refine ((onUp_spec (o := none) (copyRTSPMessage_wrote (requests pairs))
    (R := fun p => p.out = responses pairs) fun _ hp => hp).weaken ?_).mono (fun _ hs => hs) ?_
  · rintro s ⟨hfin, ⟨part, hpart, hup⟩, hdown⟩
    refine .of_stage hfin ?_
    rw [hup, hdown]
    exact .request pairs part h hne hpart
  · rintro line s ⟨hfin, ⟨q, hq, hup⟩, hdown⟩
    exact ⟨q, hq, hfin, hup, hdown⟩

theorem proxyLoop_told (run : Copying) (turns : ℕ) {pairs : List (Message × Message)} {q : Message}
    (h : Exchange pairs [q]) :
    Triple (Asking pairs q) (proxyLoop run turns q.line) (fun _ => Told) Told := by
  induction turns generalizing pairs q with
  | zero =>
      refine .pure fun s ⟨hfin, hup, hdown⟩ => .of_stage hfin ?_
      rw [hup, hdown, ← List.append_nil (responses pairs)]
      exact .response pairs q [] h .nil
  | succ turns ih =>
      refine (response_told h).bind fun line => .of_exists fun r => .of_fact fun ⟨hr, hline⟩ => ?_
      subst hline
      split
      · rename_i hfinished
        rintro s ⟨_, hup, hdown⟩
        exact ⟨pairs, q, r, h, hr, hfinished, hup, hdown⟩
      · rename_i hgoes
        have hx := h.answer hr (Bool.of_not_eq_true hgoes)
        have hne : pairs ++ [(q, r)] ≠ [] := by simp
        refine ((request_told hx hne).mono ?_ fun _ _ hs => hs).bind fun line =>
          .of_exists fun q' => .of_fact fun ⟨hq', hline⟩ => ?_
        · rintro s ⟨hfin, hup, hdown⟩
          exact ⟨hfin, by rw [hup, requests_concat], by rw [hdown, responses_concat]⟩
        · subst hline
          exact ih (hx.ask hne hq')

theorem proxyRTSP_told (run : Copying) (turns : ℕ) {q : Message} (h : Exchange [] [q]) :
    Triple (fun s => s.finished = none ∧ s.up.out = [] ∧ s.down.out = [])
      (proxyRTSP run turns q.bytes q.line) (fun _ => Told) Told := by
  have hwrite := onUp_spec (o := none) (writeAll_wrote [] q.bytes)
    (R := fun p => p.out = []) (F := fun p => p.out = []) fun _ hp => hp
  refine ((hwrite.weaken ?_).mono (fun _ hs => hs) ?_).bind fun _ => proxyLoop_told run turns h
  · rintro s ⟨hfin, ⟨part, hpart, hup⟩, hdown⟩
    refine .of_stage hfin ?_
    rw [hup, hdown]
    exact .first q part h hpart
  · exact fun _ s hs => hs

/-- A call that may fail before anything was written. -/
theorem check_told (failed : Bool) (e : Stop) :
    Triple (fun s => s.finished = none ∧ s.up.out = [] ∧ s.down.out = []) (check failed e)
      (fun _ s => failed = false ∧ s.finished = none ∧ s.up.out = [] ∧ s.down.out = []) Told := by
  unfold check
  split
  · refine .fail fun s ⟨hfin, hup, hdown⟩ => .of_stage hfin ?_
    rw [hup, hdown]
    exact .before
  · rename_i hok
    exact .pure fun s hs => ⟨Bool.of_not_eq_true hok, hs⟩

theorem handle_told (failures : Failures) (run : Copying) (turns : ℕ) :
    Triple (fun s => s.finished = none ∧ s.up.out = [] ∧ s.down.out = [])
      (handle failures run turns) (fun _ => Told) Told := by
  refine (check_told _ _).bind fun _ => .of_fact fun _ => ?_
  have hcapture := onUp_spec (o := none) (captureRequest_captures [])
    (R := fun p => p.out = []) (F := fun p => p.out = []) fun _ hp => hp
  refine ((hcapture.wrap _).weaken ?_).bind fun request => ?_
  · rintro s ⟨hfin, hup, hdown⟩
    refine .of_stage hfin ?_
    rw [hup, hdown]
    exact .before
  · rintro s ⟨hfin, ⟨q, ⟨hq, hrequest⟩, hup⟩, hdown⟩
    subst hrequest
    refine Triple.bind (check_told _ _) (fun _ => .of_fact fun hvalid => ?_) s ⟨hfin, hup, hdown⟩
    have hx : Exchange [] [q] := by
      refine ⟨nofun, nofun, fun x hx => List.mem_singleton.mp hx ▸ hq, fun x hx => ?_⟩
      cases hx
      simpa using hvalid
    refine (check_told _ _).bind fun _ => .of_fact fun _ => ?_
    refine (check_told _ _).bind fun _ => .of_fact fun _ => ?_
    refine (check_told _ _).bind fun _ => .of_fact fun _ => ?_
    refine (check_told _ _).bind fun _ => .of_fact fun _ => ?_
    exact (proxyRTSP_told run turns hx).wrap _

/-- **Requests and responses go in turn.**  However the streams are split, whatever fails and
however long `handle` has run: before the switch, the device has got a sequence of well-formed
requests and the client the well-formed responses to them; of one message more, the response to the
last request or the next request after its response, the first bytes may have been written; nothing
was written before a complete request that is valid; and the switch comes with the first `2xx`
response to `PLAY` or `RECORD`. -/
theorem handle_lockstep (failures : Failures) (run : Copying) (turns : ℕ)
    (client device : Channel) :
    let s := (handle failures run turns (Proxy.start client device)).2
    (s.finished = none → Stage s.up.out s.down.out) ∧
      ∀ up down, s.finished = some (up, down) → Switched up.out down.out := by
  have htold : Told (handle failures run turns (Proxy.start client device)).2 :=
    (handle_told failures run turns).always ⟨rfl, rfl, rfl⟩
  unfold Told at htold
  refine ⟨fun hnone => ?_, fun up down hsome => ?_⟩
  · rw [hnone] at htold
    exact htold
  · rw [hsome] at htold
    exact htold

/-! ### A negotiation that comes to its end -/

section ready
variable {p q : Pipe} {data line rest : Bytes} {m : Message}

/-- The writer takes everything, errors come alone, and what comes before one is `rest`. -/
structure Ready (rest : Bytes) (p : Pipe) : Prop where
  clear : p.Clear
  lone : Lone p.src.chunks
  size : maxRTSPHeaderBytes ≤ p.src.size
  supply : p.src.supply = rest

theorem writeAll_of_clear (h : p.Clear) (line : Bytes) :
    ∃ ws, writeAll line p = (.ok (), { p with writes := ws, out := p.out ++ line }) ∧
      ∀ o ∈ ws, o = none := by
  unfold writeAll
  cases line with
  | nil => exact ⟨p.writes, by rw [List.append_nil]; rfl, h.accepts⟩
  | cons b line =>
      have hwrite := wrap_of_ok (g := ProxyError.write) (write_of_clear h (b :: line))
      have hne : (b :: line).length ≠ 0 := by simp
      refine ⟨p.writes.tail, ?_, fun o ho => h.accepts o (List.mem_of_mem_tail ho)⟩
      rw [List.length_cons, writeAllLoop, if_neg (List.cons_ne_nil b line), bind_of_ok hwrite,
        if_neg hne, List.drop_length, writeAllLoop_nil]
      rfl

theorem readRTSPLine_forwards (p : Pipe) (data : Bytes) :
    Triple (fun q => Holds data [] p q ∧ Lone q.src.chunks) readRTSPLine
      (fun line q => IsLine line ∧ Holds data line p q ∧ Lone q.src.chunks) (fun _ => True) := by
  have hlone : Keeps (fun p q : Pipe => Lone p.src.chunks → Lone q.src.chunks)
      (Pipe.readSlice 0x0A) := fun q h => Reader.readSliceLoop_lone h
  refine (((readRTSPLine_line p data).weaken fun _ _ => trivial).and
    ((hlone.wrap _).triple (fun _ _ h => h) fun _ _ => trivial)).mono ?_ ?_
  · exact fun q hq => ⟨hq.1.forwards, hq.2⟩
  · exact fun line q hq => ⟨hq.1.1, hq.1.2, hq.2⟩

theorem writeAll_forwards (p : Pipe) (data line : Bytes) :
    Triple (fun q => Holds data line p q ∧ Lone q.src.chunks) (writeAll line)
      (fun _ q => Holds (data ++ line) [] p q ∧ Lone q.src.chunks) (fun _ => True) := by
  rintro q ⟨hq, hlone⟩
  obtain ⟨ws, hrun, hws⟩ := writeAll_of_clear hq.clear line
  rw [hrun]
  refine ⟨⟨?_, ?_, ⟨hq.clear.sound, hws⟩, hq.size⟩, hlone⟩
  · simp [hq.out]
  · simpa using hq.supply

/-- A read of a body gives bytes, or an error and no bytes. -/
theorem read_forwards (p : Pipe) (data : Bytes) (n : ℕ) :
    Triple (fun q => Holds data [] p q ∧ Lone q.src.chunks) (Pipe.read n)
      (fun res q => (res.1.length ≤ n ∧ (res.2 ≠ none → res.1 = [])) ∧
        (res.2 = none → Holds data res.1 p q) ∧ Lone q.src.chunks) (fun _ => True) := by
  rintro q ⟨hq, hlone⟩
  have hsupply := q.src.read_supply (min n (max 1 (q.bufs.headD 32768)))
  have hlen := q.src.read_length (min n (max 1 (q.bufs.headD 32768)))
  obtain ⟨hdata, hlone'⟩ := Reader.read_lone (min n (max 1 (q.bufs.headD 32768))) hlone
  refine ⟨⟨hlen.trans (Nat.min_le_left _ _), hdata⟩, fun hnone => ?_, hlone'⟩
  refine ⟨hq.out, ?_, ⟨Reader.read_sound _ hq.clear.sound, hq.clear.accepts⟩, ?_⟩
  · rw [hq.supply, hsupply, if_pos hnone, List.nil_append]
  · exact (Reader.read_size _ _).trans hq.size

theorem copyNLoop_forwards (p : Pipe) (turns n : ℕ) (data : Bytes) :
    Triple (fun q => Holds data [] p q ∧ Lone q.src.chunks) (copyNLoop turns n)
      (fun _ q => ∃ body : Bytes, body.length = n ∧ Holds (data ++ body) [] p q ∧
        Lone q.src.chunks) (fun _ => True) := by
  induction turns generalizing n data with
  | zero => exact .fail fun _ _ => trivial
  | succ turns ih =>
      unfold copyNLoop copyNTurn
      split
      · rename_i hzero
        exact .pure fun q hq => ⟨[], by simp [hzero], by simpa using hq⟩
      · rename_i hpos
        refine (read_forwards p data n).bind fun res => .of_fact fun hres => ?_
        obtain ⟨hlen, hdata⟩ := hres
        rintro q ⟨hholds, hlone⟩
        cases herr : res.2 with
        | some e =>
            -- no bytes came with the error
            have hnil : res.1 = [] := hdata (by simp [herr])
            have hrun : writeSome res.1 q = (.ok 0, q) := by
              rw [hnil]
              rfl
            rw [bind_of_ok hrun, hnil, if_neg (by simpa using hpos)]
            trivial
        | none =>
            obtain ⟨k, ws, hrun, hws⟩ := writeSome_of_clear (hholds herr).clear res.1
            rw [bind_of_ok hrun]
            have hforwards : Holds (data ++ res.1) [] p
                { q with writes := ws, out := q.out ++ res.1 } := by
              refine ⟨?_, ?_, ⟨(hholds herr).clear.sound, hws⟩, (hholds herr).size⟩
              · simp [(hholds herr).out]
              · simpa using (hholds herr).supply
            by_cases hdone : n ≤ res.1.length
            · rw [if_pos hdone]
              exact ⟨res.1, by omega, hforwards, hlone⟩
            · rw [if_neg hdone]
              refine ((ih (n - res.1.length) (data ++ res.1)).mono (fun _ hq => hq) ?_) _
                ⟨hforwards, hlone⟩
              rintro _ q' ⟨body, hbody, hq', hlone'⟩
              refine ⟨res.1 ++ body, by rw [List.length_append]; omega, ?_, hlone'⟩
              simpa using hq'

/-- What comes after the message stays for the next one. -/
theorem copies_forwards (p : Pipe) :
    Copies (fun data held q => Holds data held p q ∧ Lone q.src.chunks)
      (fun data q => Holds data [] p q ∧ Lone q.src.chunks) (fun _ _ => True) where
  line := readRTSPLine_forwards p
  write data line := (writeAll_forwards p data line).weaken fun _ _ =>
    ⟨[], List.nil_prefix, trivial⟩
  body data n := Triple.weaken (fun q hq => copyNLoop_forwards p _ n data q hq) fun _ _ =>
    ⟨[], Nat.zero_le n, trivial⟩
  noBody _ _ hq := hq
  stop _ _ _ _ := trivial

/-- A message in front of the stream is forwarded, and the stream goes on behind it. -/
theorem copyRTSPMessage_ready (hp : Ready (m.bytes ++ rest) p) (hm : m.WellFormed) :
    ∃ q, copyRTSPMessage p = (.ok m.line, q) ∧ q.out = p.out ++ m.bytes ∧ Ready rest q := by
  obtain ⟨q, hrun, hout⟩ := copyRTSPMessage_of_message hp.clear hp.size hm hp.supply
  obtain ⟨m', _, hholds, hlone⟩ :=
    (copies_forwards p).message.of_ok ⟨(Forwards.refl hp.clear).holds, hp.lone⟩ hrun
  have hbytes : m'.bytes = m.bytes :=
    List.append_cancel_left (hholds.out.symm.trans hout)
  have hsupply := hholds.supply
  rw [hp.supply, hbytes, List.nil_append] at hsupply
  exact ⟨q, hrun, hout, hholds.clear, hlone, hp.size.trans hholds.size.ge,
    (List.append_cancel_left hsupply).symm⟩

theorem captureRequest_ready (hp : Ready (m.bytes ++ rest) p) (hm : m.WellFormed) :
    ∃ q, captureRequest p = (.ok (m.line, m.bytes), q) ∧ q.out = p.out ∧ Ready rest q := by
  have hready : Ready (m.bytes ++ rest) { p with writes := [], out := [] } :=
    ⟨⟨hp.clear.sound, nofun⟩, hp.lone, hp.size, hp.supply⟩
  obtain ⟨q, hrun, hout, hq⟩ := copyRTSPMessage_ready hready hm
  refine ⟨{ q with writes := p.writes, out := p.out }, ?_, rfl,
    ⟨hq.clear.sound, hp.clear.accepts⟩, hq.lone, hq.size, hq.supply⟩
  unfold captureRequest
  rw [hrun]
  dsimp only
  rw [hout]
  rfl

theorem writeAll_ready (hp : Ready rest p) (line : Bytes) :
    ∃ q, writeAll line p = (.ok (), q) ∧ q.out = p.out ++ line ∧ Ready rest q := by
  obtain ⟨ws, hrun, hws⟩ := writeAll_of_clear hp.clear line
  exact ⟨_, hrun, rfl, ⟨hp.clear.sound, hws⟩, hp.lone, hp.size, hp.supply⟩

end ready

/-- The first of the requests, and the bytes of the others. -/
def firstRequest : List (Message × Message) → Message → Message
  | [], q => q
  | x :: _, _ => x.1

def laterRequests : List (Message × Message) → Message → Bytes
  | [], _ => []
  | _ :: xs, q => requests xs ++ q.bytes

theorem first_later (pairs : List (Message × Message)) (q : Message) :
    requests pairs ++ q.bytes = (firstRequest pairs q).bytes ++ laterRequests pairs q := by
  cases pairs with
  | nil => simp [requests, firstRequest, laterRequests]
  | cons x xs => simp [requests, firstRequest, laterRequests]

section negotiates
variable {pairs : List (Message × Message)} {q r : Message} {restUp restDown : Bytes} {turns : ℕ}

theorem Exchange.first (h : Exchange pairs [q]) :
    (firstRequest pairs q).WellFormed ∧ validRTSPRequest (firstRequest pairs q).line = true := by
  cases pairs with
  | nil => exact ⟨h.asked q List.mem_cons_self, h.valid q rfl⟩
  | cons x xs => exact ⟨(h.wellFormed x List.mem_cons_self).1, h.valid x.1 rfl⟩

/-- From its first request on, the loop gets to the last response. -/
theorem proxyLoop_negotiates (run : Copying)
    (hwf : ∀ x ∈ pairs, x.1.WellFormed ∧ x.2.WellFormed)
    (hgoes : ∀ x ∈ pairs, negotiationFinished x.1.line x.2.line = false)
    (hq : q.WellFormed) (hr : r.WellFormed) (hfin : negotiationFinished q.line r.line = true)
    (hturns : pairs.length < turns) {s : Proxy} (hup : Ready (laterRequests pairs q ++ restUp) s.up)
    (hdown : Ready (responses pairs ++ (r.bytes ++ restDown)) s.down) :
    ∃ copied s' up down,
      proxyLoop run turns (firstRequest pairs q).line s = (.ok (some copied), s') ∧
      s'.finished = some (up, down) ∧ up.out = s.up.out ++ laterRequests pairs q ∧
      down.out = s.down.out ++ (responses pairs ++ r.bytes) := by
  induction pairs generalizing turns s with
  | nil =>
      obtain ⟨turns, rfl⟩ := Nat.exists_eq_succ_of_ne_zero (Nat.ne_of_gt hturns)
      obtain ⟨down, hrun, hout, _⟩ := copyRTSPMessage_ready hdown hr
      have hstep : onDown copyRTSPMessage s = (.ok r.line, { s with down := down }) := by
        simp [onDown, hrun]
      refine ⟨⟨(copy run.upDirect run.upTurns s.up).1, (copy run.downDirect run.downTurns down).1⟩,
        ⟨(copy run.upDirect run.upTurns s.up).2, (copy run.downDirect run.downTurns down).2,
          some (s.up, down)⟩, s.up, down, ?_, rfl, by simp [laterRequests],
        by simpa [responses] using hout⟩
      rw [proxyLoop, bind_of_ok hstep, firstRequest, if_pos hfin]
      rfl
  | cons x xs ih =>
      obtain ⟨turns, rfl⟩ := Nat.exists_eq_succ_of_ne_zero
        (Nat.ne_of_gt (Nat.zero_lt_of_lt hturns))
      have hdown₁ : Ready (x.2.bytes ++ (responses xs ++ (r.bytes ++ restDown))) s.down := by
        simpa [responses] using hdown
      obtain ⟨down, hrun, hout, hready⟩ :=
        copyRTSPMessage_ready hdown₁ (hwf x List.mem_cons_self).2
      have hstep : onDown copyRTSPMessage s = (.ok x.2.line, { s with down := down }) := by
        simp [onDown, hrun]
      have hnext : (firstRequest xs q).WellFormed := by
        cases xs with
        | nil => exact hq
        | cons y ys => exact (hwf y (List.mem_cons_of_mem _ List.mem_cons_self)).1
      have hup₁ : Ready ((firstRequest xs q).bytes ++ (laterRequests xs q ++ restUp)) s.up := by
        rw [← List.append_assoc, ← first_later]
        exact hup
      obtain ⟨up, hrun', hout', hready'⟩ := copyRTSPMessage_ready hup₁ hnext
      have hstep' : onUp copyRTSPMessage { s with down := down } =
          (.ok (firstRequest xs q).line, { s with up := up, down := down }) := by
        simp [onUp, hrun']
      obtain ⟨copied, s', up', down', hloop, hfinished, hupOut, hdownOut⟩ :=
        ih (fun y hy => hwf y (List.mem_cons_of_mem _ hy))
          (fun y hy => hgoes y (List.mem_cons_of_mem _ hy)) (Nat.lt_of_succ_lt_succ hturns)
          (s := { s with up := up, down := down }) hready' hready
      have hgo : ¬ negotiationFinished x.1.line x.2.line = true := by
        rw [hgoes x List.mem_cons_self]
        exact Bool.false_ne_true
      refine ⟨copied, s', up', down', ?_, hfinished, ?_, ?_⟩
      · rw [proxyLoop, bind_of_ok hstep, firstRequest, if_neg hgo, bind_of_ok hstep', hloop]
      · rw [hupOut, hout', laterRequests, first_later, List.append_assoc]
      · rw [hdownOut, hout]
        simp [responses]

/-- A connection over which nothing fails before its stream ends. -/
structure Channel.Ready (c : Channel) : Prop where
  steady : Steady c.chunks
  lone : Lone c.chunks
  accepts : ∀ o ∈ c.writes, o = none

theorem Channel.Ready.start {c : Channel} (h : c.Ready) :
    Bridge.Ready (supply c.chunks) c.start where
  clear := ⟨Reader.new_sound h.steady, h.accepts⟩
  lone := h.lone
  size := Nat.le_max_left _ _
  supply := rfl

/-- **A negotiation comes to its end.**  If the client sends requests and the device responses, if
the last response is the first one to end the negotiation, and if no call fails, then `handle`
forwards exactly these messages and switches to copying, however the two streams are split. -/
theorem handle_negotiates {client device : Channel} (hclient : client.Ready)
    (hdevice : device.Ready) (hx : Exchange pairs [q]) (hr : r.WellFormed)
    (hfin : negotiationFinished q.line r.line = true)
    (hup : supply client.chunks = requests pairs ++ (q.bytes ++ restUp))
    (hdown : supply device.chunks = responses pairs ++ (r.bytes ++ restDown))
    (hturns : pairs.length < turns) (run : Copying) :
    ∃ copied s up down,
      handle ⟨false, false, false, false, false⟩ run turns (Proxy.start client device) =
        (.ok (some copied), s) ∧
      s.finished = some (up, down) ∧ up.out = requests pairs ++ q.bytes ∧
      down.out = responses pairs ++ r.bytes := by
  obtain ⟨hfirst, hvalid⟩ := hx.first
  have hready : Ready ((firstRequest pairs q).bytes ++ (laterRequests pairs q ++ restUp))
      client.start := by
    rw [← List.append_assoc, ← first_later, List.append_assoc, ← hup]
    exact hclient.start
  have hready' : Ready (responses pairs ++ (r.bytes ++ restDown)) device.start := by
    rw [← hdown]
    exact hdevice.start
  obtain ⟨up₁, hcapture, hout₁, hup₁⟩ := captureRequest_ready hready hfirst
  obtain ⟨up₂, hwrite, hout₂, hup₂⟩ := writeAll_ready hup₁ (firstRequest pairs q).bytes
  obtain ⟨copied, s, up, down, hloop, hfinished, hupOut, hdownOut⟩ :=
    proxyLoop_negotiates run hx.wellFormed hx.unfinished (hx.asked q List.mem_cons_self) hr hfin
      hturns (s := ⟨up₂, device.start, none⟩) hup₂ hready'
  have hstep₁ : wrap Stop.initialRequest (onUp captureRequest) (Proxy.start client device) =
      (.ok ((firstRequest pairs q).line, (firstRequest pairs q).bytes),
        ⟨up₁, device.start, none⟩) := by
    refine wrap_of_ok ?_
    simp [onUp, Proxy.start, hcapture]
  have hstep₂ : onUp (writeAll (firstRequest pairs q).bytes)
      (⟨up₁, device.start, none⟩ : Proxy) = (.ok (), ⟨up₂, device.start, none⟩) := by
    simp [onUp, hwrite]
  have hcheck : ∀ (e : Stop) (s : Proxy), check false e s = (.ok (), s) := fun _ _ => rfl
  refine ⟨copied, s, up, down, ?_, hfinished, ?_, ?_⟩
  · unfold handle
    rw [bind_of_ok (hcheck _ _), bind_of_ok hstep₁]
    dsimp only
    rw [hvalid, Bool.not_true, bind_of_ok (hcheck _ _), bind_of_ok (hcheck _ _),
      bind_of_ok (hcheck _ _), bind_of_ok (hcheck _ _), bind_of_ok (hcheck _ _)]
    refine wrap_of_ok ?_
    rw [proxyRTSP, bind_of_ok hstep₂, hloop]
  · rw [hupOut, hout₂, hout₁, first_later]
    rfl
  · rw [hdownOut]
    rfl

end negotiates

/-- A message without header lines and body. -/
def shortMessage (text : Bytes) : Message := ⟨text ++ [0x0A], [], ascii "\r\n", []⟩

theorem shortMessage_wellFormed {text : Bytes} (hlen : text.length ≤ 1000)
    (hnot : (0x0A : UInt8) ∉ text) : (shortMessage text).WellFormed := by
  refine ⟨⟨text, rfl, hnot⟩, nofun, .inl rfl, ?_, .inl ⟨rfl, rfl⟩, by simp [shortMessage]⟩
  have hlast : (ascii "\r\n").length = 2 := by decide
  simp only [Message.head, shortMessage, List.flatten_nil, List.nil_append, List.length_append,
    List.length_singleton, hlast]
  omega

/-- `OPTIONS` and `PLAY` arrive at once, and the device answers in two reads that do not end where
its messages do. -/
theorem handle_negotiates_play :
    let options := shortMessage (ascii "OPTIONS * RTSP/1.0\r")
    let play := shortMessage (ascii "PLAY * RTSP/1.0\r")
    let ok := shortMessage (ascii "RTSP/1.0 200 OK\r")
    let client : Channel := ⟨[⟨options.bytes ++ play.bytes ++ ascii "$", none⟩], [], []⟩
    let device : Channel :=
      ⟨[⟨(ok.bytes ++ ok.bytes).take 7, none⟩, ⟨(ok.bytes ++ ok.bytes).drop 7, none⟩], [], []⟩
    ∃ copied s up down,
      handle ⟨false, false, false, false, false⟩ ⟨0, true, 0, true⟩ 2
        (Proxy.start client device) = (.ok (some copied), s) ∧
      s.finished = some (up, down) ∧ up.out = options.bytes ++ play.bytes ∧
      down.out = ok.bytes ++ ok.bytes := by
  intro options play ok client device
  have hoptions : options.WellFormed := shortMessage_wellFormed (by decide) (by decide)
  have hplay : play.WellFormed := shortMessage_wellFormed (by decide) (by decide)
  have hok : ok.WellFormed := shortMessage_wellFormed (by decide) (by decide)
  have hsteady : ∀ chunks : List Chunk, chunks.length < 100 → Steady chunks :=
    fun chunks hlen blanks hb _ => hb.length_le.trans_lt hlen
  have hx : Exchange [(options, ok)] [play] := by
    refine ⟨?_, ?_, fun q hq => List.mem_singleton.mp hq ▸ hplay, fun q hq => ?_⟩
    · exact fun x hx => List.mem_singleton.mp hx ▸ ⟨hoptions, hok⟩
    · exact fun x hx => List.mem_singleton.mp hx ▸ (by decide +kernel)
    · cases hq
      decide +kernel
  have hclient : client.Ready :=
    ⟨hsteady _ (by decide), fun c hc => by simp [client] at hc; simp [hc], nofun⟩
  have hdevice : device.Ready := by
    refine ⟨hsteady _ (by decide), fun c hc herr => ?_, nofun⟩
    rcases List.mem_cons.mp hc with rfl | hc
    · exact absurd rfl herr
    · obtain rfl := List.mem_singleton.mp hc
      exact absurd rfl herr
  have hsent : supply client.chunks = requests [(options, ok)] ++ (play.bytes ++ ascii "$") := by
    decide +kernel
  have hreplies : supply device.chunks = responses [(options, ok)] ++ (ok.bytes ++ []) := by
    decide +kernel
  have hturns : [(options, ok)].length < 2 := by decide
  obtain ⟨copied, s, up, down, hrun, hfin, hup, hdown⟩ := handle_negotiates hclient hdevice hx hok
    (by decide +kernel) hsent hreplies hturns ⟨0, true, 0, true⟩
  refine ⟨copied, s, up, down, hrun, hfin, ?_, ?_⟩
  · simpa [requests] using hup
  · simpa [responses] using hdown

end DahuaP2p.Bridge
