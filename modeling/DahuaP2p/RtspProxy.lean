import DahuaP2p.GoStrings
import DahuaP2p.Streams

/-! # The RTSP proxy (`cmd/dahua-p2p/proxy.go`, `bridge.handle`)

A connection of the bridge forwards two byte streams, from the client to the device and back, by
three means in turn: the first request is captured before there is a device, requests and responses
are then copied one at a time, and after the response to `PLAY` or `RECORD` both directions are
copied at once.

* **Pipes.** `up` goes from `upstreamReader` to the device and `down` from `deviceReader` to the
  client.  How the streams are split into reads, what the writes return and which of the other calls
  fail are inputs.
* **Turns.** Loops that may go on for ever are seen after a number of turns: the exchange of
  messages, and the two copying goroutines, each after its own number.  The goroutines share no
  pipe, so these two numbers are all that an interleaving decides.
* **Transparency.** However a run stops, what was written in a direction is a prefix of what the
  other side sent.  At the switch nothing is lost, and what the readers have buffered goes first. -/

namespace DahuaP2p.Bridge

open BigEndian Programs Prog Streams Pipe GoStrings

/-! ### Messages -/

def maxRTSPHeaderBytes : ℕ := 64 <<< 10

def maxRTSPBodyBytes : ℕ := 1 <<< 20

inductive ProxyError where
  | lineTooLong
  | read (e : IoErr)
  | write (e : IoErr)
  | shortWrite
  | headerTooLong
  | duplicateLength
  | invalidLength (value : Bytes)
  | bodyTooLong
  | body (e : IoErr)
deriving DecidableEq, Repr

/-- The texts of the errors; `quote` is the verb `%q`. -/
def ProxyError.text (quote : Bytes → String) : ProxyError → String
  | .lineTooLong => "RTSP header line exceeds 64 KiB"
  | .read e => e.text
  | .write e => "write RTSP data: " ++ e.text
  | .shortWrite => "short write"
  | .headerTooLong => "RTSP header exceeds 64 KiB"
  | .duplicateLength => "duplicate RTSP Content-Length"
  | .invalidLength value => "invalid RTSP Content-Length " ++ quote value
  | .bodyTooLong => "RTSP body exceeds 1 MiB"
  | .body e => "copy RTSP body: " ++ e.text

def readRTSPLine : Prog ProxyError Pipe Bytes :=
  wrap (fun e => if e = .bufferFull then .lineTooLong else .read e) (readSlice 0x0A)

/-- The loop of `writeAll`; each turn takes a byte at least. -/
def writeAllLoop : ℕ → Bytes → Prog ProxyError Pipe Unit
  | 0, _ => pure ()
  | turns + 1, data =>
    if data = [] then pure ()
    else do
      let n ← wrap .write (write data)
      if n = 0 then fail .shortWrite else writeAllLoop turns (data.drop n)

def writeAll (data : Bytes) : Prog ProxyError Pipe Unit := writeAllLoop data.length data

/-- What a header line says about the length of the body, after what the lines before it said. -/
def contentLength (line : Bytes) (seen : Option ℤ) : Except ProxyError (Option ℤ) :=
  match cut 0x3A line with
  | none => .ok seen
  | some (name, value) =>
    if equalFold (trimSpace name) (ascii "Content-Length") then
      match seen with
      | some _ => .error .duplicateLength
      | none =>
        match parseInt (trimSpace value) with
        | none => .error (.invalidLength (trimSpace value))
        | some n =>
          if n < 0 then .error (.invalidLength (trimSpace value)) else .ok (some n)
    else .ok seen

/-- A turn of the loop of `copyRTSPMessage` over the header lines, and then the next ones. -/
def headerTurn (next : ℕ → Option ℤ → Prog ProxyError Pipe (Option ℤ)) (headerBytes : ℕ)
    (seen : Option ℤ) : Prog ProxyError Pipe (Option ℤ) := do
  let line ← readRTSPLine
  if headerBytes + line.length > maxRTSPHeaderBytes then fail .headerTooLong
  else do
    writeAll line
    if line = ascii "\r\n" ∨ line = ascii "\n" then pure seen
    else
      match contentLength line seen with
      | .error e => fail e
      | .ok seen' => next (headerBytes + line.length) seen'

def headerLoop : ℕ → ℕ → Option ℤ → Prog ProxyError Pipe (Option ℤ)
  | 0 => fun _ _ => fail .headerTooLong
  | turns + 1 => headerTurn (headerLoop turns)

/-- Every line has a byte, so that there are at most `maxRTSPHeaderBytes` turns and a last one. -/
def copyHeader (headerBytes : ℕ) (seen : Option ℤ) : Prog ProxyError Pipe (Option ℤ) :=
  headerLoop (maxRTSPHeaderBytes + 1) headerBytes seen

def copyBody (length : ℤ) : Prog ProxyError Pipe Unit :=
  if 0 < length then
    if length > maxRTSPBodyBytes then fail .bodyTooLong
    else wrap .body (copyN length.toNat)
  else pure ()

def copyRTSPMessage : Prog ProxyError Pipe Bytes := do
  let startLine ← readRTSPLine
  writeAll startLine
  let length ← copyHeader startLine.length none
  copyBody (length.getD 0)
  pure (trimSpace startLine)

/-! ### The header ends by itself -/

theorem readRTSPLine_pos {p p' : Pipe} {line : Bytes} (h : readRTSPLine p = (.ok line, p')) :
    0 < line.length := by
  unfold readRTSPLine wrap at h
  split at h
  · rename_i hread
    cases h
    exact readSlice_pos hread
  · cases h

/-- A turn goes on only with more bytes of the header, and no more than there may be. -/
theorem headerTurn_congr {next next' : ℕ → Option ℤ → Prog ProxyError Pipe (Option ℤ)}
    {headerBytes : ℕ} (seen : Option ℤ)
    (h : ∀ (n : ℕ) (seen' : Option ℤ), headerBytes < n → n ≤ maxRTSPHeaderBytes →
      next n seen' = next' n seen') :
    headerTurn next headerBytes seen = headerTurn next' headerBytes seen := by
  funext p
  unfold headerTurn
  rcases ends readRTSPLine p with ⟨line, p', hline⟩ | ⟨e, p', hline⟩
  · rw [bind_of_ok hline, bind_of_ok hline]
    by_cases hmax : headerBytes + line.length > maxRTSPHeaderBytes
    · simp only [if_pos hmax]
    · have hpos := readRTSPLine_pos hline
      simp only [if_neg hmax, h (headerBytes + line.length) _ (by omega) (by omega)]
  · rw [bind_of_error hline, bind_of_error hline]

/-- Once the turns are enough their number does not matter. -/
theorem headerLoop_of_enough {turns turns' headerBytes : ℕ} (seen : Option ℤ)
    (h : maxRTSPHeaderBytes < headerBytes + turns)
    (h' : maxRTSPHeaderBytes < headerBytes + turns') (hle : headerBytes ≤ maxRTSPHeaderBytes) :
    headerLoop turns headerBytes seen = headerLoop turns' headerBytes seen := by
  induction turns generalizing turns' headerBytes seen with
  | zero => omega
  | succ turns ih =>
      obtain ⟨more, rfl⟩ := Nat.exists_eq_succ_of_ne_zero (show turns' ≠ 0 by omega)
      exact headerTurn_congr seen fun n seen' hlt hle' => ih seen' (by omega) (by omega) hle'

/-- The loop over the header lines as the code has it, without a number of turns. -/
theorem copyHeader_eq (headerBytes : ℕ) (seen : Option ℤ) :
    copyHeader headerBytes seen = headerTurn copyHeader headerBytes seen := by
  refine headerTurn_congr seen fun n seen' hlt hle => ?_
  have hloop : headerLoop maxRTSPHeaderBytes n seen' =
      headerLoop (maxRTSPHeaderBytes + 1) n seen' :=
    headerLoop_of_enough seen' (by omega) (by omega) hle
  exact hloop

/-! ### Messages are carried as they are -/

section messages
variable (stream : Bytes)

theorem readRTSPLine_spec :
    Triple (Carries stream []) readRTSPLine (fun line => Carries stream line)
      (Truncated stream) :=
  (readSlice_spec stream 0x0A).wrap _

theorem writeAllLoop_spec (turns : ℕ) (data : Bytes) (h : data.length ≤ turns) :
    Triple (Carries stream data) (writeAllLoop turns data) (fun _ => Carries stream [])
      (Truncated stream) := by
  induction turns generalizing data with
  | zero =>
      obtain rfl := List.length_eq_zero_iff.mp (Nat.le_zero.mp h)
      exact .pure fun _ h => h
  | succ turns ih =>
      unfold writeAllLoop
      split
      · rename_i hdata
        subst hdata
        exact .pure fun _ h => h
      · refine ((write_spec stream data).wrap _).bind fun n => ?_
        refine .of_fact fun hn => ?_
        split
        · exact .fail fun _ h => h.truncated
        · -- the write took everything, so nothing is left for the next turn
          rw [hn, List.drop_length]
          exact ih [] (Nat.zero_le turns)

theorem writeAll_spec (data : Bytes) :
    Triple (Carries stream data) (writeAll data) (fun _ => Carries stream [])
      (Truncated stream) :=
  writeAllLoop_spec stream data.length data le_rfl

theorem headerLoop_spec (turns headerBytes : ℕ) (seen : Option ℤ) :
    Triple (Carries stream []) (headerLoop turns headerBytes seen) (fun _ => Carries stream [])
      (Truncated stream) := by
  induction turns generalizing headerBytes seen with
  | zero => exact .fail fun _ h => h.truncated
  | succ turns ih =>
      refine (readRTSPLine_spec stream).bind fun line => ?_
      split
      · exact .fail fun _ h => h.truncated
      · refine (writeAll_spec stream line).bind fun _ => ?_
        split
        · exact .pure fun _ h => h
        · cases contentLength line seen with
          | error e => exact .fail fun _ h => h.truncated
          | ok seen' => exact ih _ seen'

theorem copyBody_spec (length : ℤ) :
    Triple (Carries stream []) (copyBody length) (fun _ => Carries stream [])
      (Truncated stream) := by
  unfold copyBody
  split
  · split
    · exact .fail fun _ h => h.truncated
    · exact (copyN_spec stream _).wrap _
  · exact .pure fun _ h => h

/-- A message that is copied is taken from the reader and written, byte for byte. -/
theorem copyRTSPMessage_spec :
    Triple (Carries stream []) copyRTSPMessage (fun _ => Carries stream [])
      (Truncated stream) := by
  refine (readRTSPLine_spec stream).bind fun startLine => ?_
  refine (writeAll_spec stream startLine).bind fun _ => ?_
  refine (headerLoop_spec stream _ _ _).bind fun length => ?_
  exact (copyBody_spec stream _).bind fun _ => .pure fun _ h => h

end messages

/-! ### The proxy -/

def validRTSPRequest (requestLine : Bytes) : Bool :=
  match fields requestLine with
  | [method, url, version] => method ≠ [] ∧ url ≠ [] ∧ version = ascii "RTSP/1.0"
  | _ => false

def negotiationFinished (requestLine responseLine : Bytes) : Bool :=
  match fields requestLine, fields responseLine with
  | method :: _, _ :: status :: _ =>
    (toUpper method = ascii "PLAY" ∨ toUpper method = ascii "RECORD") ∧
      (ascii "2").isPrefixOf status
  | _, _ => false

/-- The two directions of a connection, and their state when `finishNegotiation` was called by the
proxy. -/
structure Proxy where
  up : Pipe
  down : Pipe
  finished : Option (Pipe × Pipe)
deriving DecidableEq, Repr

/-- The steps of the direction from the client to the device. -/
def onUp {ε α : Type} (x : Prog ε Pipe α) : Prog ε Proxy α := fun s =>
  ((x s.up).1, { s with up := (x s.up).2 })

/-- The steps of the direction from the device to the client. -/
def onDown {ε α : Type} (x : Prog ε Pipe α) : Prog ε Proxy α := fun s =>
  ((x s.down).1, { s with down := (x s.down).2 })

/-- The callback; it changes no stream. -/
def finishNegotiation : Prog ProxyError Proxy Unit := fun s =>
  (.ok (), { s with finished := some (s.up, s.down) })

/-- How far the two goroutines of `copyBoth` have come, and which of them bypass the buffer. -/
structure Copying where
  upTurns : ℕ
  upDirect : Bool
  downTurns : ℕ
  downDirect : Bool
deriving DecidableEq, Repr

/-- What the two goroutines of `copyBoth` have returned, where one that is still copying counts as
without an error.  `copyBoth` returns the result of the one that ends first. -/
structure Copied where
  up : Except IoErr Unit
  down : Except IoErr Unit

def copyBoth (run : Copying) : Prog ProxyError Proxy Copied := do
  let up ← attempt (onUp (copy run.upDirect run.upTurns))
  let down ← attempt (onDown (copy run.downDirect run.downTurns))
  pure ⟨up, down⟩

/-- The loop of `proxyRTSP`; it returns nothing while the messages go on. -/
def proxyLoop (run : Copying) : ℕ → Bytes → Prog ProxyError Proxy (Option Copied)
  | 0, _ => pure none
  | turns + 1, requestLine => do
    let responseLine ← onDown copyRTSPMessage
    if negotiationFinished requestLine responseLine then do
      finishNegotiation
      let copied ← copyBoth run
      pure (some copied)
    else do
      let requestLine' ← onUp copyRTSPMessage
      proxyLoop run turns requestLine'

def proxyRTSP (run : Copying) (turns : ℕ) (firstRequest requestLine : Bytes) :
    Prog ProxyError Proxy (Option Copied) := do
  onUp (writeAll firstRequest)
  proxyLoop run turns requestLine

/-- `copyRTSPMessage` into a `bytes.Buffer`, which takes everything: the line it returns and what is
in the buffer then. -/
def captureRequest : Prog ProxyError Pipe (Bytes × Bytes) := fun p =>
  match copyRTSPMessage { p with writes := [], out := [] } with
  | (.ok line, p') => (.ok (line, p'.out), { p' with writes := p.writes, out := p.out })
  | (.error e, p') => (.error e, { p' with writes := p.writes, out := p.out })

/-- Which of the calls of `handle` around the proxy fail. -/
structure Failures where
  setInitialDeadline : Bool
  clearInitialDeadline : Bool
  openRealm : Bool
  setUpstreamDeadline : Bool
  setDeviceDeadline : Bool
deriving DecidableEq, Repr

/-- Why `handle` returned. -/
inductive Stop where
  | setInitialDeadline
  | initialRequest (e : ProxyError)
  | invalidRequest
  | clearInitialDeadline
  | openRealm
  | setUpstreamDeadline
  | setDeviceDeadline
  | proxy (e : ProxyError)
deriving DecidableEq, Repr

/-- A call that may fail and touches no stream. -/
def check (failed : Bool) (e : Stop) : Prog Stop Proxy Unit := if failed then fail e else pure ()

def handle (failures : Failures) (run : Copying) (turns : ℕ) :
    Prog Stop Proxy (Option Copied) := do
  check failures.setInitialDeadline .setInitialDeadline
  let request ← wrap .initialRequest (onUp captureRequest)
  check (!validRTSPRequest request.1) .invalidRequest
  check failures.clearInitialDeadline .clearInitialDeadline
  check failures.openRealm .openRealm
  check failures.setUpstreamDeadline .setUpstreamDeadline
  check failures.setDeviceDeadline .setDeviceDeadline
  wrap .proxy (proxyRTSP run turns request.2 request.1)

/-- What is around a direction: the reads of its source, the copying buffers and the writes. -/
structure Channel where
  chunks : List Chunk
  bufs : List ℕ
  writes : List (Option (ℕ × IoErr))
deriving DecidableEq, Repr

def Channel.start (c : Channel) : Pipe where
  src := .new maxRTSPHeaderBytes c.chunks
  bufs := c.bufs
  writes := c.writes
  out := []

/-- A connection before `handle`. -/
def Proxy.start (client device : Channel) : Proxy := ⟨client.start, device.start, none⟩

/-! ### Transparency -/

section lifting
variable {ε α : Type} {P R F E : Pipe → Prop} {Q : α → Pipe → Prop} {x : Prog ε Pipe α}
  {o : Option (Pipe × Pipe)}

/-- What a program does to one direction, while the other one is as it was. -/
theorem onUp_spec (hx : Triple P x Q E) (hF : ∀ p, R p → F p) :
    Triple (fun s => s.finished = o ∧ P s.up ∧ R s.down) (onUp x)
      (fun a s => s.finished = o ∧ Q a s.up ∧ R s.down)
      (fun s => s.finished = o ∧ E s.up ∧ F s.down) := by
  rintro s ⟨hfin, hup, hdown⟩
  unfold onUp
  rcases ends x s.up with ⟨a, p, h⟩ | ⟨e, p, h⟩
  · rw [h]
    exact ⟨hfin, hx.of_ok hup h, hdown⟩
  · rw [h]
    exact ⟨hfin, hx.of_error hup h, hF _ hdown⟩

theorem onDown_spec (hx : Triple P x Q E) (hF : ∀ p, R p → F p) :
    Triple (fun s => s.finished = o ∧ R s.up ∧ P s.down) (onDown x)
      (fun a s => s.finished = o ∧ R s.up ∧ Q a s.down)
      (fun s => s.finished = o ∧ F s.up ∧ E s.down) := by
  rintro s ⟨hfin, hup, hdown⟩
  unfold onDown
  rcases ends x s.down with ⟨a, p, h⟩ | ⟨e, p, h⟩
  · rw [h]
    exact ⟨hfin, hup, hx.of_ok hdown h⟩
  · rw [h]
    exact ⟨hfin, hF _ hup, hx.of_error hdown h⟩

end lifting

/-- What has become of a direction that was switched to copying: `switched` is the pipe then, `p`
the pipe now. -/
structure Forwarded (stream : Bytes) (turns : ℕ) (res : Except IoErr Unit) (switched p : Pipe) :
    Prop where
  /-- At the switch every byte read was written or is in the buffer. -/
  whole : switched.out ++ switched.src.buf ++ bytesOf switched.src.chunks = stream
  /-- What was in the buffer is written first. -/
  first : res = .ok () → 0 < turns → switched.out ++ switched.src.buf <+: p.out
  /-- Without an error no byte is lost. -/
  carried : res = .ok () → p.out ++ p.src.pending = stream

theorem copy_forwarded {stream : Bytes} {p : Pipe} (hp : Carries stream [] p) (direct : Bool)
    (turns : ℕ) :
    Truncated stream (copy direct turns p).2 ∧
      Forwarded stream turns (copy direct turns p).1 p (copy direct turns p).2 := by
  have hspec := copy_spec stream direct turns
  have hwhole : p.out ++ p.src.buf ++ bytesOf p.src.chunks = stream := by
    rw [Carries, List.append_nil, Reader.pending, ← List.append_assoc] at hp
    exact hp
  rcases ends (copy direct turns) p with ⟨_, p', h⟩ | ⟨e, p', h⟩
  · have hcarries := hspec.of_ok hp h
    rw [h]
    refine ⟨hcarries.truncated, hwhole, fun _ hturns => ?_, fun _ => ?_⟩
    · obtain ⟨turns, rfl⟩ := Nat.exists_eq_succ_of_ne_zero (Nat.ne_of_gt hturns)
      exact copy_buffered_first h
    · rw [Carries, List.append_nil] at hcarries
      exact hcarries
  · rw [h]
    exact ⟨hspec.of_error hp h, hwhole, by simp, by simp⟩

section transparency
variable (client device : Bytes) (run : Copying)

/-- The message mode, in which `finishNegotiation` has not been called yet. -/
def Exchanging (held : Bytes) (s : Proxy) : Prop :=
  s.finished = none ∧ Carries client held s.up ∧ Carries device [] s.down

/-- A run that has failed, which it can only do in the message mode. -/
def Stopped (s : Proxy) : Prop :=
  s.finished = none ∧ Truncated client s.up ∧ Truncated device s.down

/-- A run that goes on: with messages, or by copying both ways. -/
def Proxied (copied : Option Copied) (s : Proxy) : Prop :=
  Truncated client s.up ∧ Truncated device s.down ∧
    match copied with
    | none => s.finished = none
    | some c => ∃ up down, s.finished = some (up, down) ∧
        Forwarded client run.upTurns c.up up s.up ∧
        Forwarded device run.downTurns c.down down s.down

theorem Exchanging.stopped {held : Bytes} {s : Proxy} (h : Exchanging client device held s) :
    Stopped client device s :=
  ⟨h.1, h.2.1.truncated, h.2.2.truncated⟩

theorem onUp_exchanging {α : Type} {x : Prog ProxyError Pipe α} {held : Bytes}
    {held' : α → Bytes}
    (hx : Triple (Carries client held) x (fun a => Carries client (held' a)) (Truncated client)) :
    Triple (Exchanging client device held) (onUp x)
      (fun a => Exchanging client device (held' a)) (Stopped client device) :=
  onUp_spec hx fun _ h => h.truncated

theorem onDown_exchanging {α : Type} {x : Prog ProxyError Pipe α}
    (hx : Triple (Carries device []) x (fun _ => Carries device []) (Truncated device)) :
    Triple (Exchanging client device []) (onDown x)
      (fun _ => Exchanging client device []) (Stopped client device) :=
  onDown_spec hx fun _ h => h.truncated

theorem switch_spec :
    Triple (Exchanging client device [])
      (do finishNegotiation; let copied ← copyBoth run; pure (some copied))
      (Proxied client device run) (Stopped client device) := by
  rintro s ⟨-, hup, hdown⟩
  obtain ⟨htup, hfup⟩ := copy_forwarded hup run.upDirect run.upTurns
  obtain ⟨htdown, hfdown⟩ := copy_forwarded hdown run.downDirect run.downTurns
  exact ⟨htup, htdown, s.up, s.down, rfl, hfup, hfdown⟩

theorem proxyLoop_spec (turns : ℕ) (requestLine : Bytes) :
    Triple (Exchanging client device []) (proxyLoop run turns requestLine)
      (Proxied client device run) (Stopped client device) := by
  induction turns generalizing requestLine with
  | zero => exact .pure fun _ h => ⟨h.2.1.truncated, h.2.2.truncated, h.1⟩
  | succ turns ih =>
      refine (onDown_exchanging client device (copyRTSPMessage_spec device)).bind
        fun responseLine => ?_
      split
      · exact switch_spec client device run
      · exact (onUp_exchanging client device (copyRTSPMessage_spec client)).bind
          fun requestLine' => ih requestLine'

theorem proxyRTSP_spec (turns : ℕ) (firstRequest requestLine : Bytes) :
    Triple (Exchanging client device firstRequest) (proxyRTSP run turns firstRequest requestLine)
      (Proxied client device run) (Stopped client device) :=
  (onUp_exchanging client device (writeAll_spec client firstRequest)).bind
    fun _ => proxyLoop_spec client device run turns requestLine

/-- The captured request is what the reader gave. -/
theorem captureRequest_spec :
    Triple (fun p => p.out = [] ∧ Carries client [] p) captureRequest
      (fun request => Carries client request.2) (Truncated client) := by
  rintro p ⟨hout, hp⟩
  have hcapture : Carries client [] { p with writes := [], out := [] } := by
    rw [Carries, hout] at hp
    exact hp
  have hspec := copyRTSPMessage_spec client
  unfold captureRequest
  rcases ends copyRTSPMessage { p with writes := [], out := [] } with ⟨line, p', h⟩ | ⟨e, p', h⟩
  · rw [h]
    have hcarries : p'.out ++ [] ++ p'.src.pending = client := hspec.of_ok hcapture h
    rw [List.append_nil] at hcarries
    simpa [Carries, hout] using hcarries
  · rw [h]
    simp [Truncated, hout]

variable {client device} in
theorem check_spec {P : Proxy → Prop} (hP : ∀ s, P s → Stopped client device s) (failed : Bool)
    (e : Stop) : Triple P (check failed e) (fun _ => P) (Stopped client device) := by
  unfold check
  split
  · exact .fail hP
  · exact .pure fun _ h => h

/-- Before the first request is captured. -/
def Fresh (s : Proxy) : Prop :=
  s.finished = none ∧ (s.up.out = [] ∧ Carries client [] s.up) ∧ Carries device [] s.down

theorem handle_spec (failures : Failures) (turns : ℕ) :
    Triple (Fresh client device) (handle failures run turns) (Proxied client device run)
      (Stopped client device) := by
  have hfresh : ∀ s, Fresh client device s → Stopped client device s :=
    fun s h => ⟨h.1, h.2.1.2.truncated, h.2.2.truncated⟩
  refine (check_spec hfresh _ _).bind fun _ => ?_
  refine ((onUp_spec (captureRequest_spec client) fun _ h => h.truncated).wrap _).bind
    fun request => ?_
  have hheld : ∀ s, Exchanging client device request.2 s → Stopped client device s :=
    fun s h => h.stopped
  refine (check_spec hheld _ _).bind fun _ => (check_spec hheld _ _).bind fun _ => ?_
  refine (check_spec hheld _ _).bind fun _ => (check_spec hheld _ _).bind fun _ => ?_
  exact (check_spec hheld _ _).bind fun _ =>
    (proxyRTSP_spec client device run turns request.2 request.1).wrap _

end transparency

/-- The bridge forwards what it reads and nothing else.  However the streams are split, whatever
fails and however far the copying goroutines have come, what was written to either side is a prefix
of what the other side sent.  When the proxy has switched to copying, nothing was lost on the way,
and what the readers had buffered is written before anything else. -/
theorem handle_transparent (failures : Failures) (run : Copying) (turns : ℕ)
    (client device : Channel) :
    let res := handle failures run turns (Proxy.start client device)
    res.2.up.out <+: bytesOf client.chunks ∧ res.2.down.out <+: bytesOf device.chunks ∧
      ∀ up down, res.2.finished = some (up, down) →
        ∃ copied, res.1 = .ok (some copied) ∧
          Forwarded (bytesOf client.chunks) run.upTurns copied.up up res.2.up ∧
          Forwarded (bytesOf device.chunks) run.downTurns copied.down down res.2.down := by
  have hspec := handle_spec (bytesOf client.chunks) (bytesOf device.chunks) run failures turns
  have hfresh : Fresh (bytesOf client.chunks) (bytesOf device.chunks)
      (Proxy.start client device) := ⟨rfl, ⟨rfl, rfl⟩, rfl⟩
  rcases ends (handle failures run turns) (Proxy.start client device) with
    ⟨copied, s, h⟩ | ⟨e, s, h⟩
  · obtain ⟨hup, hdown, hcopied⟩ := hspec.of_ok hfresh h
    rw [h]
    refine ⟨hup, hdown, fun up down hfin => ?_⟩
    cases copied with
    | none => simp [hcopied] at hfin
    | some c =>
        obtain ⟨up', down', hfin', hfup, hfdown⟩ := hcopied
        obtain ⟨rfl, rfl⟩ : up' = up ∧ down' = down := by
          simpa [hfin'] using hfin
        exact ⟨c, rfl, hfup, hfdown⟩
  · obtain ⟨hfin, hup, hdown⟩ := hspec.of_error hfresh h
    rw [h]
    exact ⟨hup, hdown, by simp [hfin]⟩

-- A client that sends data together with its request: the reader has it at the switch.
example :
    let client : Channel := ⟨[⟨ascii "PLAY * RTSP/1.0\r\n\r\n$ab", none⟩], [], []⟩
    let device : Channel := ⟨[⟨ascii "RTSP/1.0 200 OK\r\n\r\n$c", none⟩], [], []⟩
    let res := handle ⟨false, false, false, false, false⟩ ⟨2, true, 0, true⟩ 1
      (Proxy.start client device)
    res.2.finished.map (fun p => (p.1.src.buf, p.2.src.buf)) = some (ascii "$ab", ascii "$c") ∧
      res.2.up.out = ascii "PLAY * RTSP/1.0\r\n\r\n$ab" ∧
      res.2.down.out = ascii "RTSP/1.0 200 OK\r\n\r\n" := by
  decide +kernel

end DahuaP2p.Bridge
