import DahuaP2p.Crypto
import DahuaP2p.DirectHandshake
import DahuaP2p.Ownership
import DahuaP2p.Response

/-! # The handshake (`dh/handshake.go`)

`Handshake` asks the service for the addresses of the device and for the sign, over two sockets of
its own, and then connects a third one directly to the device.  Any of its operations may fail, and
any response may lack a field.

* `Net` is the network with all that the handshake draws from outside: what the sockets receive,
  the lookups, the random bytes and the clock are inputs.  The steps between two changes to the
  sockets are programs over `Net`, and so cannot open or close any.
* `World` adds the ledger of the sockets: how often each was closed, and which of the variables
  `mainClient`, `p2pClient` and `deviceClient` holds it.
* `handshake_no_leak`: an error leaves every socket closed once, and a success leaves only the
  socket to the device open. -/

namespace DahuaP2p.Dh

open BigEndian GoStrings Ptcp Programs Prog Ownership

/-! ### Service -/

def mainServer : String := "www.easy4ipcloud.com"
def mainPort : ℕ := 8800

def username : Bytes := ascii "cba1b29e32cb17aa46b8ff9e73c7f40b"
def userKey : Bytes := ascii "996103384cdf19179e19243e959bbf8b"

/-- The parts of the standard library. -/
structure Libs where
  net : NetLib
  xml : XmlLib
  crypto : CryptoLib
  /-- `UTC().Format("2006-01-02T15:04:05Z")` of a time in seconds. -/
  formatTime : ℤ → Bytes

structure HandshakeOptions where
  serial : Bytes
  deviceUsername : Bytes
  devicePassword : Bytes
  p2pPort : ℤ

/-- A Go string, with one character for each byte. -/
def goString (text : Bytes) : String := String.ofList (text.map fun b => Char.ofNat b.toNat)

/-! ### Errors -/

/-- The error that a step of the handshake reports. -/
inductive Cause where
  | io (e : IoError)
  | response (e : DhError)
  | packet (e : ParseError)
  /-- An error of the standard library. -/
  | system (text : String)
deriving DecidableEq, Repr

def Cause.text : Cause → String
  | io e => e.text
  | response e => e.text
  | packet e => e.text
  | system text => text

inductive Failure where
  | dh (e : DhError)
  | step (what : String) (cause : Cause)
  | channel (status : Bytes)
  | noSign
  | direct (e : HandshakeError)
deriving DecidableEq, Repr

def Failure.text : Failure → String
  | dh e => e.text
  | step what cause => what ++ ": " ++ cause.text
  | channel status => "p2p channel error: " ++ goString status
  | noSign => "could not get sign from agent"
  | direct e => "direct P2P failed after " ++ toString directRetries ++ " attempts: " ++ e.text

/-! ### Network -/

/-- An open socket: its client with the local port and the number of requests. -/
structure Socket where
  client : UDPClient
  localPort : ℕ
  cseq : UInt32

/-- A new socket: its port, what its reads will return and which of its writes will fail. -/
structure Listener where
  port : ℕ
  inbox : List Event
  writes : List (Option String)

/-- The sockets by their numbers, and the inputs to come. -/
structure Net where
  sockets : ℕ → Socket
  /-- What `ListenUDP` returns for a local port. -/
  listens : List (ℤ → Except String Listener)
  /-- What `ResolveUDPAddr` returns for a host and a port. -/
  lookups : List (String → ℕ → Except String UDPAddr)
  random : List UInt8
  clock : List ℤ

namespace Net
variable {ε α : Type}

/-- An operation of a client. -/
def onSocket (i : ℕ) (x : Prog ε UDPClient α) : Prog ε Net α := fun n =>
  let (result, client) := x (n.sockets i).client
  (result, { n with sockets := Function.update n.sockets i { n.sockets i with client := client } })

/-- `RandomBytes` -/
def randomBytes (k : ℕ) : Prog ε Net Bytes := fun n =>
  (.ok ((List.range k).map (n.random.getD · 0)), { n with random := n.random.drop k })

/-- `time.Now().Unix()` -/
def now : Prog ε Net ℤ := fun n => (.ok (n.clock.headD 0), { n with clock := n.clock.tail })

/-- `net.ResolveUDPAddr` -/
def resolve (host : String) (port : ℕ) : Prog Cause Net UDPAddr := fun n =>
  match n.lookups.headD (fun _ _ => .error "no such host") host port with
  | .error text => (.error (.system text), { n with lookups := n.lookups.tail })
  | .ok addr => (.ok addr, { n with lookups := n.lookups.tail })

def connect (i : ℕ) (host : String) (port : ℕ) : Prog Cause Net Unit := do
  let addr ← resolve host port
  onSocket i (UDPClient.connect addr)

/-- `c.cseq++` -/
def nextCSeq (i : ℕ) : Prog ε Net UInt32 := fun n =>
  let cseq := (n.sockets i).cseq + 1
  (.ok cseq, { n with sockets := Function.update n.sockets i { n.sockets i with cseq := cseq } })

def localPort (i : ℕ) : Prog ε Net ℕ := fun n => (.ok (n.sockets i).localPort, n)

def generateAuth (lib : Libs) : Prog ε Net Bytes := do
  let nonceBytes ← randomBytes 4
  let nonce : ℤ := (uint32 nonceBytes).toNat
  let currDate := lib.formatTime (← now)
  let pwd := decimal nonce ++ currDate ++ ascii "DHP2P:" ++ username ++ ascii ":" ++ userKey
  let digest := lib.crypto.base64Encode (lib.crypto.sha1 pwd)
  pure (ascii "WSSE profile=\"UsernameToken\"\r\nX-WSSE: UsernameToken Username=\"" ++ username ++
    ascii "\", PasswordDigest=\"" ++ digest ++ ascii "\", Nonce=\"" ++ decimal nonce ++
    ascii "\", Created=\"" ++ currDate ++ ascii "\"")

def request (lib : Libs) (i : ℕ) (path body : Bytes) : Prog Cause Net Unit := do
  let cseq ← nextCSeq i
  let method := if body ≠ [] then ascii "DHPOST" else ascii "DHGET"
  let auth ← generateAuth lib
  let req := method ++ ascii " " ++ path ++ ascii " HTTP/1.1\r\nCSeq: " ++ decimal cseq.toNat ++
    ascii "\r\nAuthorization: " ++ auth ++ ascii "\r\n\r\n" ++ body
  onSocket i ((UDPClient.send req).wrap .io)

/-- `ReadRaw` -/
def readRaw (i : ℕ) : Prog Cause Net Bytes := onSocket i (UDPClient.recv.wrap .io)

def read (lib : Libs) (i : ℕ) : Prog Cause Net Response := do
  let data ← readRaw i
  match parseResponse lib.xml data with
  | .error e => fail (.response e)
  | .ok response => pure response

end Net

/-! ### Steps over the network -/

/-- A field of the body, which may be nil. -/
def Response.field (r : Response) (key : String) : Option Bytes :=
  (r.body.getD ∅).lookup (ascii key)

/-- A field of the body that has to be there. -/
def requireField (r : Response) (key : String) (e : DhError) : Prog Failure Net Bytes :=
  match r.field key with
  | none => fail (.dh e)
  | some value => pure value

/-- `splitHostPort` of an address from a response. -/
def hostPort (lib : Libs) (what : String) (address : Bytes) : Prog Failure Net (String × ℕ) :=
  match splitHostPort lib.net (goString address) with
  | none => fail (.step ("invalid " ++ what ++ " address " ++ (goString address).quote)
      (.response .invalidResponse))
  | some result => pure result

section steps
variable (lib : Libs) (opts : HandshakeOptions)

/-- Step 1: the P2P server of the device. -/
def findServer (mainClient : ℕ) : Prog Failure Net (String × ℕ) := do
  (Net.connect mainClient mainServer mainPort).wrap (.step "failed to connect to main server")
  (Net.request lib mainClient (ascii "/probe/p2psrv") []).wrap (.step "failed to probe p2psrv")
  let _ ← (Net.read lib mainClient).wrap (.step "failed to read probe response")
  (Net.request lib mainClient (ascii "/online/p2psrv/" ++ opts.serial) []).wrap
    (.step "failed to get p2psrv")
  let p2pResp ← (Net.read lib mainClient).wrap (.step "failed to read p2psrv response")
  let p2psrv ← requireField p2pResp "body/US" .deviceNotFound
  hostPort lib "P2P server" p2psrv

/-- The RTSP port and the salt from the device information, if there is any that can be read. -/
def readInfo (infoResp : Response) : UInt32 × Bytes :=
  let infoField := (infoResp.field "body/Info").getD []
  if infoField ≠ [] then
    match decryptDeviceInfo lib.crypto infoField with
    | .error _ => (554, [])
    | .ok deviceInfo =>
        (if 0 < deviceInfo.rtspPort ∧ deviceInfo.rtspPort ≤ 65535 then
            UInt32.ofNat deviceInfo.rtspPort.toNat
          else 554, deviceInfo.randSalt)
  else (554, [])

/-- Step 2: the RTSP port of the device and its salt. -/
def probeDevice (p2pClient : ℕ) (p2pHost : String) (p2pPort : ℕ) :
    Prog Failure Net (UInt32 × Bytes) := do
  (Net.connect p2pClient p2pHost p2pPort).wrap (.step "failed to connect to p2p server")
  (Net.request lib p2pClient (ascii "/probe/device/" ++ opts.serial) []).wrap
    (.step "failed to probe device")
  let _ ← (Net.read lib p2pClient).wrap (.step "failed to read device probe response")
  (Net.request lib p2pClient (ascii "/info/device/" ++ opts.serial) []).wrap
    (.step "failed to request device info")
  let infoResp ← (Net.read lib p2pClient).wrap (.step "failed to read device info response")
  pure (readInfo lib infoResp)

/-- Step 3: the address of the relay server. -/
def findRelay (mainClient : ℕ) : Prog Failure Net Bytes := do
  (Net.request lib mainClient (ascii "/online/relay") []).wrap (.step "failed to get relay")
  let relayResp ← (Net.read lib mainClient).wrap (.step "failed to read relay response")
  requireField relayResp "body/Address" .invalidResponse

/-- `GetDeviceNonce` -/
def getDeviceNonce : Prog Failure Net ℤ := do
  let b ← Net.randomBytes 4
  pure (uint32 b).toNat

/-- `formatIdentify` -/
def formatIdentify (id : Bytes) : Bytes := (ascii " ").intercalate (id.map (hex false))

/-- The key of the device, if the options have credentials for it and it has a salt. -/
def deviceKey (randsalt : Bytes) : Option Bytes :=
  if opts.deviceUsername ≠ [] ∧ opts.devicePassword ≠ [] ∧ randsalt ≠ [] then
    some (getDeviceKey lib.crypto opts.deviceUsername opts.devicePassword randsalt)
  else none

/-- The body of the request for a P2P channel. -/
def channelBody (randsalt cid localAddr : Bytes) : Prog Failure Net Bytes :=
  match deviceKey lib opts randsalt with
  | some key => do
      let deviceNonce ← getDeviceNonce
      match encryptAddr lib.crypto key deviceNonce localAddr with
      | .error e => fail (.step "failed to encrypt address" (.system e))
      | .ok encAddr =>
          let authXML := getDeviceAuth lib.crypto (← Net.now) opts.deviceUsername key deviceNonce
            randsalt encAddr
          pure (ascii "<body>" ++ authXML ++ ascii "<Identify>" ++ formatIdentify cid ++
            ascii "</Identify><IpEncrptV2>true</IpEncrptV2><LocalAddr>" ++ encAddr ++
            ascii "</LocalAddr><version>5.0.0</version></body>")
  | none => pure (ascii "<body><Identify>" ++ formatIdentify cid ++
      ascii "</Identify><IpEncrpt>true</IpEncrpt><LocalAddr>" ++ localAddr ++
      ascii "</LocalAddr><version>5.0.0</version></body>")

/-- Step 4: ask the device for a channel, with a random identifier. -/
def requestChannel (deviceClient : ℕ) (randsalt : Bytes) : Prog Failure Net Bytes := do
  (Net.connect deviceClient mainServer mainPort).wrap (.step "failed to connect device client")
  let cid ← Net.randomBytes 8
  let localAddr := ascii "127.0.0.1:" ++ decimal (← Net.localPort deviceClient)
  let body ← channelBody lib opts randsalt cid localAddr
  (Net.request lib deviceClient (ascii "/device/" ++ opts.serial ++ ascii "/p2p-channel") body).wrap
    (.step "failed to request p2p channel")
  pure cid

/-- The relay agent. -/
structure Agent where
  addr : Bytes
  host : String
  port : ℕ

/-- Steps 5 and 6: find the agent and start the relay. -/
def startRelay (p2pClient : ℕ) (relayAddr : Bytes) : Prog Failure Net Agent := do
  let (relayHost, relayPort) ← hostPort lib "relay" relayAddr
  (Net.connect p2pClient relayHost relayPort).wrap (.step "failed to connect to relay")
  (Net.request lib p2pClient (ascii "/relay/agent") []).wrap (.step "failed to request relay agent")
  let agentResp ← (Net.read lib p2pClient).wrap (.step "failed to read agent response")
  let token ← requireField agentResp "body/Token" .invalidResponse
  let agentAddr ← requireField agentResp "body/Agent" .invalidResponse
  let (agentHost, agentPort) ← hostPort lib "agent" agentAddr
  (Net.connect p2pClient agentHost agentPort).wrap (.step "failed to connect to agent")
  (Net.request lib p2pClient (ascii "/relay/start/" ++ token)
    (ascii "<body><Client>:0</Client></body>")).wrap (.step "failed to start relay")
  let _ ← (Net.read lib p2pClient).wrap (.step "failed to read relay start response")
  pure ⟨agentAddr, agentHost, agentPort⟩

/-- Step 7: the response of the device, after a `100 Continue`. -/
def readChannel (deviceClient : ℕ) : Prog Failure Net Response := do
  let first ← (Net.read lib deviceClient).wrap (.step "failed to read p2p channel response")
  let channelResp ← if first.code = 100 then
      (Net.read lib deviceClient).wrap (.step "failed to read final p2p channel response")
    else pure first
  if channelResp.code ≥ 400 then
    if channelResp.code = 403 then fail (.dh .authenticationFailed)
    else fail (.channel channelResp.status)
  else pure channelResp

/-- The LAN address, which the device encrypts if it has a key. -/
def decryptLocal (key : Option Bytes) (channelResp : Response) (deviceLAddr : Bytes) : Bytes :=
  match key, (channelResp.field "body/Nonce").getD [] with
  | none, _ => deviceLAddr
  | some _, [] => deviceLAddr
  | some key, respNonceStr =>
      match decryptAddr lib.crypto key (atoi respNonceStr) deviceLAddr with
      | .error _ => deviceLAddr
      | .ok decAddr => decAddr

/-- The device's addresses, to the public one of which the client is connected. -/
def connectDevice (deviceClient : ℕ) (key : Option Bytes) (channelResp : Response) :
    Prog Failure Net (Bytes × Bytes) := do
  let rawLAddr ← requireField channelResp "body/LocalAddr" .invalidResponse
  let deviceLAddr := decryptLocal lib key channelResp rawLAddr
  let devicePubAddr ← requireField channelResp "body/PubAddr" .invalidResponse
  let (deviceHost, devicePort) ← hostPort lib "device" devicePubAddr
  (Net.connect deviceClient deviceHost devicePort).wrap (.step "failed to connect to device")
  pure (devicePubAddr, deviceLAddr)

/-- The body of the request for a relay channel. -/
def relayBody (randsalt : Bytes) (channelResp : Response) (agentAddr : Bytes) :
    Prog Failure Net Bytes :=
  match deviceKey lib opts randsalt with
  | some key => do
      let respNonce := atoi ((channelResp.field "body/Nonce").getD [])
      let relayAuth := getDeviceAuth lib.crypto (← Net.now) opts.deviceUsername key respNonce
        randsalt []
      pure (ascii "<body>" ++ relayAuth ++ ascii "<agentAddr>" ++ agentAddr ++
        ascii "</agentAddr></body>")
  | none => pure (ascii "<body><agentAddr>" ++ agentAddr ++ ascii "</agentAddr></body>")

/-- Steps 8 and 9: ask for a relay channel and go back to the agent. -/
def requestRelayChannel (p2pClient : ℕ) (randsalt : Bytes) (channelResp : Response)
    (agent : Agent) : Prog Failure Net Unit := do
  (Net.connect p2pClient mainServer mainPort).wrap (.step "failed to reconnect to main server")
  let body ← relayBody lib opts randsalt channelResp agent.addr
  (Net.request lib p2pClient (ascii "/device/" ++ opts.serial ++ ascii "/relay-channel") body).wrap
    (.step "failed to request relay channel")
  (Net.connect p2pClient agent.host agent.port).wrap
    (.step "failed to connect to agent for PTCP")
  let _ ← (Net.readRaw p2pClient).wrap (.step "failed to read agent PTCP info")

/-- Up to `n` reads for the sign; after an error the request is sent again. -/
def signLoop : ℕ → Session → Prog Failure UDPClient (Option Bytes)
  | 0, _ => pure none
  | n + 1, agentSession => do
      match ← UDPClient.recv.attempt with
      | .error _ =>
          let (agentSession, signReqPacket) := agentSession.send (newCommandBody (command 0x17))
          let _ ← (UDPClient.send signReqPacket.serialize).attempt
          signLoop n agentSession
      | .ok signResp =>
          match parsePacket signResp with
          | .error _ => signLoop n agentSession
          | .ok packet =>
              if packet.body.type = .command ∧ 12 < packet.body.command.length then
                pure (some (packet.body.command.drop 12))
              else signLoop n (agentSession.recvPacket packet)

/-- Steps 10 and 11: a session with the agent, for the sign. -/
def requestSign : Prog Failure UDPClient Bytes := do
  let (agentSession, syncPacket) := newSession.send newSyncBody
  (UDPClient.send syncPacket.serialize).wrap
    (.step "failed to send PTCP sync to agent" ∘ .io)
  let syncResp ← UDPClient.recv.wrap
    (.step "failed to read PTCP sync response from agent" ∘ .io)
  match parsePacket syncResp with
  | .error e => fail (.step "failed to parse PTCP sync response" (.packet e))
  | .ok syncRespPacket =>
      let (agentSession, signReqPacket) :=
        (agentSession.recvPacket syncRespPacket).send (newCommandBody (command 0x17))
      (UDPClient.send signReqPacket.serialize).wrap (.step "failed to send sign request" ∘ .io)
      match ← signLoop 5 agentSession with
      | none => fail .noSign
      | some sign => pure sign

/-- Steps 5 to 11. -/
def findDevice (p2pClient deviceClient : ℕ) (relayAddr randsalt cid : Bytes) :
    Prog Failure Net Device := do
  let agent ← startRelay lib p2pClient relayAddr
  let channelResp ← readChannel lib deviceClient
  let (devicePubAddr, deviceLAddr) ←
    connectDevice lib deviceClient (deviceKey lib opts randsalt) channelResp
  requestRelayChannel lib opts p2pClient randsalt channelResp agent
  let sign ← Net.onSocket p2pClient requestSign
  pure ⟨cid, goString devicePubAddr, goString deviceLAddr, sign⟩

end steps

/-! ### Sockets -/

/-- The variables that hold a socket or nil. -/
inductive Handle where
  | mainClient
  | p2pClient
  | deviceClient
deriving DecidableEq, Repr

/-- The network, and the ledger of the sockets opened so far. -/
structure World where
  net : Net
  ledger : Ledger Handle

structure HandshakeResult where
  /-- The number of the socket. -/
  client : ℕ
  session : Session
  rtspPort : UInt32

namespace World
variable {ε α : Type}

/-- The world at the start: no socket is open. -/
def start (net : Net) : World := ⟨net, Ledger.empty⟩

/-- A step that only uses the sockets. -/
def onNet (x : Prog ε Net α) : Prog ε World α := fun w =>
  ((x w.net).1, { w with net := (x w.net).2 })

/-- `NewUDPClientPort`: the variable holds the new socket, whose number is returned. -/
def newUDPClientPort (h : Handle) (localPort : ℤ) : Prog Cause World ℕ := fun w =>
  let i := w.ledger.closes.length
  let net := { w.net with listens := w.net.listens.tail }
  match w.net.listens.headD (fun _ => .error "too many open files") localPort with
  | .error text => (.error (.system text), { w with net := net })
  | .ok l =>
      let socket := { client := ⟨none, l.inbox, l.writes, []⟩, localPort := l.port, cseq := 0 }
      (.ok i, ⟨{ net with sockets := Function.update net.sockets i socket }, w.ledger.opened h⟩)

/-- `NewUDPClient` -/
def newUDPClient (h : Handle) : Prog Cause World ℕ := newUDPClientPort h 0

/-- Close the socket of a variable and set it to nil. -/
def closeClient (h : Handle) : Prog ε World Unit := fun w =>
  (.ok (), { w with ledger := (w.ledger.closedHeld h).cleared h })

/-- Set a variable to nil. -/
def clear (h : Handle) : Prog ε World Unit := fun w =>
  (.ok (), { w with ledger := w.ledger.cleared h })

end World

/-- The body of `Handshake`; `att` are the direct attempts. -/
def handshakeBody (lib : Libs) (opts : HandshakeOptions) (att : ℕ → Attempt) :
    Prog Failure World HandshakeResult := do
  let mainClient ← (World.newUDPClient .mainClient).wrap (.step "failed to create main client")
  let (p2pHost, p2pPort) ← World.onNet (findServer lib opts mainClient)
  let p2pClient ← (World.newUDPClient .p2pClient).wrap (.step "failed to create p2p client")
  let (rtspPort, randsalt) ← World.onNet (probeDevice lib opts p2pClient p2pHost p2pPort)
  let relayAddr ← World.onNet (findRelay lib mainClient)
  let deviceClient ← (World.newUDPClientPort .deviceClient opts.p2pPort).wrap
    (.step "failed to create device client")
  let cid ← World.onNet (requestChannel lib opts deviceClient randsalt)
  let device ← World.onNet (findDevice lib opts p2pClient deviceClient relayAddr randsalt cid)
  -- step 12: the two sockets to the service have served their purpose
  World.closeClient .mainClient
  World.closeClient .p2pClient
  let session ← World.onNet
    (Net.onSocket deviceClient ((directHandshake lib.net device att).wrap .direct))
  -- the caller owns the socket from here on
  World.clear .deviceClient
  pure { client := deviceClient, session := session, rtspPort := rtspPort }

def handles : List Handle := [.mainClient, .p2pClient, .deviceClient]

/-- `Handshake`.  Every return sets the result `err` before the deferred function looks at it, which
then closes what the variables hold. -/
def handshake (lib : Libs) (opts : HandshakeOptions) (att : ℕ → Attempt) :
    Prog Failure World HandshakeResult := fun w =>
  match handshakeBody lib opts att w with
  | (.ok result, w) => (.ok result, w)
  | (.error e, w) => (.error e, { w with ledger := w.ledger.cleanup handles })

/-! ### No leaks -/

/-- The deferred function can close all sockets. -/
def Accounted (w : World) : Prop := w.ledger.Balanced handles

section stages
variable {ε α : Type} {l : Ledger Handle} {h : Handle}

/-- A step over the network leaves the sockets as they are, also when it fails. -/
theorem onNet_ledger (hl : l.Balanced handles) (x : Prog ε Net α) :
    Triple (·.ledger = l) (World.onNet x) (fun _ w => w.ledger = l) Accounted := by
  rintro w rfl
  rcases ends x w.net with ⟨a, n, hx⟩ | ⟨e, n, hx⟩
  · rw [World.onNet, hx]
  · rw [World.onNet, hx]
    exact hl

theorem newUDPClientPort_ledger (hl : l.Balanced handles) (localPort : ℤ) :
    Triple (·.ledger = l) (World.newUDPClientPort h localPort)
      (fun i w => i = l.closes.length ∧ w.ledger = l.opened h) Accounted := by
  rintro w rfl
  cases hlisten : w.net.listens.headD (fun _ => .error "too many open files") localPort with
  | error text =>
      simp only [World.newUDPClientPort, hlisten]
      exact hl
  | ok listener => simp only [World.newUDPClientPort, hlisten, and_self]

theorem closeClient_ledger : Triple (·.ledger = l) (World.closeClient h : Prog ε World Unit)
    (fun _ w => w.ledger = (l.closedHeld h).cleared h) Accounted := by
  rintro w rfl
  rfl

theorem balanced_opened (hl : l.Balanced handles) (hnil : l.held h = none) :
    (l.opened h).Balanced handles :=
  Ledger.Balanced.opened hl (by decide) (by cases h <;> decide) hnil

theorem balanced_disposed {i : ℕ} (hl : l.Balanced handles) (hheld : l.held h = some i) :
    ((l.closedHeld h).cleared h).Balanced handles :=
  Ledger.Balanced.disposed hl (by decide) (by cases h <;> decide) hheld

/-- The body ends with an error and all sockets accounted for, or with the main and the P2P socket
closed and the third one handed out. -/
theorem handshakeBody_ledger (lib : Libs) (opts : HandshakeOptions) (att : ℕ → Attempt) :
    Triple (·.ledger = Ledger.empty) (handshakeBody lib opts att)
      (fun result w => w.ledger.closes = [1, 1, 0] ∧ result.client = 2) Accounted := by
  -- the ledger is balanced between any two changes to the sockets
  have hempty : (Ledger.empty : Ledger Handle).Balanced handles := .empty
  have hmain := balanced_opened (h := .mainClient) hempty rfl
  have hp2p := balanced_opened (h := .p2pClient) hmain rfl
  have hdevice := balanced_opened (h := .deviceClient) hp2p rfl
  have hclosed := balanced_disposed (h := .p2pClient) (i := 1)
    (balanced_disposed (h := .mainClient) (i := 0) hdevice rfl) rfl
  refine ((newUDPClientPort_ledger hempty 0).wrap _).bind fun mainClient =>
    Triple.of_fact fun _ => ?_
  refine (onNet_ledger hmain _).bind fun server => ?_
  refine ((newUDPClientPort_ledger hmain 0).wrap _).bind fun p2pClient =>
    Triple.of_fact fun _ => ?_
  refine (onNet_ledger hp2p _).bind fun info => (onNet_ledger hp2p _).bind fun relayAddr => ?_
  refine ((newUDPClientPort_ledger hp2p _).wrap _).bind fun deviceClient =>
    Triple.of_fact fun hi => ?_
  refine (onNet_ledger hdevice _).bind fun cid => (onNet_ledger hdevice _).bind fun device => ?_
  refine closeClient_ledger.bind fun _ => closeClient_ledger.bind fun _ => ?_
  refine (onNet_ledger hclosed _).bind fun session => ?_
  rintro w hw
  refine ⟨?_, hi⟩
  simp only [hw]
  decide

end stages

/-- **No socket leaks.**  When `Handshake` returns an error, every socket that it has opened was
closed once.  When it returns a result, it has opened three sockets: the main and the P2P socket
were closed once, and the third one, to the device, is open and in the result. -/
theorem handshake_no_leak (lib : Libs) (opts : HandshakeOptions) (att : ℕ → Attempt) (net : Net) :
    match handshake lib opts att (World.start net) with
    | (.error _, w) => ∀ n ∈ w.ledger.closes, n = 1
    | (.ok result, w) => w.ledger.closes = [1, 1, 0] ∧ result.client = 2 := by
  have hbody := handshakeBody_ledger lib opts att
  rcases ends (handshakeBody lib opts att) (World.start net) with ⟨result, w, h⟩ | ⟨e, w, h⟩
  · simp only [handshake, h]
    exact hbody.of_ok rfl h
  · simp only [handshake, h]
    exact Ledger.Balanced.cleanup (hbody.of_error rfl h)

/-! ### A service with one address -/

/-- Every response has all the fields, each with the address of the camera. -/
def serviceLibs : Libs where
  net := cameraLib
  xml := { tokens := fun _ => .startElement ⟨[], ascii "body"⟩ ::
    ["US", "Address", "Token", "Agent", "LocalAddr", "PubAddr"].flatMap fun name =>
      [.startElement ⟨[], ascii name⟩, .charData (ascii "203.0.113.5:37777"),
        .endElement ⟨[], ascii name⟩] }
  crypto :=
    { hmacSHA256 := paddedPrf
      sha1 := id
      md5 := id
      base64Encode := id
      base64Decode := .ok
      aesOFB := fun _ => .ok fun _ data => data
      unmarshal := fun _ => .error "unexpected end of JSON input" }
  formatTime := decimal

def serviceOptions : HandshakeOptions := ⟨ascii "1A2B3C", [], [], 0⟩

def serviceResponse : Event := .ok (cameraPub, ascii "HTTP/1.1 200 OK\r\n\r\n<body/>")

def peerPacket (body : Body) : Event := .ok (cameraPub, (newSession.send body).2.serialize)

/-- A socket that receives `n` responses and then other datagrams. -/
def serviceListener (n : ℕ) (more : List Event) : ℤ → Except String Listener :=
  fun _ => .ok ⟨40000, List.replicate n serviceResponse ++ more, []⟩

/-- The network, with the reads of the third socket after the response. -/
def serviceNet (replies : List Event) : Net where
  sockets _ := ⟨⟨none, [], [], []⟩, 0, 0⟩
  listens :=
    [serviceListener 3 [], serviceListener 4 [.ok (cameraPub, [0]), peerPacket newSyncBody,
      peerPacket (newCommandBody (command 0x18 ++ [0x2a]))], serviceListener 1 replies]
  lookups := List.replicate 8 fun _ _ => .ok cameraPub
  random := []
  clock := []

/-- The handshake over this network. -/
def serviceRun (replies : List Event) : Except Failure HandshakeResult × World :=
  handshake serviceLibs serviceOptions cameraAttempt (World.start (serviceNet replies))

/-- The camera answers, or it does not. -/
example :
    (serviceRun [.ok (cameraPub, List.replicate 20 0), .error "i/o timeout",
        peerPacket newSyncBody, peerPacket (newCommandBody (command 0x1a))]).1.toOption.map
          (fun result => (result.client, result.rtspPort)) = some (2, 554) ∧
      (serviceRun []).1.toOption.isNone ∧ (serviceRun []).2.ledger.closes = [1, 1, 1] := by
  decide +kernel

end DahuaP2p.Dh
