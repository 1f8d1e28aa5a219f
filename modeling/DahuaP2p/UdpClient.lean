import DahuaP2p.GoStrings
import DahuaP2p.Programs
import Mathlib.Data.List.Infix

/-! # The UDP client (`dh/protocol.go`)

A `UDPClient` is a socket with a remote address that may be changed.  The network is an input: what
the reads to come return and whether the writes to come fail.  Everything handed to the socket is
logged.

* `Send` writes to the remote address, `SendTo` to any address.
* `RecvFrom` takes a datagram from anywhere, `Recv` (and `ReadRaw`) skips those that do not come
  from the remote address.
* Address texts are taken apart by the standard library (`NetLib`), about which nothing is
  assumed. -/

namespace DahuaP2p.Dh

open BigEndian GoStrings Programs

/-! ### Addresses -/

/-- A `net.UDPAddr`; the IP is in its 16-byte form, in which `net.IP.Equal` compares it. -/
structure UDPAddr where
  ip : BitVec 128
  port : ℕ
deriving DecidableEq, Repr

/-- The functions of the standard library that take addresses apart: `net.SplitHostPort`, and
`net.ParseIP` with `To4`. -/
structure NetLib where
  splitHostPort : String → Option (String × Bytes)
  parseIPv4 : String → Option (UInt8 × UInt8 × UInt8 × UInt8)

def splitHostPort (lib : NetLib) (address : String) : Option (String × ℕ) := do
  let (host, rawPort) ← lib.splitHostPort address
  let port ← parseInt rawPort
  if port < 1 ∨ port > 65535 then none else some (host, port.toNat)

/-- `ipToBytes`; its only error is `ErrInvalidResponse`. -/
def ipToBytes (lib : NetLib) (address : String) : Option Bytes := do
  let (host, port) ← splitHostPort lib address
  let (a, b, c, d) ← lib.parseIPv4 host
  some ([UInt8.ofNat (port >>> 8), UInt8.ofNat port, a, b, c, d].map (~~~ ·))

/-- `sameUDPAddr`, where an address may be nil. -/
def sameUDPAddr : Option UDPAddr → Option UDPAddr → Bool
  | some a, some b => a.port = b.port ∧ a.ip = b.ip
  | _, _ => false

theorem sameUDPAddr_iff {a : UDPAddr} {b : Option UDPAddr} :
    sameUDPAddr (some a) b = true ↔ b = some a := by
  cases b with
  | none => simp [sameUDPAddr]
  | some b =>
      simp only [sameUDPAddr, decide_eq_true_eq, Option.some.injEq]
      constructor
      · rintro ⟨hport, hip⟩
        cases a
        cases b
        rw [UDPAddr.mk.injEq]
        exact ⟨hip.symm, hport.symm⟩
      · rintro rfl
        exact ⟨rfl, rfl⟩

/-! ### Client -/

/-- `errors.New("not connected")`, or an error of the socket with that text. -/
inductive IoError where
  | notConnected
  | socket (text : String)
deriving DecidableEq, Repr

def IoError.text : IoError → String
  | notConnected => "not connected"
  | socket text => text

/-- What a read of the socket returns: a datagram and its source, or an error such as the
timeout. -/
abbrev Event := Except String (UDPAddr × Bytes)

/-- A datagram that was handed to the socket, and the error of that write. -/
structure Sent where
  dst : UDPAddr
  data : Bytes
  err : Option String
deriving DecidableEq, Repr

structure UDPClient where
  raddr : Option UDPAddr
  /-- What the reads to come return; after these they time out. -/
  inbox : List Event
  /-- The errors of the writes to come; after these they succeed. -/
  writes : List (Option String)
  sent : List Sent

namespace UDPClient

/-- `WriteToUDP`. -/
def writeTo (data : Bytes) (addr : UDPAddr) : Prog IoError UDPClient Unit := fun c =>
  let err := c.writes.headD none
  (match err with
    | none => .ok ()
    | some text => .error (.socket text),
   { c with writes := c.writes.tail, sent := c.sent ++ [⟨addr, data, err⟩] })

def send (data : Bytes) : Prog IoError UDPClient Unit := fun c =>
  match c.raddr with
  | none => (.error .notConnected, c)
  | some addr => writeTo data addr c

def sendTo (data : Bytes) (addr : UDPAddr) : Prog IoError UDPClient Unit := writeTo data addr

/-- Read until a datagram is accepted, and what is left of the reads to come. -/
def readUntil (accepts : UDPAddr → Bool) : List Event → Except String (UDPAddr × Bytes) × List Event
  | [] => (.error "i/o timeout", [])
  | .error text :: rest => (.error text, rest)
  | .ok (addr, data) :: rest =>
      if accepts addr then (.ok (addr, data), rest) else readUntil accepts rest

/-- `Recv`, and `ReadRaw`. -/
def recv : Prog IoError UDPClient Bytes := fun c =>
  match readUntil (fun addr => sameUDPAddr (some addr) c.raddr) c.inbox with
  | (.ok (_, data), rest) => (.ok data, { c with inbox := rest })
  | (.error text, rest) => (.error (.socket text), { c with inbox := rest })

/-- `Connect` to an address that needs no lookup. -/
def connect (addr : UDPAddr) {ε : Type} : Prog ε UDPClient Unit := fun c =>
  (.ok (), { c with raddr := some addr })

theorem send_of_connected {c : UDPClient} {addr : UDPAddr} (data : Bytes)
    (h : c.raddr = some addr) : send data c = writeTo data addr c := by
  simp only [send, h]

theorem writeTo_of_ok {c : UDPClient} (data : Bytes) (addr : UDPAddr)
    (h : c.writes.headD none = none) : writeTo data addr c =
      (.ok (), { c with writes := c.writes.tail, sent := c.sent ++ [⟨addr, data, none⟩] }) := by
  simp only [writeTo, h]

/-! ### Frames -/

/-- The client still talks to the same address, and has sent what it had sent before. -/
def Extends (c c' : UDPClient) : Prop := c'.raddr = c.raddr ∧ c.sent <+: c'.sent

instance : IsPreorder UDPClient Extends where
  refl _ := ⟨rfl, List.prefix_rfl⟩
  trans _ _ _ h h' := ⟨h'.1.trans h.1, h.2.trans h'.2⟩

theorem writeTo_extends (data : Bytes) (addr : UDPAddr) : (writeTo data addr).Keeps Extends :=
  fun _ => ⟨rfl, List.prefix_append _ _⟩

theorem send_extends (data : Bytes) : (send data).Keeps Extends := by
  intro c
  unfold send
  split
  · exact refl c
  · exact writeTo_extends data _ c

theorem recv_extends : recv.Keeps Extends := by
  intro c
  unfold recv
  split
  · exact ⟨rfl, List.prefix_rfl⟩
  · exact ⟨rfl, List.prefix_rfl⟩

theorem readUntil_of_accepts {accepts : UDPAddr → Bool} {foreign rest : List Event} {src : UDPAddr}
    {data : Bytes} (hsrc : accepts src = true)
    (hforeign : ∀ e ∈ foreign, ∃ addr data, e = .ok (addr, data) ∧ accepts addr = false) :
    readUntil accepts (foreign ++ .ok (src, data) :: rest) = (.ok (src, data), rest) := by
  induction foreign with
  | nil => simp [readUntil, hsrc]
  | cons e es ih =>
      obtain ⟨he, hes⟩ := List.forall_mem_cons.mp hforeign
      obtain ⟨addr, d, rfl, hno⟩ := he
      simp only [List.cons_append, readUntil, hno, Bool.false_eq_true, if_false]
      exact ih hes

end UDPClient

end DahuaP2p.Dh
