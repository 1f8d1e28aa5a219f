import DahuaP2p.Ptcp

/-! # The PTCP codec: round trip and lenient decoding

`parsePacket_serialize` is the round trip: every packet whose body comes from one of the
constructor functions, within the bounds the wire format can carry (`WellFormed`), is decoded
to itself.  Each shape has its own lemma `parseBody_serialize_…`.

The decoder is lenient in four shapes: a sync or heartbeat body may have any length from 4 on,
a bind any length from 16 on, and a status loses its trailing zero bytes.  `LenExact` says of
the raw body bytes that none of this leniency was used; `parseBody_len_eq_iff` proves that it
is exactly the condition under which the parsed body has the length of the received one.

All the same the decoder is a normalisation: what it accepts is well formed (`Parsed.wellFormed`),
so encoding and decoding it again gives the same packet (`reencoding_stable`). -/

namespace DahuaP2p.Ptcp

open BigEndian

/-! ### Headers -/

theorem parseHeader_serialize_append (h : Header) (rest : Bytes) :
    parseHeader (h.serialize ++ rest) = .ok h := by
  have hlen : ¬ (h.serialize ++ rest).length < headerSize := by
    rw [List.length_append, h.serialize_length]
    omega
  have hmagic : slice (h.serialize ++ rest) 0 4 = magic := rfl
  have hsent : uint32 (slice (h.serialize ++ rest) 4 8) = h.sent := uint32_putUint32 h.sent
  have hrecv : uint32 (slice (h.serialize ++ rest) 8 12) = h.recv := uint32_putUint32 h.recv
  have hpid : uint32 (slice (h.serialize ++ rest) 12 16) = h.pid := uint32_putUint32 h.pid
  have hlmid : uint32 (slice (h.serialize ++ rest) 16 20) = h.lmid := uint32_putUint32 h.lmid
  have hrmid : uint32 (slice (h.serialize ++ rest) 20 24) = h.rmid := uint32_putUint32 h.rmid
  rw [parseHeader, if_neg hlen, if_neg (by rw [hmagic]; simp), hsent, hrecv, hpid, hlmid, hrmid]

theorem drop_header_serialize (h : Header) (rest : Bytes) :
    (h.serialize ++ rest).drop headerSize = rest := rfl

/-- What an accepted datagram consists of. -/
theorem parsePacket_eq_ok {data : Bytes} {p : Packet} (h : parsePacket data = .ok p) :
    headerSize ≤ data.length ∧ parseHeader data = .ok p.header ∧
      parseBody (data.drop headerSize) = .ok p.body := by
  simp only [parsePacket, bind, Except.bind] at h
  cases hh : parseHeader data with
  | error e => simp [hh] at h
  | ok hd =>
      cases hb : parseBody (data.drop headerSize) with
      | error e => simp [hh, hb] at h
      | ok b =>
          simp only [hh, hb, pure, Except.pure, Except.ok.injEq] at h
          subst h
          refine ⟨?_, rfl, rfl⟩
          unfold parseHeader at hh
          split at hh
          · cases hh
          · omega

theorem parsePacket_of_parts {data : Bytes} {hd : Header} {b : Body}
    (hh : parseHeader data = .ok hd) (hb : parseBody (data.drop headerSize) = .ok b) :
    parsePacket data = .ok ⟨hd, b⟩ := by
  simp [parsePacket, hh, hb, bind, Except.bind, pure, Except.pure]

/-! ### Round trip of the bodies -/

theorem parseBody_serialize_payload (realm : UInt32) {data : Bytes} (h : data.length < 2 ^ 24) :
    parseBody (newPayloadBody realm data).serialize = .ok (newPayloadBody realm data) := by
  have hn : (UInt32.ofNat data.length).toNat < 2 ^ 24 := by
    rw [toNat_ofNat_length h (by decide)]; exact h
  have htag : (0x10000000 : UInt32) ||| UInt32.ofNat data.length =
      tagged typePayload (UInt32.ofNat data.length) := rfl
  have hs : (newPayloadBody realm data).serialize =
      putUint32 (tagged typePayload (UInt32.ofNat data.length)) ++ putUint32 realm ++
        putUint32 0 ++ data := by
    rw [← htag]; rfl
  have h0 : ((newPayloadBody realm data).serialize).getD 0 0 = typePayload := by
    rw [hs]; exact head_putUint32_tagged typePayload hn
  have hl : ((newPayloadBody realm data).serialize).length = data.length + 12 :=
    Body.serialize_length _
  have hpad : uint32 (slice (newPayloadBody realm data).serialize 8 12) = 0 := by
    rw [hs]; exact uint32_putUint32 0
  have hword : uint32 (slice (newPayloadBody realm data).serialize 0 4) =
      tagged typePayload (UInt32.ofNat data.length) := by
    rw [hs]; exact uint32_putUint32 _
  have hrealm : uint32 (slice (newPayloadBody realm data).serialize 4 8) = realm := by
    rw [hs]; exact uint32_putUint32 realm
  have hdrop : (newPayloadBody realm data).serialize.drop 12 = data := by rw [hs]; rfl
  unfold parseBody
  rw [h0, hpad, hword, hrealm, hdrop, tagged_and_mask typePayload hn]
  rw [if_neg (by omega), if_neg (by omega), if_neg (by decide), if_pos rfl, if_neg (by omega),
    if_neg (by simp), if_neg (by simp)]

theorem parseBody_serialize_bind (realm port : UInt32) :
    parseBody (newBindBody realm port).serialize = .ok (newBindBody realm port) := by
  have h0 : ((newBindBody realm port).serialize).getD 0 0 = typeBind := rfl
  have hl : ((newBindBody realm port).serialize).length = 20 := rfl
  have hrealm : uint32 (slice (newBindBody realm port).serialize 4 8) = realm :=
    uint32_putUint32 realm
  have hport : uint32 (slice (newBindBody realm port).serialize 12 16) = port :=
    uint32_putUint32 port
  unfold parseBody
  rw [h0, hl, hrealm, hport]
  rfl

theorem parseBody_serialize_status (realm : UInt32) {status : Bytes}
    (h : status.length < 2 ^ 24) (hz : status.getLast? ≠ some 0) :
    parseBody (newStatusBody realm status).serialize = .ok (newStatusBody realm status) := by
  have hn : (UInt32.ofNat status.length).toNat < 2 ^ 24 := by
    rw [toNat_ofNat_length h (by decide)]; exact h
  have hs : (newStatusBody realm status).serialize =
      putUint32 (tagged typeStatus (UInt32.ofNat status.length)) ++ putUint32 realm ++
        [0, 0, 0, 0] ++ status := rfl
  have h0 : ((newStatusBody realm status).serialize).getD 0 0 = typeStatus := by
    rw [hs]; exact head_putUint32_tagged typeStatus hn
  have hl : ((newStatusBody realm status).serialize).length = status.length + 12 :=
    Body.serialize_length _
  have hrealm : uint32 (slice (newStatusBody realm status).serialize 4 8) = realm := by
    rw [hs]; exact uint32_putUint32 realm
  have hdrop : (newStatusBody realm status).serialize.drop 12 = status := by rw [hs]; rfl
  unfold parseBody
  rw [h0, hrealm, hdrop, trimZeros_eq_self hz]
  rw [if_neg (by omega), if_neg (by omega), if_neg (by decide), if_neg (by decide),
    if_neg (by decide), if_pos rfl, if_neg (by omega)]

/-- The first bytes that `parseBody` does not read as a command. -/
def bodyTags : List UInt8 := [typeSync, typePayload, typeBind, typeStatus, typeHeartbeat]

theorem parseBody_serialize_command {command : Bytes} (h : 4 ≤ command.length)
    (ht : command.getD 0 0 ∉ bodyTags) :
    parseBody (newCommandBody command).serialize = .ok (newCommandBody command) := by
  have hs : (newCommandBody command).serialize = command := rfl
  simp only [bodyTags, List.mem_cons, List.not_mem_nil, or_false, not_or] at ht
  obtain ⟨hsync, hpayload, hbind, hstatus, hheartbeat⟩ := ht
  unfold parseBody
  rw [hs, if_neg (by omega), if_neg (by omega), if_neg hsync, if_neg hpayload, if_neg hbind,
    if_neg hstatus, if_neg hheartbeat]

/-- Bodies built by the constructor functions that the wire format can carry: lengths fit the
24-bit field, a status does not end in a zero byte, a command does not look like another
shape. -/
inductive WellFormed : Body → Prop
  | empty : WellFormed newEmptyBody
  | sync : WellFormed newSyncBody
  | heartbeat : WellFormed newHeartbeatBody
  | payload (realm : UInt32) (data : Bytes) :
      data.length < 2 ^ 24 → WellFormed (newPayloadBody realm data)
  | bind (realm port : UInt32) : WellFormed (newBindBody realm port)
  | status (realm : UInt32) (status : Bytes) :
      status.length < 2 ^ 24 → status.getLast? ≠ some 0 → WellFormed (newStatusBody realm status)
  | command (command : Bytes) :
      4 ≤ command.length → command.getD 0 0 ∉ bodyTags → WellFormed (newCommandBody command)

theorem parseBody_serialize {b : Body} (h : WellFormed b) : parseBody b.serialize = .ok b := by
  cases h with
  | empty => rfl
  | sync => rfl
  | heartbeat => rfl
  | payload realm data hd => exact parseBody_serialize_payload realm hd
  | bind realm port => exact parseBody_serialize_bind realm port
  | status realm status hd hz => exact parseBody_serialize_status realm hd hz
  | command command hl ht => exact parseBody_serialize_command hl ht

theorem Packet.parse_serialize {p : Packet} (h : WellFormed p.body) :
    parsePacket p.serialize = .ok p := by
  refine parsePacket_of_parts ?_ ?_
  · exact parseHeader_serialize_append p.header p.body.serialize
  · rw [Packet.serialize, drop_header_serialize]
    exact parseBody_serialize h

/-- **Packet round trip**: a packet with any header and a well-formed body serializes to
`24 + len` bytes and is parsed back to itself. -/
theorem parsePacket_serialize (h : Header) (b : Body) (hb : WellFormed b) :
    (Packet.serialize ⟨h, b⟩).length = 24 + b.len ∧
      parsePacket (Packet.serialize ⟨h, b⟩) = .ok ⟨h, b⟩ :=
  ⟨Packet.serialize_length ⟨h, b⟩, Packet.parse_serialize hb⟩

theorem parsePacket_serialize_disc :
    (Packet.serialize ⟨⟨1, 2, 3, 4, 5⟩, newStatusBody 7 statusDisconnect⟩).length = 24 + 16 ∧
      parsePacket (Packet.serialize ⟨⟨1, 2, 3, 4, 5⟩, newStatusBody 7 statusDisconnect⟩) =
        .ok ⟨⟨1, 2, 3, 4, 5⟩, newStatusBody 7 statusDisconnect⟩ :=
  parsePacket_serialize ⟨1, 2, 3, 4, 5⟩ (newStatusBody 7 statusDisconnect)
    (.status 7 statusDisconnect (by decide) (by decide))

/-! ### Lenient decoding -/

/-- The bodies that `parseBody` accepts, and what it makes of them. -/
inductive Parsed (data : Bytes) : Body → Prop
  | empty : data = [] → Parsed data newEmptyBody
  | sync : 4 ≤ data.length → data.getD 0 0 = typeSync → Parsed data newSyncBody
  | payload : 12 ≤ data.length → data.getD 0 0 = typePayload → uint32 (slice data 8 12) = 0 →
      UInt32.ofNat (data.drop 12).length = uint32 (slice data 0 4) &&& 0xFFFFFF →
      Parsed data (newPayloadBody (uint32 (slice data 4 8)) (data.drop 12))
  | bind : 16 ≤ data.length → data.getD 0 0 = typeBind →
      Parsed data (newBindBody (uint32 (slice data 4 8)) (uint32 (slice data 12 16)))
  | status : 12 ≤ data.length → data.getD 0 0 = typeStatus →
      Parsed data (newStatusBody (uint32 (slice data 4 8)) (trimZeros (data.drop 12)))
  | heartbeat : 4 ≤ data.length → data.getD 0 0 = typeHeartbeat → Parsed data newHeartbeatBody
  | command : 4 ≤ data.length → data.getD 0 0 ≠ typeSync → data.getD 0 0 ≠ typePayload →
      data.getD 0 0 ≠ typeBind → data.getD 0 0 ≠ typeStatus → data.getD 0 0 ≠ typeHeartbeat →
      Parsed data (newCommandBody data)

theorem parsed_of_parseBody {data : Bytes} {b : Body} (h : parseBody data = .ok b) :
    Parsed data b := by
  unfold parseBody at h
  split_ifs at h with h0 h4 hsync hpayload h12 hpad hlen hbind h16 hstatus h12' hheartbeat
  all_goals cases h
  · exact .empty (List.length_eq_zero_iff.mp h0)
  · exact .sync (Nat.le_of_not_lt h4) hsync
  · exact .payload (Nat.le_of_not_lt h12) hpayload (not_not.mp hpad) (not_not.mp hlen)
  · exact .bind (Nat.le_of_not_lt h16) hbind
  · exact .status (Nat.le_of_not_lt h12') hstatus
  · exact .heartbeat (Nat.le_of_not_lt h4) hheartbeat
  · exact .command (Nat.le_of_not_lt h4) hsync hpayload hbind hstatus hheartbeat

/-- What the decoder makes of bytes that the length field can count is well formed: the decoder
never leaves the domain of the encoder. -/
theorem Parsed.wellFormed {data : Bytes} {b : Body} (h : Parsed data b)
    (hlen : data.length < 2 ^ 24) : WellFormed b := by
  have hdrop : (data.drop 12).length < 2 ^ 24 := by
    rw [List.length_drop]
    omega
  cases h with
  | empty => exact .empty
  | sync => exact .sync
  | heartbeat => exact .heartbeat
  | payload => exact .payload _ _ hdrop
  | bind => exact .bind _ _
  | status =>
      have htrim := trimZeros_length_le (data.drop 12)
      exact .status _ _ (by omega) (trimZeros_getLast? _)
  | command h4 hsync hpayload hbind hstatus hheartbeat =>
      refine .command _ h4 ?_
      simp only [bodyTags, List.mem_cons, List.not_mem_nil, or_false, not_or]
      exact ⟨hsync, hpayload, hbind, hstatus, hheartbeat⟩

/-- **Stable re-encoding.**  A datagram that fits the receive buffer, of whatever bytes, is
rejected, or it is decoded to a packet whose encoding is decoded to the same packet. -/
theorem reencoding_stable (data : Bytes) (hlen : data.length ≤ 65535) :
    (∃ e, parsePacket data = .error e) ∨
      ∃ p, parsePacket data = .ok p ∧ parsePacket p.serialize = .ok p := by
  cases h : parsePacket data with
  | error e => exact Or.inl ⟨e, rfl⟩
  | ok p =>
      obtain ⟨hsize, _, hbody⟩ := parsePacket_eq_ok h
      have hfits : (data.drop headerSize).length < 2 ^ 24 := by
        rw [List.length_drop]
        omega
      have hwf : WellFormed p.body := (parsed_of_parseBody hbody).wellFormed hfits
      exact Or.inr ⟨p, rfl, Packet.parse_serialize hwf⟩

/-- A bind that is cut after its port and a status padded with zeros: both are accepted, and what
is encoded again is not what came in. -/
theorem reencoding_stable_lenient :
    let header : Header := ⟨0, 0, 0xFFFF, 0, 0⟩
    let bind := header.serialize ++ [0x11, 0, 0, 8, 0, 0, 0, 7, 0, 0, 0, 0, 0, 0, 2, 0x2A]
    let status := header.serialize ++ [0x12, 0, 0, 2, 0, 0, 0, 7, 0, 0, 0, 0, 0x43, 0]
    ∀ data ∈ [bind, status], (∃ p, parsePacket data = .ok p ∧ p.serialize ≠ data) ∧
      ((∃ e, parsePacket data = .error e) ∨
        ∃ p, parsePacket data = .ok p ∧ parsePacket p.serialize = .ok p) := by
  intro header bind status data hdata
  have hlen : data.length ≤ 65535 := by
    revert data
    decide
  refine ⟨?_, reencoding_stable data hlen⟩
  simp only [List.mem_cons, List.not_mem_nil, or_false] at hdata
  rcases hdata with rfl | rfl
  · exact ⟨⟨header, newBindBody 7 0x22A⟩, by decide, by decide⟩
  · exact ⟨⟨header, newStatusBody 7 [0x43]⟩, by decide, by decide⟩

/-- The raw body bytes use none of the leniency of `parseBody`: a sync (or no body
at all) is at most 4 bytes long, a bind 20, a heartbeat 12, and a status text does not end in a
zero byte. -/
def LenExact (body : Bytes) : Prop :=
  (body.getD 0 0 = typeSync → body.length ≤ 4) ∧
    (body.getD 0 0 = typeBind → body.length = 20) ∧
      (body.getD 0 0 = typeStatus → body.length = 12 ∨ body.getLast? ≠ some 0) ∧
        (body.getD 0 0 = typeHeartbeat → body.length = 12)

instance (body : Bytes) : Decidable (LenExact body) := by unfold LenExact; infer_instance

theorem getLast?_drop_of_lt {body : Bytes} {n : ℕ} (h : n < body.length) :
    (body.drop n).getLast? = body.getLast? := by
  rw [List.getLast?_drop, if_neg (by omega)]

theorem trimZeros_drop_length_eq_iff {body : Bytes} (h : 12 ≤ body.length) :
    (trimZeros (body.drop 12)).length + 12 = body.length ↔
      body.length = 12 ∨ body.getLast? ≠ some 0 := by
  have hd : (body.drop 12).length = body.length - 12 := List.length_drop
  have hiff := trimZeros_length_eq_iff (body.drop 12)
  rcases Nat.lt_or_ge 12 body.length with hlt | hge
  · rw [getLast?_drop_of_lt hlt] at hiff
    constructor
    · intro e
      exact Or.inr (hiff.mp (by omega))
    · rintro (e | e)
      · omega
      · have := hiff.mpr e
        omega
  · have hlen : (trimZeros (body.drop 12)).length ≤ (body.drop 12).length := trimZeros_length_le _
    constructor
    · intro _
      exact Or.inl (by omega)
    · intro _
      omega

/-- The parsed body has the length of the received body exactly when no leniency was used. -/
theorem parseBody_len_eq_iff {body : Bytes} {b : Body} (h : parseBody body = .ok b) :
    b.len = body.length ↔ LenExact body := by
  have htrim : 12 ≤ body.length → _ := fun hb => trimZeros_drop_length_eq_iff hb
  have hdrop : (body.drop 12).length = body.length - 12 := List.length_drop
  unfold LenExact
  cases parsed_of_parseBody h with
  | empty hnil =>
      subst hnil
      decide
  | sync h4 hsync =>
      simp only [newSyncBody, Body.len, hsync, typeSync, typeBind, typeStatus, typeHeartbeat]
      simp
      omega
  | payload h12 hpayload _ _ =>
      simp only [newPayloadBody, Body.len, hpayload, typeSync, typePayload, typeBind, typeStatus,
        typeHeartbeat]
      simp
      omega
  | bind h16 hbind =>
      simp only [newBindBody, Body.len, hbind, typeSync, typeBind, typeStatus, typeHeartbeat]
      simp
      omega
  | status h12 hstatus =>
      simp only [newStatusBody, Body.len, hstatus, typeSync, typeBind, typeStatus, typeHeartbeat]
      simpa using htrim h12
  | heartbeat h4 hheartbeat =>
      simp only [newHeartbeatBody, Body.len, hheartbeat, typeSync, typeBind, typeStatus,
        typeHeartbeat]
      simp
      omega
  | command h4 hsync hpayload hbind hstatus hheartbeat =>
      refine iff_of_true rfl ⟨fun e => ?_, fun e => ?_, fun e => ?_, fun e => ?_⟩
      · exact absurd e hsync
      · exact absurd e hbind
      · exact absurd e hstatus
      · exact absurd e hheartbeat

end DahuaP2p.Ptcp
