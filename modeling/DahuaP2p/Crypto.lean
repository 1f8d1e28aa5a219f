import DahuaP2p.GoStrings
import DahuaP2p.Pbkdf2

/-! # Keys and addresses (`dh/crypto.go`)

What `Handshake` encrypts and signs.  The ciphers, hashes and encodings of the standard library are
parameters (`CryptoLib`).

`pbkdf2SHA256` is the key derivation as the code computes it: a MAC that is reset and written to, an
accumulator that is changed in place, and one pass for each block.  `pbkdf2SHA256_eq` says that it
is PBKDF2. -/

namespace DahuaP2p.Dh

open BigEndian GoStrings Pbkdf2

/-! ### Standard library -/

/-- The fields of the decrypted device information that are used. -/
structure DeviceInfo where
  randSalt : Bytes
  rtspPort : ℤ
deriving DecidableEq, Repr

structure CryptoLib where
  hmacSHA256 : Prf 32
  sha1 : Bytes → Bytes
  md5 : Bytes → Bytes
  base64Encode : Bytes → Bytes
  base64Decode : Bytes → Except String Bytes
  /-- `aes.NewCipher` for a key, and `XORKeyStream` of its OFB stream for an initial vector. -/
  aesOFB : Bytes → Except String (Bytes → Bytes → Bytes)
  /-- `json.Unmarshal` into a `DeviceInfo`. -/
  unmarshal : Bytes → Except String DeviceInfo

/-! ### Key derivation -/

/-- An `hmac.New(sha256.New, key)`, with what was written to it. -/
structure Mac where
  key : Bytes
  written : Bytes

namespace Mac
variable (hmac : Prf 32) (m : Mac)

def reset : Mac := { m with written := [] }

def write (data : Bytes) : Mac := { m with written := m.written ++ data }

/-- `Sum(nil)`, which leaves the state as it is. -/
def sum : Bytes := hmac.eval m.key m.written

end Mac

/-- `for j := range t { t[j] ^= u[j] }` -/
def xorInto (t u : Bytes) : Bytes := t.mapIdx fun j b => b ^^^ u.getD j 0

/-- `n` turns of the loop over the iterations. -/
def iterLoop (hmac : Prf 32) : ℕ → Mac → Bytes → Bytes → Mac × Bytes
  | 0, mac, _, t => (mac, t)
  | n + 1, mac, u, t =>
      let mac := mac.reset.write u
      let u := mac.sum hmac
      iterLoop hmac n mac u (xorInto t u)

/-- The bytes of the block number. -/
def blockBytes (block : ℕ) : Bytes :=
  [UInt8.ofNat (block >>> 24), UInt8.ofNat (block >>> 16), UInt8.ofNat (block >>> 8),
    UInt8.ofNat block]

/-- `n` turns of the loop over the blocks, from `block` on. -/
def blockLoop (hmac : Prf 32) (salt : Bytes) (iter : ℕ) : ℕ → ℕ → Mac → Bytes → Bytes
  | 0, _, _, dk => dk
  | n + 1, block, mac, dk =>
      let mac := (mac.reset.write salt).write (blockBytes block)
      let u := mac.sum hmac
      let (mac, t) := iterLoop hmac (iter - 1) mac u u
      blockLoop hmac salt iter n (block + 1) mac (dk ++ t)

def pbkdf2SHA256 (hmac : Prf 32) (password salt : Bytes) (iter keyLen : ℕ) : Bytes :=
  let hashLen := 32
  let numBlocks := (keyLen + hashLen - 1) / hashLen
  (blockLoop hmac salt iter numBlocks 1 ⟨password, []⟩ []).take keyLen

section derivation
variable (hmac : Prf 32) (password salt : Bytes) {iter : ℕ}

theorem xorInto_eq {t u : Bytes} (h : t.length = u.length) : xorInto t u = xorBytes t u := by
  refine List.ext_getElem (by simp [xorInto, xorBytes, h]) fun j hj hj' => ?_
  have hu : j < u.length := by
    rw [← h]
    simpa [xorInto] using hj
  simp [xorInto, xorBytes, hu]

theorem blockBytes_eq (block : ℕ) : blockBytes block = int block := by
  simp only [blockBytes, int, Nat.shiftRight_eq_div_pow]

/-- The accumulator holds `T` after `c` iterations, and goes on from there. -/
theorem iterLoop_eq (i n c : ℕ) (mac : Mac) (hkey : mac.key = password) :
    (iterLoop hmac n mac (u hmac password salt i c) (t hmac password salt (c + 1) i)).2 =
      t hmac password salt (c + 1 + n) i ∧
    (iterLoop hmac n mac (u hmac password salt i c) (t hmac password salt (c + 1) i)).1.key =
      password := by
  induction n generalizing c mac with
  | zero => exact ⟨rfl, hkey⟩
  | succ n ih =>
      have hu : (mac.reset.write (u hmac password salt i c)).sum hmac =
          u hmac password salt i (c + 1) := by
        simp only [Mac.sum, Mac.write, Mac.reset, hkey, List.nil_append, u]
      have hstep : iterLoop hmac (n + 1) mac (u hmac password salt i c)
          (t hmac password salt (c + 1) i) =
          iterLoop hmac n (mac.reset.write (u hmac password salt i c))
            (u hmac password salt i (c + 1)) (t hmac password salt (c + 2) i) := by
        rw [iterLoop, hu, xorInto_eq (by rw [t_length, u_length]), ← t_succ]
      rw [hstep, show c + 1 + (n + 1) = c + 1 + 1 + n by omega]
      exact ih (c + 1) _ hkey

/-- With `l` blocks done, the loop appends the next ones. -/
theorem blockLoop_eq (hiter : 1 ≤ iter) (n l : ℕ) (mac : Mac) (hkey : mac.key = password) :
    blockLoop hmac salt iter n (l + 1) mac (blocks hmac password salt iter l) =
      blocks hmac password salt iter (l + n) := by
  induction n generalizing l mac with
  | zero => rfl
  | succ n ih =>
      have hu : ((mac.reset.write salt).write (blockBytes (l + 1))).sum hmac =
          u hmac password salt (l + 1) 0 := by
        simp only [Mac.sum, Mac.write, Mac.reset, hkey, List.nil_append, u, blockBytes_eq]
      obtain ⟨ht, hkey'⟩ := iterLoop_eq hmac password salt (l + 1) (iter - 1) 0
        ((mac.reset.write salt).write (blockBytes (l + 1))) hkey
      rw [t_one] at ht hkey'
      rw [show 0 + 1 + (iter - 1) = iter by omega] at ht
      rw [blockLoop, hu]
      dsimp only
      rw [ht, ← blocks_succ, show l + (n + 1) = l + 1 + n by omega]
      exact ih (l + 1) _ hkey'

/-- **`pbkdf2SHA256` is PBKDF2.**  The key consists of the first bytes of `T_1 ‖ T_2 ‖ …`, of
however many blocks as are enough. -/
theorem pbkdf2SHA256_eq {keyLen l : ℕ} (hiter : 1 ≤ iter) (hl : keyLen ≤ 32 * l) :
    pbkdf2SHA256 hmac password salt iter keyLen =
      (blocks hmac password salt iter l).take keyLen ∧
    (pbkdf2SHA256 hmac password salt iter keyLen).length = keyLen := by
  have hblocks : pbkdf2SHA256 hmac password salt iter keyLen =
      (blocks hmac password salt iter ((keyLen + 31) / 32)).take keyLen := by
    have hloop := blockLoop_eq hmac password salt hiter ((keyLen + 31) / 32) 0 ⟨password, []⟩ rfl
    simp only [Nat.zero_add] at hloop
    exact congrArg (List.take keyLen) hloop
  have henough : keyLen ≤ 32 * ((keyLen + 31) / 32) := by omega
  rw [hblocks]
  refine ⟨take_blocks henough hl, ?_⟩
  rw [List.length_take, blocks_length]
  exact min_eq_left henough

/-- A function with outputs of 32 bytes: key and message, cut off or filled up. -/
def paddedPrf : Prf 32 where
  eval key msg := (key ++ msg ++ List.replicate 32 0).take 32
  length_eval key msg := by
    rw [List.length_take, List.length_append, List.length_replicate]
    exact min_eq_left (Nat.le_add_left _ _)

theorem pbkdf2SHA256_eq_paddedPrf :
    pbkdf2SHA256 paddedPrf [1] [2, 3] 2 4 = (blocks paddedPrf [1] [2, 3] 2 1).take 4 ∧
    (pbkdf2SHA256 paddedPrf [1] [2, 3] 2 4).length = 4 :=
  pbkdf2SHA256_eq paddedPrf [1] [2, 3] (by decide) (by decide)

end derivation

/-! ### Device information -/

def deviceInfoKey : Bytes := ascii "kRjmsUB&ezmdGLL67H#$ojw@XflcaIaf"
def deviceInfoIV : Bytes := ascii "MydvJw*Iw1w&i^kk"
def ipEncryptIV : Bytes := ascii "2z52*lk9o6HRyJrf"

section device
variable (lib : CryptoLib)

def decryptDeviceInfo (infoB64 : Bytes) : Except String DeviceInfo := do
  let cipherText ← (lib.base64Decode infoB64).mapError ("failed to decode device info: " ++ ·)
  let stream ← (lib.aesOFB deviceInfoKey).mapError ("failed to create AES cipher: " ++ ·)
  (lib.unmarshal (stream deviceInfoIV cipherText)).mapError
    ("failed to parse device info JSON: " ++ ·)

/-- `GetDeviceKey`: an MD5 sum in capital hexadecimal digits. -/
def getDeviceKey (username password randsalt : Bytes) : Bytes :=
  let raw := username ++ ascii ":Login to " ++ randsalt ++ ascii ":" ++ password
  (lib.md5 raw).flatMap (hex true)

/-- The key of an address: PBKDF2 with the nonce in decimal as salt. -/
def addrKey (key : Bytes) (nonce : ℤ) : Bytes :=
  pbkdf2SHA256 lib.hmacSHA256 key (decimal nonce) 20000 32

def encryptAddr (key : Bytes) (nonce : ℤ) (data : Bytes) : Except String Bytes := do
  let stream ← lib.aesOFB (addrKey lib key nonce)
  pure (lib.base64Encode (stream ipEncryptIV data))

def decryptAddr (key : Bytes) (nonce : ℤ) (data : Bytes) : Except String Bytes := do
  let cipherText ← lib.base64Decode data
  let stream ← lib.aesOFB (addrKey lib key nonce)
  pure (stream ipEncryptIV cipherText)

/-- `GetDeviceAuth` at the Unix time `curdate`. -/
def getDeviceAuth (curdate : ℤ) (username key : Bytes) (nonce : ℤ) (randsalt payload : Bytes) :
    Bytes :=
  let message := decimal nonce ++ decimal curdate ++ payload
  let auth := lib.base64Encode (lib.hmacSHA256.eval key message)
  ascii "<CreateDate>" ++ decimal curdate ++ ascii "</CreateDate>" ++
    ascii "<DevAuth>" ++ auth ++ ascii "</DevAuth>" ++
    ascii "<Nonce>" ++ decimal nonce ++ ascii "</Nonce>" ++
    ascii "<RandSalt>" ++ randsalt ++ ascii "</RandSalt>" ++
    ascii "<UserName>" ++ username ++ ascii "</UserName>"

end device

end DahuaP2p.Dh
