import DahuaP2p.BigEndian

/-! # Go's text functions on bytes

The functions of `strings`, `strconv` and `fmt` that take texts apart and put them together.  A Go
string is any sequence of bytes.

* White space is what `unicode.IsSpace` says.  Its UTF-8 encodings start with bytes that stand
  inside no other rune, so that they can be looked for byte by byte, also in text that is not valid
  UTF-8.
* `equalFold` and `toUpper` change ASCII letters only.  Of all other runes only `K`, `ſ` and `ı`
  have an ASCII letter as another case (`K`, `S` and `I`), which makes both exact when they are
  compared with ASCII text that has none of these letters.
* `Free sep piece rest` says that a separator does not start in a piece of text; such a piece is
  passed over by `cutAt` and `replaceAll` as a whole. -/

namespace GoStrings

open BigEndian

/-- ASCII text as bytes. -/
def ascii (text : String) : Bytes := text.toList.map fun c => UInt8.ofNat c.toNat

/-! ### White space -/

/-- The encodings of the white space runes. -/
def spaces : List Bytes :=
  [[0x09], [0x0A], [0x0B], [0x0C], [0x0D], [0x20], [0xC2, 0x85], [0xC2, 0xA0], [0xE1, 0x9A, 0x80],
    [0xE2, 0x80, 0x80], [0xE2, 0x80, 0x81], [0xE2, 0x80, 0x82], [0xE2, 0x80, 0x83],
    [0xE2, 0x80, 0x84], [0xE2, 0x80, 0x85], [0xE2, 0x80, 0x86], [0xE2, 0x80, 0x87],
    [0xE2, 0x80, 0x88], [0xE2, 0x80, 0x89], [0xE2, 0x80, 0x8A], [0xE2, 0x80, 0xA8],
    [0xE2, 0x80, 0xA9], [0xE2, 0x80, 0xAF], [0xE2, 0x81, 0x9F], [0xE3, 0x80, 0x80]]

/-- How many bytes the white space rune at the start of the text has; 0 if there is none. -/
def spaceWidth (text : Bytes) : ℕ := ((spaces.find? (·.isPrefixOf text)).map List.length).getD 0

/-- The text from its first byte on that is not in a white space rune; `skip` more bytes of such a
rune come first. -/
def trimLeft : ℕ → Bytes → Bytes
  | _, [] => []
  | skip + 1, _ :: text => trimLeft skip text
  | 0, b :: text =>
    match spaceWidth (b :: text) with
    | 0 => b :: text
    | width + 1 => trimLeft width text

/-- The text up to where only white space follows. -/
def trimRight : Bytes → Bytes
  | [] => []
  | b :: text => if trimLeft 0 (b :: text) = [] then [] else b :: trimRight text

/-- `strings.TrimSpace`. -/
def trimSpace (text : Bytes) : Bytes := trimRight (trimLeft 0 text)

/-- The loop of `strings.Fields`, with the field it is in. -/
def fieldsLoop : ℕ → Bytes → Bytes → List Bytes
  | _, field, [] => if field = [] then [] else [field]
  | skip + 1, field, _ :: text => fieldsLoop skip field text
  | 0, field, b :: text =>
    match spaceWidth (b :: text) with
    | 0 => fieldsLoop 0 (field ++ [b]) text
    | width + 1 =>
      if field = [] then fieldsLoop width [] text else field :: fieldsLoop width [] text

/-- `strings.Fields`. -/
def fields (text : Bytes) : List Bytes := fieldsLoop 0 [] text

example : fields (ascii " PLAY  rtsp://camera/ RTSP/1.0") =
    [ascii "PLAY", ascii "rtsp://camera/", ascii "RTSP/1.0"] := by
  decide +kernel

/-! ### Letters -/

def toUpper (text : Bytes) : Bytes :=
  text.map fun b => if 0x61 ≤ b ∧ b ≤ 0x7A then b - 0x20 else b

/-- `strings.EqualFold`. -/
def equalFold (s t : Bytes) : Bool := toUpper s = toUpper t

/-! ### Taking text apart -/

/-- `strings.Cut` at a byte: the text before and after the first such byte. -/
def cut (sep : UInt8) : Bytes → Option (Bytes × Bytes)
  | [] => none
  | b :: text =>
    if b = sep then some ([], text)
    else (cut sep text).map fun p => (b :: p.1, p.2)

/-- `strings.Cut`: the text before and after the first occurrence of `sep`, which is not empty. -/
def cutAt (sep : Bytes) : Bytes → Option (Bytes × Bytes)
  | [] => none
  | b :: text =>
    if sep.isPrefixOf (b :: text) then some ([], (b :: text).drop sep.length)
    else (cutAt sep text).map fun p => (b :: p.1, p.2)

/-- `strings.SplitN` into at most `n + 1` pieces. -/
def splitN (sep : Bytes) : ℕ → Bytes → List Bytes
  | 0, text => [text]
  | n + 1, text =>
    match cutAt sep text with
    | none => [text]
    | some (piece, rest) => piece :: splitN sep n rest

/-- `strings.Split`; a text has no more separators than bytes. -/
def split (sep text : Bytes) : List Bytes := splitN sep text.length text

/-- The loop of `strings.ReplaceAll`, which skips the bytes of what it has replaced. -/
def replaceLoop (old new : Bytes) : ℕ → Bytes → Bytes
  | _, [] => []
  | skip + 1, _ :: text => replaceLoop old new skip text
  | 0, b :: text =>
    if old.isPrefixOf (b :: text) then new ++ replaceLoop old new (old.length - 1) text
    else b :: replaceLoop old new 0 text

/-- `strings.ReplaceAll` for a text `old` that is not empty. -/
def replaceAll (old new text : Bytes) : Bytes := replaceLoop old new 0 text

/-- No occurrence of `sep` in `piece ++ rest` starts in `piece`. -/
def Free (sep piece rest : Bytes) : Prop :=
  ∀ i < piece.length, ¬ sep <+: (piece ++ rest).drop i

section occurrences
variable {sep old new piece rest : Bytes}

theorem Free.nil : Free sep [] rest := fun _ hi => absurd hi (Nat.not_lt_zero _)

theorem Free.cons {b : UInt8} (hb : ¬ sep <+: b :: (piece ++ rest)) (h : Free sep piece rest) :
    Free sep (b :: piece) rest := by
  intro i hi
  cases i with
  | zero => exact hb
  | succ i => exact h i (Nat.lt_of_succ_lt_succ hi)

theorem Free.tail {b : UInt8} (h : Free sep (b :: piece) rest) : Free sep piece rest :=
  fun i hi => h (i + 1) (Nat.succ_lt_succ hi)

theorem Free.head {b : UInt8} (h : Free sep (b :: piece) rest) :
    sep.isPrefixOf (b :: (piece ++ rest)) = false := by
  rw [Bool.eq_false_iff, Ne, List.isPrefixOf_iff_prefix]
  exact h 0 (Nat.zero_lt_succ _)

theorem cutAt_free (h : Free sep piece rest) :
    cutAt sep (piece ++ rest) = (cutAt sep rest).map fun p => (piece ++ p.1, p.2) := by
  induction piece with
  | nil =>
      rw [List.nil_append]
      cases cutAt sep rest <;> rfl
  | cons b piece ih =>
      rw [List.cons_append, cutAt, h.head, ih h.tail, Option.map_map]
      rfl

theorem cutAt_sep (hsep : sep ≠ []) : cutAt sep (sep ++ rest) = some ([], rest) := by
  cases sep with
  | nil => exact absurd rfl hsep
  | cons b sep =>
      have hpre : (b :: sep).isPrefixOf (b :: (sep ++ rest)) = true :=
        List.isPrefixOf_iff_prefix.mpr (List.prefix_append _ rest)
      rw [List.cons_append, cutAt, hpre, if_pos rfl]
      simp

theorem replaceLoop_skip : ∀ (text rest : Bytes),
    replaceLoop old new text.length (text ++ rest) = replaceLoop old new 0 rest
  | [], rest => by rw [List.length_nil, List.nil_append]
  | _ :: text, rest => by
      rw [List.length_cons, List.cons_append, replaceLoop]
      exact replaceLoop_skip text rest

theorem replaceAll_free (h : Free old piece rest) :
    replaceAll old new (piece ++ rest) = piece ++ replaceAll old new rest := by
  induction piece with
  | nil => rfl
  | cons b piece ih =>
      rw [List.cons_append, replaceAll, replaceLoop, h.head]
      exact congrArg (b :: ·) (ih h.tail)

theorem replaceAll_old (hold : old ≠ []) :
    replaceAll old new (old ++ rest) = new ++ replaceAll old new rest := by
  cases old with
  | nil => exact absurd rfl hold
  | cons b old =>
      have hpre : (b :: old).isPrefixOf (b :: (old ++ rest)) = true :=
        List.isPrefixOf_iff_prefix.mpr (List.prefix_append _ rest)
      rw [List.cons_append, replaceAll, replaceLoop, hpre, if_pos rfl, List.length_cons,
        Nat.add_sub_cancel, replaceLoop_skip]
      rfl

end occurrences

/-- The number that decimal digits stand for. -/
def digits : ℕ → Bytes → Option ℕ
  | n, [] => some n
  | n, b :: text => if 0x30 ≤ b ∧ b ≤ 0x39 then digits (10 * n + (b.toNat - 0x30)) text else none

/-- The digits of a number that is not negative; there is at least one. -/
def parseUint (text : Bytes) : Option ℕ := if text = [] then none else digits 0 text

/-- `strconv.ParseInt` with base 10 and 64 bits. -/
def parseInt (text : Bytes) : Option ℤ :=
  match text with
  | 0x2D :: rest =>
    match parseUint rest with
    | some n => if n ≤ 2 ^ 63 then some (-n) else none
    | none => none
  | 0x2B :: rest => positive rest
  | rest => positive rest
where
  positive (rest : Bytes) : Option ℤ :=
    match parseUint rest with
    | some n => if n < 2 ^ 63 then some n else none
    | none => none

example : (parseInt (ascii "+042"), parseInt (ascii "-7"), parseInt (ascii "9223372036854775808")) =
    (some 42, some (-7), none) := by
  decide +kernel

/-- The digits up to where the number leaves 64 bits; there `strconv.ParseUint` stops. -/
def scanUint : ℕ → Bytes → Option ℕ
  | n, [] => some n
  | n, b :: text =>
    if 0x30 ≤ b ∧ b ≤ 0x39 then
      let n := 10 * n + (b.toNat - 0x30)
      if n < 2 ^ 64 then scanUint n text else some (2 ^ 64 - 1)
    else none

/-- The number that `strconv.Atoi` returns, also with an error: the nearest one in the range, or 0
for text that is no number. -/
def atoi (text : Bytes) : ℤ :=
  match text with
  | 0x2D :: rest => -min (magnitude rest) (2 ^ 63)
  | 0x2B :: rest => min (magnitude rest) (2 ^ 63 - 1)
  | rest => min (magnitude rest) (2 ^ 63 - 1)
where
  magnitude (rest : Bytes) : ℤ := if rest = [] then 0 else (scanUint 0 rest).getD 0

example : (atoi (ascii "-42"), atoi (ascii "7 "), atoi (ascii "99999999999999999999 ")) =
    (-42, 0, 9223372036854775807) := by
  decide +kernel

/-! ### Formatting -/

/-- `%d`. -/
def decimal (n : ℤ) : Bytes := ascii (toString n)

/-- `%02x`, and `%02X` with capital letters. -/
def hex (capital : Bool) (b : UInt8) : Bytes :=
  [b.toNat / 16, b.toNat % 16].map fun d =>
    UInt8.ofNat (if d < 10 then 0x30 + d else (if capital then 0x41 else 0x61) + (d - 10))

example : (decimal (-42), hex false 0x0b, hex true 0xf3) =
    (ascii "-42", ascii "0b", ascii "F3") := by
  decide +kernel

end GoStrings
