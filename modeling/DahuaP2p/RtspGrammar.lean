import DahuaP2p.RtspProxy
import DahuaP2p.StreamSupply

/-! # The messages that `copyRTSPMessage` accepts

The limits of a message are enforced in three places: a line has to fit into the buffer of the
reader, the header lines are counted as they come, and the size of the body is looked at when they
have already been forwarded.

* **Grammar.** `Message.WellFormed` says what a message is, in terms of its lines.
* **Accepted.** In front of a reader that starts with such a message, `copyRTSPMessage` succeeds and
  forwards exactly this message (`copyRTSPMessage_of_message`).
* **One rule.** `copyRTSPMessage` reads lines, writes them and copies a body.  An invariant that
  goes through these calls (`Copies`) goes through the whole function: what was written in the end
  is a well-formed message, or the first bytes of one if a call has failed (`Copies.message`).
* **Nothing else.** Where it succeeds there was such a message, and where it fails it has forwarded
  a prefix of the stream (`copyRTSPMessage_message`).

The stream of a reader is its supply, the bytes that come before an error. -/

namespace DahuaP2p.Bridge

open BigEndian Programs Prog Streams Pipe GoStrings

/-! ### Grammar -/

/-- Bytes up to and with the first line feed. -/
def IsLine (line : Bytes) : Prop := ∃ text, line = text ++ [0x0A] ∧ (0x0A : UInt8) ∉ text

/-- The line that ends the header. -/
def IsBlank (line : Bytes) : Prop := line = ascii "\r\n" ∨ line = ascii "\n"

instance (line : Bytes) : Decidable (IsBlank line) := instDecidableOr

/-- What stands after the colon of a `Content-Length` line. -/
def lengthValue (line : Bytes) : Option Bytes :=
  match cut 0x3A line with
  | none => none
  | some (name, value) =>
    if equalFold (trimSpace name) (ascii "Content-Length") then some (trimSpace value) else none

/-- The header lines have no `Content-Length` and the body is empty, or they have one that says how
long the body is. -/
def Announces (headers : List Bytes) (length : ℕ) : Prop :=
  headers.filterMap lengthValue = [] ∧ length = 0 ∨
    ∃ value, headers.filterMap lengthValue = [value] ∧ parseInt value = some (length : ℤ)

structure Message where
  first : Bytes
  headers : List Bytes
  last : Bytes
  body : Bytes

/-- The lines of a message. -/
def Message.head (m : Message) : Bytes := m.first ++ (m.headers.flatten ++ m.last)

def Message.bytes (m : Message) : Bytes := m.head ++ m.body

/-- What `copyRTSPMessage` returns for a message. -/
def Message.line (m : Message) : Bytes := trimSpace m.first

structure Message.WellFormed (m : Message) : Prop where
  first : IsLine m.first
  headers : ∀ line ∈ m.headers, IsLine line ∧ ¬ IsBlank line
  last : IsBlank m.last
  head_le : m.head.length ≤ 65536
  announced : Announces m.headers m.body.length
  body_le : m.body.length ≤ 1048576

theorem IsBlank.isLine {line : Bytes} (h : IsBlank line) : IsLine line := by
  rcases h with rfl | rfl
  · exact ⟨[0x0D], by decide, by decide⟩
  · exact ⟨[], by decide, by decide⟩

/-! ### What the header lines announce -/

/-- The results of `contentLength` over the header lines. -/
def announced : List Bytes → Option ℤ → Except ProxyError (Option ℤ)
  | [], seen => .ok seen
  | line :: lines, seen =>
    match contentLength line seen with
    | .error e => .error e
    | .ok seen' => announced lines seen'

theorem contentLength_of_none {line : Bytes} (h : lengthValue line = none) (seen : Option ℤ) :
    contentLength line seen = .ok seen := by
  unfold lengthValue at h
  unfold contentLength
  cases hcut : cut 0x3A line with
  | none => rfl
  | some p =>
      simp only [hcut, ite_eq_right_iff, reduceCtorEq, imp_false] at h
      simp [h]

theorem contentLength_of_some {line value : Bytes} (h : lengthValue line = some value)
    {seen seen' : Option ℤ} :
    contentLength line seen = .ok seen' ↔
      seen = none ∧ ∃ n : ℤ, parseInt value = some n ∧ 0 ≤ n ∧ seen' = some n := by
  unfold lengthValue at h
  unfold contentLength
  cases hcut : cut 0x3A line with
  | none => simp [hcut] at h
  | some p =>
      simp only [hcut, Option.ite_none_right_eq_some, Option.some.injEq] at h
      obtain ⟨hname, rfl⟩ := h
      simp only [hname, if_true]
      cases seen with
      | some k => simp
      | none =>
          cases hn : parseInt (trimSpace p.2) with
          | none => simp
          | some n =>
              by_cases hneg : n < 0
              · simp [hneg]
              · simp [hneg, eq_comm]
                omega

theorem announced_cons_iff {line : Bytes} {lines : List Bytes} {seen seen' : Option ℤ} :
    announced (line :: lines) seen = .ok seen' ↔
      ∃ between, contentLength line seen = .ok between ∧ announced lines between = .ok seen' := by
  rw [announced]
  cases contentLength line seen with
  | error e => simp
  | ok between => simp

/-- After a length only lines without one may follow. -/
theorem announced_some_iff {headers : List Bytes} {n : ℤ} {seen : Option ℤ} :
    announced headers (some n) = .ok seen ↔
      headers.filterMap lengthValue = [] ∧ seen = some n := by
  induction headers with
  | nil => simp [announced, eq_comm]
  | cons line lines ih =>
      rw [announced_cons_iff]
      cases hv : lengthValue line with
      | none => simp [contentLength_of_none hv, ih, hv]
      | some value => simp [contentLength_of_some hv, hv]

theorem announced_none_iff {headers : List Bytes} {seen : Option ℤ} :
    announced headers none = .ok seen ↔
      headers.filterMap lengthValue = [] ∧ seen = none ∨
        ∃ value, ∃ n : ℤ, headers.filterMap lengthValue = [value] ∧ parseInt value = some n ∧
          0 ≤ n ∧ seen = some n := by
  induction headers with
  | nil => simp [announced, eq_comm]
  | cons line lines ih =>
      rw [announced_cons_iff]
      cases hv : lengthValue line with
      | none => simp [contentLength_of_none hv, ih, hv]
      | some value =>
          simp only [contentLength_of_some hv, true_and, List.filterMap_cons, hv]
          constructor
          · rintro ⟨_, ⟨n, hn, hpos, rfl⟩, hrest⟩
            obtain ⟨hnil, rfl⟩ := announced_some_iff.mp hrest
            exact .inr ⟨value, n, by rw [hnil], hn, hpos, rfl⟩
          · rintro (⟨h, _⟩ | ⟨value', n, h, hn, hpos, rfl⟩)
            · cases h
            · obtain ⟨rfl, hnil⟩ := List.cons.inj h
              exact ⟨_, ⟨n, hn, hpos, rfl⟩, announced_some_iff.mpr ⟨hnil, rfl⟩⟩

/-- The loop over the header lines finds the length that they announce. -/
theorem announces_iff {headers : List Bytes} {length : ℕ} :
    Announces headers length ↔
      ∃ seen, announced headers none = .ok seen ∧ seen.getD 0 = (length : ℤ) := by
  simp only [Announces, announced_none_iff]
  constructor
  · rintro (⟨hnil, rfl⟩ | ⟨value, hone, hn⟩)
    · exact ⟨none, .inl ⟨hnil, rfl⟩, rfl⟩
    · exact ⟨some length, .inr ⟨value, length, hone, hn, Int.natCast_nonneg length, rfl⟩, rfl⟩
  · rintro ⟨_, ⟨hnil, rfl⟩ | ⟨value, n, hone, hn, _, rfl⟩, hlen⟩
    · exact .inl ⟨hnil, by simpa using hlen.symm⟩
    · exact .inr ⟨value, hone, by rw [hn]; exact congrArg some hlen⟩

theorem announced_length {headers : List Bytes} {seen : Option ℤ}
    (h : announced headers none = .ok seen) : ∃ length : ℕ, seen.getD 0 = (length : ℤ) := by
  rcases announced_none_iff.mp h with ⟨_, rfl⟩ | ⟨_, n, _, _, hpos, rfl⟩
  · exact ⟨0, rfl⟩
  · exact Int.eq_ofNat_of_zero_le hpos

/-! ### Lines -/

/-- The first bytes of the supply were written. -/
structure Forwards (data : Bytes) (p q : Pipe) : Prop where
  out : q.out = p.out ++ data
  supply : p.src.supply = data ++ q.src.supply
  clear : q.Clear
  size : q.src.size = p.src.size

/-- The same, and a line more was read. -/
structure Holds (data line : Bytes) (p q : Pipe) : Prop where
  out : q.out = p.out ++ data
  supply : p.src.supply = data ++ (line ++ q.src.supply)
  clear : q.Clear
  size : q.src.size = p.src.size

/-- The bytes that are written and still to come. -/
def streamOf (p : Pipe) : Bytes := p.out ++ p.src.supply

variable {p q : Pipe} {data line rest : Bytes}

theorem Forwards.refl (h : p.Clear) : Forwards [] p p := ⟨by simp, by simp, h, rfl⟩

theorem Forwards.truncated (h : Forwards data p q) : Truncated (streamOf p) q := by
  refine ⟨q.src.supply, ?_⟩
  rw [h.out, streamOf, h.supply, List.append_assoc]

theorem Holds.truncated (h : Holds data line p q) : Truncated (streamOf p) q := by
  refine ⟨line ++ q.src.supply, ?_⟩
  rw [h.out, streamOf, h.supply, List.append_assoc]

/-- A line in front of the reader is read. -/
theorem readRTSPLine_of_line (hq : Forwards data p q) (hline : IsLine line)
    (hsupply : q.src.supply = line ++ rest) (hfit : line.length ≤ q.src.size) :
    ∃ q', readRTSPLine q = (.ok line, q') ∧ Holds data line p q' ∧ q'.src.supply = rest := by
  obtain ⟨text, htext, hnot⟩ := hline
  have hsplit : Reader.splitLine 0x0A q.src.supply = some (line, rest) :=
    Reader.splitLine_eq_some_iff.mpr ⟨text, htext, hnot, hsupply⟩
  obtain ⟨src, hrun, hrest, hsound, hsize⟩ := Reader.readSlice_of_line hq.clear.sound hsplit hfit
  have hread : readSlice 0x0A q = (.ok line, { q with src := src }) := by
    simp [readSlice, hrun]
  refine ⟨_, wrap_of_ok hread, ⟨hq.out, ?_, ⟨hsound, hq.clear.accepts⟩, hsize.trans hq.size⟩, hrest⟩
  rw [hq.supply, hsupply, hrest]

/-- What is read is a line. -/
theorem readRTSPLine_line (p : Pipe) (data : Bytes) :
    Triple (Forwards data p) readRTSPLine (fun line q => IsLine line ∧ Holds data line p q)
      (Truncated (streamOf p)) := by
  refine Triple.wrap (fun q hq => ?_) _
  unfold readSlice
  cases h : q.src.readSlice 0x0A with
  | mk res src =>
      cases res with
      | error e => exact hq.truncated
      | ok line =>
          obtain ⟨hsplit, _, hsound, hsize⟩ := Reader.readSlice_line hq.clear.sound h
          obtain ⟨text, htext, hnot, hsupply⟩ := Reader.splitLine_eq_some_iff.mp hsplit
          refine ⟨⟨text, htext, hnot⟩, hq.out, ?_, ⟨hsound, hq.clear.accepts⟩,
            hsize.trans hq.size⟩
          rw [hq.supply, hsupply]

theorem writeAllLoop_nil (turns : ℕ) : writeAllLoop turns [] = pure () := by
  cases turns with
  | zero => rfl
  | succ turns => simp [writeAllLoop]

/-- A line in hand is written. -/
theorem writeAll_of_holds (hq : Holds data line p q) :
    ∃ q', writeAll line q = (.ok (), q') ∧ Forwards (data ++ line) p q' ∧
      q'.src.supply = q.src.supply := by
  have hsupply : p.src.supply = data ++ line ++ q.src.supply := by
    rw [hq.supply, List.append_assoc]
  cases line with
  | nil => exact ⟨q, rfl, ⟨by simpa using hq.out, hsupply, hq.clear, hq.size⟩, rfl⟩
  | cons b line =>
      have hwrite := wrap_of_ok (g := ProxyError.write) (write_of_clear hq.clear (b :: line))
      have hne : (b :: line).length ≠ 0 := by simp
      refine ⟨{ q with writes := q.writes.tail, out := q.out ++ b :: line }, ?_,
        ⟨?_, hsupply, ⟨hq.clear.sound, ?_⟩, hq.size⟩, rfl⟩
      · unfold writeAll
        rw [List.length_cons, writeAllLoop, if_neg (List.cons_ne_nil b line), bind_of_ok hwrite]
        rw [if_neg hne, List.drop_length, writeAllLoop_nil]
        rfl
      · simp [hq.out]
      · exact fun o ho => hq.clear.accepts o (List.mem_of_mem_tail ho)

theorem writeAll_line (p : Pipe) (data line : Bytes) :
    Triple (Holds data line p) (writeAll line) (fun _ => Forwards (data ++ line) p)
      (Truncated (streamOf p)) := by
  intro q hq
  obtain ⟨q', hrun, hforwards, _⟩ := writeAll_of_holds hq
  rw [hrun]
  exact hforwards

/-! ### The header -/

/-- The lines after the first one. -/
structure Header (headers : List Bytes) (last : Bytes) : Prop where
  lines : ∀ line ∈ headers, IsLine line ∧ ¬ IsBlank line
  last : IsBlank last

theorem Header.nil {last : Bytes} (h : IsBlank last) : Header [] last := ⟨by simp, h⟩

theorem Header.tail {line : Bytes} {headers : List Bytes} {last : Bytes}
    (h : Header (line :: headers) last) : Header headers last :=
  ⟨fun l hl => h.lines l (List.mem_cons_of_mem _ hl), h.last⟩

section turn
variable {next : ℕ → Option ℤ → Prog ProxyError Pipe (Option ℤ)} {n : ℕ} {seen : Option ℤ}
  {q₁ q₂ : Pipe} (hread : readRTSPLine q = (.ok line, q₁))
  (hmax : n + line.length ≤ maxRTSPHeaderBytes) (hwrite : writeAll line q₁ = (.ok (), q₂))
include hread hmax hwrite

theorem headerTurn_of_blank (hb : IsBlank line) : headerTurn next n seen q = (.ok seen, q₂) := by
  have hb : line = ascii "\r\n" ∨ line = ascii "\n" := hb
  unfold headerTurn
  rw [bind_of_ok hread, if_neg (Nat.not_lt.mpr hmax), bind_of_ok hwrite, if_pos hb]
  rfl

theorem headerTurn_of_line (hb : ¬ IsBlank line) {between : Option ℤ}
    (hlen : contentLength line seen = .ok between) :
    headerTurn next n seen q = next (n + line.length) between q₂ := by
  have hb : ¬ (line = ascii "\r\n" ∨ line = ascii "\n") := hb
  unfold headerTurn
  rw [bind_of_ok hread, if_neg (Nat.not_lt.mpr hmax), bind_of_ok hwrite, if_neg hb, hlen]

end turn

/-- A header that is in front of the reader is forwarded. -/
theorem copyHeader_of_header {headers : List Bytes} {last : Bytes} (hh : Header headers last)
    (n : ℕ) {seen seen' : Option ℤ} (hq : Forwards data p q)
    (hsupply : q.src.supply = headers.flatten ++ last ++ rest)
    (hsize : maxRTSPHeaderBytes ≤ p.src.size)
    (hn : n + (headers.flatten ++ last).length ≤ maxRTSPHeaderBytes)
    (hseen : announced headers seen = .ok seen') :
    ∃ q', copyHeader n seen q = (.ok seen', q') ∧
      Forwards (data ++ (headers.flatten ++ last)) p q' ∧ q'.src.supply = rest := by
  rw [copyHeader_eq]
  induction headers generalizing n seen data q with
  | nil =>
      simp only [List.flatten_nil, List.nil_append] at hsupply hn ⊢
      have hfit : last.length ≤ q.src.size := by
        rw [hq.size]
        omega
      obtain ⟨q₁, hread, hholds, hrest⟩ := readRTSPLine_of_line hq hh.last.isLine hsupply hfit
      obtain ⟨q₂, hwrite, hforwards, hsame⟩ := writeAll_of_holds hholds
      cases hseen
      exact ⟨q₂, headerTurn_of_blank hread hn hwrite hh.last, hforwards, hsame.trans hrest⟩
  | cons line lines ih =>
      obtain ⟨hline, hnot⟩ := hh.lines line List.mem_cons_self
      obtain ⟨between, hlen, hseen⟩ := announced_cons_iff.mp hseen
      simp only [List.flatten_cons, List.append_assoc] at hsupply
      simp only [List.flatten_cons, List.length_append] at hn
      have hfit : line.length ≤ q.src.size := by
        rw [hq.size]
        omega
      obtain ⟨q₁, hread, hholds, hrest⟩ := readRTSPLine_of_line hq hline hsupply hfit
      obtain ⟨q₂, hwrite, hforwards, hsame⟩ := writeAll_of_holds hholds
      have hsupply₂ : q₂.src.supply = lines.flatten ++ last ++ rest := by
        rw [hsame, hrest, List.append_assoc]
      have hn₂ : n + line.length + (lines.flatten ++ last).length ≤ maxRTSPHeaderBytes := by
        rw [List.length_append]
        omega
      obtain ⟨q₃, hloop, hforwards₃, hrest₃⟩ :=
        ih hh.tail _ hforwards hsupply₂ hn₂ hseen
      refine ⟨q₃, ?_, by simpa [List.append_assoc] using hforwards₃, hrest₃⟩
      rw [headerTurn_of_line hread (by omega) hwrite hnot hlen, copyHeader_eq]
      exact hloop

/-! ### The body -/

/-- `copyBody` writes as much of the body as there is. -/
theorem copyBody_run (hq : q.Clear) {n : ℕ} (hn : n ≤ maxRTSPBodyBytes) :
    ∃ res q', copyBody n q = (res, q') ∧ q'.out = q.out ++ q.src.supply.take n ∧
      (res = .ok () ↔ n ≤ q.src.supply.length) := by
  unfold copyBody
  by_cases hpos : 0 < (n : ℤ)
  · obtain ⟨res, q', hrun, hout, hok⟩ := copyN_run (n := n) hq
    rw [if_pos hpos, if_neg (by omega), Int.toNat_natCast]
    cases res with
    | ok u => exact ⟨_, q', wrap_of_ok hrun, hout, by simpa using hok⟩
    | error e => exact ⟨_, q', wrap_of_error hrun, hout, by simpa using hok⟩
  · have hzero : n = 0 := by omega
    rw [if_neg hpos, hzero]
    exact ⟨.ok (), q, rfl, by simp, by simp⟩

/-! ### Messages -/

theorem maxRTSPHeaderBytes_eq : maxRTSPHeaderBytes = 65536 := by decide

theorem maxRTSPBodyBytes_eq : maxRTSPBodyBytes = 1048576 := by decide

/-- A message in front of the reader is forwarded. -/
theorem copyRTSPMessage_of_message (hp : p.Clear) (hsize : maxRTSPHeaderBytes ≤ p.src.size)
    {m : Message} (hm : m.WellFormed) (hsupply : p.src.supply = m.bytes ++ rest) :
    ∃ q, copyRTSPMessage p = (.ok (trimSpace m.first), q) ∧ q.out = p.out ++ m.bytes := by
  have hhead := hm.head_le
  rw [← maxRTSPHeaderBytes_eq, Message.head, List.length_append] at hhead
  rw [Message.bytes, Message.head] at hsupply
  simp only [List.append_assoc] at hsupply
  obtain ⟨q₁, hread, hholds, hrest₁⟩ := readRTSPLine_of_line (.refl hp) hm.first hsupply
    (by omega)
  obtain ⟨q₂, hwrite, hforwards₂, hsame⟩ := writeAll_of_holds hholds
  obtain ⟨seen, hseen, hlen⟩ := announces_iff.mp hm.announced
  obtain ⟨q₃, hloop, hforwards₃, hrest₃⟩ := copyHeader_of_header ⟨hm.headers, hm.last⟩
    m.first.length hforwards₂ (by rw [hsame, hrest₁, List.append_assoc]) hsize hhead hseen
  obtain ⟨res, q₄, hbody, hout, hok⟩ := copyBody_run hforwards₃.clear
    (n := m.body.length) (by rw [maxRTSPBodyBytes_eq]; exact hm.body_le)
  rw [hrest₃, List.length_append] at hok
  obtain rfl := hok.mpr (Nat.le_add_right _ _)
  refine ⟨q₄, ?_, ?_⟩
  · unfold copyRTSPMessage
    rw [bind_of_ok hread, bind_of_ok hwrite, bind_of_ok hloop, hlen, bind_of_ok hbody]
    rfl
  · rw [hout, hrest₃, List.take_left, hforwards₃.out, Message.bytes, Message.head,
      List.nil_append, List.append_assoc]

/-! ### One rule for a message -/

/-- The first bytes of a message: of its lines, or all of its lines and at most as many bytes as
they announce. -/
inductive Begun : Bytes → Prop
  | lines {first last part : Bytes} {headers : List Bytes} : IsLine first → Header headers last →
      part <+: first ++ (headers.flatten ++ last) → Begun part
  | body {first last body : Bytes} {headers : List Bytes} {length : ℕ} : IsLine first →
      Header headers last → Announces headers length → body.length ≤ length →
      Begun (first ++ (headers.flatten ++ last) ++ body)

theorem IsBlank.lf : IsBlank (ascii "\n") := .inr rfl

theorem Begun.nil : Begun [] :=
  .lines IsBlank.lf.isLine (.nil .lf) List.nil_prefix

/-- The invariant `I`, which speaks of the part of the message that was written and of the line in
hand, goes through the calls of `copyRTSPMessage`.  `J` is what is left of it after a body, and `E`
when a call has failed. -/
structure Copies (I : Bytes → Bytes → Pipe → Prop) (J E : Bytes → Pipe → Prop) : Prop where
  line : ∀ data, Triple (I data []) readRTSPLine (fun line q => IsLine line ∧ I data line q)
    (E data)
  write : ∀ data line, Triple (I data line) (writeAll line) (fun _ => I (data ++ line) [])
    (fun q => ∃ part, part <+: line ∧ E (data ++ part) q)
  body : ∀ data n, Triple (I data []) (copyN n)
    (fun _ q => ∃ body : Bytes, body.length = n ∧ J (data ++ body) q)
    (fun q => ∃ part : Bytes, part.length ≤ n ∧ E (data ++ part) q)
  noBody : ∀ data q, I data [] q → J data q
  stop : ∀ data held q, I data held q → E data q

section rule
variable {I : Bytes → Bytes → Pipe → Prop} {J E : Bytes → Pipe → Prop} (h : Copies I J E)
include h

theorem Copies.header (turns n : ℕ) (seen : Option ℤ) (data : Bytes) :
    Triple (I data []) (headerLoop turns n seen)
      (fun seen' q => ∃ headers last, (Header headers last ∧ announced headers seen = .ok seen' ∧
        n + (headers.flatten ++ last).length ≤ maxRTSPHeaderBytes) ∧
        I (data ++ (headers.flatten ++ last)) [] q)
      (fun q => ∃ headers last part, (Header headers last ∧ part <+: headers.flatten ++ last) ∧
        E (data ++ part) q) := by
  -- a failure before anything more was written
  have hstop : ∀ data held q, I data held q → ∃ headers last part,
      (Header headers last ∧ part <+: headers.flatten ++ last) ∧ E (data ++ part) q := by
    intro data held q hi
    exact ⟨[], _, [], ⟨.nil .lf, List.nil_prefix⟩, by simpa using h.stop _ _ _ hi⟩
  induction turns generalizing n seen data with
  | zero => exact .fail fun _ hi => hstop _ _ _ hi
  | succ turns ih =>
      refine ((h.line data).weaken fun q hq => ?_).bind fun line => .of_fact fun hline => ?_
      · exact ⟨[], _, [], ⟨.nil .lf, List.nil_prefix⟩, by simpa using hq⟩
      split
      · exact .fail fun _ hi => hstop _ _ _ hi
      · rename_i hmax
        refine ((h.write data line).weaken fun q hq => ?_).bind fun _ => ?_
        · obtain ⟨part, hpart, hq⟩ := hq
          by_cases hblank : IsBlank line
          · exact ⟨[], line, part, ⟨.nil hblank, hpart⟩, hq⟩
          · exact ⟨[line], _, part, ⟨⟨by simpa using ⟨hline, hblank⟩, IsBlank.lf⟩,
              hpart.trans (by simp)⟩, hq⟩
        split
        · rename_i hblank
          refine .pure fun q hq => ⟨[], line, ⟨.nil hblank, rfl, ?_⟩, hq⟩
          simpa using hmax
        · rename_i hblank
          have hcons : ∀ {headers last}, Header headers last → Header (line :: headers) last :=
            fun hh => ⟨List.forall_mem_cons.mpr ⟨⟨hline, hblank⟩, hh.lines⟩, hh.last⟩
          cases hlen : contentLength line seen with
          | error e =>
              refine .fail fun q hi => ?_
              obtain ⟨headers, last, part, ⟨hh, hpart⟩, hq⟩ := hstop _ _ _ hi
              refine ⟨line :: headers, last, line ++ part, ⟨hcons hh, ?_⟩, by simpa using hq⟩
              simpa using hpart
          | ok between =>
              refine ((ih (n + line.length) between (data ++ line)).weaken ?_).mono
                (fun _ hi => hi) ?_
              · rintro q ⟨headers, last, part, ⟨hh, hpart⟩, hq⟩
                refine ⟨line :: headers, last, line ++ part, ⟨hcons hh, ?_⟩, by simpa using hq⟩
                simpa using hpart
              · rintro seen' q ⟨headers, last, ⟨hh, hseen, hn⟩, hq⟩
                refine ⟨line :: headers, last, ⟨hcons hh, ?_, ?_⟩, ?_⟩
                · exact announced_cons_iff.mpr ⟨between, hlen, hseen⟩
                · simp only [List.flatten_cons, List.length_append] at hn ⊢
                  omega
                · simpa [List.append_assoc] using hq

theorem Copies.copyBody (n : ℕ) (data : Bytes) :
    Triple (I data []) (Bridge.copyBody n)
      (fun _ q => ∃ body : Bytes, (body.length = n ∧ n ≤ maxRTSPBodyBytes) ∧ J (data ++ body) q)
      (fun q => ∃ part : Bytes, part.length ≤ n ∧ E (data ++ part) q) := by
  unfold Bridge.copyBody
  split
  · split
    · exact .fail fun q hi => ⟨[], Nat.zero_le _, by simpa using h.stop _ _ _ hi⟩
    · rw [Int.toNat_natCast]
      refine ((h.body data n).wrap _).mono (fun _ hi => hi) ?_
      rintro _ q ⟨body, hlen, hq⟩
      exact ⟨body, ⟨hlen, by omega⟩, hq⟩
  · refine .pure fun q hq => ⟨[], ⟨?_, by omega⟩, by simpa using h.noBody _ _ hq⟩
    simp only [List.length_nil]
    omega

/-- **The rule for `copyRTSPMessage`**: it writes a message, or fails and has written the first
bytes of one. -/
theorem Copies.message :
    Triple (I [] []) copyRTSPMessage
      (fun line q => ∃ m : Message, (m.WellFormed ∧ line = m.line) ∧ J m.bytes q)
      (fun q => ∃ part, Begun part ∧ E part q) := by
  refine ((h.line []).weaken fun q hq => ⟨[], .nil, hq⟩).bind fun first =>
    .of_fact fun hfirst => ?_
  refine ((h.write [] first).weaken ?_).bind fun _ => ?_
  · rintro q ⟨part, hpart, hq⟩
    exact ⟨part, .lines hfirst (.nil .lf) (hpart.trans (List.prefix_append _ _)), hq⟩
  refine ((h.header _ first.length none _).weaken ?_).bind fun seen => ?_
  · rintro q ⟨headers, last, part, ⟨hh, hpart⟩, hq⟩
    exact ⟨first ++ part, .lines hfirst hh ((List.prefix_append_right_inj first).mpr hpart), hq⟩
  refine .of_exists fun headers => .of_exists fun last => .of_fact fun hhead => ?_
  obtain ⟨hh, hseen, hn⟩ := hhead
  obtain ⟨length, hlength⟩ := announced_length hseen
  have hannounces : Announces headers length := announces_iff.mpr ⟨seen, hseen, hlength⟩
  rw [hlength]
  refine ((h.copyBody length _).weaken ?_).bind fun _ => ?_
  · rintro q ⟨part, hpart, hq⟩
    exact ⟨_, .body hfirst hh hannounces hpart, hq⟩
  refine .of_exists fun body => .of_fact fun hsize => .pure fun q hq => ?_
  obtain ⟨hbody, hmax⟩ := hsize
  refine ⟨⟨first, headers, last, body⟩, ⟨⟨hfirst, hh.lines, hh.last, ?_, ?_, ?_⟩, rfl⟩, hq⟩
  · rw [Message.head, List.length_append, ← maxRTSPHeaderBytes_eq]
    exact hn
  · exact hbody ▸ hannounces
  · rw [← maxRTSPBodyBytes_eq]
    exact hbody ▸ hmax

end rule

/-! ### Accepted messages -/

theorem Forwards.holds (h : Forwards data p q) : Holds data [] p q :=
  ⟨h.out, h.supply, h.clear, h.size⟩

theorem Holds.forwards (h : Holds data [] p q) : Forwards data p q :=
  ⟨h.out, h.supply, h.clear, h.size⟩

/-- The body is the first bytes of the supply, as many as there are. -/
theorem copyN_body (p : Pipe) (n : ℕ) (data : Bytes) :
    Triple (Forwards data p) (copyN n)
      (fun _ q => ∃ body : Bytes, body.length = n ∧ data ++ body <+: p.src.supply ∧
        q.out = p.out ++ (data ++ body)) (Truncated (streamOf p)) := by
  intro q hq
  have hprefix : data ++ q.src.supply.take n <+: p.src.supply := by
    rw [hq.supply, List.prefix_append_right_inj]
    exact List.take_prefix _ _
  obtain ⟨res, q', hrun, hout, hok⟩ := copyN_run (n := n) hq.clear
  rw [hq.out, List.append_assoc] at hout
  rw [hrun]
  cases res with
  | ok u =>
      have hlen := hok.mp rfl
      exact ⟨q.src.supply.take n, by rw [List.length_take]; omega, hprefix, hout⟩
  | error e =>
      change q'.out <+: streamOf p
      rw [hout, streamOf, List.prefix_append_right_inj]
      exact hprefix

/-- What was written is the first part of the supply. -/
theorem copies_supply (p : Pipe) :
    Copies (fun data line => Holds data line p)
      (fun data q => data <+: p.src.supply ∧ q.out = p.out ++ data)
      (fun _ => Truncated (streamOf p)) where
  line data := (readRTSPLine_line p data).mono (fun _ h => h.forwards) fun _ _ h => h
  write data line := ((writeAll_line p data line).weaken fun _ hq =>
    ⟨[], List.nil_prefix, hq⟩).mono (fun _ h => h) fun _ _ h => h.holds
  body data n := ((copyN_body p n data).weaken fun _ hq =>
    ⟨[], Nat.zero_le n, hq⟩).mono (fun _ h => h.forwards) fun _ _ h => h
  noBody _ q h := ⟨⟨q.src.supply, h.supply.symm⟩, h.out⟩
  stop _ _ _ h := h.truncated

/-- What is forwarded is a message. -/
theorem copyRTSPMessage_message (p : Pipe) :
    Triple (Forwards [] p) copyRTSPMessage
      (fun line q => ∃ m : Message, (m.WellFormed ∧ line = m.line) ∧ m.bytes <+: p.src.supply ∧
        q.out = p.out ++ m.bytes)
      (Truncated (streamOf p)) :=
  ((copies_supply p).message.weaken fun _ h => by
    obtain ⟨_, _, h⟩ := h
    exact h).mono (fun _ h => h.holds) fun _ _ h => h

/-- **`copyRTSPMessage` accepts exactly its grammar.**  For a reader with a buffer of 64 KiB and a
writer that takes everything: a well-formed message in front of the stream is consumed and written
unchanged, and its first line is returned; where the call succeeds there was such a message; and
where it fails, what was written is a prefix of the stream. -/
theorem copyRTSPMessage_grammar (p : Pipe) (hp : p.Clear) (hsize : p.src.size = 65536) :
    (∀ m rest, Message.WellFormed m → p.src.supply = m.bytes ++ rest →
      ∃ q, copyRTSPMessage p = (.ok (trimSpace m.first), q) ∧ q.out = p.out ++ m.bytes ∧
        p.src.pending = m.bytes ++ q.src.pending) ∧
    (∀ line q, copyRTSPMessage p = (.ok line, q) →
      ∃ m rest, Message.WellFormed m ∧ p.src.supply = m.bytes ++ rest) ∧
    ∀ e q, copyRTSPMessage p = (.error e, q) → q.out <+: p.out ++ p.src.supply := by
  have hspec := copyRTSPMessage_message p
  refine ⟨fun m rest hm hsupply => ?_, fun line q h => ?_, fun e q h => ?_⟩
  · obtain ⟨q, hrun, hout⟩ := copyRTSPMessage_of_message hp
      (by rw [hsize, maxRTSPHeaderBytes_eq]) hm hsupply
    refine ⟨q, hrun, hout, ?_⟩
    have hcarries : Carries (p.out ++ p.src.pending) [] p := by simp [Carries]
    have hend := (copyRTSPMessage_spec _).of_ok hcarries hrun
    rw [Carries, hout, List.append_nil, List.append_assoc] at hend
    exact (List.append_cancel_left hend).symm
  · obtain ⟨m, ⟨hm, _⟩, ⟨rest, hrest⟩, _⟩ := hspec.of_ok (.refl hp) h
    exact ⟨m, rest, hm, hrest.symm⟩
  · exact hspec.of_error (.refl hp) h

/-- A response with a body. -/
def describeReply : Message where
  first := ascii "RTSP/1.0 200 OK\r\n"
  headers := [ascii "CSeq: 2\r\n", ascii "content-length : 3\n"]
  last := ascii "\r\n"
  body := ascii "v=0"

theorem describeReply_wellFormed : describeReply.WellFormed := by
  have hline : ∀ text : Bytes, (0x0A : UInt8) ∉ text → IsLine (text ++ [0x0A]) :=
    fun text h => ⟨text, rfl, h⟩
  refine ⟨hline (ascii "RTSP/1.0 200 OK\r") (by decide), ?_, .inl rfl, by decide +kernel, ?_,
    by decide⟩
  · refine List.forall_mem_cons.mpr ⟨⟨hline (ascii "CSeq: 2\r") (by decide), by decide⟩, ?_⟩
    refine List.forall_mem_cons.mpr
      ⟨⟨hline (ascii "content-length : 3") (by decide), by decide⟩, ?_⟩
    simp
  · exact .inr ⟨ascii "3", by decide +kernel, by decide +kernel⟩

/-- It comes in two reads, the second one with the end of the stream and a byte more. -/
def replyPipe : Pipe where
  src := Reader.new 65536 [⟨describeReply.bytes.take 30, none⟩,
    ⟨describeReply.bytes.drop 30 ++ ascii "R", some .eof⟩]
  bufs := []
  writes := []
  out := []

theorem copyRTSPMessage_grammar_reply :
    ∃ q, copyRTSPMessage replyPipe = (.ok (ascii "RTSP/1.0 200 OK"), q) ∧
      q.out = describeReply.bytes ∧
      replyPipe.src.pending = describeReply.bytes ++ q.src.pending := by
  have hclear : replyPipe.Clear := by
    refine ⟨Reader.new_sound fun blanks hb _ => ?_, by simp [replyPipe]⟩
    exact hb.length_le.trans_lt (by decide)
  obtain ⟨q, hrun, hout, hpending⟩ := (copyRTSPMessage_grammar replyPipe hclear rfl).1
    describeReply (ascii "R") describeReply_wellFormed (by decide +kernel)
  exact ⟨q, hrun, hout, hpending⟩

end DahuaP2p.Bridge
