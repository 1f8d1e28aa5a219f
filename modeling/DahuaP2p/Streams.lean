import DahuaP2p.BigEndian
import DahuaP2p.Programs
import Mathlib.Data.List.Infix

/-! # Byte streams behind Go's readers and writers

A library for code that moves bytes from an `io.Reader` to an `io.Writer`.

* **Connections.** What the reads of a connection return is a list of chunks: the bytes of one
  `Read` and the error that comes with the last of them.  A chunk that is larger than the buffer is
  given in parts, and after the chunks the connection is at its end.
* **`bufio.Reader`.** The unread bytes of its buffer and its pending error (`Reader`), with `fill`,
  `ReadSlice` and `Read`.
* **Writers.** A `Write` takes all bytes it is given or returns an error; that is the contract of
  `io.Writer`.  How many bytes a failed `Write` took is an input.
* **Pipes.** A reader with the writer its bytes go to (`Pipe`), and `io.CopyN` and `io.Copy` on it.
* **Carrying.** `Carries stream held p`: what was written, what is in hand and what is unread is,
  in this order, the whole stream.  Every operation keeps it when it succeeds, and leaves what was
  written a prefix of the stream (`Truncated`) when it fails. -/

namespace Streams

open BigEndian Programs Prog

/-! ### Connections -/

/-- Errors of readers and writers. -/
inductive IoErr where
  | eof
  | noProgress
  | bufferFull
  | other (text : String)
deriving DecidableEq, Repr

def IoErr.text : IoErr → String
  | .eof => "EOF"
  | .noProgress => "multiple Read calls return no data or error"
  | .bufferFull => "bufio: buffer full"
  | .other text => text

/-- What one `Read` has to give: bytes, and the error that comes with the last of them. -/
structure Chunk where
  data : Bytes
  err : Option IoErr
deriving DecidableEq, Repr

/-- The stream that the chunks split. -/
def bytesOf (chunks : List Chunk) : Bytes := chunks.flatMap Chunk.data

@[simp] theorem bytesOf_cons (c : Chunk) (chunks : List Chunk) :
    bytesOf (c :: chunks) = c.data ++ bytesOf chunks := by
  simp [bytesOf]

/-- `Read` into a buffer of the given size. -/
def connRead (size : ℕ) : List Chunk → (Bytes × Option IoErr) × List Chunk
  | [] => (([], some .eof), [])
  | c :: rest =>
    if c.data.length ≤ size then ((c.data, c.err), rest)
    else ((c.data.take size, none), ⟨c.data.drop size, c.err⟩ :: rest)

theorem connRead_bytes (size : ℕ) (chunks : List Chunk) :
    (connRead size chunks).1.1 ++ bytesOf (connRead size chunks).2 = bytesOf chunks := by
  cases chunks with
  | nil => rfl
  | cons c rest =>
      by_cases hc : c.data.length ≤ size
      · simp [connRead, hc]
      · simp [connRead, hc, ← List.append_assoc]

/-- A read into a buffer that is not empty gives bytes, or an error, or uses up a chunk. -/
theorem connRead_progress {size : ℕ} (hsize : 0 < size) (chunks : List Chunk) :
    (connRead size chunks).2.length ≤ chunks.length ∧
      ((connRead size chunks).1.1 ≠ [] ∨ (connRead size chunks).1.2 ≠ none ∨
        (connRead size chunks).2.length < chunks.length) := by
  cases chunks with
  | nil => simp [connRead]
  | cons c rest =>
      by_cases hc : c.data.length ≤ size
      · simp [connRead, hc]
      · have hne : c.data ≠ [] := by
          rintro h
          simp [h] at hc
        simp only [connRead, if_neg hc]
        refine ⟨by simp, .inl ?_⟩
        simp [hne]
        omega

/-! ### `bufio.Reader` -/

/-- A `bufio.Reader`: the size of its buffer, the bytes in it that are not read yet, its pending
error, and what the connection under it has to give. -/
structure Reader where
  size : ℕ
  size_pos : 0 < size
  buf : Bytes
  err : Option IoErr
  chunks : List Chunk
deriving DecidableEq, Repr

namespace Reader

/-- `bufio.NewReaderSize`. -/
def new (size : ℕ) (chunks : List Chunk) : Reader where
  size := max size 16
  size_pos := Nat.lt_of_lt_of_le (by decide) (Nat.le_max_right size 16)
  buf := []
  err := none
  chunks := chunks

/-- Everything that is still to be read. -/
def pending (r : Reader) : Bytes := r.buf ++ bytesOf r.chunks

/-- The loop of `fill`, which gives up after a number of reads without bytes. -/
def fillLoop : ℕ → Reader → Reader
  | 0, r => { r with err := some .noProgress }
  | tries + 1, r =>
    let ((data, err), chunks) := connRead (r.size - r.buf.length) r.chunks
    let r' := { r with buf := r.buf ++ data, chunks := chunks }
    match err with
    | some e => { r' with err := some e }
    | none => if data = [] then fillLoop tries r' else r'

def maxConsecutiveEmptyReads : ℕ := 100

/-- `fill`: read once more into the free part of the buffer. -/
def fill (r : Reader) : Reader := fillLoop maxConsecutiveEmptyReads r

theorem fillLoop_pending (tries : ℕ) (r : Reader) :
    (fillLoop tries r).pending = r.pending := by
  induction tries generalizing r with
  | zero => rfl
  | succ tries ih =>
      have hbytes := connRead_bytes (r.size - r.buf.length) r.chunks
      rw [fillLoop]
      generalize connRead (r.size - r.buf.length) r.chunks = res at hbytes
      obtain ⟨⟨data, err⟩, chunks⟩ := res
      cases err with
      | some e => simp [pending, ← hbytes]
      | none =>
          by_cases hdata : data = []
          · simp only [if_pos hdata, ih]
            simp [pending, ← hbytes]
          · simp [hdata, pending, ← hbytes]

@[simp] theorem fill_pending (r : Reader) : r.fill.pending = r.pending :=
  fillLoop_pending _ r

/-- `fill` leaves an error or more bytes. -/
theorem fillLoop_progress (tries : ℕ) (r : Reader) :
    (fillLoop tries r).size = r.size ∧
      ((fillLoop tries r).err ≠ none ∨ r.buf.length < (fillLoop tries r).buf.length) := by
  induction tries generalizing r with
  | zero => simp [fillLoop]
  | succ tries ih =>
      rw [fillLoop]
      generalize connRead (r.size - r.buf.length) r.chunks = res
      obtain ⟨⟨data, err⟩, chunks⟩ := res
      cases err with
      | some e => simp
      | none =>
          by_cases hdata : data = []
          · simpa [hdata] using ih { r with chunks := chunks }
          · simp [hdata, List.length_pos_iff]

/-- The bytes up to and with the first delimiter, and the bytes after it. -/
def splitLine (delim : UInt8) : Bytes → Option (Bytes × Bytes)
  | [] => none
  | b :: bs =>
    if b = delim then some ([b], bs)
    else (splitLine delim bs).map fun p => (b :: p.1, p.2)

theorem splitLine_some {delim : UInt8} {bs line rest : Bytes}
    (h : splitLine delim bs = some (line, rest)) : line ≠ [] ∧ line ++ rest = bs := by
  induction bs generalizing line with
  | nil => simp [splitLine] at h
  | cons b bs ih =>
      by_cases hb : b = delim
      · simp only [splitLine, if_pos hb, Option.some.injEq, Prod.mk.injEq] at h
        obtain ⟨rfl, rfl⟩ := h
        exact ⟨List.cons_ne_nil b [], rfl⟩
      · simp only [splitLine, if_neg hb, Option.map_eq_some_iff, Prod.mk.injEq] at h
        obtain ⟨⟨line', rest'⟩, h', rfl, rfl⟩ := h
        exact ⟨List.cons_ne_nil b line', by rw [List.cons_append, (ih h').2]⟩

/-- What a turn of `ReadSlice` returns; nothing if it has to read first. -/
def scan (delim : UInt8) (r : Reader) : Option (Except IoErr Bytes × Reader) :=
  match splitLine delim r.buf with
  | some (line, rest) => some (.ok line, { r with buf := rest })
  | none =>
    match r.err with
    | some e => some (.error e, { r with buf := [], err := none })
    | none =>
      if r.size ≤ r.buf.length then some (.error .bufferFull, { r with buf := [] })
      else none

/-- The loop of `ReadSlice`. -/
def readSliceLoop (delim : UInt8) : ℕ → Reader → Except IoErr Bytes × Reader
  | 0, r => (.error .noProgress, r)
  | turns + 1, r => (r.scan delim).getD (readSliceLoop delim turns r.fill)

/-- Every turn of `ReadSlice` but the last two adds a byte to the buffer. -/
def readSliceTurns (r : Reader) : ℕ := r.size - r.buf.length + 2

/-- `ReadSlice`. -/
def readSlice (delim : UInt8) (r : Reader) : Except IoErr Bytes × Reader :=
  readSliceLoop delim r.readSliceTurns r

theorem scan_ok {delim : UInt8} {r r' : Reader} {line : Bytes}
    (h : r.scan delim = some (.ok line, r')) :
    line ≠ [] ∧ line ++ r'.pending = r.pending := by
  unfold scan at h
  cases hline : splitLine delim r.buf with
  | some p =>
      obtain ⟨l, rest⟩ := p
      simp only [hline, Option.some.injEq, Prod.mk.injEq, Except.ok.injEq] at h
      obtain ⟨rfl, rfl⟩ := h
      obtain ⟨hne, happend⟩ := splitLine_some hline
      exact ⟨hne, by rw [pending, pending, ← List.append_assoc, happend]⟩
  | none =>
      simp only [hline] at h
      cases herr : r.err with
      | some e => simp [herr] at h
      | none => simp [herr] at h

theorem scan_none {delim : UInt8} {r : Reader} (h : r.scan delim = none) :
    r.err = none ∧ r.buf.length < r.size := by
  unfold scan at h
  cases hline : splitLine delim r.buf with
  | some p => simp [hline] at h
  | none =>
      simp only [hline] at h
      cases herr : r.err with
      | some e => simp [herr] at h
      | none => simpa [herr] using h

theorem readSliceLoop_ok {delim : UInt8} {turns : ℕ} {r r' : Reader} {line : Bytes}
    (h : readSliceLoop delim turns r = (.ok line, r')) :
    line ≠ [] ∧ line ++ r'.pending = r.pending := by
  induction turns generalizing r with
  | zero => simp [readSliceLoop] at h
  | succ turns ih =>
      rw [readSliceLoop] at h
      cases hscan : r.scan delim with
      | some res =>
          rw [hscan, Option.getD_some] at h
          exact scan_ok (hscan.trans (congrArg some h))
      | none =>
          rw [hscan, Option.getD_none] at h
          rw [← r.fill_pending]
          exact ih h

/-- The number of turns is enough for the loop of `ReadSlice` to end by itself. -/
def Enough (turns : ℕ) (r : Reader) : Prop :=
  r.readSliceTurns ≤ turns ∨ r.err ≠ none ∧ 0 < turns

theorem Enough.pos {turns : ℕ} {r : Reader} (h : Enough turns r) : 0 < turns := by
  unfold Enough readSliceTurns at h
  omega

theorem Enough.fill {delim : UInt8} {turns : ℕ} {r : Reader} (h : Enough (turns + 1) r)
    (hscan : r.scan delim = none) : Enough turns r.fill := by
  obtain ⟨herr, hfree⟩ := scan_none hscan
  obtain ⟨hsize, hmore⟩ := fillLoop_progress maxConsecutiveEmptyReads r
  simp only [Enough, readSliceTurns, herr, ne_eq, not_true_eq_false, false_and, or_false] at h
  rcases hmore with hmore | hmore
  · exact .inr ⟨hmore, by omega⟩
  · refine .inl ?_
    rw [readSliceTurns, Reader.fill, hsize]
    omega

/-- `Read` into a buffer of the given size. -/
def read (size : ℕ) (r : Reader) : (Bytes × Option IoErr) × Reader :=
  if r.buf = [] then
    match r.err with
    | some e => (([], some e), { r with err := none })
    | none =>
      if r.size ≤ size then
        -- a large read goes past the empty buffer
        let (res, chunks) := connRead size r.chunks
        (res, { r with chunks := chunks })
      else
        let ((data, err), chunks) := connRead r.size r.chunks
        if data = [] then (([], err), { r with chunks := chunks })
        else
          ((data.take size, none),
            { r with buf := data.drop size, err := err, chunks := chunks })
  else ((r.buf.take size, none), { r with buf := r.buf.drop size })

theorem read_pending (size : ℕ) (r : Reader) :
    (r.read size).1.1 ++ (r.read size).2.pending = r.pending := by
  by_cases hbuf : r.buf = []
  · cases herr : r.err with
    | some e => simp [read, hbuf, herr, pending]
    | none =>
        by_cases hsize : r.size ≤ size
        · simp [read, hbuf, herr, hsize, pending, connRead_bytes]
        · have hbytes := connRead_bytes r.size r.chunks
          simp only [read, if_pos hbuf, herr, if_neg hsize]
          generalize connRead r.size r.chunks = res at hbytes
          obtain ⟨⟨data, err⟩, chunks⟩ := res
          by_cases hdata : data = []
          · simp [hdata, hbuf, pending, ← hbytes]
          · simp [hdata, hbuf, pending, ← hbytes, ← List.append_assoc]
  · simp [read, hbuf, pending, ← List.append_assoc]

/-- A read into a buffer that is not empty gives bytes, or an error, or uses up a chunk. -/
theorem read_progress {size : ℕ} (hsize : 0 < size) (r : Reader) :
    (r.read size).2.chunks.length ≤ r.chunks.length ∧
      ((r.read size).1.1 ≠ [] ∨ (r.read size).1.2 ≠ none ∨
        (r.read size).2.chunks.length < r.chunks.length) := by
  by_cases hbuf : r.buf = []
  · cases herr : r.err with
    | some e => simp [read, hbuf, herr]
    | none =>
        by_cases hlarge : r.size ≤ size
        · simpa [read, hbuf, herr, hlarge] using connRead_progress hsize r.chunks
        · have hprogress := connRead_progress r.size_pos r.chunks
          simp only [read, if_pos hbuf, herr, if_neg hlarge]
          generalize connRead r.size r.chunks = res at hprogress
          obtain ⟨⟨data, err⟩, chunks⟩ := res
          by_cases hdata : data = []
          · simpa [hdata] using hprogress
          · refine ⟨by simpa [hdata] using hprogress.1, .inl ?_⟩
            simp [hdata]
            omega
  · simp [read, hbuf]
    omega

end Reader

/-! ### Pipes -/

/-- A reader and the writer its bytes go to.  The sizes of the buffers that `io.Copy` uses and what
the writes to come return are inputs: a write takes all its bytes, or as many as the number says and
returns an error. -/
structure Pipe where
  src : Reader
  bufs : List ℕ
  writes : List (Option (ℕ × IoErr))
  out : Bytes
deriving DecidableEq, Repr

namespace Pipe

variable {stream held data : Bytes}

/-- What was written, what is in hand and what is unread is the whole stream. -/
def Carries (stream held : Bytes) (p : Pipe) : Prop := p.out ++ held ++ p.src.pending = stream

/-- What was written is a prefix of the stream. -/
def Truncated (stream : Bytes) (p : Pipe) : Prop := p.out <+: stream

theorem Carries.truncated {p : Pipe} (h : Carries stream held p) : Truncated stream p :=
  ⟨held ++ p.src.pending, by rw [← List.append_assoc]; exact h⟩

/-- `Write`, which returns the number of bytes it took. -/
def write (data : Bytes) : Prog IoErr Pipe ℕ := fun p =>
  match p.writes.headD none with
  | none => (.ok data.length, { p with writes := p.writes.tail, out := p.out ++ data })
  | some (n, e) => (.error e, { p with writes := p.writes.tail, out := p.out ++ data.take n })

/-- A write takes everything, or fails with the first bytes taken. -/
theorem write_run (data : Bytes) (p : Pipe) :
    (∃ ws, write data p = (.ok data.length, { p with writes := ws, out := p.out ++ data })) ∨
      ∃ e n ws, write data p =
        (.error e, { p with writes := ws, out := p.out ++ data.take n }) := by
  unfold write
  cases p.writes.headD none with
  | none => exact .inl ⟨_, rfl⟩
  | some o => exact .inr ⟨o.2, o.1, _, rfl⟩

theorem write_spec (stream data : Bytes) :
    Triple (Carries stream data) (write data)
      (fun n p => n = data.length ∧ Carries stream [] p) (Truncated stream) := by
  intro p hp
  rcases write_run data p with ⟨ws, h⟩ | ⟨e, n, ws, h⟩
  · rw [h]
    refine ⟨rfl, ?_⟩
    rw [Carries, List.append_nil]
    exact hp
  · rw [h]
    have hout : p.out ++ data.take n <+: p.out ++ data := by
      rw [List.prefix_append_right_inj]
      exact List.take_prefix n data
    exact hout.trans ⟨p.src.pending, hp⟩

/-- `ReadSlice` of the pipe's reader. -/
def readSlice (delim : UInt8) : Prog IoErr Pipe Bytes := fun p =>
  ((p.src.readSlice delim).1, { p with src := (p.src.readSlice delim).2 })

theorem readSlice_pos {delim : UInt8} {p p' : Pipe} {line : Bytes}
    (h : readSlice delim p = (.ok line, p')) : 0 < line.length := by
  have hline : (p.src.readSlice delim).1 = .ok line := by
    have hfst := congrArg Prod.fst h
    exact hfst
  have hsrc : p.src.readSlice delim = (.ok line, (p.src.readSlice delim).2) :=
    Prod.ext hline rfl
  exact List.length_pos_iff.mpr (Reader.readSliceLoop_ok hsrc).1

theorem readSlice_spec (stream : Bytes) (delim : UInt8) :
    Triple (Carries stream []) (readSlice delim) (fun line => Carries stream line)
      (Truncated stream) := by
  intro p hp
  unfold readSlice
  cases h : p.src.readSlice delim with
  | mk res src =>
      cases res with
      | ok line =>
          rw [Carries, List.append_nil, ← (Reader.readSliceLoop_ok h).2, ← List.append_assoc] at hp
          exact hp
      | error e => exact hp.truncated

/-- `Read` of the pipe's reader into the next of the copying buffers, but not more than the
limit. -/
def read (limit : ℕ) : Prog IoErr Pipe (Bytes × Option IoErr) := fun p =>
  let res := p.src.read (min limit (max 1 (p.bufs.headD 32768)))
  (.ok res.1, { p with src := res.2, bufs := p.bufs.tail })

theorem read_spec (stream : Bytes) (limit : ℕ) :
    Triple (Carries stream []) (read limit) (fun res => Carries stream res.1)
      (Truncated stream) := by
  intro p hp
  have hread := p.src.read_pending (min limit (max 1 (p.bufs.headD 32768)))
  rw [Carries, List.append_nil, ← hread, ← List.append_assoc] at hp
  exact hp

/-- A copying loop writes only if it has read something. -/
def writeSome (data : Bytes) : Prog IoErr Pipe ℕ := if data = [] then pure 0 else write data

theorem writeSome_spec (stream data : Bytes) :
    Triple (Carries stream data) (writeSome data) (fun _ => Carries stream [])
      (Truncated stream) := by
  unfold writeSome
  split
  · rename_i hdata
    subst hdata
    exact .pure fun _ h => h
  · exact (write_spec stream data).mono (fun _ h => h) fun _ _ h => h.2

/-- `writeSome` changes nothing but what is written. -/
theorem writeSome_run (data : Bytes) (p : Pipe) :
    (∃ n ws, writeSome data p = (.ok n, { p with writes := ws, out := p.out ++ data })) ∨
      ∃ e n ws, writeSome data p =
        (.error e, { p with writes := ws, out := p.out ++ data.take n }) := by
  unfold writeSome
  split
  · rename_i hdata
    exact .inl ⟨0, p.writes, by rw [hdata, List.append_nil]; rfl⟩
  · exact (write_run data p).imp_left fun ⟨ws, h⟩ => ⟨_, ws, h⟩

/-! ### `io.CopyN` -/

/-- A turn of the copying loop on a reader that ends after `n` bytes, and then the next ones. -/
def copyNTurn (next : ℕ → Prog IoErr Pipe Unit) (n : ℕ) : Prog IoErr Pipe Unit :=
  if n = 0 then pure ()
  else do
    let res ← read n
    let _ ← writeSome res.1
    if n ≤ res.1.length then pure ()
    else
      match res.2 with
      | some e => fail e
      | none => next (n - res.1.length)

def copyNLoop : ℕ → ℕ → Prog IoErr Pipe Unit
  | 0 => fun _ => fail .noProgress
  | turns + 1 => copyNTurn (copyNLoop turns)

/-- `io.CopyN`; each turn but the last copies a byte or uses up a chunk. -/
def copyN (n : ℕ) : Prog IoErr Pipe Unit := fun p => copyNLoop (n + p.src.chunks.length + 1) n p

theorem copyNLoop_spec (stream : Bytes) (turns n : ℕ) :
    Triple (Carries stream []) (copyNLoop turns n) (fun _ => Carries stream [])
      (Truncated stream) := by
  induction turns generalizing n with
  | zero => exact .fail fun _ h => h.truncated
  | succ turns ih =>
      unfold copyNLoop copyNTurn
      split
      · exact .pure fun _ h => h
      · refine (read_spec stream n).bind fun res => (writeSome_spec stream res.1).bind fun _ => ?_
        split
        · exact .pure fun _ h => h
        · cases res.2 with
          | some e => exact .fail fun _ h => h.truncated
          | none => exact ih _

theorem copyN_spec (stream : Bytes) (n : ℕ) :
    Triple (Carries stream []) (copyN n) (fun _ => Carries stream []) (Truncated stream) :=
  fun p hp => copyNLoop_spec stream _ n p hp

/-- A turn goes on only where less is left to copy, or fewer chunks. -/
theorem copyNTurn_congr {next next' : ℕ → Prog IoErr Pipe Unit} {n : ℕ} {p : Pipe}
    (h : ∀ (m : ℕ) (p' : Pipe), m + p'.src.chunks.length < n + p.src.chunks.length →
      next m p' = next' m p') :
    copyNTurn next n p = copyNTurn next' n p := by
  unfold copyNTurn
  by_cases hn : n = 0
  · simp only [if_pos hn]
  simp only [if_neg hn]
  obtain ⟨hle, hprogress⟩ := p.src.read_progress
    (show 0 < min n (max 1 (p.bufs.headD 32768)) by omega)
  have hread : read n p = (.ok _, _) := rfl
  rw [bind_of_ok hread, bind_of_ok hread]
  generalize p.src.read (min n (max 1 (p.bufs.headD 32768))) = res at hle hprogress
  rcases writeSome_run res.1.1 { p with src := res.2, bufs := p.bufs.tail } with
    ⟨k, ws, hw⟩ | ⟨e, k, ws, hw⟩
  · rw [bind_of_ok hw, bind_of_ok hw]
    by_cases hdone : n ≤ res.1.1.length
    · simp only [if_pos hdone]
    · simp only [if_neg hdone]
      cases herr : res.1.2 with
      | some e => rfl
      | none =>
          apply h
          rcases hprogress with hdata | hfail | hchunk
          · have hpos := List.length_pos_iff.mpr hdata
            dsimp only
            omega
          · exact absurd herr hfail
          · dsimp only
            omega
  · rw [bind_of_error hw, bind_of_error hw]

/-- Once the turns are enough their number does not matter. -/
theorem copyNLoop_of_enough {turns turns' n : ℕ} {p : Pipe}
    (h : n + p.src.chunks.length < turns) (h' : n + p.src.chunks.length < turns') :
    copyNLoop turns n p = copyNLoop turns' n p := by
  induction turns generalizing turns' n p with
  | zero => omega
  | succ turns ih =>
      obtain ⟨more, rfl⟩ := Nat.exists_eq_succ_of_ne_zero (show turns' ≠ 0 by omega)
      exact copyNTurn_congr fun m p' hless => ih (by omega) (by omega)

/-- The loop of `io.CopyN` as the code has it, without a number of turns. -/
theorem copyN_eq (n : ℕ) (p : Pipe) : copyN n p = copyNTurn copyN n p :=
  copyNTurn_congr fun _ _ hless => copyNLoop_of_enough hless (Nat.lt_succ_self _)

/-! ### `io.Copy` -/

/-- `writeBuf`: write the unread bytes of the buffer, if there are any. -/
def flush : Prog IoErr Pipe Unit := fun p =>
  match writeSome p.src.buf { p with src := { p.src with buf := [] } } with
  | (.ok _, p') => (.ok (), p')
  | (.error e, p') =>
    let left := p.src.buf.drop (p'.out.length - p.out.length)
    (.error e, { p' with src := { p'.src with buf := left } })

/-- The buffer is empty, so the connection can be read directly. -/
def Drained (stream held : Bytes) (p : Pipe) : Prop := p.src.buf = [] ∧ Carries stream held p

/-- A flush that succeeds has written the whole buffer. -/
theorem flush_run (p : Pipe) :
    (∃ ws, flush p = (.ok (), { p with
        src := { p.src with buf := [] }, writes := ws, out := p.out ++ p.src.buf })) ∨
      ∃ e n src ws, flush p = (.error e, { p with
        src := src, writes := ws, out := p.out ++ p.src.buf.take n }) := by
  unfold flush
  rcases writeSome_run p.src.buf { p with src := { p.src with buf := [] } } with
    ⟨n, ws, h⟩ | ⟨e, n, ws, h⟩
  · rw [h]
    exact .inl ⟨ws, rfl⟩
  · rw [h]
    exact .inr ⟨e, n, _, ws, rfl⟩

theorem flush_spec (stream : Bytes) :
    Triple (Carries stream []) flush (fun _ => Drained stream []) (Truncated stream) := by
  intro p hp
  rw [Carries, List.append_nil, Reader.pending, ← List.append_assoc] at hp
  rcases flush_run p with ⟨ws, h⟩ | ⟨e, n, src, ws, h⟩
  · rw [h]
    refine ⟨rfl, ?_⟩
    rw [Carries, List.append_nil]
    exact hp
  · rw [h]
    have hout : p.out ++ p.src.buf.take n <+: p.out ++ p.src.buf := by
      rw [List.prefix_append_right_inj]
      exact List.take_prefix n p.src.buf
    exact hout.trans ⟨bytesOf p.src.chunks, hp⟩

/-- `Read` of the connection itself. -/
def readConn : Prog IoErr Pipe (Bytes × Option IoErr) := fun p =>
  let res := connRead (max 1 (p.bufs.headD 32768)) p.src.chunks
  (.ok res.1, { p with src := { p.src with chunks := res.2 }, bufs := p.bufs.tail })

theorem readConn_spec (stream : Bytes) :
    Triple (Drained stream []) readConn (fun res => Drained stream res.1) (Truncated stream) := by
  rintro p ⟨hbuf, hp⟩
  refine ⟨hbuf, ?_⟩
  have hread := connRead_bytes (max 1 (p.bufs.headD 32768)) p.src.chunks
  rw [Carries, Reader.pending, hbuf, ← hread] at hp
  simpa [Carries, Reader.pending, hbuf] using hp

theorem writeSome_drained (stream data : Bytes) :
    Triple (Drained stream data) (writeSome data) (fun _ => Drained stream [])
      (Truncated stream) := by
  rintro p ⟨hbuf, hp⟩
  have hspec := writeSome_spec stream data
  rcases writeSome_run data p with ⟨n, ws, h⟩ | ⟨e, n, ws, h⟩
  · rw [h]
    exact ⟨hbuf, hspec.of_ok hp h⟩
  · rw [h]
    exact hspec.of_error hp h

/-- The copying loop on the connection itself, after the number of turns it has made so far. -/
def copyConn : ℕ → Prog IoErr Pipe Unit
  | 0 => pure ()
  | turns + 1 => do
    let res ← readConn
    let _ ← writeSome res.1
    match res.2 with
    | none => copyConn turns
    | some .eof => pure ()
    | some e => fail e

theorem copyConn_spec (stream : Bytes) (turns : ℕ) :
    Triple (Drained stream []) (copyConn turns) (fun _ => Carries stream [])
      (Truncated stream) := by
  induction turns with
  | zero => exact .pure fun _ h => h.2
  | succ turns ih =>
      refine (readConn_spec stream).bind fun res =>
        (writeSome_drained stream res.1).bind fun _ => ?_
      split
      · exact ih
      · exact .pure fun _ h => h.2
      · exact .fail fun _ h => h.2.truncated

/-- `fill` of the pipe's reader, with the reader it leaves. -/
def fill : Prog IoErr Pipe Reader := fun p => (.ok p.src.fill, { p with src := p.src.fill })

/-- `readErr` of the pipe's reader, which takes its pending error. -/
def readErr : Prog IoErr Pipe (Option IoErr) := fun p =>
  (.ok p.src.err, { p with src := { p.src with err := none } })

theorem fill_spec (stream : Bytes) :
    Triple (Carries stream []) fill (fun _ => Carries stream []) (Truncated stream) := by
  intro p hp
  rw [Carries, ← Reader.fill_pending] at hp
  exact hp

theorem readErr_spec (stream : Bytes) :
    Triple (Carries stream []) readErr (fun _ => Carries stream []) (Truncated stream) :=
  fun _ hp => hp

/-- The copying loop through the buffer, after the number of turns it has made so far. -/
def copyBuffered : ℕ → Prog IoErr Pipe Unit
  | 0 => pure ()
  | turns + 1 => do
    let src ← fill
    if src.buf = [] then do
      let err ← readErr
      match err with
      | none => pure ()
      | some .eof => pure ()
      | some e => fail e
    else do
      flush
      copyBuffered turns

theorem copyBuffered_spec (stream : Bytes) (turns : ℕ) :
    Triple (Carries stream []) (copyBuffered turns) (fun _ => Carries stream [])
      (Truncated stream) := by
  induction turns with
  | zero => exact .pure fun _ h => h
  | succ turns ih =>
      refine (fill_spec stream).bind fun src => ?_
      split
      · refine (readErr_spec stream).bind fun err => ?_
        split
        · exact .pure fun _ h => h
        · exact .pure fun _ h => h
        · exact .fail fun _ h => h.truncated
      · exact (flush_spec stream).bind fun _ => ih.mono (fun _ h => h.2) fun _ _ h => h

/-- `io.Copy` from a `bufio.Reader`, after the number of turns it has made so far: first what is in
the buffer is written, then the rest is copied, directly if the connection or the writer offers
that and through the buffer otherwise. -/
def copy (direct : Bool) : ℕ → Prog IoErr Pipe Unit
  | 0 => pure ()
  | turns + 1 => do
    flush
    if direct then copyConn turns else copyBuffered turns

/-- What was written stays and more may be written after it. -/
def Appends (p q : Pipe) : Prop := p.out <+: q.out

instance : IsPreorder Pipe Appends where
  refl p := List.prefix_refl p.out
  trans _ _ _ h h' := List.IsPrefix.trans h h'

theorem writeSome_appends (data : Bytes) : Keeps Appends (writeSome data) := by
  intro p
  rcases writeSome_run data p with ⟨n, ws, h⟩ | ⟨e, n, ws, h⟩
  · rw [h]
    exact List.prefix_append _ _
  · rw [h]
    exact List.prefix_append _ _

theorem flush_appends : Keeps Appends flush := by
  intro p
  rcases flush_run p with ⟨ws, h⟩ | ⟨e, n, src, ws, h⟩
  · rw [h]
    exact List.prefix_append _ _
  · rw [h]
    exact List.prefix_append _ _

theorem copyConn_appends (turns : ℕ) : Keeps Appends (copyConn turns) := by
  induction turns with
  | zero => exact .pure ()
  | succ turns ih =>
      refine Keeps.bind (fun p => List.prefix_refl p.out) fun res =>
        (writeSome_appends res.1).bind fun _ => ?_
      split
      · exact ih
      · exact .pure ()
      · exact .fail _

theorem copyBuffered_appends (turns : ℕ) : Keeps Appends (copyBuffered turns) := by
  induction turns with
  | zero => exact .pure ()
  | succ turns ih =>
      refine Keeps.bind (fun p => List.prefix_refl p.out) fun src => ?_
      split
      · refine Keeps.bind (fun p => List.prefix_refl p.out) fun err => ?_
        split
        · exact .pure ()
        · exact .pure ()
        · exact .fail _
      · exact flush_appends.bind fun _ => ih

/-- A copy that has started without an error has written what was in the buffer first. -/
theorem copy_buffered_first {direct : Bool} {turns : ℕ} {p p' : Pipe}
    (h : copy direct (turns + 1) p = (.ok (), p')) : p.out ++ p.src.buf <+: p'.out := by
  have hrest : Keeps Appends (if direct then copyConn turns else copyBuffered turns) := by
    split
    · exact copyConn_appends turns
    · exact copyBuffered_appends turns
  rw [copy] at h
  rcases flush_run p with ⟨ws, hflush⟩ | ⟨e, n, src, ws, hflush⟩
  · rw [bind_of_ok hflush] at h
    have happends := hrest { p with
      src := { p.src with buf := [] }, writes := ws, out := p.out ++ p.src.buf }
    rw [h] at happends
    exact happends
  · rw [bind_of_error hflush] at h
    cases h

theorem copy_spec (stream : Bytes) (direct : Bool) (turns : ℕ) :
    Triple (Carries stream []) (copy direct turns) (fun _ => Carries stream [])
      (Truncated stream) := by
  cases turns with
  | zero => exact .pure fun _ h => h
  | succ turns =>
      refine (flush_spec stream).bind fun _ => ?_
      cases direct with
      | true => exact copyConn_spec stream turns
      | false => exact (copyBuffered_spec stream turns).mono (fun _ h => h.2) fun _ _ h => h

end Pipe

end Streams
