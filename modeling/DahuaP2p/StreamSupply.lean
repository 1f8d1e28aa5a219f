import DahuaP2p.Streams

/-! # What a reader still delivers

`Streams` says that no byte is lost or changed on the way.  Here is which calls succeed.

* **Supply.** The bytes that come before the first error of a connection (`supply`), and with the
  buffer in front those of a `bufio.Reader` (`Reader.supply`).
* **Steady connections.** A connection may give reads without bytes, but not so many in a row that
  `fill` takes it for broken (`Steady`).
* **Lone errors.** A connection whose errors come without bytes (`Lone`), as those of a socket do,
  is not read past an error by a call that has got its bytes.
* **`ReadSlice`** returns a line exactly if the supply starts with one that fits into the buffer
  (`readSlice_of_line`, `readSlice_line`).
* **`io.CopyN`** into a writer that takes everything succeeds exactly if the supply is long enough,
  and otherwise writes all of it (`copyN_run`). -/

namespace Streams

open BigEndian Programs Prog

/-! ### Connections -/

/-- A read that gives neither bytes nor an error. -/
def Chunk.Blank (c : Chunk) : Prop := c.data = [] ∧ c.err = none

/-- Blank reads in a row are fewer than `fill` puts up with. -/
def Steady (chunks : List Chunk) : Prop :=
  ∀ blanks, blanks <:+: chunks → (∀ c ∈ blanks, c.Blank) →
    blanks.length < Reader.maxConsecutiveEmptyReads

/-- The bytes up to the first error. -/
def supply : List Chunk → Bytes
  | [] => []
  | c :: rest => c.data ++ if c.err = none then supply rest else []

/-- An error comes without bytes. -/
def Lone (chunks : List Chunk) : Prop := ∀ c ∈ chunks, c.err ≠ none → c.data = []

theorem Steady.of_infix {chunks rest : List Chunk} (h : Steady chunks) (hr : rest <:+: chunks) :
    Steady rest :=
  fun blanks hb hall => h blanks (hb.trans hr) hall

/-- The first read may be replaced by one that is not blank. -/
theorem Steady.cons_of_not_blank {c d : Chunk} {rest : List Chunk} (h : Steady (c :: rest))
    (hd : ¬ d.Blank) : Steady (d :: rest) := by
  intro blanks hb hall
  rcases List.infix_cons_iff.mp hb with hpre | hin
  · cases blanks with
    | nil => exact h [] List.nil_infix (by simp)
    | cons b blanks =>
        obtain ⟨rfl, _⟩ := List.cons_prefix_cons.mp hpre
        exact absurd (hall _ List.mem_cons_self) hd
  · exact h blanks (hin.trans (List.infix_cons List.infix_rfl)) hall

section connRead
variable {size : ℕ} {chunks : List Chunk}

theorem connRead_length (size : ℕ) (chunks : List Chunk) :
    (connRead size chunks).1.1.length ≤ size := by
  cases chunks with
  | nil => simp [connRead]
  | cons c rest =>
      by_cases hc : c.data.length ≤ size
      · simp [connRead, hc]
      · simp [connRead, hc]

/-- A read takes the first bytes of the supply, and all of it if it returns an error. -/
theorem connRead_supply (size : ℕ) (chunks : List Chunk) :
    supply chunks = (connRead size chunks).1.1 ++
      if (connRead size chunks).1.2 = none then supply (connRead size chunks).2 else [] := by
  cases chunks with
  | nil => simp [connRead, supply]
  | cons c rest =>
      by_cases hc : c.data.length ≤ size
      · simp [connRead, hc, supply]
      · simp [connRead, hc, supply, ← List.append_assoc]

theorem connRead_steady (h : Steady chunks) (size : ℕ) : Steady (connRead size chunks).2 := by
  cases chunks with
  | nil => exact h
  | cons c rest =>
      by_cases hc : c.data.length ≤ size
      · simp only [connRead, if_pos hc]
        exact h.of_infix (List.infix_cons List.infix_rfl)
      · simp only [connRead, if_neg hc]
        refine h.cons_of_not_blank fun hb => ?_
        have hlen := congrArg List.length hb.1
        simp only [List.length_drop, List.length_nil] at hlen
        omega

theorem connRead_lone (h : Lone chunks) (size : ℕ) :
    ((connRead size chunks).1.2 ≠ none → (connRead size chunks).1.1 = []) ∧
      Lone (connRead size chunks).2 := by
  cases chunks with
  | nil => exact ⟨fun _ => rfl, h⟩
  | cons c rest =>
      have hrest : Lone rest := fun d hd => h d (List.mem_cons_of_mem _ hd)
      by_cases hc : c.data.length ≤ size
      · simp only [connRead, if_pos hc]
        exact ⟨h c List.mem_cons_self, hrest⟩
      · simp only [connRead, if_neg hc]
        refine ⟨fun hne => absurd rfl hne, List.forall_mem_cons.mpr ⟨fun herr => ?_, hrest⟩⟩
        rw [h c List.mem_cons_self herr, List.drop_nil]

/-- A read that gives nothing has met a blank one. -/
theorem connRead_blank (hsize : 0 < size) (hdata : (connRead size chunks).1.1 = [])
    (herr : (connRead size chunks).1.2 = none) :
    ∃ c, c.Blank ∧ chunks = c :: (connRead size chunks).2 := by
  cases chunks with
  | nil => simp [connRead] at herr
  | cons c rest =>
      by_cases hc : c.data.length ≤ size
      · simp only [connRead, if_pos hc] at hdata herr ⊢
        exact ⟨c, ⟨hdata, herr⟩, rfl⟩
      · simp only [connRead, if_neg hc] at hdata
        have hlen := congrArg List.length hdata
        simp only [List.length_take, List.length_nil] at hlen
        omega

end connRead

/-! ### `bufio.Reader` -/

namespace Reader

variable {r r' : Reader} {delim : UInt8} {line rest : Bytes}

/-- The bytes that come before an error. -/
def supply (r : Reader) : Bytes := r.buf ++ if r.err = none then Streams.supply r.chunks else []

/-- A reader as its operations leave it, over a steady connection. -/
structure Sound (r : Reader) : Prop where
  fits : r.buf.length ≤ r.size
  steady : Steady r.chunks

theorem new_sound {size : ℕ} {chunks : List Chunk} (h : Steady chunks) :
    (Reader.new size chunks).Sound :=
  ⟨Nat.zero_le _, h⟩

theorem fillLoop_sound (tries : ℕ) (h : r.Sound) : (fillLoop tries r).Sound := by
  induction tries generalizing r with
  | zero => exact ⟨h.fits, h.steady⟩
  | succ tries ih =>
      have hlen := connRead_length (r.size - r.buf.length) r.chunks
      have hsteady := connRead_steady h.steady (r.size - r.buf.length)
      have hfits := h.fits
      rw [fillLoop]
      generalize connRead (r.size - r.buf.length) r.chunks = res at hlen hsteady
      obtain ⟨⟨data, err⟩, chunks⟩ := res
      dsimp only at hlen hsteady
      have hsound : ({ r with buf := r.buf ++ data, chunks := chunks } : Reader).Sound := by
        refine ⟨?_, hsteady⟩
        simp only [List.length_append]
        omega
      cases err with
      | some e => exact ⟨hsound.fits, hsound.steady⟩
      | none =>
          by_cases hdata : data = []
          · simp only [if_pos hdata]
            exact ih hsound
          · simp only [if_neg hdata]
            exact hsound

/-- Where the blank reads ahead are fewer than the tries, `fill` keeps the supply. -/
theorem fillLoop_supply (tries : ℕ) (herr : r.err = none) (hroom : r.buf.length < r.size)
    (hfew : ∀ blanks, blanks <+: r.chunks → (∀ c ∈ blanks, c.Blank) → blanks.length < tries) :
    (fillLoop tries r).supply = r.supply := by
  induction tries generalizing r with
  | zero => exact absurd (hfew [] List.nil_prefix (by simp)) (Nat.lt_irrefl 0)
  | succ tries ih =>
      have hsupply := connRead_supply (r.size - r.buf.length) r.chunks
      have hblank := @connRead_blank (r.size - r.buf.length) r.chunks (by omega)
      rw [fillLoop]
      generalize connRead (r.size - r.buf.length) r.chunks = res at hsupply hblank
      obtain ⟨⟨data, err⟩, chunks⟩ := res
      dsimp only at hsupply hblank
      have hkeep : err = none →
          ({ r with buf := r.buf ++ data, chunks := chunks } : Reader).supply = r.supply := by
        rintro rfl
        simp [supply, herr, hsupply]
      cases err with
      | some e => simp [supply, herr, hsupply]
      | none =>
          by_cases hdata : data = []
          · obtain ⟨c, hc, hchunks⟩ := hblank hdata rfl
            simp only [if_pos hdata]
            rw [← hkeep rfl]
            refine ih herr (by simpa [hdata] using hroom) fun blanks hpre hall => ?_
            -- the blank read that was met is one more in front of them
            have hmore := hfew (c :: blanks)
              (by rw [hchunks]; exact List.cons_prefix_cons.mpr ⟨rfl, hpre⟩)
              (List.forall_mem_cons.mpr ⟨hc, hall⟩)
            simpa using hmore
          · simp only [if_neg hdata]
            exact hkeep rfl

theorem fill_sound (h : r.Sound) : r.fill.Sound := fillLoop_sound _ h

theorem fill_supply (h : r.Sound) (herr : r.err = none) (hroom : r.buf.length < r.size) :
    r.fill.supply = r.supply :=
  fillLoop_supply _ herr hroom fun blanks hpre => h.steady blanks hpre.isInfix

theorem fillLoop_lone (tries : ℕ) (h : Lone r.chunks) : Lone (fillLoop tries r).chunks := by
  induction tries generalizing r with
  | zero => exact h
  | succ tries ih =>
      have hread := (connRead_lone h (r.size - r.buf.length)).2
      simp only [fillLoop]
      generalize connRead (r.size - r.buf.length) r.chunks = res at hread
      obtain ⟨⟨data, err⟩, chunks⟩ := res
      cases err with
      | some e => exact hread
      | none =>
          dsimp only
          split
          · exact ih hread
          · exact hread

/-! ### Lines -/

/-- A line is found in front of anything. -/
theorem splitLine_append (delim : UInt8) (a b : Bytes) :
    splitLine delim (a ++ b) =
      match splitLine delim a with
      | some (line, rest) => some (line, rest ++ b)
      | none => (splitLine delim b).map fun p => (a ++ p.1, p.2) := by
  induction a with
  | nil => simp [splitLine]
  | cons x a ih =>
      by_cases hx : x = delim
      · simp [splitLine, hx]
      · simp only [List.cons_append, splitLine, if_neg hx, ih]
        cases splitLine delim a with
        | some p => rfl
        | none => simp [Function.comp_def]

/-- A line ends with the first delimiter. -/
theorem splitLine_eq_some_iff {bs : Bytes} :
    splitLine delim bs = some (line, rest) ↔
      ∃ text, line = text ++ [delim] ∧ delim ∉ text ∧ bs = line ++ rest := by
  induction bs generalizing line with
  | nil =>
      simp only [splitLine, reduceCtorEq, false_iff, not_exists]
      rintro text ⟨rfl, _, h⟩
      simp at h
  | cons b bs ih =>
      by_cases hb : b = delim
      · subst hb
        simp only [splitLine, if_true, Option.some.injEq, Prod.mk.injEq]
        constructor
        · rintro ⟨rfl, rfl⟩
          exact ⟨[], rfl, by simp, rfl⟩
        · rintro ⟨text, rfl, hnot, h⟩
          cases text with
          | nil =>
              obtain ⟨_, rfl⟩ := List.cons.inj h
              exact ⟨rfl, rfl⟩
          | cons t text =>
              obtain ⟨rfl, _⟩ := List.cons.inj h
              exact absurd List.mem_cons_self hnot
      · simp only [splitLine, if_neg hb, Option.map_eq_some_iff, Prod.mk.injEq]
        constructor
        · rintro ⟨⟨l, s⟩, hl, rfl, rfl⟩
          obtain ⟨text, rfl, hnot, rfl⟩ := ih.mp hl
          exact ⟨b :: text, rfl, by simp [Ne.symm hb, hnot], rfl⟩
        · rintro ⟨text, rfl, hnot, h⟩
          cases text with
          | nil => exact absurd (List.cons.inj h).1 hb
          | cons t text =>
              obtain ⟨rfl, hbs⟩ := List.cons.inj h
              have hnot' : delim ∉ text := fun hmem => hnot (List.mem_cons_of_mem _ hmem)
              exact ⟨(text ++ [delim], rest), ih.mpr ⟨text, rfl, hnot', hbs⟩, rfl, rfl⟩

/-- A line in the buffer is the first one of the supply. -/
theorem supply_of_buf_line (h : r.Sound) (hbuf : splitLine delim r.buf = some (line, rest)) :
    splitLine delim r.supply = some (line, ({ r with buf := rest } : Reader).supply) ∧
      line.length ≤ r.size ∧ ({ r with buf := rest } : Reader).Sound := by
  have hlen := congrArg List.length (splitLine_some hbuf).2
  rw [List.length_append] at hlen
  have hfits := h.fits
  refine ⟨?_, by omega, ⟨?_, h.steady⟩⟩
  · rw [supply, splitLine_append, hbuf]
    rfl
  · dsimp only
    omega

/-- A line that is not in the buffer is longer than the buffer, and there is no error before it. -/
theorem supply_of_no_buf_line (hbuf : splitLine delim r.buf = none)
    (hline : splitLine delim r.supply = some (line, rest)) :
    r.err = none ∧ r.buf.length < line.length := by
  rw [supply, splitLine_append, hbuf] at hline
  cases herr : r.err with
  | some e => simp [herr, splitLine] at hline
  | none =>
      simp only [herr, if_true, Option.map_eq_some_iff, Prod.mk.injEq] at hline
      obtain ⟨⟨l, s⟩, hl, rfl, rfl⟩ := hline
      have hpos := List.length_pos_iff.mpr (splitLine_some hl).1
      refine ⟨rfl, ?_⟩
      simp only [List.length_append]
      omega

/-- The first line of the supply, if the buffer can hold it, is returned. -/
theorem readSliceLoop_of_line {turns : ℕ} (h : r.Sound) (henough : Enough turns r)
    (hline : splitLine delim r.supply = some (line, rest)) (hfit : line.length ≤ r.size) :
    ∃ r', readSliceLoop delim turns r = (.ok line, r') ∧ r'.supply = rest ∧ r'.Sound ∧
      r'.size = r.size := by
  induction turns generalizing r with
  | zero => exact absurd henough.pos (Nat.lt_irrefl 0)
  | succ turns ih =>
      rw [readSliceLoop]
      cases hbuf : splitLine delim r.buf with
      | some p =>
          obtain ⟨l, s⟩ := p
          obtain ⟨hsupply, _, hsound⟩ := supply_of_buf_line h hbuf
          rw [hsupply] at hline
          obtain ⟨rfl, hrest⟩ := Prod.mk.inj (Option.some.inj hline)
          have hscan : r.scan delim = some (.ok l, { r with buf := s }) := by
            simp [scan, hbuf]
          rw [hscan]
          exact ⟨_, rfl, hrest, hsound, rfl⟩
      | none =>
          obtain ⟨herr, hlt⟩ := supply_of_no_buf_line hbuf hline
          have hroom : r.buf.length < r.size := by omega
          have hscan : r.scan delim = none := by
            simp [scan, hbuf, herr, hroom]
          have hsize : r.fill.size = r.size := (fillLoop_progress _ r).1
          rw [hscan, Option.getD_none, ← hsize]
          refine ih (fill_sound h) (henough.fill hscan) ?_ (hsize ▸ hfit)
          rw [fill_supply h herr hroom]
          exact hline

/-- What is returned is the first line of the supply. -/
theorem readSliceLoop_line {turns : ℕ} (h : r.Sound)
    (hres : readSliceLoop delim turns r = (.ok line, r')) :
    splitLine delim r.supply = some (line, r'.supply) ∧ line.length ≤ r.size ∧ r'.Sound ∧
      r'.size = r.size := by
  induction turns generalizing r with
  | zero => simp [readSliceLoop] at hres
  | succ turns ih =>
      rw [readSliceLoop] at hres
      cases hbuf : splitLine delim r.buf with
      | some p =>
          obtain ⟨l, s⟩ := p
          have hscan : r.scan delim = some (.ok l, { r with buf := s }) := by
            simp [scan, hbuf]
          rw [hscan, Option.getD_some] at hres
          cases hres
          obtain ⟨hsupply, hlen, hsound⟩ := supply_of_buf_line h hbuf
          exact ⟨hsupply, hlen, hsound, rfl⟩
      | none =>
          cases hscan : r.scan delim with
          | some res =>
              rw [hscan, Option.getD_some] at hres
              subst hres
              simp only [scan, hbuf] at hscan
              cases herr : r.err with
              | some e => simp [herr] at hscan
              | none => simp [herr] at hscan
          | none =>
              obtain ⟨herr, hroom⟩ := scan_none hscan
              rw [hscan, Option.getD_none] at hres
              have hsize : r.fill.size = r.size := (fillLoop_progress _ r).1
              have hfill := ih (fill_sound h) hres
              rw [fill_supply h herr hroom] at hfill
              exact ⟨hfill.1, hsize ▸ hfill.2.1, hfill.2.2.1, hfill.2.2.2.trans hsize⟩

theorem readSlice_of_line (h : r.Sound) (hline : splitLine delim r.supply = some (line, rest))
    (hfit : line.length ≤ r.size) :
    ∃ r', r.readSlice delim = (.ok line, r') ∧ r'.supply = rest ∧ r'.Sound ∧ r'.size = r.size :=
  readSliceLoop_of_line h (.inl le_rfl) hline hfit

theorem readSlice_line (h : r.Sound) (hres : r.readSlice delim = (.ok line, r')) :
    splitLine delim r.supply = some (line, r'.supply) ∧ line.length ≤ r.size ∧ r'.Sound ∧
      r'.size = r.size :=
  readSliceLoop_line h hres

/-- What is returned ends with the first delimiter, whatever the connection gives. -/
theorem readSliceLoop_ends {turns : ℕ} (hres : readSliceLoop delim turns r = (.ok line, r')) :
    ∃ text, line = text ++ [delim] ∧ delim ∉ text := by
  induction turns generalizing r with
  | zero => simp [readSliceLoop] at hres
  | succ turns ih =>
      rw [readSliceLoop] at hres
      cases hscan : r.scan delim with
      | none =>
          rw [hscan, Option.getD_none] at hres
          exact ih hres
      | some res =>
          rw [hscan, Option.getD_some] at hres
          subst hres
          unfold scan at hscan
          split at hscan
          · rename_i hbuf
            cases hscan
            obtain ⟨text, hline, hnot, _⟩ := splitLine_eq_some_iff.mp hbuf
            exact ⟨text, hline, hnot⟩
          · split at hscan
            · cases hscan
            · split at hscan <;> cases hscan

theorem readSliceLoop_lone {turns : ℕ} (h : Lone r.chunks) :
    Lone (readSliceLoop delim turns r).2.chunks := by
  induction turns generalizing r with
  | zero => exact h
  | succ turns ih =>
      rw [readSliceLoop]
      cases hscan : r.scan delim with
      | none => exact ih (fillLoop_lone _ h)
      | some res =>
          rw [Option.getD_some]
          unfold scan at hscan
          split at hscan
          · cases hscan
            exact h
          · split at hscan
            · cases hscan
              exact h
            · split at hscan <;> cases hscan
              exact h

/-! ### Reads -/

/-- A read takes the first bytes of the supply, and all of it if it returns an error. -/
theorem read_supply (size : ℕ) (r : Reader) :
    r.supply = (r.read size).1.1 ++
      if (r.read size).1.2 = none then (r.read size).2.supply else [] := by
  by_cases hbuf : r.buf = []
  · cases herr : r.err with
    | some e => simp [read, hbuf, herr, supply]
    | none =>
        by_cases hsize : r.size ≤ size
        · have hsupply := connRead_supply size r.chunks
          simp only [read, if_pos hbuf, herr, if_pos hsize]
          simpa [supply, hbuf, herr] using hsupply
        · have hsupply := connRead_supply r.size r.chunks
          simp only [read, if_pos hbuf, herr, if_neg hsize]
          generalize connRead r.size r.chunks = res at hsupply
          obtain ⟨⟨data, err⟩, chunks⟩ := res
          by_cases hdata : data = []
          · simpa [supply, hbuf, herr, hdata] using hsupply
          · simp [supply, hbuf, herr, hdata, hsupply, ← List.append_assoc]
  · simp [read, hbuf, supply, ← List.append_assoc]

theorem read_length (size : ℕ) (r : Reader) : (r.read size).1.1.length ≤ size := by
  by_cases hbuf : r.buf = []
  · cases herr : r.err with
    | some e => simp [read, hbuf, herr]
    | none =>
        by_cases hsize : r.size ≤ size
        · simpa [read, hbuf, herr, hsize] using connRead_length size r.chunks
        · simp only [read, if_pos hbuf, herr, if_neg hsize]
          split <;> simp
  · simp [read, hbuf]

theorem read_sound (size : ℕ) (h : r.Sound) : (r.read size).2.Sound := by
  by_cases hbuf : r.buf = []
  · cases herr : r.err with
    | some e =>
        simp only [read, if_pos hbuf, herr]
        exact ⟨h.fits, h.steady⟩
    | none =>
        by_cases hsize : r.size ≤ size
        · simp only [read, if_pos hbuf, herr, if_pos hsize]
          exact ⟨h.fits, connRead_steady h.steady size⟩
        · have hlen := connRead_length r.size r.chunks
          have hsteady := connRead_steady h.steady r.size
          simp only [read, if_pos hbuf, herr, if_neg hsize]
          split
          · exact ⟨h.fits, hsteady⟩
          · refine ⟨?_, hsteady⟩
            rw [List.length_drop]
            exact (Nat.sub_le _ _).trans hlen
  · simp only [read, if_neg hbuf]
    refine ⟨?_, h.steady⟩
    rw [List.length_drop]
    exact (Nat.sub_le _ _).trans h.fits

theorem read_size (size : ℕ) (r : Reader) : (r.read size).2.size = r.size := by
  unfold read
  split
  · split
    · rfl
    · split
      · rfl
      · dsimp only
        split <;> rfl
  · rfl

/-- A read that gives bytes gives no error with them, and does not drop one. -/
theorem read_lone (size : ℕ) (h : Lone r.chunks) :
    ((r.read size).1.2 ≠ none → (r.read size).1.1 = []) ∧ Lone (r.read size).2.chunks := by
  by_cases hbuf : r.buf = []
  · cases herr : r.err with
    | some e =>
        simp only [read, if_pos hbuf, herr]
        exact ⟨fun _ => trivial, h⟩
    | none =>
        by_cases hsize : r.size ≤ size
        · simp only [read, if_pos hbuf, herr, if_pos hsize]
          exact connRead_lone h size
        · have hread := connRead_lone h r.size
          simp only [read, if_pos hbuf, herr, if_neg hsize]
          split
          · exact ⟨fun _ => rfl, hread.2⟩
          · exact ⟨fun hne => absurd rfl hne, hread.2⟩
  · simp only [read, if_neg hbuf]
    exact ⟨fun hne => absurd rfl hne, h⟩

end Reader

/-! ### Pipes -/

namespace Pipe

variable {p p' : Pipe} {data : Bytes}

/-- The reader is sound, and the writer takes everything. -/
structure Clear (p : Pipe) : Prop where
  sound : p.src.Sound
  accepts : ∀ o ∈ p.writes, o = none

theorem Clear.headD (h : p.Clear) : p.writes.headD none = none := by
  cases hw : p.writes with
  | nil => rfl
  | cons o ws => exact h.accepts o (by rw [hw]; exact List.mem_cons_self)

theorem write_of_clear (h : p.Clear) (data : Bytes) :
    write data p = (.ok data.length, { p with writes := p.writes.tail, out := p.out ++ data }) := by
  unfold write
  rw [h.headD]

theorem writeSome_of_clear (h : p.Clear) (data : Bytes) :
    ∃ n ws, writeSome data p = (.ok n, { p with writes := ws, out := p.out ++ data }) ∧
      ∀ o ∈ ws, o = none := by
  unfold writeSome
  split
  · rename_i hdata
    exact ⟨0, p.writes, by rw [hdata, List.append_nil]; rfl, h.accepts⟩
  · exact ⟨_, _, write_of_clear h data, fun o ho => h.accepts o (List.mem_of_mem_tail ho)⟩

/-- `io.CopyN` writes the first `n` bytes of the supply, or all of it, and returns an error exactly
if they are fewer. -/
theorem copyN_run {n : ℕ} (h : p.Clear) :
    ∃ res p', copyN n p = (res, p') ∧ p'.out = p.out ++ p.src.supply.take n ∧
      (res = .ok () ↔ n ≤ p.src.supply.length) := by
  induction hk : n + p.src.chunks.length using Nat.strong_induction_on generalizing n p with
  | _ k ih =>
      subst hk
      rw [copyN_eq]
      unfold copyNTurn
      by_cases hn : n = 0
      · rw [if_pos hn, hn]
        exact ⟨.ok (), p, rfl, by simp, by simp⟩
      rw [if_neg hn]
      have hlimit : 0 < min n (max 1 (p.bufs.headD 32768)) := by omega
      obtain ⟨hchunks, hprogress⟩ := p.src.read_progress hlimit
      have hsupply := p.src.read_supply (min n (max 1 (p.bufs.headD 32768)))
      have hlen := p.src.read_length (min n (max 1 (p.bufs.headD 32768)))
      have hsound := Reader.read_sound (min n (max 1 (p.bufs.headD 32768))) h.sound
      have hread : read n p = (.ok _, _) := rfl
      rw [bind_of_ok hread]
      generalize p.src.read (min n (max 1 (p.bufs.headD 32768))) = res at *
      obtain ⟨⟨data, err⟩, src⟩ := res
      dsimp only at hchunks hprogress hsupply hlen hsound ⊢
      have hclear : Clear { p with src := src, bufs := p.bufs.tail } := ⟨hsound, h.accepts⟩
      obtain ⟨m, ws, hw, hws⟩ := writeSome_of_clear hclear data
      rw [bind_of_ok hw]
      by_cases hdone : n ≤ data.length
      · have hdata : data.length = n := by omega
        rw [if_pos hdone, hsupply, List.take_left' hdata, List.length_append]
        refine ⟨.ok (), _, rfl, rfl, iff_of_true rfl ?_⟩
        omega
      · have htake : data.take n = data := List.take_of_length_le (by omega)
        rw [if_neg hdone]
        cases err with
        | some e =>
            -- all that comes before the error was read
            have hall : p.src.supply = data := by simpa using hsupply
            rw [hall, htake]
            exact ⟨.error e, _, rfl, rfl, iff_of_false (by simp) hdone⟩
        | none =>
            have hmore : p.src.supply = data ++ src.supply := by simpa using hsupply
            have hless : n - data.length + src.chunks.length < n + p.src.chunks.length := by
              rcases hprogress with hdata | herr | hchunk
              · have hpos := List.length_pos_iff.mpr hdata
                omega
              · exact absurd rfl herr
              · omega
            have hnext : Clear { p with
                src := src, bufs := p.bufs.tail, writes := ws, out := p.out ++ data } :=
              ⟨hsound, hws⟩
            obtain ⟨res, p', hrun, hout, hok⟩ := ih _ hless hnext rfl
            refine ⟨res, p', hrun, ?_, ?_⟩
            · rw [hout, hmore, List.take_append, htake, List.append_assoc]
            · rw [hok, hmore, List.length_append]
              exact Nat.sub_le_iff_le_add'

end Pipe

end Streams
