import DahuaP2p.GoStrings
import DahuaP2p.XmlTokens
import Mathlib.Data.List.AList
import Mathlib.Data.List.Induction

/-! # Responses of the P2P service (`dh/protocol.go`)

A response is a status line, headers, an empty line and an XML body, which is kept as a map from
paths to texts.

* `parseXMLBody` follows the tokens of the decoder with a stack of open elements.  On every prefix
  of the tokens of a document it returns the map that the tree of the document defines
  (`parseXMLBody_eq`): the stack is the path at which a token is located.
* `parseResponse` normalises the line endings of the whole text before it splits it.  So it does not
  depend on the line endings (`parseResponse_line_endings`), and the body starts after the first
  empty line (`parseLines`). -/

namespace DahuaP2p.Dh

open BigEndian GoStrings Xml

/-- The errors that the package exports. -/
inductive DhError where
  | deviceNotFound
  | authenticationFailed
  | timeout
  | invalidResponse
deriving DecidableEq, Repr

def DhError.text : DhError → String
  | deviceNotFound => "device not found"
  | authenticationFailed => "authentication failed"
  | timeout => "connection timeout"
  | invalidResponse => "invalid response from server"

/-- A Go map from texts to texts. -/
abbrev TextMap := AList fun _ : Bytes => Bytes

/-- The decoder of `encoding/xml`: the tokens that it emits before its first error or the end. -/
structure XmlLib where
  tokens : Bytes → List Token

/-! ### The body -/

/-- `strings.Join(stack, "/")` -/
def joinPath (path : List Bytes) : Bytes := (ascii "/").intercalate path

/-- One token. -/
def flattenStep : List Bytes × TextMap → Token → List Bytes × TextMap
  | (stack, result), .startElement name => (stack ++ [name.localName], result)
  | (stack, result), .endElement _ => (stack.dropLast, result)
  | (stack, result), .charData data =>
      let text := trimSpace data
      if text ≠ [] ∧ stack ≠ [] then (stack, result.insert (joinPath stack) text)
      else (stack, result)
  | (stack, result), .other => (stack, result)

def parseXMLBody (lib : XmlLib) (xmlStr : Bytes) : TextMap :=
  ((lib.tokens xmlStr).foldl flattenStep ([], ∅)).2

/-- The entry that a token makes at its place in the document: the trimmed text, unless it is blank
or outside of all elements. -/
def entry : List Bytes × Token → Option (Bytes × Bytes)
  | (path, .charData data) =>
      if trimSpace data ≠ [] ∧ path ≠ [] then some (joinPath path, trimSpace data) else none
  | _ => none

/-- The value of the last entry for the key. -/
def lastEntry (entries : List (Bytes × Bytes)) (key : Bytes) : Option Bytes :=
  ((entries.filter fun e => e.1 = key).getLast?).map Prod.snd

/-- Entries written into a map one after the other. -/
def insertAll (result : TextMap) (entries : List (Bytes × Bytes)) : TextMap :=
  entries.foldl (fun m e => m.insert e.1 e.2) result

theorem insertAll_append (m : TextMap) (es es' : List (Bytes × Bytes)) :
    insertAll m (es ++ es') = insertAll (insertAll m es) es' := List.foldl_append

theorem insertAll_lookup (es : List (Bytes × Bytes)) (key : Bytes) :
    (insertAll ∅ es).lookup key = lastEntry es key := by
  induction es using List.reverseRecOn with
  | nil => rfl
  | append_singleton es e ih =>
      rw [insertAll_append, lastEntry, List.filter_append]
      by_cases he : e.1 = key
      · subst he
        simp [insertAll]
      · have hne : key ≠ e.1 := Ne.symm he
        simp only [insertAll, List.foldl_cons, List.foldl_nil, AList.lookup_insert_ne hne,
          List.filter_singleton, he, decide_false, cond_false, List.append_nil]
        exact ih

theorem insertAll_filterMap_cons (m : TextMap) (x : List Bytes × Token)
    (xs : List (List Bytes × Token)) : insertAll m ((x :: xs).filterMap entry) =
      insertAll (insertAll m (entry x).toList) (xs.filterMap entry) := by
  rw [← insertAll_append]
  cases h : entry x with
  | none => rw [List.filterMap_cons_none h, Option.toList_none, List.nil_append]
  | some e => rw [List.filterMap_cons_some h, Option.toList_some, List.singleton_append]

theorem flattenStep_charData (path : List Bytes) (m : TextMap) (data : Bytes) :
    flattenStep (path, m) (.charData data) =
      (path, insertAll m (entry (path, .charData data)).toList) := by
  simp only [flattenStep, entry]
  split <;> rfl

theorem flattenStep_endElement (path : List Bytes) (m : TextMap) (last : Bytes) (name : Name) :
    flattenStep (path ++ [last], m) (.endElement name) = (path, m) := by
  rw [flattenStep, List.dropLast_concat]

/-- **The stack is the path.**  From the start of some content on, any number of its tokens writes
their entries, and all of them leave the stack as it was. -/
theorem foldl_flattenStep (c : Content) (path : List Bytes) (m : TextMap) (n : ℕ) :
    ((c.tokens.take n).foldl flattenStep (path, m)).2 =
      insertAll m (((c.located path).take n).filterMap entry) ∧
    (c.tokens.length ≤ n → ((c.tokens.take n).foldl flattenStep (path, m)).1 = path) := by
  induction c generalizing path m n with
  | nil =>
      rw [Content.tokens, Content.located, List.take_nil, List.take_nil]
      exact ⟨rfl, fun _ => rfl⟩
  | text data rest ih =>
      cases n with
      | zero => exact ⟨rfl, fun h => absurd h (Nat.not_succ_le_zero _)⟩
      | succ n =>
          rw [Content.tokens, Content.located, List.take_succ_cons, List.take_succ_cons,
            List.foldl_cons, flattenStep_charData, insertAll_filterMap_cons]
          exact (ih path _ n).imp_right fun h hn => h (Nat.le_of_succ_le_succ hn)
  | other rest ih =>
      cases n with
      | zero => exact ⟨rfl, fun h => absurd h (Nat.not_succ_le_zero _)⟩
      | succ n =>
          rw [Content.tokens, Content.located, List.take_succ_cons, List.take_succ_cons,
            List.foldl_cons, insertAll_filterMap_cons]
          exact (ih path _ n).imp_right fun h hn => h (Nat.le_of_succ_le_succ hn)
  | element name inner rest ih ih' =>
      cases n with
      | zero => exact ⟨rfl, fun h => absurd h (Nat.not_succ_le_zero _)⟩
      | succ n =>
          obtain ⟨hmap, hstack⟩ := ih (path ++ [name.localName]) m n
          have hlen := inner.located_length (path ++ [name.localName])
          rw [Content.tokens, Content.located, List.take_succ_cons, List.take_succ_cons,
            List.foldl_cons, insertAll_filterMap_cons, List.take_append, List.take_append,
            List.foldl_append, List.filterMap_append, insertAll_append, hlen]
          -- the inner tokens, and if these are all, the end of the element and the rest
          rcases le_or_gt n inner.tokens.length with hle | hgt
          · rw [Nat.sub_eq_zero_of_le hle, List.take_zero, List.take_zero]
            refine ⟨hmap, fun hn => ?_⟩
            simp only [List.length_cons, List.length_append] at hn
            omega
          · obtain ⟨k, hk⟩ : ∃ k, n - inner.tokens.length = k + 1 :=
              Nat.exists_eq_succ_of_ne_zero (by omega)
            rw [hk, List.take_succ_cons, List.take_succ_cons, List.foldl_cons,
              insertAll_filterMap_cons]
            have hinner : (inner.tokens.take n).foldl flattenStep
                (flattenStep (path, m) (.startElement name)) =
                (path ++ [name.localName], insertAll m
                  (((inner.located (path ++ [name.localName])).take n).filterMap entry)) :=
              Prod.ext (hstack hgt.le) hmap
            rw [hinner, flattenStep_endElement]
            refine (ih' path _ k).imp_right fun h hn => h ?_
            simp only [List.length_cons, List.length_append] at hn
            omega

/-- **The body map is that of the document.**  If the decoder emits the first tokens of a document,
then `parseXMLBody` maps a path, joined by slashes, to the trimmed text of the last of them that is
character data, not blank, and stands directly in an element with that path; it has no other
keys. -/
theorem parseXMLBody_eq {lib : XmlLib} {xmlStr : Bytes} {doc : Content}
    (h : lib.tokens xmlStr <+: doc.tokens) (key : Bytes) :
    (parseXMLBody lib xmlStr).lookup key =
      lastEntry (((doc.located []).take (lib.tokens xmlStr).length).filterMap entry) key := by
  have htake := List.prefix_iff_eq_take.mp h
  rw [parseXMLBody, htake, (foldl_flattenStep doc [] ∅ _).1, insertAll_lookup, ← htake]

/-- The body of a response of the service, cut off in its second element. -/
def truncatedLib : XmlLib where
  tokens _ := [.startElement ⟨[], ascii "body"⟩, .startElement ⟨[], ascii "US"⟩,
    .charData (ascii " p2p.example.com:443\n"), .endElement ⟨[], ascii "US"⟩,
    .startElement ⟨[], ascii "Token"⟩]

theorem parseXMLBody_eq_truncated :
    (parseXMLBody truncatedLib []).lookup (ascii "body/US") =
      some (ascii "p2p.example.com:443") := by
  have hdoc : truncatedLib.tokens [] <+: (Content.element ⟨[], ascii "body"⟩
      (.element ⟨[], ascii "US"⟩ (.text (ascii " p2p.example.com:443\n") .nil)
        (.element ⟨[], ascii "Token"⟩ .nil .nil)) .nil).tokens :=
    ⟨[.endElement ⟨[], ascii "Token"⟩, .endElement ⟨[], ascii "body"⟩], rfl⟩
  rw [parseXMLBody_eq hdoc]
  decide +kernel

/-! ### Responses -/

structure Response where
  version : Bytes
  code : ℤ
  status : Bytes
  headers : TextMap
  /-- The flattened XML body; none for a blank one. -/
  body : Option TextMap

def lf : Bytes := [0x0A]
def crlf : Bytes := [0x0D, 0x0A]

/-- A header line; one without a name and `": "` is ignored. -/
def addHeader (headers : TextMap) (line : Bytes) : TextMap :=
  match cutAt (ascii ": ") line with
  | some (name, value) => if name ≠ [] then headers.insert name value else headers
  | none => headers

/-- `ParseResponse` for the lines of the head, and the body. -/
def parseParts (lib : XmlLib) (lines : List Bytes) (body : Bytes) : Except DhError Response :=
  match lines with
  | [] => .error .invalidResponse
  | statusLine :: headerLines =>
      match splitN (ascii " ") 2 statusLine with
      | [version, rawCode, status] =>
          match parseInt rawCode with
          | none => .error .invalidResponse
          | some code => .ok
              { version := version
                code := code
                status := status
                headers := headerLines.foldl addHeader ∅
                body := if trimSpace body ≠ [] then some (parseXMLBody lib body) else none }
      | _ => .error .invalidResponse

def parseResponse (lib : XmlLib) (data : Bytes) : Except DhError Response :=
  let normalized := replaceAll lf crlf (replaceAll crlf lf data)
  match splitN (crlf ++ crlf) 1 normalized with
  | [head, body] => parseParts lib (split crlf head) body
  | _ => .error .invalidResponse

/-! ### Line endings -/

/-- A line: no LF, and no CR at its end. -/
def IsLine (l : Bytes) : Prop := 0x0A ∉ l ∧ l.getLast? ≠ some 0x0D

/-- Lines, each with CRLF or a bare LF at its end. -/
def render (lines : List (Bytes × Bool)) : Bytes :=
  lines.flatMap fun l => l.1 ++ if l.2 then crlf else lf

/-- Lines with CRLF at their ends. -/
def withCRLF (lines : List Bytes) : Bytes := lines.flatMap (· ++ crlf)

/-- The lines before and after the first empty one. -/
def splitBlank : List Bytes → Option (List Bytes × List Bytes)
  | [] => none
  | l :: lines =>
      if l = [] then some ([], lines) else (splitBlank lines).map fun p => (l :: p.1, p.2)

/-- The response that lines stand for: the head ends at the first empty line. -/
def parseLines (lib : XmlLib) (lines : List Bytes) : Except DhError Response :=
  match splitBlank lines with
  | none => .error .invalidResponse
  | some (head, body) => parseParts lib head (withCRLF body)

section lines
variable {l rest more : Bytes} {lines : List Bytes} {lib : XmlLib}

theorem IsLine.tail {b : UInt8} (h : IsLine (b :: l)) : IsLine l := by
  refine ⟨fun hl => h.1 (List.mem_cons_of_mem b hl), fun hlast => h.2 ?_⟩
  cases l with
  | nil => cases hlast
  | cons c l => rwa [List.getLast?_cons_cons]

theorem IsLine.free_lf (h : IsLine l) : Free lf l rest := by
  induction l with
  | nil => exact .nil
  | cons b l ih =>
      refine .cons (fun hpre => h.1 ?_) (ih h.tail)
      obtain ⟨rfl, _⟩ := List.cons_prefix_cons.mp hpre
      exact List.mem_cons_self

/-- A CRLF does not start in a line, not even at its end. -/
theorem IsLine.free_crlf_append (h : IsLine l) : Free (crlf ++ more) l rest := by
  induction l with
  | nil => exact .nil
  | cons b l ih =>
      refine .cons (fun hpre => ?_) (ih h.tail)
      obtain ⟨rfl, hlf⟩ := List.cons_prefix_cons.mp hpre
      cases l with
      | nil => exact h.2 rfl
      | cons c l =>
          obtain ⟨rfl, _⟩ := List.cons_prefix_cons.mp hlf
          exact h.1 (List.mem_cons_of_mem _ List.mem_cons_self)

theorem IsLine.free_crlf (h : IsLine l) : Free crlf l rest :=
  have hfree : Free (crlf ++ []) l rest := h.free_crlf_append
  hfree

theorem free_of_ne {b c : UInt8} {sep : Bytes} (hne : c ≠ b) (h : Free (c :: sep) l rest) :
    Free (c :: sep) (b :: l) rest :=
  .cons (fun hpre => hne (List.cons_prefix_cons.mp hpre).1) h

/-- The first replacement leaves an LF at the end of every line. -/
theorem replaceAll_crlf {ls : List (Bytes × Bool)} (h : ∀ l ∈ ls, IsLine l.1) :
    replaceAll crlf lf (render ls) = (ls.map Prod.fst).flatMap (· ++ lf) := by
  induction ls with
  | nil => rfl
  | cons x ls ih =>
      obtain ⟨l, ending⟩ := x
      obtain ⟨hl, hls⟩ := List.forall_mem_cons.mp h
      have hrest : replaceAll crlf lf ((if ending then crlf else lf) ++ render ls) =
          lf ++ replaceAll crlf lf (render ls) := by
        cases ending with
        | true => exact replaceAll_old nofun
        | false => exact replaceAll_free (free_of_ne (by decide) .nil)
      rw [render, List.flatMap_cons, List.append_assoc, ← render, replaceAll_free hl.free_crlf,
        hrest, ih hls, List.map_cons, List.flatMap_cons, List.append_assoc]

theorem withCRLF_cons : withCRLF (l :: lines) = l ++ (crlf ++ withCRLF lines) := by
  rw [withCRLF, List.flatMap_cons, List.append_assoc, withCRLF]

/-- The second replacement makes it a CRLF. -/
theorem replaceAll_lf (h : ∀ l ∈ lines, IsLine l) :
    replaceAll lf crlf (lines.flatMap (· ++ lf)) = withCRLF lines := by
  induction lines with
  | nil => rfl
  | cons l lines ih =>
      obtain ⟨hl, hls⟩ := List.forall_mem_cons.mp h
      rw [List.flatMap_cons, List.append_assoc, replaceAll_free hl.free_lf,
        replaceAll_old (by decide), ih hls, withCRLF_cons]

/-- The blank line after the first line. -/
theorem cutAt_withCRLF (hl : IsLine l) (h : ∀ l ∈ lines, IsLine l) :
    cutAt (crlf ++ crlf) (withCRLF (l :: lines)) =
      (splitBlank lines).map fun p => (crlf.intercalate (l :: p.1), withCRLF p.2) := by
  induction lines generalizing l with
  | nil =>
      rw [withCRLF_cons, cutAt_free hl.free_crlf_append]
      rfl
  | cons l' lines ih =>
      obtain ⟨hl', hls⟩ := List.forall_mem_cons.mp h
      rw [withCRLF_cons, cutAt_free hl.free_crlf_append]
      by_cases hblank : l' = []
      · subst hblank
        have hcut : cutAt (crlf ++ crlf) (crlf ++ withCRLF ([] :: lines)) =
            some ([], withCRLF lines) := by
          rw [withCRLF_cons, List.nil_append, ← List.append_assoc]
          exact cutAt_sep nofun
        rw [hcut]
        simp [splitBlank, List.intercalate]
      · -- the next line does not start with another CRLF
        have hfree : Free (crlf ++ crlf) crlf (withCRLF (l' :: lines)) := by
          refine .cons (fun hpre => ?_) (free_of_ne (by decide) .nil)
          obtain ⟨_, hpre⟩ := List.cons_prefix_cons.mp hpre
          obtain ⟨_, hpre⟩ := List.cons_prefix_cons.mp hpre
          rw [withCRLF_cons] at hpre
          exact hl'.free_crlf 0 (List.length_pos_iff.mpr hblank) hpre
        rw [cutAt_free hfree, ih hl' hls, splitBlank, if_neg hblank]
        cases splitBlank lines with
        | none => rfl
        | some p => simp [List.intercalate]

/-- Joined lines are taken apart again. -/
theorem splitN_intercalate (hl : IsLine l) (h : ∀ l ∈ lines, IsLine l) {n : ℕ}
    (hn : lines.length ≤ n) : splitN crlf n (crlf.intercalate (l :: lines)) = l :: lines := by
  induction lines generalizing l n with
  | nil =>
      have hcut : cutAt crlf (l ++ []) = none := cutAt_free hl.free_crlf
      rw [List.append_nil] at hcut
      rw [List.intercalate_singleton]
      cases n with
      | zero => rfl
      | succ n => rw [splitN, hcut]
  | cons l' lines ih =>
      obtain ⟨hl', hls⟩ := List.forall_mem_cons.mp h
      obtain ⟨n, rfl⟩ : ∃ k, n = k + 1 := Nat.exists_eq_succ_of_ne_zero (by
        rw [List.length_cons] at hn
        omega)
      have hcut : cutAt crlf (crlf.intercalate (l :: l' :: lines)) =
          some (l, crlf.intercalate (l' :: lines)) := by
        rw [List.intercalate_cons_cons, List.append_assoc, cutAt_free hl.free_crlf,
          cutAt_sep (by decide)]
        simp
      rw [splitN, hcut]
      exact congrArg (l :: ·) (ih hl' hls (Nat.le_of_succ_le_succ hn))

theorem length_le_intercalate (l : Bytes) (lines : List Bytes) :
    lines.length ≤ (crlf.intercalate (l :: lines)).length := by
  induction lines generalizing l with
  | nil => exact Nat.zero_le _
  | cons l' lines ih =>
      rw [List.intercalate_cons_cons, List.length_append, List.length_append, List.length_cons]
      have hrest := ih l'
      have hcrlf : crlf.length = 2 := rfl
      omega

theorem isLine_of_splitBlank {head body : List Bytes} (h : ∀ l ∈ lines, IsLine l)
    (hs : splitBlank lines = some (head, body)) : ∀ l ∈ head, IsLine l := by
  induction lines generalizing head with
  | nil => cases hs
  | cons x lines ih =>
      obtain ⟨hx, hls⟩ := List.forall_mem_cons.mp h
      rw [splitBlank] at hs
      split at hs
      · cases hs
        exact fun l hl => nomatch hl
      · obtain ⟨p, hp, he⟩ := Option.map_eq_some_iff.mp hs
        cases he
        exact List.forall_mem_cons.mpr ⟨hx, ih hls hp⟩

/-- The two replacements and the two splits find the first empty line. -/
theorem parseResponse_render {ls : List (Bytes × Bool)} (h : ∀ l ∈ ls, IsLine l.1) :
    parseResponse lib (render ls) = parseLines lib (ls.map Prod.fst) := by
  have hlines : ∀ l ∈ ls.map Prod.fst, IsLine l := List.forall_mem_map.mpr h
  unfold parseResponse
  rw [replaceAll_crlf h, replaceAll_lf hlines]
  generalize ls.map Prod.fst = lines at hlines
  cases lines with
  | nil => rfl
  | cons l lines =>
      obtain ⟨hl, hls⟩ := List.forall_mem_cons.mp hlines
      have hcut := cutAt_withCRLF hl hls
      cases hblank : splitBlank lines with
      | none =>
          rw [hblank, Option.map_none] at hcut
          simp only [splitN, hcut]
          by_cases hempty : l = []
          · subst hempty
            rfl
          · rw [parseLines, splitBlank, if_neg hempty, hblank]
            rfl
      | some p =>
          obtain ⟨head, body⟩ := p
          rw [hblank, Option.map_some] at hcut
          have hsplit : split crlf (crlf.intercalate (l :: head)) = l :: head :=
            splitN_intercalate hl (isLine_of_splitBlank hls hblank) (length_le_intercalate l head)
          simp only [splitN, hcut, hsplit]
          by_cases hempty : l = []
          · -- a response that starts with an empty line has no status line
            subst hempty
            rfl
          · rw [parseLines, splitBlank, if_neg hempty, hblank]
            rfl

/-- **Line endings do not matter.**  Two texts with the same lines, each ended by CRLF or a bare LF,
give the same outcome: that of the lines, split at the first empty one. -/
theorem parseResponse_line_endings {ls ls' : List (Bytes × Bool)}
    (hsame : ls.map Prod.fst = ls'.map Prod.fst) (h : ∀ l ∈ ls.map Prod.fst, IsLine l) :
    parseResponse lib (render ls) = parseResponse lib (render ls') ∧
      parseResponse lib (render ls) = parseLines lib (ls.map Prod.fst) := by
  have hls : ∀ l ∈ ls, IsLine l.1 := List.forall_mem_map.mp h
  have hls' : ∀ l ∈ ls', IsLine l.1 := List.forall_mem_map.mp (hsame ▸ h)
  refine ⟨?_, parseResponse_render hls⟩
  rw [parseResponse_render hls, parseResponse_render hls', hsame]

end lines

/-- The lines of a response with a header and an empty body, with CRLF or with LF. -/
def headerLines (ending : Bool) : List (Bytes × Bool) :=
  [(ascii "HTTP/1.1 200 OK", ending), (ascii "CSeq: 7", true), ([], ending)]

instance (l : Bytes) : Decidable (IsLine l) := instDecidableAnd

theorem parseResponse_line_endings_headerLines :
    ((parseResponse truncatedLib (render (headerLines false))).toOption.map
        fun r => (r.code, r.status, r.headers.lookup (ascii "CSeq"), r.body.isSome)) =
      some (200, ascii "OK", some (ascii "7"), false) ∧
    parseResponse truncatedLib (render (headerLines false)) =
      parseResponse truncatedLib (render (headerLines true)) := by
  have hsame : (headerLines false).map Prod.fst = (headerLines true).map Prod.fst := rfl
  exact ⟨by decide +kernel, (parseResponse_line_endings hsame (by decide +kernel)).1⟩

end DahuaP2p.Dh
