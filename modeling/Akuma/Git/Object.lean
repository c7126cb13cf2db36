import Akuma.Git.Discovery

/-!
# Objects

`object.rs` writes and reads the four kinds of Git object. A tree is a run
of entries `{mode} {name}\0{sha}`, the mode in octal and the hash as its
twenty bytes (`Tree::serialize`, `Tree::parse`). A commit and an annotated
tag are text: header lines, a blank line and the message. `Commit::parse`
and `Tag::parse` read them with one loop over `str::lines` (`scanLines`);
only the header lines are read each kind's own way (`Commit.header`,
`Tag.header`). Every object is written behind the header `{type} {size}\0`
(`Object.serialize`, `Object.parse`), and these bytes are what the store
hashes it by (`contentHash_eq_serialize`).

Each parse reads back what the matching serialize writes, whenever what is
written can be read back at all (`Tree.parse_serialize`,
`Commit.parse_serialize`, `Tag.parse_serialize`, `Object.parse_serialize`).
A tree entry's name must hold no NUL, which ends it. A header value must not
hold a newline or end in `\r`, which `lines` would take for the end of the
line. A message must not start or end with a newline or hold a `\r\n`: the
loop drops a blank first line, and `lines` a last newline and the `\r` of
each `\r\n`. Every tree `Tree::parse` accepts meets its condition, so a tree
read and written again is read back the same (`Tree.parse_serialize_parse`).
The size in an object's header is a `usize`, so the round trip of a whole
object also needs its content shorter than `2 ^ 64` bytes.
-/

namespace Akuma.Git

open RustStr Panicking

/-- `ok_or_else(|| Error::...(msg))`: the value, or an error with that
message. -/
def okOr {α : Type} : Option α → String → Except String α
  | some a, _ => .ok a
  | none, msg => .error msg

@[simp] theorem okOr_some {α : Type} (a : α) (msg : String) : okOr (some a) msg = .ok a := rfl

@[simp] theorem okOr_eq_ok {α : Type} {o : Option α} {msg : String} {a : α} :
    okOr o msg = .ok a ↔ o = some a := by
  cases o <;> simp [okOr]

/-! ## Object types -/

/-- `ObjectType::from_str`. -/
def ObjectType.fromStr : List Char → Option ObjectType
  | ['b', 'l', 'o', 'b'] => some .blob
  | ['t', 'r', 'e', 'e'] => some .tree
  | ['c', 'o', 'm', 'm', 'i', 't'] => some .commit
  | ['t', 'a', 'g'] => some .tag
  | _ => none

@[simp] theorem ObjectType.fromStr_asStr (t : ObjectType) : fromStr t.asStr = some t := by
  cases t <;> rfl

/-! ## Characters no cut stops at -/

/-- A character none of the cuts of `object.rs` stops at: ASCII, and no
space, NUL, newline or `\r`. Type names, octal and decimal digits and the
digits of `to_hex` are all such. -/
def Plain (c : Char) : Prop := c.toNat < 0x80 ∧ c ≠ ' ' ∧ c ≠ '\x00' ∧ c ≠ '\n' ∧ c ≠ '\r'

instance : DecidablePred Plain := fun _ => inferInstanceAs (Decidable (_ ∧ _))

/-- Text that `all` finds plain, character by character, is plain. -/
theorem plain_of_all {cs : List Char} (h : cs.all (fun c => decide (Plain c)) = true) : ∀ c ∈ cs, Plain c := by
  simpa using List.all_eq_true.mp h

theorem plain_of_mem_asStr {t : ObjectType} {c : Char} (hc : c ∈ t.asStr) : Plain c :=
  plain_of_all (by cases t <;> decide) c hc

theorem plain_of_mem_toDigits {radix n : Nat} (h1 : 1 < radix) (h16 : radix ≤ 16) {c : Char}
    (hc : c ∈ Nat.toDigits radix n) : Plain c := by
  obtain ⟨d, hd, rfl⟩ := mem_toDigits h1 hc
  have key : ∀ d < 16, Plain (Nat.digitChar d) := by decide
  exact key d (by omega)

theorem plain_of_mem_toHex {hash : Sha1Hash} {c : Char} (hc : c ∈ Sha1.toHex hash) : Plain c :=
  plain_of_all (by decide) c (Sha1.mem_toHex hc)

section Plain

variable {cs : List Char} (h : ∀ c ∈ cs, Plain c)
include h

theorem asBytes_plain : asBytes cs = cs.map Char.toNat := asBytes_ascii fun c hc => (h c hc).1

/-- The octets of plain text are neither a space nor a NUL. -/
theorem ne_of_mem_asBytes_plain {b : Nat} (hb : b ∈ asBytes cs) : b ≠ 0x20 ∧ b ≠ 0 := by
  rw [asBytes_plain h, List.mem_map] at hb
  obtain ⟨c, hc, rfl⟩ := hb
  obtain ⟨-, hspace, hnul, -⟩ := h c hc
  exact ⟨fun he => hspace (Char.toNat_inj.mp he), fun he => hnul (Char.toNat_inj.mp he)⟩

theorem newline_not_mem_plain : '\n' ∉ cs := fun hc => (h _ hc).2.2.2.1 rfl

theorem getLast_ne_cr_plain : cs.getLast? ≠ some '\r' := fun hl =>
  (h _ (List.mem_of_mem_getLast? hl)).2.2.2.2 rfl

end Plain

/-! ## Trees -/

/-- `TreeEntry`: the mode, a `u32`; the name; the hash of the blob or tree. -/
structure TreeEntry where
  mode : UInt32
  name : List Char
  sha : Sha1Hash
  deriving DecidableEq, Repr

/-- `Tree`. -/
structure Tree where
  entries : List TreeEntry
  deriving DecidableEq, Repr

/-- One pass of the loop of `Tree::parse`, at the bytes not read yet,
`data[pos..]`: the entry and the bytes after it. -/
def Tree.parseEntry (data : List Nat) : Except String (TreeEntry × List Nat) := do
  let spacePos ← okOr (data.findIdx? (· == 0x20)) "invalid tree entry: no space"
  let modeStr ← okOr (utf8Decode (data.take spacePos)) "invalid tree entry: mode not UTF-8"
  let mode ← okOr (fromStrRadix 8 32 modeStr) "invalid tree entry: bad mode"
  let data := data.drop (spacePos + 1)
  let nullPos ← okOr (data.findIdx? (· == 0)) "invalid tree entry: no null"
  let name ← okOr (utf8Decode (data.take nullPos)) "invalid tree entry: name not UTF-8"
  let data := data.drop (nullPos + 1)
  -- `pos + 20 > data.len()`
  if data.length < 20 then .error "invalid tree entry: truncated SHA"
  else pure (⟨UInt32.ofNat mode, name, data.take 20⟩, data.drop 20)

/-- An entry the loop reads has a name without NUL, since the name ends at
the first one, and a hash of twenty bytes; and at least those bytes were
read. -/
theorem Tree.parseEntry_ok {data rest : List Nat} {e : TreeEntry} (h : Tree.parseEntry data = .ok (e, rest)) :
    '\x00' ∉ e.name ∧ e.sha.length = 20 ∧ rest.length + 20 < data.length := by
  unfold Tree.parseEntry at h
  obtain ⟨spacePos, hspace, h⟩ := bind_eq_ok.mp h
  obtain ⟨modeStr, -, h⟩ := bind_eq_ok.mp h
  obtain ⟨mode, -, h⟩ := bind_eq_ok.mp h
  obtain ⟨nullPos, hnull, h⟩ := bind_eq_ok.mp h
  obtain ⟨name, hname, h⟩ := bind_eq_ok.mp h
  dsimp only at h
  split_ifs at h with hshort
  simp only [pure_eq, Except.ok.injEq, Prod.mk.injEq] at h
  obtain ⟨rfl, rfl⟩ := h
  rw [okOr_eq_ok] at hspace hnull hname
  have hlt : spacePos < data.length := (List.findIdx?_eq_some_iff_getElem.mp hspace).1
  -- the name's octets stop before the first NUL
  have hnonul : ∀ b ∈ asBytes name, b ≠ 0 := by
    rw [asBytes_of_utf8Decode hname]
    intro b hb
    simpa using (eq_of_findIdx? hnull).1 b hb
  refine ⟨fun hmem => hnonul 0 (zero_mem_asBytes.mpr hmem) rfl, ?_, ?_⟩
  · simp only [List.length_take]
    omega
  · simp only [List.length_drop] at hshort ⊢
    omega

/-- The loop of `Tree::parse`: an entry at a time while bytes are left. -/
def Tree.parseEntries (data : List Nat) : Except String (List TreeEntry) :=
  if data = [] then .ok []
  else
    match _h : Tree.parseEntry data with
    | .error e => .error e
    | .ok (entry, rest) => (entry :: ·) <$> Tree.parseEntries rest
termination_by data.length
decreasing_by have := (Tree.parseEntry_ok _h).2.2; omega

/-- `Tree::parse`. -/
def Tree.parse (data : List Nat) : Except String Tree := Tree.mk <$> Tree.parseEntries data

/-- An entry as `Tree::serialize` writes it: `format!("{:o}", mode)`, a
space, the name, a NUL and the hash. -/
def Tree.serializeEntry (e : TreeEntry) : List Nat :=
  asBytes (Nat.toDigits 8 e.mode.toNat) ++ 0x20 :: asBytes e.name ++ 0 :: e.sha

/-- `Tree::serialize`. -/
def Tree.serialize (t : Tree) : List Nat := t.entries.flatMap Tree.serializeEntry

/-- What `Tree::serialize` needs of an entry for `Tree::parse` to read it
back: a name without NUL and a hash of twenty bytes. -/
structure TreeEntry.Encodable (e : TreeEntry) : Prop where
  name : '\x00' ∉ e.name
  sha : e.sha.length = 20

instance : DecidablePred TreeEntry.Encodable := fun e =>
  decidable_of_iff ('\x00' ∉ e.name ∧ e.sha.length = 20) ⟨fun h => ⟨h.1, h.2⟩, fun h => ⟨h.name, h.sha⟩⟩

/-- The loop reads an entry back from what `Tree::serialize` writes of it,
whatever follows. -/
theorem Tree.parseEntry_serializeEntry {e : TreeEntry} (he : e.Encodable) (rest : List Nat) :
    Tree.parseEntry (Tree.serializeEntry e ++ rest) = .ok (e, rest) := by
  have hplain : ∀ c ∈ Nat.toDigits 8 e.mode.toNat, Plain c := fun c hc =>
    plain_of_mem_toDigits (by norm_num) (by norm_num) hc
  have hdigits : ∀ b ∈ asBytes (Nat.toDigits 8 e.mode.toNat), (b == 0x20) = false := fun b hb => by
    simpa using (ne_of_mem_asBytes_plain hplain hb).1
  have hname : ∀ b ∈ asBytes e.name, (b == 0) = false := fun b hb => by
    have hne : b ≠ 0 := fun h0 => he.name (zero_mem_asBytes.mp (h0 ▸ hb))
    simpa using hne
  have hmode : fromStrRadix 8 32 (Nat.toDigits 8 e.mode.toNat) = some e.mode.toNat :=
    fromStrRadix_toDigits (by norm_num) (by norm_num) (UInt32.toNat_lt e.mode)
  have hshape : Tree.serializeEntry e ++ rest =
      asBytes (Nat.toDigits 8 e.mode.toNat) ++ 0x20 :: (asBytes e.name ++ 0 :: (e.sha ++ rest)) := by
    simp [Tree.serializeEntry]
  have hsha : ¬ (e.sha ++ rest).length < 20 := by simp [he.sha]
  rw [hshape, Tree.parseEntry]
  simp only [findIdx?_append_cons hdigits (show (0x20 == 0x20) = true from rfl), take_append_cons,
    drop_append_cons, findIdx?_append_cons hname (show (0 == 0) = true from rfl), okOr_some, ok_bind,
    utf8Decode_asBytes, hmode, if_neg hsha, List.take_left' he.sha, List.drop_left' he.sha,
    UInt32.ofNat_toNat, pure_eq]

/-- The loop goes on after an entry it reads. -/
theorem Tree.parseEntries_of_ok {data rest : List Nat} {e : TreeEntry} (hne : data ≠ [])
    (h : Tree.parseEntry data = .ok (e, rest)) : Tree.parseEntries data = (e :: ·) <$> Tree.parseEntries rest := by
  rw [Tree.parseEntries, if_neg hne]
  split
  · rename_i herr
    rw [h] at herr
    cases herr
  · rename_i entry rest' hentry
    rw [h] at hentry
    cases hentry
    rfl

theorem Tree.parseEntries_serialize :
    ∀ {es : List TreeEntry}, (∀ e ∈ es, e.Encodable) → Tree.parseEntries (es.flatMap Tree.serializeEntry) = .ok es
  | [], _ => by
    rw [Tree.parseEntries]
    rfl
  | e :: es, h => by
    have hne : Tree.serializeEntry e ++ es.flatMap Tree.serializeEntry ≠ [] := by simp [Tree.serializeEntry]
    rw [List.flatMap_cons, Tree.parseEntries_of_ok hne (Tree.parseEntry_serializeEntry (h e List.mem_cons_self) _),
      Tree.parseEntries_serialize (fun e' he' => h e' (List.mem_cons_of_mem e he'))]
    rfl

/-- `Tree::parse` reads back what `Tree::serialize` writes. -/
theorem Tree.parse_serialize {t : Tree} (ht : ∀ e ∈ t.entries, e.Encodable) : Tree.parse t.serialize = .ok t := by
  rw [Tree.parse, Tree.serialize, Tree.parseEntries_serialize ht]
  rfl

/-- Every entry `Tree::parse` reads can be written back. -/
theorem Tree.encodable_of_parseEntries {data : List Nat} {es : List TreeEntry} (h : Tree.parseEntries data = .ok es) :
    ∀ e ∈ es, e.Encodable := by
  fun_induction Tree.parseEntries data generalizing es with
  | case1 =>
    cases h
    simp
  | case2 => cases h
  | case3 data hne entry rest hentry ih =>
    rcases hrest : Tree.parseEntries rest with err | es'
    · rw [hrest] at h
      cases h
    · rw [hrest] at h
      cases h
      have hok := Tree.parseEntry_ok hentry
      intro e he
      rcases List.mem_cons.mp he with rfl | he
      · exact ⟨hok.1, hok.2.1⟩
      · exact ih hrest e he

/-- A tree `Tree::parse` reads and `Tree::serialize` writes again is read
back the same. -/
theorem Tree.parse_serialize_parse {data : List Nat} {t : Tree} (h : Tree.parse data = .ok t) :
    Tree.parse t.serialize = .ok t := by
  rcases hentries : Tree.parseEntries data with err | es
  · rw [Tree.parse, hentries] at h
    cases h
  · rw [Tree.parse, hentries] at h
    cases h
    exact Tree.parse_serialize (Tree.encodable_of_parseEntries hentries)

/-! ## The line loop of `Commit::parse` and `Tag::parse` -/

/-- A message line as the loop adds it: `message.push('\n')` unless the
message is still empty, then `message.push_str(line)`. -/
def pushLine (message line : List Char) : List Char :=
  if message = [] then line else message ++ '\n' :: line

/-- What the loop keeps: the header fields read so far, `in_message`, and
the message. -/
structure LineScan (σ : Type) where
  headers : σ
  inMessage : Bool
  message : List Char

/-- One line of the loop: a message line once the blank line is passed,
that blank line, or a header line, which `header` reads and may fail on. -/
def LineScan.step {σ : Type} (header : σ → List Char → Except String σ) (st : LineScan σ)
    (line : List Char) : Except String (LineScan σ) :=
  if st.inMessage then .ok { st with message := pushLine st.message line }
  else if line = [] then .ok { st with inMessage := true }
  else (fun h => { st with headers := h }) <$> header st.headers line

/-- `for line in text.lines()`, from the fields' initial values. -/
def scanLines {σ : Type} (header : σ → List Char → Except String σ) (init : σ) (text : List Char) :
    Except String (LineScan σ) :=
  (lines text).foldlM (LineScan.step header) ⟨init, false, []⟩

/-- A header value `lines` gives back whole: no newline in it and no `\r`
at its end. -/
def OneLine (v : List Char) : Prop := '\n' ∉ v ∧ v.getLast? ≠ some '\r'

/-- A message the loop gives back whole: no blank first line, no newline at
its end, and no `\r\n`. -/
def MessageText (m : List Char) : Prop := m.head? ≠ some '\n' ∧ m.getLast? ≠ some '\n' ∧ ¬ ['\r', '\n'] <:+: m

instance : DecidablePred OneLine := fun _ => inferInstanceAs (Decidable (_ ∧ _))

instance : DecidablePred MessageText := fun _ => inferInstanceAs (Decidable (_ ∧ _ ∧ _))

theorem oneLine_of_plain {v : List Char} (h : ∀ c ∈ v, Plain c) : OneLine v :=
  ⟨newline_not_mem_plain h, getLast_ne_cr_plain h⟩

/-- A header line, its key and a value of one line, is a line that is not
blank. -/
theorem headerLine_oneLine {key v : List Char} (hkey : OneLine key) (hkey0 : key ≠ []) (hv : OneLine v) :
    key ++ v ≠ [] ∧ OneLine (key ++ v) := by
  refine ⟨List.append_ne_nil_of_left_ne_nil hkey0 v, by simp [hkey.1, hv.1], ?_⟩
  rw [List.getLast?_append]
  cases hlast : v.getLast? with
  | some c => simpa [hlast] using hv.2
  | none => simpa using hkey.2

/-- How `lines` takes a text that does not end in a newline and holds no
`\r\n`: it is one line, or a line and a text of the same kind after it. -/
theorem lines_cases {m : List Char} (hne : m ≠ []) (hlast : m.getLast? ≠ some '\n') (hcrlf : ¬ ['\r', '\n'] <:+: m) :
    ('\n' ∉ m ∧ lines m = [m]) ∨
      ∃ l rest, m = l ++ '\n' :: rest ∧ lines m = l :: lines rest ∧ rest ≠ [] ∧
        rest.getLast? ≠ some '\n' ∧ ¬ ['\r', '\n'] <:+: rest := by
  cases hsplit : splitOnce '\n' m with
  | none =>
    have hnl := splitOnce_eq_none hsplit
    exact .inl ⟨hnl, lines_of_not_mem hnl hne⟩
  | some p =>
    obtain ⟨l, rest⟩ := p
    obtain ⟨rfl, hl⟩ := eq_of_splitOnce hsplit
    have hrest : rest ≠ [] := by
      rintro rfl
      simp at hlast
    -- a `\r` at the end of `l` would stand before the newline
    have hcr : l.getLast? ≠ some '\r' := by
      intro hl'
      obtain ⟨ys, rfl⟩ := List.getLast?_eq_some_iff.mp hl'
      exact hcrlf ⟨ys, rest, by simp⟩
    have hsuffix : rest <:+ l ++ '\n' :: rest := (List.suffix_cons '\n' rest).trans (List.suffix_append l _)
    refine .inr ⟨l, rest, rfl, lines_append_newline hl hcr rest, hrest, ?_, fun h => hcrlf (h.trans hsuffix.isInfix)⟩
    obtain ⟨x, xs, rfl⟩ := List.exists_cons_of_ne_nil hrest
    simpa [List.getLast?_append] using hlast

/-- Message lines after the first each go on behind a newline. -/
theorem foldl_pushLine_lines {acc m : List Char} (hacc : acc ≠ []) (hne : m ≠ []) (hlast : m.getLast? ≠ some '\n')
    (hcrlf : ¬ ['\r', '\n'] <:+: m) : (lines m).foldl pushLine acc = acc ++ '\n' :: m := by
  rcases lines_cases hne hlast hcrlf with ⟨-, hlines⟩ | ⟨l, rest, hm, hlines, hrest, hlast', hcrlf'⟩
  · rw [hlines, List.foldl_cons, List.foldl_nil, pushLine, if_neg hacc]
  · have hacc' : pushLine acc l ≠ [] := by simp [pushLine, hacc]
    rw [hlines, List.foldl_cons, foldl_pushLine_lines hacc' hrest hlast' hcrlf', hm, pushLine, if_neg hacc]
    simp
termination_by m.length
decreasing_by
  rw [hm, List.length_append, List.length_cons]
  omega

/-- The loop gives back every message that is `MessageText`. -/
theorem foldl_pushLine_lines_nil {m : List Char} (hm : MessageText m) : (lines m).foldl pushLine [] = m := by
  obtain ⟨hhead, hlast, hcrlf⟩ := hm
  by_cases hne : m = []
  · subst hne
    rfl
  rcases lines_cases hne hlast hcrlf with ⟨-, hlines⟩ | ⟨l, rest, rfl, hlines, hrest, hlast', hcrlf'⟩
  · rw [hlines]
    rfl
  · -- the first line is not blank, so no newline goes before it
    have hl : l ≠ [] := by
      rintro rfl
      simp at hhead
    rw [hlines, List.foldl_cons, pushLine, if_pos rfl, foldl_pushLine_lines hl hrest hlast' hcrlf']

section Scan

variable {σ : Type} (header : σ → List Char → Except String σ)

/-- Before the blank line every line is a header. -/
theorem foldlM_step_headers {hs : List (List Char)} (hne : ∀ h ∈ hs, h ≠ []) :
    ∀ s : σ, hs.foldlM (LineScan.step header) ⟨s, false, []⟩ =
      (fun s' => ⟨s', false, []⟩) <$> hs.foldlM header s := by
  induction hs with
  | nil => intro s; rfl
  | cons h hs ih =>
    intro s
    have hh : h ≠ [] := hne h List.mem_cons_self
    rw [List.foldlM_cons, List.foldlM_cons, LineScan.step]
    simp only [Bool.false_eq_true, if_false, if_neg hh]
    cases header s h with
    | error e => rfl
    | ok s' => exact ih (fun h' hh' => hne h' (List.mem_cons_of_mem h hh')) s'

/-- After the blank line every line is the message's. -/
theorem foldlM_step_message (s : σ) :
    ∀ (ls : List (List Char)) (msg : List Char),
      ls.foldlM (LineScan.step header) ⟨s, true, msg⟩ = .ok ⟨s, true, ls.foldl pushLine msg⟩
  | [], _ => rfl
  | l :: ls, msg => by
    rw [List.foldlM_cons, LineScan.step, if_pos rfl, ok_bind]
    exact foldlM_step_message s ls (pushLine msg l)

/-- The loop reads header lines, a blank line and a message back: the
headers as `header` reads them one after another, and the message whole. -/
theorem scanLines_headers {hs : List (List Char)} (hhs : ∀ h ∈ hs, h ≠ [] ∧ OneLine h) {s final : σ}
    (hfold : hs.foldlM header s = .ok final) {m : List Char} (hm : MessageText m) :
    scanLines header s (hs.flatMap (· ++ ['\n']) ++ '\n' :: m) = .ok ⟨final, true, m⟩ := by
  have hblank : lines ('\n' :: m) = [] :: lines m :=
    lines_append_newline (l := []) List.not_mem_nil (by simp) m
  rw [scanLines, lines_flatMap_append (fun h hh => (hhs h hh).2) _, hblank, List.foldlM_append,
    foldlM_step_headers header (fun h hh => (hhs h hh).1), hfold, map_ok, ok_bind, List.foldlM_cons,
    LineScan.step, if_neg Bool.false_ne_true, if_pos rfl, ok_bind, foldlM_step_message,
    foldl_pushLine_lines_nil hm]

end Scan

/-! ## Commits -/

/-- `Commit`. -/
structure Commit where
  tree : Sha1Hash
  parents : List Sha1Hash
  author : List Char
  committer : List Char
  message : List Char
  deriving DecidableEq, Repr

/-- The header fields `Commit::parse` keeps while it reads: the tree, once a
line names one, the parents, the author and the committer. -/
structure Commit.Fields where
  tree : Option Sha1Hash
  parents : List Sha1Hash
  author : List Char
  committer : List Char
  deriving DecidableEq, Repr

/-- `"tree "`. -/
def treeKey : List Char := ['t', 'r', 'e', 'e', ' ']

/-- `"parent "`. -/
def parentKey : List Char := ['p', 'a', 'r', 'e', 'n', 't', ' ']

/-- `"author "`. -/
def authorKey : List Char := ['a', 'u', 't', 'h', 'o', 'r', ' ']

/-- `"committer "`. -/
def committerKey : List Char := ['c', 'o', 'm', 'm', 'i', 't', 't', 'e', 'r', ' ']

/-- A header line of `Commit::parse`: `tree` and `parent` take a hash in hex,
`author` and `committer` the rest of the line; other headers (`gpgsig` and
the like) are passed over. A later `tree` line wins over an earlier one. -/
def Commit.header (f : Commit.Fields) (line : List Char) : Except String Commit.Fields :=
  match stripPrefix treeKey line with
  | some rest => do
    let sha ← okOr (Sha1.fromHex rest) "invalid tree SHA"
    pure { f with tree := some sha }
  | none =>
    match stripPrefix parentKey line with
    | some rest => do
      let sha ← okOr (Sha1.fromHex rest) "invalid parent SHA"
      pure { f with parents := f.parents ++ [sha] }
    | none =>
      match stripPrefix authorKey line with
      | some rest => pure { f with author := rest }
      | none =>
        match stripPrefix committerKey line with
        | some rest => pure { f with committer := rest }
        | none => pure f

/-- `Commit::parse`. -/
def Commit.parse (data : List Nat) : Except String Commit := do
  let text ← okOr (utf8Decode data) "commit not valid UTF-8"
  let scan ← scanLines Commit.header ⟨none, [], [], []⟩ text
  let tree ← okOr scan.headers.tree "commit missing tree"
  pure ⟨tree, scan.headers.parents, scan.headers.author, scan.headers.committer, scan.message⟩

/-- The header lines `Commit::serialize` writes, each before its newline:
the tree, a line for each parent, the author and the committer. -/
def Commit.headerLines (c : Commit) : List (List Char) :=
  (treeKey ++ Sha1.toHex c.tree) :: c.parents.map (parentKey ++ Sha1.toHex ·) ++
    [authorKey ++ c.author, committerKey ++ c.committer]

/-- `Commit::serialize`: the header lines, a blank line and the message. -/
def Commit.serialize (c : Commit) : List Nat :=
  asBytes (c.headerLines.flatMap (· ++ ['\n']) ++ '\n' :: c.message)

instance : DecidablePred Sha1.IsHash := fun _ => inferInstanceAs (Decidable (_ ∧ _))

/-- What `Commit::serialize` needs of a commit for `Commit::parse` to read it
back: hashes of twenty bytes, an author and a committer of one line, and a
message the loop gives back whole. -/
structure Commit.Encodable (c : Commit) : Prop where
  tree : Sha1.IsHash c.tree
  parents : ∀ p ∈ c.parents, Sha1.IsHash p
  author : OneLine c.author
  committer : OneLine c.committer
  message : MessageText c.message

instance : DecidablePred Commit.Encodable := fun c =>
  decidable_of_iff (Sha1.IsHash c.tree ∧ (∀ p ∈ c.parents, Sha1.IsHash p) ∧ OneLine c.author ∧
      OneLine c.committer ∧ MessageText c.message)
    ⟨fun ⟨h1, h2, h3, h4, h5⟩ => ⟨h1, h2, h3, h4, h5⟩,
      fun h => ⟨h.tree, h.parents, h.author, h.committer, h.message⟩⟩

/-- A hash in hex is one line. -/
theorem oneLine_toHex (sha : Sha1Hash) : OneLine (Sha1.toHex sha) :=
  oneLine_of_plain fun _ hc => plain_of_mem_toHex hc

section CommitHeader

variable (f : Commit.Fields)

theorem Commit.header_tree {sha : Sha1Hash} (h : Sha1.IsHash sha) :
    Commit.header f (treeKey ++ Sha1.toHex sha) = .ok { f with tree := some sha } := by
  simp [Commit.header, stripPrefix_append, Sha1.fromHex_toHex h]

theorem Commit.header_parent {sha : Sha1Hash} (h : Sha1.IsHash sha) :
    Commit.header f (parentKey ++ Sha1.toHex sha) = .ok { f with parents := f.parents ++ [sha] } := by
  have htree : stripPrefix treeKey (parentKey ++ Sha1.toHex sha) = none :=
    stripPrefix_append_eq_none (by decide) (by decide) _
  simp [Commit.header, htree, stripPrefix_append, Sha1.fromHex_toHex h]

theorem Commit.header_author (v : List Char) : Commit.header f (authorKey ++ v) = .ok { f with author := v } := by
  have htree : stripPrefix treeKey (authorKey ++ v) = none := stripPrefix_append_eq_none (by decide) (by decide) _
  have hparent : stripPrefix parentKey (authorKey ++ v) = none := stripPrefix_append_eq_none (by decide) (by decide) _
  simp [Commit.header, htree, hparent, stripPrefix_append]

theorem Commit.header_committer (v : List Char) :
    Commit.header f (committerKey ++ v) = .ok { f with committer := v } := by
  have htree : stripPrefix treeKey (committerKey ++ v) = none := stripPrefix_append_eq_none (by decide) (by decide) _
  have hparent : stripPrefix parentKey (committerKey ++ v) = none :=
    stripPrefix_append_eq_none (by decide) (by decide) _
  have hauthor : stripPrefix authorKey (committerKey ++ v) = none :=
    stripPrefix_append_eq_none (by decide) (by decide) _
  simp [Commit.header, htree, hparent, hauthor, stripPrefix_append]

end CommitHeader

/-- The parent lines add their hashes in order. -/
theorem Commit.foldlM_header_parents {ps : List Sha1Hash} (hps : ∀ p ∈ ps, Sha1.IsHash p) :
    ∀ f : Commit.Fields, (ps.map (parentKey ++ Sha1.toHex ·)).foldlM Commit.header f =
      .ok { f with parents := f.parents ++ ps } := by
  induction ps with
  | nil => intro f; simp
  | cons p ps ih =>
    intro f
    rw [List.map_cons, List.foldlM_cons, Commit.header_parent f (hps p List.mem_cons_self), ok_bind,
      ih (fun q hq => hps q (List.mem_cons_of_mem p hq))]
    simp

/-- The header lines of a commit read back its fields. -/
theorem Commit.foldlM_headerLines {c : Commit} (hc : c.Encodable) :
    c.headerLines.foldlM Commit.header ⟨none, [], [], []⟩ = .ok ⟨some c.tree, c.parents, c.author, c.committer⟩ := by
  rw [Commit.headerLines, List.foldlM_append, List.foldlM_cons, Commit.header_tree _ hc.tree, ok_bind,
    Commit.foldlM_header_parents hc.parents, ok_bind, List.foldlM_cons, Commit.header_author, ok_bind,
    List.foldlM_cons, Commit.header_committer, ok_bind]
  rfl

theorem Commit.headerLines_oneLine {c : Commit} (hc : c.Encodable) :
    ∀ l ∈ c.headerLines, l ≠ [] ∧ OneLine l := by
  intro l hl
  simp only [Commit.headerLines, List.mem_cons, List.mem_append, List.mem_map, List.not_mem_nil, or_false] at hl
  rcases hl with (rfl | ⟨p, -, rfl⟩) | rfl | rfl
  · exact headerLine_oneLine (by decide) (by decide) (oneLine_toHex c.tree)
  · exact headerLine_oneLine (by decide) (by decide) (oneLine_toHex p)
  · exact headerLine_oneLine (by decide) (by decide) hc.author
  · exact headerLine_oneLine (by decide) (by decide) hc.committer

/-- `Commit::parse` reads back what `Commit::serialize` writes. -/
theorem Commit.parse_serialize {c : Commit} (hc : c.Encodable) : Commit.parse c.serialize = .ok c := by
  rw [Commit.parse, Commit.serialize, utf8Decode_asBytes, okOr_some, ok_bind,
    scanLines_headers Commit.header (Commit.headerLines_oneLine hc) (Commit.foldlM_headerLines hc) hc.message]
  rfl

/-! ## Annotated tags -/

/-- `Tag`. -/
structure Tag where
  object : Sha1Hash
  objectType : ObjectType
  tag : List Char
  tagger : List Char
  message : List Char
  deriving DecidableEq, Repr

/-- The header fields `Tag::parse` keeps while it reads. -/
structure Tag.Fields where
  object : Option Sha1Hash
  objectType : Option ObjectType
  tag : List Char
  tagger : List Char
  deriving DecidableEq, Repr

/-- `"object "`. -/
def objectKey : List Char := ['o', 'b', 'j', 'e', 'c', 't', ' ']

/-- `"type "`. -/
def typeKey : List Char := ['t', 'y', 'p', 'e', ' ']

/-- `"tag "`. -/
def tagKey : List Char := ['t', 'a', 'g', ' ']

/-- `"tagger "`. -/
def taggerKey : List Char := ['t', 'a', 'g', 'g', 'e', 'r', ' ']

/-- A header line of `Tag::parse`: `object` takes a hash in hex, `type` an
object type, `tag` and `tagger` the rest of the line. -/
def Tag.header (f : Tag.Fields) (line : List Char) : Except String Tag.Fields :=
  match stripPrefix objectKey line with
  | some rest => do
    let sha ← okOr (Sha1.fromHex rest) "invalid object SHA"
    pure { f with object := some sha }
  | none =>
    match stripPrefix typeKey line with
    | some rest => do
      let t ← okOr (ObjectType.fromStr rest) "invalid object type in tag"
      pure { f with objectType := some t }
    | none =>
      match stripPrefix tagKey line with
      | some rest => pure { f with tag := rest }
      | none =>
        match stripPrefix taggerKey line with
        | some rest => pure { f with tagger := rest }
        | none => pure f

/-- `Tag::parse`. -/
def Tag.parse (data : List Nat) : Except String Tag := do
  let text ← okOr (utf8Decode data) "tag not valid UTF-8"
  let scan ← scanLines Tag.header ⟨none, none, [], []⟩ text
  let object ← okOr scan.headers.object "tag missing object"
  let objectType ← okOr scan.headers.objectType "tag missing type"
  pure ⟨object, objectType, scan.headers.tag, scan.headers.tagger, scan.message⟩

/-- The header lines `Tag::serialize` writes, each before its newline. -/
def Tag.headerLines (t : Tag) : List (List Char) :=
  [objectKey ++ Sha1.toHex t.object, typeKey ++ t.objectType.asStr, tagKey ++ t.tag, taggerKey ++ t.tagger]

/-- `Tag::serialize`: the header lines, a blank line and the message. -/
def Tag.serialize (t : Tag) : List Nat :=
  asBytes (t.headerLines.flatMap (· ++ ['\n']) ++ '\n' :: t.message)

/-- What `Tag::serialize` needs of a tag for `Tag::parse` to read it back. -/
structure Tag.Encodable (t : Tag) : Prop where
  object : Sha1.IsHash t.object
  tag : OneLine t.tag
  tagger : OneLine t.tagger
  message : MessageText t.message

instance : DecidablePred Tag.Encodable := fun t =>
  decidable_of_iff (Sha1.IsHash t.object ∧ OneLine t.tag ∧ OneLine t.tagger ∧ MessageText t.message)
    ⟨fun ⟨h1, h2, h3, h4⟩ => ⟨h1, h2, h3, h4⟩, fun h => ⟨h.object, h.tag, h.tagger, h.message⟩⟩

section TagHeader

variable (f : Tag.Fields)

theorem Tag.header_object {sha : Sha1Hash} (h : Sha1.IsHash sha) :
    Tag.header f (objectKey ++ Sha1.toHex sha) = .ok { f with object := some sha } := by
  simp [Tag.header, stripPrefix_append, Sha1.fromHex_toHex h]

theorem Tag.header_type (t : ObjectType) : Tag.header f (typeKey ++ t.asStr) = .ok { f with objectType := some t } := by
  have hobject : stripPrefix objectKey (typeKey ++ t.asStr) = none := stripPrefix_append_eq_none (by decide) (by decide) _
  simp [Tag.header, hobject, stripPrefix_append]

theorem Tag.header_tag (v : List Char) : Tag.header f (tagKey ++ v) = .ok { f with tag := v } := by
  have hobject : stripPrefix objectKey (tagKey ++ v) = none :=
    stripPrefix_append_eq_none (by decide) (by decide) _
  have htype : stripPrefix typeKey (tagKey ++ v) = none := stripPrefix_append_eq_none (by decide) (by decide) _
  simp [Tag.header, hobject, htype, stripPrefix_append]

/-- A `tagger` line is not a `tag` line: `"tag "` has a space where
`"tagger "` has its second `g`. -/
theorem Tag.header_tagger (v : List Char) : Tag.header f (taggerKey ++ v) = .ok { f with tagger := v } := by
  have hobject : stripPrefix objectKey (taggerKey ++ v) = none := stripPrefix_append_eq_none (by decide) (by decide) _
  have htype : stripPrefix typeKey (taggerKey ++ v) = none := stripPrefix_append_eq_none (by decide) (by decide) _
  have htag : stripPrefix tagKey (taggerKey ++ v) = none := stripPrefix_append_eq_none (by decide) (by decide) _
  simp [Tag.header, hobject, htype, htag, stripPrefix_append]

end TagHeader

/-- The header lines of a tag read back its fields. -/
theorem Tag.foldlM_headerLines {t : Tag} (ht : t.Encodable) :
    t.headerLines.foldlM Tag.header ⟨none, none, [], []⟩ = .ok ⟨some t.object, some t.objectType, t.tag, t.tagger⟩ := by
  rw [Tag.headerLines, List.foldlM_cons, Tag.header_object _ ht.object, ok_bind, List.foldlM_cons, Tag.header_type,
    ok_bind, List.foldlM_cons, Tag.header_tag, ok_bind, List.foldlM_cons, Tag.header_tagger, ok_bind]
  rfl

theorem Tag.headerLines_oneLine {t : Tag} (ht : t.Encodable) : ∀ l ∈ t.headerLines, l ≠ [] ∧ OneLine l := by
  have htype : OneLine t.objectType.asStr := oneLine_of_plain fun _ hc => plain_of_mem_asStr hc
  intro l hl
  simp only [Tag.headerLines, List.mem_cons, List.not_mem_nil, or_false] at hl
  rcases hl with rfl | rfl | rfl | rfl
  · exact headerLine_oneLine (by decide) (by decide) (oneLine_toHex t.object)
  · exact headerLine_oneLine (by decide) (by decide) htype
  · exact headerLine_oneLine (by decide) (by decide) ht.tag
  · exact headerLine_oneLine (by decide) (by decide) ht.tagger

/-- `Tag::parse` reads back what `Tag::serialize` writes. -/
theorem Tag.parse_serialize {t : Tag} (ht : t.Encodable) : Tag.parse t.serialize = .ok t := by
  rw [Tag.parse, Tag.serialize, utf8Decode_asBytes, okOr_some, ok_bind,
    scanLines_headers Tag.header (Tag.headerLines_oneLine ht) (Tag.foldlM_headerLines ht) ht.message]
  rfl

/-! ## Objects -/

/-- `Object`. -/
inductive Object
  | blob (data : List Nat)
  | tree (tree : Tree)
  | commit (commit : Commit)
  | tag (tag : Tag)
  deriving DecidableEq, Repr

/-- `Object::object_type`. -/
def Object.objectType : Object → ObjectType
  | .blob _ => .blob
  | .tree _ => .tree
  | .commit _ => .commit
  | .tag _ => .tag

/-- `Object::parse_content`. -/
def Object.parseContent (objType : ObjectType) (content : List Nat) : Except String Object :=
  match objType with
  | .blob => .ok (.blob content)
  | .tree => Object.tree <$> Tree.parse content
  | .commit => Object.commit <$> Commit.parse content
  | .tag => Object.tag <$> Tag.parse content

/-- `Object::parse`: the header up to the first NUL, split at spaces into the
type and the size, `str::parse::<usize>`; the content after the NUL must be
that long. -/
def Object.parse (data : List Nat) : Except String Object := do
  let nullPos ← okOr (data.findIdx? (· == 0)) "missing null byte in header"
  let header ← okOr (utf8Decode (data.take nullPos)) "invalid UTF-8 in header"
  let parts := header.splitOn ' '
  let typeStr ← okOr parts[0]? "missing type in header"
  let sizeStr ← okOr parts[1]? "missing size in header"
  let objType ← okOr (ObjectType.fromStr typeStr) "unknown object type"
  let size ← okOr (fromStrRadix 10 64 sizeStr) "invalid size in header"
  let content := data.drop (nullPos + 1)
  if content.length ≠ size then .error "size mismatch"
  else Object.parseContent objType content

/-- `Object::serialize_content`. -/
def Object.serializeContent : Object → List Nat
  | .blob data => data
  | .tree t => t.serialize
  | .commit c => c.serialize
  | .tag t => t.serialize

/-- `Object::serialize`: `format!("{} {}\0", type, len)` and the content. -/
def Object.serialize (o : Object) : List Nat :=
  let content := o.serializeContent
  asBytes (o.objectType.asStr ++ ' ' :: Nat.toDigits 10 content.length ++ ['\x00']) ++ content

/-- What `Object::serialize` needs of an object's content for
`Object::parse_content` to read it back. -/
def Object.Encodable : Object → Prop
  | .blob _ => True
  | .tree t => ∀ e ∈ t.entries, e.Encodable
  | .commit c => c.Encodable
  | .tag t => t.Encodable

instance : DecidablePred Object.Encodable
  | .blob _ => inferInstanceAs (Decidable True)
  | .tree t => inferInstanceAs (Decidable (∀ e ∈ t.entries, e.Encodable))
  | .commit c => inferInstanceAs (Decidable c.Encodable)
  | .tag t => inferInstanceAs (Decidable t.Encodable)

theorem Object.parseContent_serializeContent {o : Object} (ho : o.Encodable) :
    Object.parseContent o.objectType o.serializeContent = .ok o := by
  cases o with
  | blob data => rfl
  | tree t => rw [Object.objectType, Object.serializeContent, Object.parseContent, Tree.parse_serialize ho, map_ok]
  | commit c => rw [Object.objectType, Object.serializeContent, Object.parseContent, Commit.parse_serialize ho, map_ok]
  | tag t => rw [Object.objectType, Object.serializeContent, Object.parseContent, Tag.parse_serialize ho, map_ok]

/-- `Object::parse` reads the header `Object::serialize` writes and hands
the content after it to `parse_content`. -/
theorem Object.parse_header (t : ObjectType) {content : List Nat} (hlen : content.length < 2 ^ 64) :
    Object.parse (asBytes (t.asStr ++ ' ' :: Nat.toDigits 10 content.length ++ ['\x00']) ++ content) =
      Object.parseContent t content := by
  have htype : ∀ c ∈ t.asStr, Plain c := fun _ hc => plain_of_mem_asStr hc
  have hdigits : ∀ c ∈ Nat.toDigits 10 content.length, Plain c := fun _ hc =>
    plain_of_mem_toDigits (by norm_num) (by norm_num) hc
  -- the header holds no NUL: its type and digits are plain, and a space is none
  have hnul : ∀ b ∈ asBytes (t.asStr ++ ' ' :: Nat.toDigits 10 content.length), (b == 0) = false := by
    intro b hb
    have hne : b ≠ 0 := by
      rintro rfl
      rcases List.mem_append.mp (zero_mem_asBytes.mp hb) with h | h
      · exact (htype _ h).2.2.1 rfl
      · rcases List.mem_cons.mp h with h | h
        · cases h
        · exact (hdigits _ h).2.2.1 rfl
    simpa using hne
  have hshape : asBytes (t.asStr ++ ' ' :: Nat.toDigits 10 content.length ++ ['\x00']) ++ content =
      asBytes (t.asStr ++ ' ' :: Nat.toDigits 10 content.length) ++ 0 :: content := by
    rw [asBytes_append, List.append_assoc]
    rfl
  -- neither the type nor the digits hold a space, so the split gives the two
  have hsplit : (t.asStr ++ ' ' :: Nat.toDigits 10 content.length).splitOn ' ' =
      [t.asStr, Nat.toDigits 10 content.length] := by
    rw [List.splitOn_append_cons_self_of_not_mem (fun h => (htype _ h).2.1 rfl),
      List.splitOn_eq_singleton (fun h => (hdigits _ h).2.1 rfl)]
  rw [hshape, Object.parse]
  simp only [findIdx?_append_cons hnul (show (0 == 0) = true from rfl), take_append_cons, drop_append_cons,
    okOr_some, ok_bind, utf8Decode_asBytes, hsplit, List.getElem?_cons_zero, List.getElem?_cons_succ,
    ObjectType.fromStr_asStr, fromStrRadix_toDigits (show 1 < 10 by norm_num) (by norm_num) hlen, ne_eq, not_true_eq_false,
    if_false]

/-- `Object::parse` reads back what `Object::serialize` writes, whenever its
content can be read back and its length is a `usize`. -/
theorem Object.parse_serialize {o : Object} (ho : o.Encodable) (hlen : o.serializeContent.length < 2 ^ 64) :
    Object.parse o.serialize = .ok o := by
  rw [Object.serialize, Object.parse_header o.objectType hlen, Object.parseContent_serializeContent ho]

/- `blob 1\0a`, and a size that does not match the content. -/
example : Object.parse [0x62, 0x6c, 0x6f, 0x62, 0x20, 0x31, 0x00, 0x61] = .ok (.blob [0x61]) := by decide

example : Object.parse [0x62, 0x6c, 0x6f, 0x62, 0x20, 0x32, 0x00, 0x61] = .error "size mismatch" := by decide

/-- `write_content` files an object under the hash of what `Object::serialize`
writes of it. -/
theorem contentHash_eq_serialize (sha1 : List Nat → Sha1Hash) (o : Object) :
    contentHash sha1 o.objectType o.serializeContent = sha1 o.serialize := by
  have hascii : ∀ c ∈ o.objectType.asStr ++ ' ' :: Nat.toDigits 10 o.serializeContent.length ++ ['\x00'],
      c.toNat < 0x80 := by
    intro c hc
    simp only [List.mem_append, List.mem_cons, List.not_mem_nil, or_false] at hc
    rcases hc with (h | rfl | h) | rfl
    · exact (plain_of_mem_asStr h).1
    · decide
    · exact (plain_of_mem_toDigits (by norm_num) (by norm_num) h).1
    · decide
  rw [contentHash, Object.serialize, asBytes_ascii hascii]
  simp

end Akuma.Git
