import Akuma.Git.Fetch

/-!
# Ref discovery

Before a fetch, `ProtocolClient::discover_refs` of `protocol.rs` asks the
server for `info/refs?service=git-upload-pack` and hands the body to
`parse_ref_discovery`: a pkt-line naming the service and the packet after
it, then a pkt-line for each ref, `<sha> <name>`, until a flush. The first
ref's line carries the server's capabilities after a NUL
(`pktline::parse_ref_line`, `Capabilities::parse`), and each SHA is read with
`sha1::from_hex`.

`sha1::to_hex` and `from_hex` are inverse on the twenty bytes of a hash
(`Sha1.fromHex_toHex`), `Capabilities::parse` sets exactly the capabilities
whose words it is given (`Capabilities.parse_eq`), and the loop over the
refs is stated for the two lines an advertisement has (`parseRefs_of_flush`,
`parseRefs_of_ref`). So an advertisement as a server writes it, for refs
whose names hold no NUL and do not end in a newline, is parsed back to those
refs, in order, with the capabilities of its first line
(`parseRefDiscovery_advertisement`), and every ref discovery hands on holds
a hash of twenty bytes (`parseRefDiscovery_isHash`). The HTTP request itself
is left out: the model starts from the body of the response.
-/

namespace Akuma.Git

open RustStr

/-! ## SHA-1 in hexadecimal -/

namespace Sha1

/-- A `Sha1Hash` as the source types it, `[u8; 20]`. -/
def IsHash (hash : Sha1Hash) : Prop := hash.length = 20 ∧ ∀ b ∈ hash, b < 256

/-- `HEX_CHARS` of `sha1.rs`. -/
def hexChars : List Char :=
  ['0', '1', '2', '3', '4', '5', '6', '7', '8', '9', 'a', 'b', 'c', 'd', 'e', 'f']

/-- `sha1::to_hex`: two lowercase digits a byte, the high half first. -/
def toHex (hash : Sha1Hash) : List Char :=
  hash.flatMap fun byte => [hexChars.getD (byte >>> 4) '0', hexChars.getD (byte &&& 0x0f) '0']

/-- `hex_digit` of `sha1.rs`: the same three ranges as a digit of
`parse_hex_u16`. -/
def hexDigit (c : Nat) : Option Nat := Akuma.Git.hexDigit c

/-- `sha1::from_hex`: forty octets, each a digit in either case, two to a
byte. A high digit is below 16, so `high << 4` does not overflow the `u8`. -/
def fromHex (hex : List Char) : Option Sha1Hash :=
  if (asBytes hex).length ≠ 40 then none
  else
    let bytes := asBytes hex
    (List.range 20).mapM fun i => do
      let high ← hexDigit (bytes.getD (i * 2) 0)
      let low ← hexDigit (bytes.getD (i * 2 + 1) 0)
      pure (high <<< 4 ||| low)

/-- The digits of `sha1.rs` are those of `pktline.rs`, as characters. -/
theorem hexChars_getD {i : Nat} (hi : i < 16) : hexChars.getD i '0' = Char.ofNat (hexChar i) ∧
    (hexChars.getD i '0').toNat = hexChar i := by
  have key : ∀ i < 16, hexChars.getD i '0' = Char.ofNat (hexChar i) ∧
      (hexChars.getD i '0').toNat = hexChar i := by decide
  exact key i hi

/-- Every character `to_hex` writes is one of `HEX_CHARS`. -/
theorem mem_toHex {hash : Sha1Hash} {c : Char} (hc : c ∈ toHex hash) : c ∈ hexChars := by
  have hdigit : ∀ i, hexChars.getD i '0' ∈ hexChars := by
    intro i
    by_cases hi : i < hexChars.length
    · rw [List.getD_eq_getElem _ _ hi]
      exact List.getElem_mem hi
    · rw [List.getD_eq_default _ _ (by omega)]
      decide
  simp only [toHex, List.mem_flatMap, List.mem_cons, List.not_mem_nil, or_false] at hc
  obtain ⟨byte, -, rfl | rfl⟩ := hc <;> exact hdigit _

/-- A digit of `to_hex` is ASCII and none of the characters a ref line is
cut at. -/
theorem toHex_ne {hash : Sha1Hash} {c : Char} (hc : c ∈ toHex hash) :
    c ≠ '\x00' ∧ c ≠ ' ' ∧ c.toNat < 0x80 := by
  have key : hexChars.all (fun c => decide (c ≠ '\x00' ∧ c ≠ ' ' ∧ c.toNat < 0x80)) = true := by decide
  simpa using List.all_eq_true.mp key c (mem_toHex hc)

theorem high_lt {byte : Nat} (h : byte < 256) : byte >>> 4 < 16 := by
  rw [Nat.shiftRight_eq_div_pow]
  omega

/-- The octets of `to_hex`: the two digits of `HEX_CHARS` for each byte. -/
theorem asBytes_toHex {hash : Sha1Hash} (h : ∀ b ∈ hash, b < 256) :
    asBytes (toHex hash) = hash.flatMap fun byte => [hexChar (byte >>> 4), hexChar (byte &&& 0x0f)] := by
  rw [asBytes_ascii (fun c hc => (toHex_ne hc).2.2), toHex, List.map_flatMap]
  refine List.flatMap_congr fun byte hb => ?_
  simp only [List.map_cons, List.map_nil, (hexChars_getD (high_lt (h byte hb))).2,
    (hexChars_getD (and_0xf_lt byte)).2]

/-- The two digits of a byte, at twice its place. -/
theorem getD_flatMap_pair (x y : Nat → Nat) :
    ∀ (l : List Nat) (i : Nat), i < l.length →
      (l.flatMap fun b => [x b, y b]).getD (i * 2) 0 = x (l.getD i 0) ∧
        (l.flatMap fun b => [x b, y b]).getD (i * 2 + 1) 0 = y (l.getD i 0)
  | [], _, h => absurd h (Nat.not_lt_zero _)
  | b :: l, 0, _ => by simp
  | b :: l, i + 1, h => by
    have ih := getD_flatMap_pair x y l i (by simpa using h)
    simp only [List.flatMap_cons, List.getD_cons_succ]
    rw [show (i + 1) * 2 = i * 2 + 2 by omega, show i * 2 + 1 + 2 = (i * 2 + 1) + 2 by omega]
    simpa using ih

/-- A byte is its high digit shifted back over its low one. -/
theorem high_or_low (byte : Nat) : byte >>> 4 <<< 4 ||| byte &&& 0x0f = byte := by
  rw [← Nat.shiftLeft_add_eq_or_of_lt (and_0xf_lt byte), Nat.shiftLeft_eq, Nat.shiftRight_eq_div_pow, and_0xf]
  omega

theorem mapM_eq_some_map {f : Nat → Option Nat} {g : Nat → Nat} :
    ∀ l : List Nat, (∀ i ∈ l, f i = some (g i)) → l.mapM f = some (l.map g)
  | [], _ => rfl
  | i :: l, h => by
    rw [List.mapM_cons, h i List.mem_cons_self, mapM_eq_some_map l (fun j hj => h j (List.mem_cons_of_mem i hj))]
    rfl

/-- `from_hex` reads back what `to_hex` writes. -/
theorem fromHex_toHex {hash : Sha1Hash} (hhash : IsHash hash) : fromHex (toHex hash) = some hash := by
  obtain ⟨hlen, hbytes⟩ := hhash
  have hoctets := asBytes_toHex hbytes
  have hlen40 : (asBytes (toHex hash)).length = 40 := by
    rw [hoctets, List.length_flatMap]
    simp [hlen]
  rw [fromHex, if_neg (by omega)]
  dsimp only
  -- byte `i` is read from octets `2i` and `2i + 1`
  have hread : ∀ i ∈ List.range 20,
      (do
        let high ← hexDigit ((asBytes (toHex hash)).getD (i * 2) 0)
        let low ← hexDigit ((asBytes (toHex hash)).getD (i * 2 + 1) 0)
        pure (high <<< 4 ||| low) : Option Nat) = some (hash.getD i 0) := by
    intro i hi
    have hi' : i < hash.length := by rw [hlen]; exact List.mem_range.mp hi
    have hb : hash.getD i 0 < 256 := hbytes _ (by rw [List.getD_eq_getElem _ _ hi']; exact List.getElem_mem hi')
    obtain ⟨hhigh, hlow⟩ := getD_flatMap_pair (fun b => hexChar (b >>> 4)) (fun b => hexChar (b &&& 0x0f)) hash i hi'
    rw [hoctets, hhigh, hlow, hexDigit, hexDigit, (hexChar_props (high_lt hb)).2.2.1,
      (hexChar_props (and_0xf_lt _)).2.2.1]
    simp only [Option.bind_eq_bind, Option.bind_some, Option.pure_def]
    rw [high_or_low]
  rw [mapM_eq_some_map _ hread]
  congr 1
  apply List.ext_getElem (by simp [hlen])
  intro i h₁ h₂
  rw [List.getElem_map, List.getElem_range, List.getD_eq_getElem _ _ h₂]

theorem mapM_eq_some_elim {f : Nat → Option Nat} :
    ∀ {l r : List Nat}, l.mapM f = some r → r.length = l.length ∧ ∀ y ∈ r, ∃ x ∈ l, f x = some y
  | [], r, h => by
    cases h
    simp
  | x :: l, r, h => by
    simp only [List.mapM_cons, Option.bind_eq_bind, Option.bind_eq_some_iff, Option.pure_def,
      Option.some.injEq] at h
    obtain ⟨y, hy, ys, hys, rfl⟩ := h
    obtain ⟨hlen, hmem⟩ := mapM_eq_some_elim hys
    refine ⟨by simp [hlen], fun z hz => ?_⟩
    rcases List.mem_cons.mp hz with rfl | hz
    · exact ⟨x, List.mem_cons_self, hy⟩
    · obtain ⟨w, hw, hfw⟩ := hmem z hz
      exact ⟨w, List.mem_cons_of_mem x hw, hfw⟩

theorem hexDigit_lt {b v : Nat} (h : hexDigit b = some v) : v < 16 := by
  unfold hexDigit Akuma.Git.hexDigit at h
  split_ifs at h <;> cases h <;> omega

/-- What `from_hex` gives is a hash of twenty bytes. -/
theorem fromHex_isHash {hex : List Char} {hash : Sha1Hash} (h : fromHex hex = some hash) : IsHash hash := by
  unfold fromHex at h
  split_ifs at h
  obtain ⟨hlen, hmem⟩ := mapM_eq_some_elim h
  refine ⟨by simpa using hlen, fun b hb => ?_⟩
  obtain ⟨i, -, hi⟩ := hmem b hb
  simp only [Option.bind_eq_bind, Option.bind_eq_some_iff, Option.pure_def, Option.some.injEq] at hi
  obtain ⟨high, hhigh, low, hlow, rfl⟩ := hi
  have hh := hexDigit_lt hhigh
  have hl := hexDigit_lt hlow
  -- the high digit takes the four bits above the low one
  rw [← Nat.shiftLeft_add_eq_or_of_lt (show low < 2 ^ 4 by omega), Nat.shiftLeft_eq]
  omega

end Sha1

/-! ## Ref lines and capabilities -/

/-- `RemoteRef`. -/
structure RemoteRef where
  sha : Sha1Hash
  name : List Char
  deriving DecidableEq, Repr

/-- `Capabilities` as `Capabilities::parse` fills it: the two fields the
download reads, and `ofs_delta`, which the request reads. `multi_ack`,
`thin_pack`, `shallow`, `no_progress` and `include_tag` are set but read by
nothing, and are left out. -/
structure ServerCapabilities extends Capabilities where
  ofsDelta : Bool
  deriving DecidableEq, Repr

/-- `Capabilities::default()`: nothing advertised. -/
def ServerCapabilities.default : ServerCapabilities := ⟨⟨false, false⟩, false⟩

/-- The `match` in the loop of `Capabilities::parse`: a word that names a
capability sets it. -/
def Capabilities.parseCap (caps : ServerCapabilities) (cap : List Char) : ServerCapabilities :=
  if cap = "side-band".toList then { caps with sideBand := true }
  else if cap = "side-band-64k".toList then { caps with sideBand64k := true }
  else if cap = "ofs-delta".toList then { caps with ofsDelta := true }
  else caps

/-- `Capabilities::parse`: the words between spaces, each in turn. -/
def Capabilities.parse (capsStr : List Char) : ServerCapabilities :=
  (capsStr.splitOn ' ').foldl Capabilities.parseCap ServerCapabilities.default

/-- The loop over the words sets a capability when one of them names it,
whatever it started from. -/
theorem Capabilities.foldl_parseCap :
    ∀ (words : List (List Char)) (init : ServerCapabilities),
      words.foldl Capabilities.parseCap init =
        ⟨⟨init.sideBand || decide ("side-band".toList ∈ words),
          init.sideBand64k || decide ("side-band-64k".toList ∈ words)⟩,
          init.ofsDelta || decide ("ofs-delta".toList ∈ words)⟩
  | [], ⟨⟨_, _⟩, _⟩ => by simp
  | w :: words, init => by
    rw [List.foldl_cons, Capabilities.foldl_parseCap words]
    -- the three names differ, so a word sets one field at most
    have h₁ : "side-band".toList ≠ "side-band-64k".toList := by decide
    have h₂ : "side-band".toList ≠ "ofs-delta".toList := by decide
    have h₃ : "side-band-64k".toList ≠ "ofs-delta".toList := by decide
    unfold Capabilities.parseCap
    -- the names stay names: nothing below needs their letters
    generalize "side-band".toList = sb at *
    generalize "side-band-64k".toList = sb64 at *
    generalize "ofs-delta".toList = ofs at *
    split_ifs with hsb hsb64 hofs
    · subst hsb
      simp [h₁.symm, h₂.symm]
    · subst hsb64
      simp [h₁, h₃.symm]
    · subst hofs
      simp [h₂, h₃]
    · simp [Ne.symm hsb, Ne.symm hsb64, Ne.symm hofs]

/-- `Capabilities::parse` sets exactly the capabilities its words name. -/
theorem Capabilities.parse_eq (capsStr : List Char) :
    Capabilities.parse capsStr =
      ⟨⟨decide ("side-band".toList ∈ capsStr.splitOn ' '), decide ("side-band-64k".toList ∈ capsStr.splitOn ' ')⟩,
        decide ("ofs-delta".toList ∈ capsStr.splitOn ' ')⟩ := by
  rw [Capabilities.parse, Capabilities.foldl_parseCap]
  rfl

/-- `parse_ref_line`: `<sha> <ref>`, on the first line with `\0` and the
capabilities after it. -/
def parseRefLine (line : List Nat) : Option (List Char × List Char × Option (List Char)) := do
  let lineStr ← utf8Decode line
  let lineStr := trimEndMatches '\n' lineStr
  -- `find('\0')` and the slices on either side of it
  let (refPart, caps) := match splitOnce '\x00' lineStr with
    | some (before, after) => (before, some after)
    | none => (lineStr, none)
  -- `splitn(2, ' ')`: a first part is always there, a second only after a space
  let (sha, refName) ← splitOnce ' ' refPart
  pure (sha, refName, caps)

/-- The loop of `parse_ref_discovery` over what follows the service line and
the packet after it, a line at a time until a flush or the end. A line that
is not a ref is skipped; the first ref brings the capabilities. -/
def parseRefs (firstRef : Bool) (refs : List RemoteRef) (capabilities : ServerCapabilities)
    (rest : List Nat) : Except String (List RemoteRef × ServerCapabilities) :=
  if rest = [] then .ok (refs, capabilities)
  else
    match _h : readPktLine rest with
    | .error e => .error e
    | .ok (none, _) => .ok (refs, capabilities)
    | .ok (some line, consumed) =>
      match parseRefLine line with
      | none => parseRefs firstRef refs capabilities (rest.drop consumed)
      | some (shaHex, refName, capsOpt) =>
        match Sha1.fromHex shaHex with
        | none => .error "invalid ref SHA"
        | some sha =>
          let capabilities := if firstRef then
              (match capsOpt with
              | some capsStr => Capabilities.parse capsStr
              | none => capabilities)
            else capabilities
          parseRefs false (refs ++ [⟨sha, refName⟩]) capabilities (rest.drop consumed)
termination_by rest.length
decreasing_by
  all_goals
    have hconsumed := readPktLine_consumed _h
    simp only [List.length_drop]
    omega

/-- `parse_ref_discovery`. The packet after the service line is skipped,
whatever it is. -/
def parseRefDiscovery (data : List Nat) : Except String (List RemoteRef × ServerCapabilities) := do
  let (firstLine, consumed) ← readPktLine data
  match firstLine with
  | some line =>
    match utf8Decode line with
    | none => throw "invalid service line"
    | some lineStr =>
      if !containsText "git-upload-pack".toList lineStr then throw "unexpected service" else pure ()
  | none => pure ()
  let (_, consumed') ← readPktLine (data.drop consumed)
  parseRefs true [] ServerCapabilities.default (data.drop (consumed + consumed'))

/-! ## The loop over the refs -/

section Loop

variable {firstRef : Bool} {refs : List RemoteRef} {capabilities : ServerCapabilities} {rest : List Nat}

/-- A flush, delimiter or response-end packet ends the refs; nothing after it
is read. -/
theorem parseRefs_of_flush {consumed : Nat} (h : readPktLine rest = .ok (none, consumed)) :
    parseRefs firstRef refs capabilities rest = .ok (refs, capabilities) := by
  have hne : rest ≠ [] := by
    have := readPktLine_consumed h
    exact List.ne_nil_of_length_pos (by omega)
  rw [parseRefs, if_neg hne]
  split <;> simp_all

/-- A ref line adds its ref; the first one brings its capabilities, if it has
any. -/
theorem parseRefs_of_ref {line : List Nat} {consumed : Nat} {shaHex refName : List Char}
    {capsOpt : Option (List Char)} {sha : Sha1Hash} (h : readPktLine rest = .ok (some line, consumed))
    (hline : parseRefLine line = some (shaHex, refName, capsOpt)) (hsha : Sha1.fromHex shaHex = some sha) :
    parseRefs firstRef refs capabilities rest =
      parseRefs false (refs ++ [⟨sha, refName⟩])
        (if firstRef then capsOpt.elim capabilities Capabilities.parse else capabilities) (rest.drop consumed) := by
  have hne : rest ≠ [] := by
    have := readPktLine_consumed h
    exact List.ne_nil_of_length_pos (by omega)
  rw [parseRefs, if_neg hne]
  split
  · simp_all
  · simp_all
  · rename_i line' consumed' h'
    rw [h] at h'
    cases h'
    rw [hline]
    dsimp only
    rw [hsha]
    cases capsOpt <;> rfl

/-- Every ref the loop hands on holds a hash of twenty bytes: the refs it
was given, and each SHA it read with `from_hex`. -/
theorem parseRefs_isHash {out : List RemoteRef} {caps' : ServerCapabilities}
    (h : parseRefs firstRef refs capabilities rest = .ok (out, caps')) (hrefs : ∀ r ∈ refs, Sha1.IsHash r.sha) :
    ∀ r ∈ out, Sha1.IsHash r.sha := by
  fun_induction parseRefs firstRef refs capabilities rest with
  | case1 => cases h; exact hrefs
  | case2 => cases h
  | case3 => cases h; exact hrefs
  | case4 _ _ _ _ _ _ _ _ _ ih => exact ih h hrefs
  | case5 => cases h
  | case6 _ _ _ _ _ _ _ _ _ refName _ _ sha hsha _ ih =>
    -- the ref this line adds holds what `from_hex` read
    refine ih h fun r hr => ?_
    rcases List.mem_append.mp hr with hr | hr
    · exact hrefs r hr
    · rw [List.mem_singleton.mp hr]
      exact Sha1.fromHex_isHash hsha

end Loop

/-! ## What a server advertises -/

/-- `# service=git-upload-pack` and a newline, the line a server starts its
advertisement with. -/
def serviceLine : List Char :=
  ['#', ' ', 's', 'e', 'r', 'v', 'i', 'c', 'e', '=', 'g', 'i', 't', '-', 'u', 'p', 'l', 'o', 'a', 'd', '-', 'p', 'a',
    'c', 'k', '\n']

/-- The capabilities on a ref's line, after a NUL, if the line has them. -/
def capsPart : Option (List Char) → List Char
  | some c => '\x00' :: c
  | none => []

/-- The text of a ref's line as a server writes it: the SHA in hex, a space,
the name, on the first line a NUL and the capabilities, and a newline. -/
def refLineText (r : RemoteRef) (caps : Option (List Char)) : List Char :=
  Sha1.toHex r.sha ++ ' ' :: r.name ++ capsPart caps ++ ['\n']

/-- The ref lines of an advertisement, the capabilities on the first. -/
def advertisedRefs (caps : List Char) : List RemoteRef → List Nat
  | [] => []
  | r :: rest => writePktLine (asBytes (refLineText r (some caps))) ++
      (rest.map fun r => writePktLine (asBytes (refLineText r none))).flatten

/-- The body a server answers `info/refs?service=git-upload-pack` with: the
service line and a flush, the ref lines and a flush. -/
def advertisement (refs : List RemoteRef) (caps : List Char) : List Nat :=
  writePktLine (asBytes serviceLine) ++ writeFlush ++ advertisedRefs caps refs ++ writeFlush

/-- A ref a server can advertise with capabilities `caps`: a hash of twenty
bytes, a name with no NUL that does not end in a newline, and a line, with
the capabilities, that fits its four digits. -/
structure RemoteRef.Advertisable (caps : List Char) (r : RemoteRef) : Prop where
  sha : Sha1.IsHash r.sha
  name_nul : '\x00' ∉ r.name
  name_last : r.name.getLast? ≠ some '\n'
  fits : (asBytes (refLineText r (some caps))).length + 4 < 2 ^ 16

/-- A line without the capabilities is no longer than with them. -/
theorem length_refLineText_none_le (r : RemoteRef) (caps : List Char) :
    (asBytes (refLineText r none)).length ≤ (asBytes (refLineText r (some caps))).length := by
  simp only [refLineText, capsPart, asBytes_append, List.length_append]
  have hnil : asBytes [] = [] := rfl
  rw [hnil, List.length_nil]
  omega

/-- The last character before the newline is not one. -/
theorem getLast_refLineText_ne {r : RemoteRef} (hname : r.name.getLast? ≠ some '\n')
    {capsOpt : Option (List Char)} (hcaps : ∀ c ∈ capsOpt, c.getLast? ≠ some '\n') :
    (Sha1.toHex r.sha ++ ' ' :: r.name ++ capsPart capsOpt).getLast? ≠ some '\n' := by
  cases capsOpt with
  | none =>
    rw [capsPart, List.append_nil, List.getLast?_append, List.getLast?_cons]
    cases h : r.name.getLast? with
    | none => simp
    | some x => simpa [h] using hname
  | some c =>
    have hc := hcaps c rfl
    rw [capsPart, List.getLast?_append, List.getLast?_cons]
    cases h : c.getLast? with
    | none => simp
    | some x => simpa [h] using hc

/-- `parse_ref_line` reads a ref's line back: its SHA in hex, its name, and
the capabilities the line carries. -/
theorem parseRefLine_refLineText {caps : List Char} {r : RemoteRef} (hr : r.Advertisable caps)
    {capsOpt : Option (List Char)} (hcaps : ∀ c ∈ capsOpt, c.getLast? ≠ some '\n') :
    parseRefLine (asBytes (refLineText r capsOpt)) = some (Sha1.toHex r.sha, r.name, capsOpt) := by
  have htrim : trimEndMatches '\n' (refLineText r capsOpt) = Sha1.toHex r.sha ++ ' ' :: r.name ++ capsPart capsOpt := by
    rw [refLineText, trimEndMatches_append_self, trimEndMatches_of_getLast (getLast_refLineText_ne hr.name_last hcaps)]
  -- neither the digits nor the space before the name is a NUL or a space
  have hnul : '\x00' ∉ Sha1.toHex r.sha ++ ' ' :: r.name := by
    simp only [List.mem_append, List.mem_cons, not_or]
    exact ⟨fun h => (Sha1.toHex_ne h).1 rfl, by decide, hr.name_nul⟩
  have hspace : ' ' ∉ Sha1.toHex r.sha := fun h => (Sha1.toHex_ne h).2.1 rfl
  simp only [parseRefLine, utf8Decode_asBytes, Option.bind_eq_bind, Option.bind_some, htrim]
  cases capsOpt with
  | none =>
    rw [capsPart, List.append_nil, splitOnce_of_not_mem _ hnul]
    dsimp only
    rw [splitOnce_append_cons _ hspace]
    rfl
  | some c =>
    rw [capsPart, splitOnce_append_cons _ hnul]
    dsimp only
    rw [splitOnce_append_cons _ hspace]
    rfl

/-- The lines of the refs after the first, and the flush after them, add
those refs and nothing else. -/
theorem parseRefs_refLines {caps : List Char} (hcaps : caps.getLast? ≠ some '\n') :
    ∀ (rs : List RemoteRef), (∀ r ∈ rs, r.Advertisable caps) →
      ∀ (refs : List RemoteRef) (capabilities : ServerCapabilities) (more : List Nat),
        parseRefs false refs capabilities
            ((rs.map fun r => writePktLine (asBytes (refLineText r none))).flatten ++ flushPkt ++ more) =
          .ok (refs ++ rs, capabilities)
  | [], _, refs, capabilities, more => by
    rw [List.map_nil, List.flatten_nil, List.nil_append, List.append_nil]
    exact parseRefs_of_flush (readPktLine_flush more)
  | r :: rs, hrs, refs, capabilities, more => by
    have hr := hrs r List.mem_cons_self
    have hfit : (asBytes (refLineText r none)).length + 4 < 2 ^ 16 :=
      Nat.lt_of_le_of_lt (Nat.add_le_add_right (length_refLineText_none_le r caps) 4) hr.fits
    have hread := readPktLine_writePktLine hfit
      ((rs.map fun r => writePktLine (asBytes (refLineText r none))).flatten ++ flushPkt ++ more)
    simp only [List.map_cons, List.flatten_cons, List.append_assoc] at hread ⊢
    rw [parseRefs_of_ref hread (parseRefLine_refLineText hr (by simp))
      (Sha1.fromHex_toHex hr.sha), if_neg Bool.false_ne_true]
    have hdrop : (writePktLine (asBytes (refLineText r none)) ++
        ((rs.map fun r => writePktLine (asBytes (refLineText r none))).flatten ++ (flushPkt ++ more))).drop
          ((asBytes (refLineText r none)).length + 4) =
        (rs.map fun r => writePktLine (asBytes (refLineText r none))).flatten ++ (flushPkt ++ more) :=
      List.drop_left' (by simp [writePktLine, pktLenHex])
    rw [hdrop, ← List.append_assoc, parseRefs_refLines hcaps rs (fun r hr => hrs r (List.mem_cons_of_mem _ hr)),
      List.append_assoc, List.singleton_append]

/-- The loop reads the refs of an advertisement, the capabilities from the
first. -/
theorem parseRefs_advertisedRefs {refs : List RemoteRef} {caps : List Char}
    (hrefs : ∀ r ∈ refs, r.Advertisable caps) (hcaps : caps.getLast? ≠ some '\n') (more : List Nat) :
    parseRefs true [] ServerCapabilities.default (advertisedRefs caps refs ++ (flushPkt ++ more)) =
      .ok (refs, if refs = [] then ServerCapabilities.default else Capabilities.parse caps) := by
  cases refs with
  | nil => exact parseRefs_of_flush (readPktLine_flush more)
  | cons r rs =>
    have hr := hrefs r List.mem_cons_self
    have hread := readPktLine_writePktLine hr.fits
      ((rs.map fun r => writePktLine (asBytes (refLineText r none))).flatten ++ (flushPkt ++ more))
    have hlen : (writePktLine (asBytes (refLineText r (some caps)))).length =
        (asBytes (refLineText r (some caps))).length + 4 := by
      simp [writePktLine, pktLenHex]
    rw [advertisedRefs, List.append_assoc] at *
    rw [parseRefs_of_ref hread (parseRefLine_refLineText hr (fun c hc => by cases hc; exact hcaps))
      (Sha1.fromHex_toHex hr.sha), if_pos rfl, List.drop_left' hlen, ← List.append_assoc,
      parseRefs_refLines hcaps rs (fun r hr => hrefs r (List.mem_cons_of_mem _ hr)), if_neg (List.cons_ne_nil r rs)]
    rfl

/-- `parse_ref_discovery` reads back an advertisement as a server writes it,
whatever follows it: the refs, in order, with the capabilities of the first
ref's line, or none when there is no ref. -/
theorem parseRefDiscovery_advertisement {refs : List RemoteRef} {caps : List Char}
    (hrefs : ∀ r ∈ refs, r.Advertisable caps) (hcaps : caps.getLast? ≠ some '\n') (rest : List Nat) :
    parseRefDiscovery (advertisement refs caps ++ rest) =
      .ok (refs, if refs = [] then ServerCapabilities.default else Capabilities.parse caps) := by
  have hascii : serviceLine.all (fun c => decide (c.toNat < 0x80)) = true := by decide
  have hservice : asBytes serviceLine = serviceLine.map Char.toNat := asBytes_ascii (by simpa using hascii)
  have hfit : (asBytes serviceLine).length + 4 < 2 ^ 16 := by
    rw [hservice, List.length_map]
    decide
  have hcontains : containsText "git-upload-pack".toList serviceLine = true := by decide
  have hread := readPktLine_writePktLine hfit (writeFlush ++ advertisedRefs caps refs ++ writeFlush ++ rest)
  simp only [advertisement, List.append_assoc] at hread ⊢
  have hlen : (writePktLine (asBytes serviceLine)).length = (asBytes serviceLine).length + 4 := by
    simp [writePktLine, pktLenHex]
  rw [parseRefDiscovery, hread]
  simp only [bind, Except.bind, utf8Decode_asBytes, hcontains, Bool.not_true]
  -- the service line names the service; the flush after it is skipped
  rw [if_neg Bool.false_ne_true, List.drop_left' hlen, writeFlush, readPktLine_flush]
  have hdrop : (writePktLine (asBytes serviceLine) ++ (flushPkt ++ (advertisedRefs caps refs ++ (flushPkt ++ rest)))).drop
      ((asBytes serviceLine).length + 4 + 4) = advertisedRefs caps refs ++ (flushPkt ++ rest) := by
    rw [← List.append_assoc]
    exact List.drop_left' (by rw [List.length_append, hlen]; rfl)
  dsimp only
  rw [hdrop]
  exact parseRefs_advertisedRefs hrefs hcaps rest

/-- A discovery that succeeds is the loop's, from no refs and no
capabilities. -/
theorem parseRefDiscovery_eq_ok {data : List Nat} {refs : List RemoteRef} {caps : ServerCapabilities}
    (h : parseRefDiscovery data = .ok (refs, caps)) :
    ∃ rest, parseRefs true [] ServerCapabilities.default rest = .ok (refs, caps) := by
  unfold parseRefDiscovery at h
  simp only [bind, Except.bind] at h
  -- every branch but the loop's is an error
  repeat' split at h
  all_goals first | exact ⟨_, h⟩ | cases h

/-- Every ref discovery hands on holds a hash of twenty bytes. -/
theorem parseRefDiscovery_isHash {data : List Nat} {refs : List RemoteRef} {caps : ServerCapabilities}
    (h : parseRefDiscovery data = .ok (refs, caps)) : ∀ r ∈ refs, Sha1.IsHash r.sha := by
  obtain ⟨rest, hloop⟩ := parseRefDiscovery_eq_ok h
  exact parseRefs_isHash hloop (by simp)

end Akuma.Git
