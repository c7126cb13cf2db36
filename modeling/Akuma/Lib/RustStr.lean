import Mathlib

/-!
# What the models need of Rust's `core::str`

Text arrives as bytes. `core::str::from_utf8` accepts exactly the octet
sequences of the UTF-8 syntax of RFC 3629 section 4 and gives their
characters (`utf8Decode`), and reads back the octets a `String` holds
(`utf8Decode_asBytes`). On the characters, `str::trim` drops
`char::is_whitespace` from both ends (`trim`), `str::lines` and
`str::split_whitespace` cut a text into lines and words, `split_once` and
`trim_end_matches` cut at a character, and
`from_str_radix` reads an unsigned integer of a given width (`fromStrRadix`).

Each is written after the behaviour the Rust documentation gives, over
`List Nat` bytes and `List Char` texts; every definition computes.
-/

namespace RustStr

/-! ## `from_utf8` -/

/-- A continuation octet, `%x80-BF`. -/
def isTail (b : Nat) : Bool := 0x80 ≤ b && b ≤ 0xBF

/-- `core::str::from_utf8`: the characters of a well-formed UTF-8 sequence,
one branch per alternative of `UTF8-char`. -/
def utf8Decode : List Nat → Option (List Char)
  | [] => some []
  | a :: rest =>
    if a ≤ 0x7F then (Char.ofNat a :: ·) <$> utf8Decode rest
    else if 0xC2 ≤ a ∧ a ≤ 0xDF then
      match rest with
      | b :: rest' =>
        if isTail b then (Char.ofNat (a % 0x20 * 0x40 + b % 0x40) :: ·) <$> utf8Decode rest'
        else none
      | [] => none
    else if 0xE0 ≤ a ∧ a ≤ 0xEF then
      match rest with
      | b :: c :: rest' =>
        -- `%xE0 %xA0-BF` and `%xED %x80-9F` keep out overlong forms and surrogates
        if (if a = 0xE0 then 0xA0 else 0x80) ≤ b ∧ b ≤ (if a = 0xED then 0x9F else 0xBF) ∧ isTail c then
          (Char.ofNat (a % 0x10 * 0x1000 + b % 0x40 * 0x40 + c % 0x40) :: ·) <$> utf8Decode rest'
        else none
      | _ => none
    else if 0xF0 ≤ a ∧ a ≤ 0xF4 then
      match rest with
      | b :: c :: e :: rest' =>
        -- `%xF0 %x90-BF` and `%xF4 %x80-8F` keep the value within U+10000..U+10FFFF
        if (if a = 0xF0 then 0x90 else 0x80) ≤ b ∧ b ≤ (if a = 0xF4 then 0x8F else 0xBF) ∧
            isTail c ∧ isTail e then
          (Char.ofNat (a % 0x08 * 0x40000 + b % 0x40 * 0x1000 + c % 0x40 * 0x40 + e % 0x40) :: ·) <$>
            utf8Decode rest'
        else none
      | _ => none
    else none

/-- ASCII text decodes byte for byte. -/
theorem utf8Decode_ascii : ∀ {l : List Nat}, (∀ b ∈ l, b < 0x80) → utf8Decode l = some (l.map Char.ofNat)
  | [], _ => rfl
  | a :: rest, h => by
    have ha : a ≤ 0x7F := by have := h a List.mem_cons_self; omega
    rw [utf8Decode.eq_def]
    dsimp only
    rw [if_pos ha, utf8Decode_ascii (fun b hb => h b (List.mem_cons_of_mem a hb))]
    rfl

/-! ## `as_bytes` -/

/-- `str::as_bytes`: the octets a `String` holds its characters as. -/
def asBytes (cs : List Char) : List Nat := (cs.flatMap String.utf8EncodeChar).map UInt8.toNat

theorem asBytes_append (a b : List Char) : asBytes (a ++ b) = asBytes a ++ asBytes b := by
  simp [asBytes]

theorem asBytes_cons (c : Char) (cs : List Char) :
    asBytes (c :: cs) = (String.utf8EncodeChar c).map UInt8.toNat ++ asBytes cs := by
  simp [asBytes]

theorem toNat_ofNat_byte {n : Nat} (h : n < 256) : (UInt8.ofNat n).toNat = n :=
  UInt8.toNat_ofNat_of_lt' (show n < UInt8.size from h)

/-- An ASCII character is its own octet. -/
theorem encodeChar_ascii {c : Char} (h : c.toNat < 0x80) :
    (String.utf8EncodeChar c).map UInt8.toNat = [c.toNat] := by
  have hv : c.val.toNat = c.toNat := rfl
  simp only [String.utf8EncodeChar, hv, show c.toNat ≤ 127 by omega, if_true, List.map_cons, List.map_nil,
    toNat_ofNat_byte (show c.toNat < 256 by omega)]

theorem asBytes_ascii : ∀ {cs : List Char}, (∀ c ∈ cs, c.toNat < 0x80) → asBytes cs = cs.map Char.toNat
  | [], _ => rfl
  | c :: cs, h => by
    rw [asBytes_cons, encodeChar_ascii (h c List.mem_cons_self),
      asBytes_ascii (fun c' hc' => h c' (List.mem_cons_of_mem c hc'))]
    rfl

/-- `from_utf8` reads a character back from its octets, whatever follows:
each of the four lengths falls in its row of the syntax. -/
theorem utf8Decode_encodeChar (c : Char) (rest : List Nat) :
    utf8Decode ((String.utf8EncodeChar c).map UInt8.toNat ++ rest) = (c :: ·) <$> utf8Decode rest := by
  have hv : c.val.toNat = c.toNat := rfl
  -- a character is a scalar value: no surrogate, nothing past U+10FFFF
  have hvalid : c.toNat < 0xD800 ∨ (0xDFFF < c.toNat ∧ c.toNat < 0x110000) := c.valid
  have hc : Char.ofNat c.toNat = c := Char.ofNat_toNat c
  simp only [String.utf8EncodeChar, hv]
  split_ifs with h1 h2 h3
  · -- one octet
    simp only [List.map_cons, List.map_nil, toNat_ofNat_byte (show c.toNat < 256 by omega),
      List.cons_append, List.nil_append]
    rw [utf8Decode.eq_def]
    dsimp only
    rw [if_pos h1, hc]
  · -- two octets
    simp only [List.map_cons, List.map_nil, toNat_ofNat_byte (show c.toNat / 64 % 32 + 192 < 256 by omega),
      toNat_ofNat_byte (show c.toNat % 64 + 128 < 256 by omega), List.cons_append, List.nil_append]
    have hval : (c.toNat / 64 % 32 + 192) % 0x20 * 0x40 + (c.toNat % 64 + 128) % 0x40 = c.toNat := by omega
    rw [utf8Decode.eq_def]
    dsimp only
    rw [if_neg (by omega), if_pos (by omega), if_pos (by simp only [isTail]; simp; omega), hval, hc]
  · -- three octets; below U+0800 would be overlong, and U+D800..U+DFFF are no characters
    simp only [List.map_cons, List.map_nil, toNat_ofNat_byte (show c.toNat / 4096 % 16 + 224 < 256 by omega),
      toNat_ofNat_byte (show c.toNat / 64 % 64 + 128 < 256 by omega),
      toNat_ofNat_byte (show c.toNat % 64 + 128 < 256 by omega), List.cons_append, List.nil_append]
    have hval : (c.toNat / 4096 % 16 + 224) % 0x10 * 0x1000 + (c.toNat / 64 % 64 + 128) % 0x40 * 0x40 +
        (c.toNat % 64 + 128) % 0x40 = c.toNat := by omega
    rw [utf8Decode.eq_def]
    dsimp only
    rw [if_neg (by omega), if_neg (by omega), if_pos (by omega),
      if_pos (by simp only [isTail]; split_ifs <;> simp <;> omega), hval, hc]
  · -- four octets, from U+10000 to U+10FFFF
    simp only [List.map_cons, List.map_nil, toNat_ofNat_byte (show c.toNat / 262144 % 8 + 240 < 256 by omega),
      toNat_ofNat_byte (show c.toNat / 4096 % 64 + 128 < 256 by omega),
      toNat_ofNat_byte (show c.toNat / 64 % 64 + 128 < 256 by omega),
      toNat_ofNat_byte (show c.toNat % 64 + 128 < 256 by omega), List.cons_append, List.nil_append]
    have hval : (c.toNat / 262144 % 8 + 240) % 0x08 * 0x40000 + (c.toNat / 4096 % 64 + 128) % 0x40 * 0x1000 +
        (c.toNat / 64 % 64 + 128) % 0x40 * 0x40 + (c.toNat % 64 + 128) % 0x40 = c.toNat := by omega
    rw [utf8Decode.eq_def]
    dsimp only
    rw [if_neg (by omega), if_neg (by omega), if_neg (by omega), if_pos (by omega),
      if_pos (by simp only [isTail]; split_ifs <;> simp <;> omega), hval, hc]

/-- `from_utf8` accepts the octets of every `String` and gives back its
characters. -/
theorem utf8Decode_asBytes : ∀ cs : List Char, utf8Decode (asBytes cs) = some cs
  | [] => rfl
  | c :: cs => by
    rw [asBytes_cons, utf8Decode_encodeChar, utf8Decode_asBytes cs]
    rfl

/-- The octets of a character, by the value of its scalar. -/
theorem encodeChar_eq (c : Char) : (String.utf8EncodeChar c).map UInt8.toNat =
    if c.toNat ≤ 0x7F then [c.toNat]
    else if c.toNat ≤ 0x7FF then [c.toNat / 64 % 32 + 192, c.toNat % 64 + 128]
    else if c.toNat ≤ 0xFFFF then [c.toNat / 4096 % 16 + 224, c.toNat / 64 % 64 + 128, c.toNat % 64 + 128]
    else [c.toNat / 262144 % 8 + 240, c.toNat / 4096 % 64 + 128, c.toNat / 64 % 64 + 128, c.toNat % 64 + 128] := by
  have hv : c.val.toNat = c.toNat := rfl
  have hlt : c.toNat < 0x110000 := by have := c.valid; omega
  simp only [String.utf8EncodeChar, hv]
  split_ifs <;> simp (disch := omega) only [List.map_cons, List.map_nil, toNat_ofNat_byte]

/-- `Char.ofNat` keeps a scalar value. -/
theorem toNat_ofNat_of_valid {v : Nat} (h : v < 0xD800 ∨ (0xDFFF < v ∧ v < 0x110000)) :
    (Char.ofNat v).toNat = v := by
  rw [Char.toNat_ofNat, if_pos h]

/-- What `from_utf8` accepts is the octets of the characters it gives: it
reads no text two ways. -/
theorem asBytes_of_utf8Decode : ∀ {bs : List Nat} {cs : List Char}, utf8Decode bs = some cs → asBytes cs = bs
  | [], cs, h => by
    cases h
    rfl
  | a :: rest, cs, h => by
    rw [utf8Decode.eq_def] at h
    dsimp only at h
    -- one case per row of the syntax, as `utf8Decode` tries them
    by_cases h1 : a ≤ 0x7F
    · rw [if_pos h1] at h
      obtain ⟨cs', hrest, rfl⟩ := Option.map_eq_some_iff.mp h
      have hc : (Char.ofNat a).toNat = a := toNat_ofNat_of_valid (by omega)
      rw [asBytes_cons, encodeChar_eq, hc, if_pos h1, asBytes_of_utf8Decode hrest]
      rfl
    rw [if_neg h1] at h
    by_cases h2 : 0xC2 ≤ a ∧ a ≤ 0xDF
    · -- two octets: a value from U+0080 to U+07FF
      rw [if_pos h2] at h
      rcases rest with _ | ⟨b, rest'⟩
      · simp at h
      dsimp only at h
      by_cases hb : isTail b = true
      · rw [if_pos hb] at h
        obtain ⟨cs', hrest, rfl⟩ := Option.map_eq_some_iff.mp h
        simp only [isTail, Bool.and_eq_true, decide_eq_true_eq] at hb
        have hc : (Char.ofNat (a % 0x20 * 0x40 + b % 0x40)).toNat = a % 0x20 * 0x40 + b % 0x40 :=
          toNat_ofNat_of_valid (by omega)
        rw [asBytes_cons, encodeChar_eq, hc, if_neg (by omega), if_pos (by omega), asBytes_of_utf8Decode hrest]
        simp only [List.cons_append, List.nil_append, List.cons.injEq, and_true]
        omega
      · rw [if_neg hb] at h
        cases h
    rw [if_neg h2] at h
    by_cases h3 : 0xE0 ≤ a ∧ a ≤ 0xEF
    · -- three octets: from U+0800 to U+FFFF, past the surrogates
      rw [if_pos h3] at h
      rcases rest with _ | ⟨b, _ | ⟨c, rest'⟩⟩
      · simp at h
      · simp at h
      dsimp only at h
      by_cases hbc : (if a = 0xE0 then 0xA0 else 0x80) ≤ b ∧ b ≤ (if a = 0xED then 0x9F else 0xBF) ∧
          isTail c = true
      · rw [if_pos hbc] at h
        obtain ⟨cs', hrest, rfl⟩ := Option.map_eq_some_iff.mp h
        obtain ⟨hlo, hhi, hc⟩ := hbc
        simp only [isTail, Bool.and_eq_true, decide_eq_true_eq] at hc
        have hb : (a = 0xE0 → 0xA0 ≤ b) ∧ 0x80 ≤ b ∧ (a = 0xED → b ≤ 0x9F) ∧ b ≤ 0xBF := by
          split_ifs at hlo hhi <;> omega
        have hch : (Char.ofNat (a % 0x10 * 0x1000 + b % 0x40 * 0x40 + c % 0x40)).toNat =
            a % 0x10 * 0x1000 + b % 0x40 * 0x40 + c % 0x40 := toNat_ofNat_of_valid (by omega)
        rw [asBytes_cons, encodeChar_eq, hch, if_neg (by omega), if_neg (by omega), if_pos (by omega),
          asBytes_of_utf8Decode hrest]
        simp only [List.cons_append, List.nil_append, List.cons.injEq, and_true]
        omega
      · rw [if_neg hbc] at h
        cases h
    rw [if_neg h3] at h
    by_cases h4 : 0xF0 ≤ a ∧ a ≤ 0xF4
    · -- four octets: from U+10000 to U+10FFFF
      rw [if_pos h4] at h
      rcases rest with _ | ⟨b, _ | ⟨c, _ | ⟨e, rest'⟩⟩⟩
      · simp at h
      · simp at h
      · simp at h
      dsimp only at h
      by_cases hbce : (if a = 0xF0 then 0x90 else 0x80) ≤ b ∧ b ≤ (if a = 0xF4 then 0x8F else 0xBF) ∧
          isTail c = true ∧ isTail e = true
      · rw [if_pos hbce] at h
        obtain ⟨cs', hrest, rfl⟩ := Option.map_eq_some_iff.mp h
        obtain ⟨hlo, hhi, hc, he⟩ := hbce
        simp only [isTail, Bool.and_eq_true, decide_eq_true_eq] at hc he
        have hb : (a = 0xF0 → 0x90 ≤ b) ∧ 0x80 ≤ b ∧ (a = 0xF4 → b ≤ 0x8F) ∧ b ≤ 0xBF := by
          split_ifs at hlo hhi <;> omega
        have hch : (Char.ofNat (a % 0x08 * 0x40000 + b % 0x40 * 0x1000 + c % 0x40 * 0x40 + e % 0x40)).toNat =
            a % 0x08 * 0x40000 + b % 0x40 * 0x1000 + c % 0x40 * 0x40 + e % 0x40 := toNat_ofNat_of_valid (by omega)
        rw [asBytes_cons, encodeChar_eq, hch, if_neg (by omega), if_neg (by omega), if_neg (by omega),
          asBytes_of_utf8Decode hrest]
        simp only [List.cons_append, List.nil_append, List.cons.injEq, and_true]
        omega
      · rw [if_neg hbce] at h
        cases h
    rw [if_neg h4] at h
    cases h

/-- Only the character U+0000 has a zero octet. -/
theorem zero_mem_asBytes {cs : List Char} : 0 ∈ asBytes cs ↔ '\x00' ∈ cs := by
  have hchar : ∀ c : Char, 0 ∈ (String.utf8EncodeChar c).map UInt8.toNat ↔ c = '\x00' := by
    intro c
    rw [encodeChar_eq, ← Char.toNat_inj, show ('\x00' : Char).toNat = 0 from rfl]
    split_ifs <;> simp <;> omega
  simp only [asBytes, List.map_flatMap, List.mem_flatMap, hchar, exists_eq_right]

/-! ## `trim`, `lines`, `split_whitespace` -/

/-- `char::is_whitespace`: the characters with the Unicode property
`White_Space`. -/
def isWhitespace (c : Char) : Bool :=
  let n := c.toNat
  n == 0x20 || (0x09 ≤ n && n ≤ 0x0D) || n == 0x85 || n == 0xA0 || n == 0x1680 ||
    (0x2000 ≤ n && n ≤ 0x200A) || n == 0x2028 || n == 0x2029 || n == 0x202F || n == 0x205F ||
    n == 0x3000

/-- `str::trim`: the text without whitespace at either end. -/
def trim (cs : List Char) : List Char :=
  ((cs.dropWhile isWhitespace).reverse.dropWhile isWhitespace).reverse

/-- A text with no whitespace at all is its own trim. -/
theorem trim_of_forall {cs : List Char} (h : ∀ c ∈ cs, isWhitespace c = false) : trim cs = cs := by
  have hdrop : ∀ l : List Char, (∀ c ∈ l, isWhitespace c = false) → l.dropWhile isWhitespace = l := by
    intro l hl
    cases l with
    | nil => rfl
    | cons c l => simp [hl c List.mem_cons_self]
  rw [trim, hdrop cs h, hdrop cs.reverse (fun c hc => h c (List.mem_reverse.mp hc)), List.reverse_reverse]

/-- A text whose first and last characters are not whitespace, with a
newline after it, trims to itself. -/
theorem trim_append_newline {cs : List Char} (hhead : ∀ c ∈ cs.head?, isWhitespace c = false)
    (hlast : ∀ c ∈ cs.getLast?, isWhitespace c = false) : trim (cs ++ ['\n']) = cs := by
  cases cs with
  | nil => decide
  | cons c cs =>
    have hc : isWhitespace c = false := hhead c rfl
    have hl : isWhitespace ((c :: cs).getLast (List.cons_ne_nil c cs)) = false :=
      hlast _ (List.getLast?_eq_some_getLast (List.cons_ne_nil c cs))
    have hnl : isWhitespace '\n' = true := by decide
    -- the newline is the only whitespace at the end
    have hrev : (c :: cs).reverse = (c :: cs).getLast (List.cons_ne_nil c cs) :: ((c :: cs).dropLast).reverse := by
      conv_lhs => rw [← List.dropLast_append_getLast (List.cons_ne_nil c cs)]
      rw [List.reverse_append, List.reverse_singleton, List.singleton_append]
    rw [trim, List.cons_append, List.dropWhile_cons_of_neg (by simp [hc]), ← List.cons_append, List.reverse_append,
      List.reverse_singleton, List.singleton_append, List.dropWhile_cons_of_pos (by simp [hnl]), hrev,
      List.dropWhile_cons_of_neg (by simp [hl]), ← hrev, List.reverse_reverse]

/-- A line of `str::lines` with its `\n` taken off: a `\r` before the `\n`
goes with it. -/
def stripCr (line : List Char) : List Char :=
  if line.getLast? = some '\r' then line.dropLast else line

/-- `str::lines` from the characters of the current line so far (reversed):
each line ends at `\n`, and a last line without one is kept as it is. -/
def linesAux : List Char → List Char → List (List Char)
  | cur, [] => if cur = [] then [] else [cur.reverse]
  | cur, c :: rest => if c = '\n' then stripCr cur.reverse :: linesAux [] rest else linesAux (c :: cur) rest

/-- `str::lines`. -/
def lines (cs : List Char) : List (List Char) := linesAux [] cs

theorem stripCr_of_getLast {line : List Char} (h : line.getLast? ≠ some '\r') : stripCr line = line := by
  rw [stripCr, if_neg h]

theorem linesAux_append_newline {l : List Char} (hnl : '\n' ∉ l) (rest : List Char) :
    ∀ cur, linesAux cur (l ++ '\n' :: rest) = stripCr (cur.reverse ++ l) :: linesAux [] rest := by
  induction l with
  | nil => intro cur; simp [linesAux]
  | cons c l ih =>
    intro cur
    have hc : c ≠ '\n' := fun hc => hnl (hc ▸ List.mem_cons_self)
    rw [List.cons_append, linesAux, if_neg hc, ih (fun h => hnl (List.mem_cons_of_mem c h))]
    simp

theorem linesAux_of_not_mem {l : List Char} (hnl : '\n' ∉ l) :
    ∀ cur, linesAux cur l = if cur.reverse ++ l = [] then [] else [cur.reverse ++ l] := by
  induction l with
  | nil => intro cur; simp [linesAux]
  | cons c l ih =>
    intro cur
    have hc : c ≠ '\n' := fun hc => hnl (hc ▸ List.mem_cons_self)
    rw [linesAux, if_neg hc, ih (fun h => hnl (List.mem_cons_of_mem c h))]
    simp

/-- A line ended by a newline comes back from `lines` as it was, unless it
ends in the `\r` of a `\r\n`. -/
theorem lines_append_newline {l : List Char} (hnl : '\n' ∉ l) (hcr : l.getLast? ≠ some '\r')
    (rest : List Char) : lines (l ++ '\n' :: rest) = l :: lines rest := by
  rw [lines, linesAux_append_newline hnl rest, List.reverse_nil, List.nil_append, stripCr_of_getLast hcr]
  rfl

/-- A last line without a newline is one line. -/
theorem lines_of_not_mem {l : List Char} (hnl : '\n' ∉ l) (hne : l ≠ []) : lines l = [l] := by
  rw [lines, linesAux_of_not_mem hnl, if_neg (by simpa using hne)]
  rfl

/-- Lines written out with a newline after each are read back, with what
follows them. -/
theorem lines_flatMap_append {ls : List (List Char)} (hls : ∀ l ∈ ls, '\n' ∉ l ∧ l.getLast? ≠ some '\r')
    (rest : List Char) : lines (ls.flatMap (· ++ ['\n']) ++ rest) = ls ++ lines rest := by
  induction ls with
  | nil => rfl
  | cons l ls ih =>
    obtain ⟨hnl, hcr⟩ := hls l List.mem_cons_self
    rw [List.flatMap_cons, List.append_assoc, List.append_assoc, List.singleton_append,
      lines_append_newline hnl hcr, ih (fun l' hl' => hls l' (List.mem_cons_of_mem l hl'))]
    rfl

/-- `str::split_whitespace` from the characters of the current word so far
(reversed): the words between runs of whitespace. -/
def wordsAux : List Char → List Char → List (List Char)
  | cur, [] => if cur = [] then [] else [cur.reverse]
  | cur, c :: rest =>
    if isWhitespace c then (if cur = [] then wordsAux [] rest else cur.reverse :: wordsAux [] rest)
    else wordsAux (c :: cur) rest

/-- `str::split_whitespace`. -/
def splitWhitespace (cs : List Char) : List (List Char) := wordsAux [] cs

/-- `str::eq_ignore_ascii_case`. -/
def eqIgnoreAsciiCase (a b : List Char) : Bool := a.map Char.toLower == b.map Char.toLower

/-- `str::contains`: whether `pat` stands somewhere in the text. -/
def containsText (pat : List Char) : List Char → Bool
  | [] => pat == []
  | c :: rest => pat.isPrefixOf (c :: rest) || containsText pat rest

/-! ## `strip_prefix`, `split_once`, `trim_end_matches` -/

/-- `str::strip_prefix`: the text after `pre`, if it starts with `pre`. -/
def stripPrefix (pre cs : List Char) : Option (List Char) :=
  if pre.isPrefixOf cs then some (cs.drop pre.length) else none

theorem stripPrefix_append (pre rest : List Char) : stripPrefix pre (pre ++ rest) = some rest := by
  simp [stripPrefix]

theorem stripPrefix_cons_self (c : Char) (pre cs : List Char) :
    stripPrefix (c :: pre) (c :: cs) = stripPrefix pre cs := by
  simp [stripPrefix]

theorem stripPrefix_cons_of_ne {a b : Char} (h : a ≠ b) (pre cs : List Char) :
    stripPrefix (a :: pre) (b :: cs) = none := by
  simp [stripPrefix, List.isPrefixOf_cons_cons, h]

/-- Of two texts neither of which starts with the other, the one strips
nothing off a text that starts with the other. -/
theorem stripPrefix_append_eq_none {pre key : List Char} (h1 : pre.isPrefixOf key = false)
    (h2 : key.isPrefixOf pre = false) (rest : List Char) : stripPrefix pre (key ++ rest) = none := by
  rw [stripPrefix, if_neg]
  intro hpre
  -- two prefixes of one text: the shorter starts the longer
  rcases List.prefix_or_prefix_of_prefix (List.isPrefixOf_iff_prefix.mp hpre) (List.prefix_append key rest) with
    hkey | hkey
  · rw [List.isPrefixOf_iff_prefix.mpr hkey] at h1
    cases h1
  · rw [List.isPrefixOf_iff_prefix.mpr hkey] at h2
    cases h2

/-- What `strip_prefix` leaves is the text after `pre`. -/
theorem eq_of_stripPrefix {pre cs rest : List Char} (h : stripPrefix pre cs = some rest) : cs = pre ++ rest := by
  unfold stripPrefix at h
  split_ifs at h with hpre
  cases h
  exact (List.prefix_iff_eq_append.mp (List.isPrefixOf_iff_prefix.mp hpre)).symm

/-- `str::split_once`: the text before the first `sep` and the text after
it, if `sep` occurs. -/
def splitOnce {α : Type} [DecidableEq α] (sep : α) : List α → Option (List α × List α)
  | [] => none
  | a :: rest => if a = sep then some ([], rest) else (splitOnce sep rest).map fun p => (a :: p.1, p.2)

theorem splitOnce_append_cons {α : Type} [DecidableEq α] (sep : α) :
    ∀ {a : List α}, sep ∉ a → ∀ b, splitOnce sep (a ++ sep :: b) = some (a, b)
  | [], _, b => by simp [splitOnce]
  | x :: a, h, b => by
    have hx : x ≠ sep := fun hx => h (hx ▸ List.mem_cons_self)
    rw [List.cons_append, splitOnce, if_neg hx, splitOnce_append_cons sep (fun hs => h (List.mem_cons_of_mem x hs))]
    rfl

/-- `split_once` cuts at the first `sep`. -/
theorem eq_of_splitOnce {α : Type} [DecidableEq α] {sep : α} :
    ∀ {l a b : List α}, splitOnce sep l = some (a, b) → l = a ++ sep :: b ∧ sep ∉ a
  | [], _, _, h => by cases h
  | x :: l, a, b, h => by
    rw [splitOnce] at h
    split_ifs at h with hx
    · cases h
      exact ⟨by rw [hx]; rfl, List.not_mem_nil⟩
    · obtain ⟨⟨a', b'⟩, hsplit, hab⟩ := Option.map_eq_some_iff.mp h
      cases hab
      obtain ⟨rfl, ha'⟩ := eq_of_splitOnce hsplit
      exact ⟨rfl, by simp [ha', Ne.symm hx]⟩

theorem splitOnce_eq_none {α : Type} [DecidableEq α] {sep : α} :
    ∀ {l : List α}, splitOnce sep l = none → sep ∉ l
  | [], _ => List.not_mem_nil
  | x :: l, h => by
    rw [splitOnce] at h
    split_ifs at h with hx
    have hl : splitOnce sep l = none := by simpa using h
    simp [splitOnce_eq_none hl, Ne.symm hx]

theorem splitOnce_of_not_mem {α : Type} [DecidableEq α] (sep : α) :
    ∀ {l : List α}, sep ∉ l → splitOnce sep l = none
  | [], _ => rfl
  | x :: l, h => by
    have hx : x ≠ sep := fun hx => h (hx ▸ List.mem_cons_self)
    rw [splitOnce, if_neg hx, splitOnce_of_not_mem sep (fun hs => h (List.mem_cons_of_mem x hs))]
    rfl

/-- `str::trim_end_matches` of a character: the text with every copy of `c`
at its end taken off. -/
def trimEndMatches (c : Char) (cs : List Char) : List Char :=
  (cs.reverse.dropWhile (· == c)).reverse

/-- A text that does not end in `c` is its own trim. -/
theorem trimEndMatches_of_getLast {c : Char} {cs : List Char} (h : cs.getLast? ≠ some c) :
    trimEndMatches c cs = cs := by
  rw [List.getLast?_eq_head?_reverse] at h
  unfold trimEndMatches
  cases hrev : cs.reverse with
  | nil =>
    obtain rfl := List.reverse_eq_nil_iff.mp hrev
    rfl
  | cons d ds =>
    rw [hrev, List.head?_cons, ne_eq, Option.some.injEq] at h
    rw [List.dropWhile_cons_of_neg (by simpa using h), ← hrev, List.reverse_reverse]

/-- One `c` more at the end is taken off with the others. -/
theorem trimEndMatches_append_self (c : Char) (cs : List Char) :
    trimEndMatches c (cs ++ [c]) = trimEndMatches c cs := by
  simp [trimEndMatches]

/-! ## `from_str_radix` -/

/-- `char::to_digit(radix)`, for a radix up to 36. -/
def digitValue (radix : Nat) (c : Char) : Option Nat :=
  let n := c.toNat
  let d := if '0'.toNat ≤ n ∧ n ≤ '9'.toNat then n - '0'.toNat
    else if 'a'.toNat ≤ n ∧ n ≤ 'z'.toNat then n - 'a'.toNat + 10
    else if 'A'.toNat ≤ n ∧ n ≤ 'Z'.toNat then n - 'A'.toNat + 10
    else radix
  if d < radix then some d else none

/-- The digits read most significant first, or nothing at a character that
is not one. -/
def digitsValue (radix : Nat) (cs : List Char) : Option Nat :=
  cs.foldlM (fun acc c => (digitValue radix c).map (acc * radix + ·)) 0

/-- The digits after a leading `+`. -/
def stripPlus : List Char → List Char
  | '+' :: rest => rest
  | cs => cs

/-- `from_str_radix` for an unsigned integer of `bits` bits: a `+` may lead,
not alone; the value must fit. The source checks every multiplication and
addition for overflow; since the value only grows, one fails exactly when
the whole value does not fit. -/
def fromStrRadix (radix bits : Nat) (cs : List Char) : Option Nat :=
  if stripPlus cs = [] then none
  else (digitsValue radix (stripPlus cs)).filter (· < 2 ^ bits)

theorem stripPlus_of_ne {cs : List Char} (h : ∀ rest, cs ≠ '+' :: rest) : stripPlus cs = cs := by
  unfold stripPlus
  split
  · exact absurd rfl (h _)
  · rfl

theorem digitValue_digitChar {radix d : Nat} (hradix : radix ≤ 16) (hd : d < radix) :
    digitValue radix (Nat.digitChar d) = some d := by
  have key : ∀ d < 16, ∀ radix ≤ 16, d < radix → digitValue radix (Nat.digitChar d) = some d := by decide
  exact key d (by omega) radix hradix hd

theorem digitsValue_append (radix : Nat) (a b : List Char) :
    digitsValue radix (a ++ b) = (digitsValue radix a).bind fun v =>
      b.foldlM (fun acc c => (digitValue radix c).map (acc * radix + ·)) v := by
  rw [digitsValue, List.foldlM_append]
  rfl

theorem foldlM_digitValue_digitChar {radix d : Nat} (hradix : radix ≤ 16) (hd : d < radix) (v : Nat) :
    [Nat.digitChar d].foldlM (fun acc c => (digitValue radix c).map (acc * radix + ·)) v =
      some (v * radix + d) := by
  simp [digitValue_digitChar hradix hd]

/-- The digits `Nat.toDigits` writes read back. -/
theorem digitsValue_toDigits {radix : Nat} (h1 : 1 < radix) (h16 : radix ≤ 16) (n : Nat) :
    digitsValue radix (Nat.toDigits radix n) = some n := by
  induction n using Nat.base_induction radix h1 with
  | single m hm =>
    rw [Nat.toDigits_of_lt_base hm, ← List.nil_append [_], digitsValue_append]
    simp only [digitsValue, List.foldlM_nil, Option.pure_def, Option.bind_some]
    rw [foldlM_digitValue_digitChar h16 hm]
    simp
  | digit m k hk hm ih =>
    -- the last digit goes on after the others
    rw [← Nat.toDigits_append_toDigits h1 hm hk, Nat.toDigits_of_lt_base hk, digitsValue_append, ih,
      Option.bind_some, foldlM_digitValue_digitChar h16 hk, Nat.mul_comm]

/-- Every character `Nat.toDigits` writes is a digit below the radix. -/
theorem mem_toDigits {radix : Nat} (h1 : 1 < radix) {c : Char} :
    ∀ {n : Nat}, c ∈ Nat.toDigits radix n → ∃ d < radix, c = Nat.digitChar d := by
  intro n
  induction n using Nat.base_induction radix h1 with
  | single m hm =>
    intro hc
    rw [Nat.toDigits_of_lt_base hm, List.mem_singleton] at hc
    exact ⟨m, hm, hc⟩
  | digit m k hk hm ih =>
    intro hc
    rw [← Nat.toDigits_append_toDigits h1 hm hk, Nat.toDigits_of_lt_base hk, List.mem_append,
      List.mem_singleton] at hc
    rcases hc with hc | hc
    · exact ih hc
    · exact ⟨k, hk, hc⟩

/-- `Nat.toDigits` never starts with a `+`: it is no digit. -/
theorem toDigits_ne_plus {radix : Nat} (h1 : 1 < radix) (h16 : radix ≤ 16) (n : Nat) (rest : List Char) :
    Nat.toDigits radix n ≠ '+' :: rest := by
  intro h
  have hread := digitsValue_toDigits h1 h16 n
  rw [h] at hread
  simp [digitsValue, digitValue] at hread

/-- `from_str_radix` reads back what `Nat.toDigits` writes, when it fits. -/
theorem fromStrRadix_toDigits {radix bits n : Nat} (h1 : 1 < radix) (h16 : radix ≤ 16)
    (hn : n < 2 ^ bits) : fromStrRadix radix bits (Nat.toDigits radix n) = some n := by
  rw [fromStrRadix, stripPlus_of_ne (toDigits_ne_plus h1 h16 n), if_neg Nat.toDigits_ne_nil,
    digitsValue_toDigits h1 h16]
  simp [hn]

/-! ## `position` -/

/-- `iter().position(p)` stops at the first element past a stretch without
one. -/
theorem findIdx?_append_cons {α : Type} {p : α → Bool} {a : List α} (ha : ∀ x ∈ a, p x = false) {b : α}
    (hb : p b = true) (rest : List α) : (a ++ b :: rest).findIdx? p = some a.length := by
  rw [List.findIdx?_append, List.findIdx?_eq_none_iff.mpr ha, List.findIdx?_cons, if_pos hb]
  simp

/-- The slices on either side of the element found, `[..pos]` and
`[pos + 1..]`. -/
theorem take_append_cons {α : Type} (a : List α) (b : α) (rest : List α) :
    (a ++ b :: rest).take a.length = a := by
  simp

theorem drop_append_cons {α : Type} (a : List α) (b : α) (rest : List α) :
    (a ++ b :: rest).drop (a.length + 1) = rest := by
  simp

/-- What precedes the first element found holds none, and the element is
there. -/
theorem eq_of_findIdx? {α : Type} {p : α → Bool} {l : List α} {i : Nat} (h : l.findIdx? p = some i) :
    (∀ x ∈ l.take i, p x = false) ∧ ∃ b rest, l.drop i = b :: rest ∧ p b = true := by
  obtain ⟨hi, hpi, hbefore⟩ := List.findIdx?_eq_some_iff_getElem.mp h
  refine ⟨fun x hx => ?_, l[i], l.drop (i + 1), List.drop_eq_getElem_cons hi, hpi⟩
  obtain ⟨j, hj, rfl⟩ := List.getElem_of_mem hx
  rw [List.length_take] at hj
  rw [List.getElem_take]
  simpa using hbefore j (by omega)

end RustStr
