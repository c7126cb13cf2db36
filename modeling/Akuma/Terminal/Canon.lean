import Mathlib

/-!
# The canonical-mode line discipline

`TerminalState::process_canon_input` of `akuma-terminal`, with the two calls
that take its lines out, `drain_canon_ready` and `flush_canon_buffer`. Of the
terminal state the model keeps what these read and write: `oflag`, `lflag`,
`cc`, the line being edited (`canon_buffer`) and the completed lines waiting
for a reader (`canon_ready`). Bytes are `Nat`s.

`canonReference` is the POSIX canonical mode the code is meant to follow,
written beside it: a disabled (`0`) erase character erases nothing, and erase
and kill feedback needs both `ECHO` and `ECHOE`. The code agrees with it on
every input exactly when `ECHOE` implies `ECHO` and `VERASE` is set
(`canon_matches_reference_iff`). How the input is cut into chunks never
matters (`processCanonInput_append`), and a reader that drains the ready
queue between chunks gets the completed lines of the whole input, each byte
once and in order (`reads_replay_whole_input`).
-/

namespace Akuma.Terminal

/-! ## Settings -/

namespace ModeFlags

def opost : Nat := 0x1
def onlcr : Nat := 0x4
def isig : Nat := 0x1
def icanon : Nat := 0x2
def echo : Nat := 0x8
def echoe : Nat := 0x10
def echok : Nat := 0x20
def echonl : Nat := 0x40

end ModeFlags

namespace CcIndex

def verase : Fin 20 := 2
def vkill : Fin 20 := 3
def veof : Fin 20 := 4

end CcIndex

/-- The part of `TerminalState` that canonical input reads and writes. -/
structure TerminalState where
  oflag : Nat
  lflag : Nat
  cc : Vector Nat 20
  canonBuffer : List Nat
  canonReady : List Nat
  deriving DecidableEq, Repr

/-- `TerminalState::default`: canonical mode with echo, `^?` to erase, `^U`
to kill, `^D` for end of file, and `ONLCR` on output. -/
def TerminalState.default : TerminalState where
  oflag := ModeFlags.opost ||| ModeFlags.onlcr
  lflag := ModeFlags.icanon ||| ModeFlags.echo ||| ModeFlags.isig ||| ModeFlags.echoe |||
    ModeFlags.echok
  -- VINTR ^C, VQUIT ^\, VERASE ^?, VKILL ^U, VEOF ^D, VTIME 0, VMIN 1
  cc := #v[0x03, 0x1c, 0x7f, 0x15, 0x04, 0, 1, 0, 0, 0, 0, 0, 0, 0, 0, 0, 0, 0, 0, 0]
  canonBuffer := []
  canonReady := []

def TerminalState.needsOnlcr (s : TerminalState) : Bool := s.oflag &&& ModeFlags.onlcr ≠ 0

/-- What `process_canon_input` reads of the settings before its loop. -/
structure CanonFlags where
  echoOn : Bool
  echoe : Bool
  echonl : Bool
  onlcr : Bool
  verase : Nat
  veof : Nat
  vkill : Nat

def TerminalState.canonFlags (s : TerminalState) : CanonFlags where
  echoOn := s.lflag &&& ModeFlags.echo ≠ 0
  echoe := s.lflag &&& ModeFlags.echoe ≠ 0
  echonl := s.lflag &&& ModeFlags.echonl ≠ 0
  onlcr := s.needsOnlcr
  verase := s.cc.get CcIndex.verase
  veof := s.cc.get CcIndex.veof
  vkill := s.cc.get CcIndex.vkill

/-! ## The line discipline -/

/-- The two buffers of canonical input. -/
structure CanonLine where
  canonBuffer : List Nat
  canonReady : List Nat
  deriving DecidableEq, Repr

def TerminalState.line (s : TerminalState) : CanonLine := ⟨s.canonBuffer, s.canonReady⟩

def TerminalState.withLine (s : TerminalState) (l : CanonLine) : TerminalState :=
  { s with canonBuffer := l.canonBuffer, canonReady := l.canonReady }

/-- `ProcessedInput`. -/
structure ProcessedInput where
  echo : List Nat
  eof : Bool
  deriving DecidableEq, Repr

/-- `"\x08 \x08"`: back over a character, blank it, back again. -/
def eraseEcho : List Nat := [0x08, 0x20, 0x08]

/-- The echo of a newline, `"\r\n"` under `ONLCR`. -/
def newlineEcho (onlcr : Bool) : List Nat := if onlcr then [0x0d, 0x0a] else [0x0a]

/-- One turn of the loop of `process_canon_input`: the buffers after `byte`,
the bytes it echoes, and whether it signals end of file. -/
def canonByte (f : CanonFlags) (l : CanonLine) (byte : Nat) : CanonLine × List Nat × Bool :=
  if byte = f.verase ∨ byte = 0x08 then
    -- `pop` runs whatever the flags; only ECHOE is asked before the feedback
    (⟨l.canonBuffer.dropLast, l.canonReady⟩,
      if l.canonBuffer ≠ [] ∧ f.echoe then eraseEcho else [], false)
  else if byte = f.vkill ∧ f.vkill ≠ 0 then
    (⟨[], l.canonReady⟩,
      if f.echoe then (List.replicate l.canonBuffer.length eraseEcho).flatten else [], false)
  else if byte = f.veof ∧ f.veof ≠ 0 then
    if l.canonBuffer = [] then (l, [], true)
    else (⟨[], l.canonReady ++ l.canonBuffer⟩, [], false)
  else if byte = 0x0a then
    (⟨[], l.canonReady ++ (l.canonBuffer ++ [byte])⟩,
      if f.echoOn || f.echonl then newlineEcho f.onlcr else [], false)
  else
    (⟨l.canonBuffer ++ [byte], l.canonReady⟩, if f.echoOn then [byte] else [], false)

/-- The loop body around a byte step: the echo is appended to, and end of
file is remembered. -/
def runStep (step : CanonLine → Nat → CanonLine × List Nat × Bool)
    (acc : CanonLine × ProcessedInput) (byte : Nat) : CanonLine × ProcessedInput :=
  let r := step acc.1 byte
  (r.1, ⟨acc.2.echo ++ r.2.1, acc.2.eof || r.2.2⟩)

/-- The loop over `data`, from no echo and no end of file. -/
def runCanon (step : CanonLine → Nat → CanonLine × List Nat × Bool) (l : CanonLine)
    (data : List Nat) : CanonLine × ProcessedInput :=
  data.foldl (runStep step) (l, ⟨[], false⟩)

def processCanonInput (s : TerminalState) (data : List Nat) : TerminalState × ProcessedInput :=
  let r := runCanon (canonByte s.canonFlags) s.line data
  (s.withLine r.1, r.2)

/-- `drain_canon_ready`: up to `max` bytes off the front of the ready queue. -/
def drainCanonReady (s : TerminalState) (max : Nat) : TerminalState × List Nat :=
  let toRead := min max s.canonReady.length
  ({ s with canonReady := s.canonReady.drop toRead }, s.canonReady.take toRead)

/-- `flush_canon_buffer`: the line being edited goes to the ready queue as
it is, when the channel closes. -/
def flushCanonBuffer (s : TerminalState) : TerminalState :=
  if s.canonBuffer ≠ [] then
    { s with canonBuffer := [], canonReady := s.canonReady ++ s.canonBuffer }
  else s

/-! ## The POSIX reference -/

/-- A byte of POSIX canonical mode: a disabled (`0`) `VERASE` or `VKILL` or
`VEOF` matches nothing, and erase and kill feedback needs both `ECHO` and
`ECHOE`. -/
def referenceByte (f : CanonFlags) (l : CanonLine) (byte : Nat) : CanonLine × List Nat × Bool :=
  if (f.verase ≠ 0 ∧ byte = f.verase) ∨ byte = 0x08 then
    (⟨l.canonBuffer.dropLast, l.canonReady⟩,
      if l.canonBuffer ≠ [] ∧ (f.echoOn ∧ f.echoe) then eraseEcho else [], false)
  else if f.vkill ≠ 0 ∧ byte = f.vkill then
    (⟨[], l.canonReady⟩,
      if f.echoOn ∧ f.echoe then (List.replicate l.canonBuffer.length eraseEcho).flatten else [],
      false)
  else if f.veof ≠ 0 ∧ byte = f.veof then
    if l.canonBuffer = [] then (l, [], true)
    else (⟨[], l.canonReady ++ l.canonBuffer⟩, [], false)
  else if byte = 0x0a then
    (⟨[], l.canonReady ++ (l.canonBuffer ++ [0x0a])⟩,
      if f.echoOn || f.echonl then newlineEcho f.onlcr else [], false)
  else
    (⟨l.canonBuffer ++ [byte], l.canonReady⟩, if f.echoOn then [byte] else [], false)

/-- The POSIX canonical mode over `data`, with the settings of `s`. -/
def canonReference (s : TerminalState) (data : List Nat) : TerminalState × ProcessedInput :=
  let r := runCanon (referenceByte s.canonFlags) s.line data
  (s.withLine r.1, r.2)

/-! ## Runs of the loop -/

section Runs

variable (step : CanonLine → Nat → CanonLine × List Nat × Bool)

/-- The loop only appends to the echo and ors into the end-of-file flag, so
a run from any echo and flag so far is the run from none, put after them. -/
theorem foldl_runStep (data : List Nat) (l : CanonLine) (out : ProcessedInput) :
    data.foldl (runStep step) (l, out) =
      ((runCanon step l data).1,
        ⟨out.echo ++ (runCanon step l data).2.echo, out.eof || (runCanon step l data).2.eof⟩) := by
  induction data generalizing l out with
  | nil => simp [runCanon]
  | cons byte data ih =>
    -- both sides run the rest of the bytes from the line `byte` leaves
    simp only [runCanon, List.foldl_cons]
    rw [ih, ih]
    simp [runStep, List.append_assoc, Bool.or_assoc]

@[simp] theorem runCanon_nil (l : CanonLine) : runCanon step l [] = (l, ⟨[], false⟩) := rfl

theorem runCanon_cons (l : CanonLine) (byte : Nat) (data : List Nat) :
    runCanon step l (byte :: data) =
      ((runCanon step (step l byte).1 data).1,
        ⟨(step l byte).2.1 ++ (runCanon step (step l byte).1 data).2.echo,
          (step l byte).2.2 || (runCanon step (step l byte).1 data).2.eof⟩) := by
  rw [runCanon, List.foldl_cons, foldl_runStep]
  simp [runStep]

/-- Input cut in two gives the buffers of the second run, and the echo and
end of file of both. -/
theorem runCanon_append (l : CanonLine) (a b : List Nat) :
    runCanon step l (a ++ b) =
      ((runCanon step (runCanon step l a).1 b).1,
        ⟨(runCanon step l a).2.echo ++ (runCanon step (runCanon step l a).1 b).2.echo,
          (runCanon step l a).2.eof || (runCanon step (runCanon step l a).1 b).2.eof⟩) := by
  rw [runCanon, List.foldl_append, ← runCanon, foldl_runStep]

/-- A byte step that never reads the ready queue and only appends to it. -/
def KeepsReady : Prop :=
  ∀ (buf ready : List Nat) (byte : Nat),
    step ⟨buf, ready⟩ byte =
      (⟨(step ⟨buf, []⟩ byte).1.canonBuffer, ready ++ (step ⟨buf, []⟩ byte).1.canonReady⟩,
        (step ⟨buf, []⟩ byte).2)

/-- Under such a step, a run from a ready queue is the run from an empty
one, with the queue in front of what it completes. -/
theorem runCanon_of_keepsReady (h : KeepsReady step) (data : List Nat) (buf ready : List Nat) :
    runCanon step ⟨buf, ready⟩ data =
      (⟨(runCanon step ⟨buf, []⟩ data).1.canonBuffer,
          ready ++ (runCanon step ⟨buf, []⟩ data).1.canonReady⟩,
        (runCanon step ⟨buf, []⟩ data).2) := by
  induction data generalizing buf ready with
  | nil => simp
  | cons byte data ih =>
    rw [runCanon_cons, runCanon_cons, h buf ready byte]
    rcases hr : step ⟨buf, []⟩ byte with ⟨⟨buf', ready'⟩, e, eof⟩
    dsimp only
    rw [ih buf' ready', ih buf' (ready ++ ready')]
    simp

end Runs

/-! ## The byte steps -/

section Steps

variable (f : CanonFlags)

theorem keepsReady_canonByte : KeepsReady (canonByte f) := by
  intro buf ready byte
  unfold canonByte
  split_ifs <;> simp

/-- A byte that is no control character of the settings goes on the line,
echoed under `ECHO`. -/
theorem canonByte_of_plain {l : CanonLine} {byte : Nat} (hv : byte ≠ f.verase) (h8 : byte ≠ 0x08)
    (hk : byte ≠ f.vkill) (he : byte ≠ f.veof) (hn : byte ≠ 0x0a) :
    canonByte f l byte =
      (⟨l.canonBuffer ++ [byte], l.canonReady⟩, if f.echoOn then [byte] else [], false) := by
  simp [canonByte, hv, h8, hk, he, hn]

theorem referenceByte_of_plain {l : CanonLine} {byte : Nat} (hv : byte ≠ f.verase)
    (h8 : byte ≠ 0x08) (hk : byte ≠ f.vkill) (he : byte ≠ f.veof) (hn : byte ≠ 0x0a) :
    referenceByte f l byte =
      (⟨l.canonBuffer ++ [byte], l.canonReady⟩, if f.echoOn then [byte] else [], false) := by
  simp [referenceByte, hv, h8, hk, he, hn]

/-- `0x08` erases in both, whatever `VERASE` is; only the feedback differs. -/
theorem canonByte_backspace (l : CanonLine) :
    canonByte f l 0x08 =
      (⟨l.canonBuffer.dropLast, l.canonReady⟩,
        if l.canonBuffer ≠ [] ∧ f.echoe then eraseEcho else [], false) := by
  simp [canonByte]

theorem referenceByte_backspace (l : CanonLine) :
    referenceByte f l 0x08 =
      (⟨l.canonBuffer.dropLast, l.canonReady⟩,
        if l.canonBuffer ≠ [] ∧ (f.echoOn ∧ f.echoe) then eraseEcho else [], false) := by
  simp [referenceByte]

/-- With `ECHOE` only under `ECHO` and `VERASE` set, the code's byte step is
the reference's. -/
theorem canonByte_eq_referenceByte (hE : f.echoe = true → f.echoOn = true) (hv : f.verase ≠ 0) :
    canonByte f = referenceByte f := by
  funext l byte
  have herase : (byte = f.verase ∨ byte = 0x08) ↔ ((f.verase ≠ 0 ∧ byte = f.verase) ∨ byte = 0x08) := by
    simp [hv]
  have hfeedback : (f.echoOn = true ∧ f.echoe = true) ↔ f.echoe = true := ⟨And.right, fun h => ⟨hE h, h⟩⟩
  unfold canonByte referenceByte
  simp only [herase, hfeedback, and_comm (a := byte = f.vkill), and_comm (a := byte = f.veof)]
  -- what is left is the newline branch, where `byte` is `0x0a`
  split_ifs <;> subst_vars <;> rfl

end Steps

/-! ## Chunks -/

@[simp] theorem withLine_line (s : TerminalState) : s.withLine s.line = s := rfl

@[simp] theorem line_withLine (s : TerminalState) (l : CanonLine) : (s.withLine l).line = l := rfl

@[simp] theorem canonFlags_withLine (s : TerminalState) (l : CanonLine) :
    (s.withLine l).canonFlags = s.canonFlags := rfl

@[simp] theorem withLine_withLine (s : TerminalState) (l l' : CanonLine) :
    (s.withLine l).withLine l' = s.withLine l' := rfl

/-- Feeding `a` and then `b` is feeding `a ++ b`: the same state, the two
echoes back to back, and end of file if either call signalled it. -/
theorem processCanonInput_append (s : TerminalState) (a b : List Nat) :
    processCanonInput s (a ++ b) =
      ((processCanonInput (processCanonInput s a).1 b).1,
        ⟨(processCanonInput s a).2.echo ++ (processCanonInput (processCanonInput s a).1 b).2.echo,
          (processCanonInput s a).2.eof || (processCanonInput (processCanonInput s a).1 b).2.eof⟩) := by
  simp only [processCanonInput, runCanon_append, canonFlags_withLine, line_withLine,
    withLine_withLine]

/-- Canonical input only appends to the ready queue and never reads it. -/
theorem processCanonInput_eq_ready (s : TerminalState) (data : List Nat) :
    processCanonInput s data =
      ({ (processCanonInput { s with canonReady := [] } data).1 with
          canonReady := s.canonReady ++ (processCanonInput { s with canonReady := [] } data).1.canonReady },
        (processCanonInput { s with canonReady := [] } data).2) := by
  have h := runCanon_of_keepsReady _ (keepsReady_canonByte s.canonFlags) data s.canonBuffer
    s.canonReady
  simp only [processCanonInput]
  rw [show s.line = ⟨s.canonBuffer, s.canonReady⟩ from rfl, h]
  rfl

/-! ## A terminal between a writer and a reader -/

/-- A call on the terminal: input from the channel, or a read of up to
`max` bytes. -/
inductive TtyCall
  | input (data : List Nat)
  | read (max : Nat)

/-- The input of a sequence of calls, back to back. -/
def TtyCall.inputs : List TtyCall → List Nat
  | [] => []
  | .input data :: calls => data ++ TtyCall.inputs calls
  | .read _ :: calls => TtyCall.inputs calls

/-- The state after the calls, the bytes the reads returned, and the echo. -/
def runTty : TerminalState → List TtyCall → TerminalState × List Nat × List Nat
  | s, [] => (s, [], [])
  | s, .input data :: calls =>
    let r := runTty (processCanonInput s data).1 calls
    (r.1, r.2.1, (processCanonInput s data).2.echo ++ r.2.2)
  | s, .read max :: calls =>
    let r := runTty (drainCanonReady s max).1 calls
    (r.1, (drainCanonReady s max).2 ++ r.2.1, r.2.2)

theorem reads_replay_whole_input (s : TerminalState) (calls : List TtyCall) :
    (runTty s calls).2.1 ++ (runTty s calls).1.canonReady =
        (processCanonInput s (TtyCall.inputs calls)).1.canonReady ∧
      (runTty s calls).1.canonBuffer = (processCanonInput s (TtyCall.inputs calls)).1.canonBuffer ∧
      (runTty s calls).2.2 = (processCanonInput s (TtyCall.inputs calls)).2.echo := by
  induction calls generalizing s with
  | nil => simp [runTty, TtyCall.inputs, processCanonInput]
  | cons call calls ih =>
    cases call with
    | input data =>
      -- the input of this call runs first, the rest from where it left the terminal
      obtain ⟨h1, h2, h3⟩ := ih (processCanonInput s data).1
      simp only [runTty, TtyCall.inputs, processCanonInput_append]
      exact ⟨h1, h2, by rw [h3]⟩
    | read max =>
      -- the read takes a prefix of the queue, which the rest of the input only appends to
      obtain ⟨h1, h2, h3⟩ := ih (drainCanonReady s max).1
      have hempty : { (drainCanonReady s max).1 with canonReady := [] } =
          { s with canonReady := [] } := rfl
      rw [processCanonInput_eq_ready, hempty] at h1 h2 h3
      simp only [runTty, TtyCall.inputs]
      rw [processCanonInput_eq_ready s]
      refine ⟨?_, h2, h3⟩
      calc (drainCanonReady s max).2 ++ (runTty (drainCanonReady s max).1 calls).2.1 ++
            (runTty (drainCanonReady s max).1 calls).1.canonReady
          = (drainCanonReady s max).2 ++ ((drainCanonReady s max).1.canonReady ++
              (processCanonInput { s with canonReady := [] } (TtyCall.inputs calls)).1.canonReady) := by
            rw [List.append_assoc, h1]
        _ = s.canonReady ++
              (processCanonInput { s with canonReady := [] } (TtyCall.inputs calls)).1.canonReady := by
            simp [drainCanonReady, ← List.append_assoc, List.take_append_drop]

/-! ## The code against the reference -/

/-- Some byte is no control character of the settings: three settable
characters cannot cover four letters. -/
theorem exists_plain_byte (f : CanonFlags) :
    ∃ b, b ≠ f.verase ∧ b ≠ 0x08 ∧ b ≠ f.vkill ∧ b ≠ f.veof ∧ b ≠ 0x0a ∧ b < 0x100 := by
  by_contra h
  simp only [not_exists, not_and] at h
  have ha := h 0x61
  have hb := h 0x62
  have hc := h 0x63
  have hd := h 0x64
  omega

/-- With ECHOE and no ECHO, a plain byte and then `0x08` rub out in the
code and stay silent in the reference. -/
theorem exists_echo_ne_of_echoe (s : TerminalState) (he : s.lflag &&& ModeFlags.echoe ≠ 0)
    (hecho : s.lflag &&& ModeFlags.echo = 0) :
    ∃ data, (processCanonInput s data).2.echo ≠ (canonReference s data).2.echo := by
  obtain ⟨b, hv, h8, hk, hf, hn, -⟩ := exists_plain_byte s.canonFlags
  have hfe : s.canonFlags.echoe = true := by simp [TerminalState.canonFlags, he]
  have hfo : s.canonFlags.echoOn = false := by simp [TerminalState.canonFlags, hecho]
  refine ⟨[b, 0x08], ?_⟩
  simp only [processCanonInput, canonReference, runCanon_cons,
    canonByte_of_plain _ hv h8 hk hf hn, referenceByte_of_plain _ hv h8 hk hf hn,
    canonByte_backspace, referenceByte_backspace, hfe, hfo, runCanon_nil]
  simp [eraseEcho]

/-- With `VERASE` disabled, a NUL byte erases in the code and goes on the
line in the reference. -/
theorem exists_buffer_ne_of_verase_eq_zero (s : TerminalState) (hv : s.cc.get CcIndex.verase = 0) :
    ∃ data, (processCanonInput s data).1.canonBuffer ≠ (canonReference s data).1.canonBuffer := by
  have hf : s.canonFlags.verase = 0 := hv
  have hk : ¬(s.canonFlags.vkill ≠ 0 ∧ 0 = s.canonFlags.vkill) := by omega
  have he : ¬(s.canonFlags.veof ≠ 0 ∧ 0 = s.canonFlags.veof) := by omega
  refine ⟨[0], fun h => ?_⟩
  simp only [processCanonInput, canonReference, runCanon_cons, runCanon_nil] at h
  have herase : ¬((s.canonFlags.verase ≠ 0 ∧ 0 = s.canonFlags.verase) ∨ 0 = 0x08) := by simp [hf]
  rw [canonByte, if_pos (Or.inl hf.symm), referenceByte, if_neg herase, if_neg hk, if_neg he,
    if_neg (show (0 : Nat) ≠ 0x0a by decide)] at h
  -- the code's line lost a byte, the reference's gained one
  have hlen := congrArg List.length h
  simp [TerminalState.withLine, TerminalState.line] at hlen

theorem processCanonInput_eq_canonReference (s : TerminalState)
    (hE : s.lflag &&& ModeFlags.echoe ≠ 0 → s.lflag &&& ModeFlags.echo ≠ 0)
    (hv : s.cc.get CcIndex.verase ≠ 0) (data : List Nat) :
    processCanonInput s data = canonReference s data := by
  have hE' : s.canonFlags.echoe = true → s.canonFlags.echoOn = true := by
    simpa [TerminalState.canonFlags] using hE
  simp only [processCanonInput, canonReference, canonByte_eq_referenceByte _ hE' hv]

theorem canon_matches_reference_iff (s : TerminalState) :
    (∀ data, processCanonInput s data = canonReference s data) ↔
      ((s.lflag &&& ModeFlags.echoe ≠ 0 → s.lflag &&& ModeFlags.echo ≠ 0) ∧
        s.cc.get CcIndex.verase ≠ 0) := by
  constructor
  · intro h
    refine ⟨fun he => ?_, fun hv => ?_⟩
    · by_contra hecho
      obtain ⟨data, hne⟩ := exists_echo_ne_of_echoe s he hecho
      exact hne (congrArg (·.2.echo) (h data))
    · obtain ⟨data, hne⟩ := exists_buffer_ne_of_verase_eq_zero s hv
      exact hne (congrArg (·.1.canonBuffer) (h data))
  · rintro ⟨hE, hv⟩ data
    exact processCanonInput_eq_canonReference s hE hv data

/-- ECHOE without ECHO: `a` and then backspace echo a rub-out for an `a`
that was never shown. -/
example :
    let s := { TerminalState.default with lflag := ModeFlags.icanon ||| ModeFlags.echoe }
    (processCanonInput s [0x61, 0x08]).2.echo = eraseEcho ∧
      (canonReference s [0x61, 0x08]).2.echo = [] := by
  decide

end Akuma.Terminal
