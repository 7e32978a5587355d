import Mathlib.Data.List.Basic

/-! # Decoding UTF-8

The decoder a program reads bytes with: what is not UTF-8 becomes U+FFFD, one for each maximal part of a sequence,
and the byte that broke the sequence is read again. An ASCII byte ends every open sequence, so text can be decoded
line by line, and no other bytes decode to a line break.
-/

namespace Faberun.Utf8

/-- Between characters, or inside one: the continuation bytes owed, the range of the next one and the bits so far. -/
inductive State where
  | between
  | inside (owed low high point : Nat)
  deriving DecidableEq, Repr

/-- The decoder on the first byte of a sequence. -/
def first (byte : Nat) : List Char × State :=
  if byte < 0x80 then ([Char.ofNat byte], .between)
  else if byte < 0xC2 then (['\uFFFD'], .between)
  else if byte < 0xE0 then ([], .inside 1 0x80 0xBF (byte - 0xC0))
  else if byte < 0xF0 then
    ([], .inside 2 (if byte = 0xE0 then 0xA0 else 0x80) (if byte = 0xED then 0x9F else 0xBF) (byte - 0xE0))
  else if byte < 0xF5 then
    ([], .inside 3 (if byte = 0xF0 then 0x90 else 0x80) (if byte = 0xF4 then 0x8F else 0xBF) (byte - 0xF0))
  else (['\uFFFD'], .between)

/-- The decoder on a byte: what it gives out and where it stands after it. -/
def feed : State → Nat → List Char × State
  | .between, byte => first byte
  | .inside owed low high point, byte =>
    if low ≤ byte ∧ byte ≤ high then
      if owed = 1 then ([Char.ofNat (point * 64 + (byte - 0x80))], .between)
      else ([], .inside (owed - 1) 0x80 0xBF (point * 64 + (byte - 0x80)))
    else ('\uFFFD' :: (first byte).1, (first byte).2)

/-- The end of the bytes. -/
def flush : State → List Char
  | .between => []
  | .inside .. => ['\uFFFD']

def decodeFrom : State → List UInt8 → List Char
  | state, [] => flush state
  | state, byte :: rest => (feed state byte.toNat).1 ++ decodeFrom (feed state byte.toNat).2 rest

/-- `buffer.toString("utf8")`. -/
def decode (bytes : List UInt8) : List Char := decodeFrom .between bytes

/-! ## ASCII bytes -/

/-- A byte that continues a sequence is no ASCII byte. -/
def Sound : State → Prop
  | .between => True
  | .inside owed low _ point =>
    0x80 ≤ low ∧ (0x80 ≤ point * 64 + (low - 0x80) ∨ (2 ≤ owed ∧ 2 ≤ point * 64 + (low - 0x80)))

private theorem sound_first (byte : Nat) : Sound (first byte).2 := by
  unfold first
  split_ifs <;> simp only [Sound] <;> omega

theorem sound_feed {state : State} (sound : Sound state) (byte : Nat) : Sound (feed state byte).2 := by
  cases state with
  | between => exact sound_first byte
  | inside owed low high point =>
    obtain ⟨above, bits⟩ := sound
    rw [feed]
    split_ifs with fits last
    · trivial
    · simp only [Sound]
      omega
    · exact sound_first byte

private theorem feed_ascii {state : State} (sound : Sound state) {byte : Nat} (ascii : byte < 0x80) :
    feed state byte = (flush state ++ [Char.ofNat byte], .between) := by
  have one : first byte = ([Char.ofNat byte], .between) := if_pos ascii
  cases state with
  | between => exact one
  | inside owed low high point =>
    have outside : ¬ (low ≤ byte ∧ byte ≤ high) := by
      have := sound.1
      omega
    rw [feed, if_neg outside, one]
    rfl

private theorem decodeFrom_ascii (state : State) (sound : Sound state) (before rest : List UInt8) {byte : UInt8}
    (ascii : byte.toNat < 0x80) :
    decodeFrom state (before ++ byte :: rest) = decodeFrom state before ++ Char.ofNat byte.toNat :: decode rest := by
  induction before generalizing state with
  | nil =>
    simp [decodeFrom, decode, feed_ascii sound ascii]
  | cons head before ih =>
    rw [List.cons_append, decodeFrom, ih _ (sound_feed sound head.toNat), decodeFrom, List.append_assoc]

/-- What stands before an ASCII byte and what stands after it are decoded apart. -/
theorem decode_ascii (before rest : List UInt8) {byte : UInt8} (ascii : byte.toNat < 0x80) :
    decode (before ++ byte :: rest) = decode before ++ Char.ofNat byte.toNat :: decode rest :=
  decodeFrom_ascii .between trivial before rest ascii

/-- A run of ASCII bytes is decoded byte by byte, and what stands around it apart from it. -/
theorem decode_ascii_run {run : List UInt8} (some : run ≠ []) (ascii : ∀ byte ∈ run, byte.toNat < 0x80) (before rest : List UInt8) :
    decode (before ++ run ++ rest) = decode before ++ run.map (fun byte => Char.ofNat byte.toNat) ++ decode rest := by
  induction run generalizing before with
  | nil => exact absurd rfl some
  | cons byte run ih =>
    have later := List.forall_mem_cons.mp ascii
    rw [List.append_assoc, List.cons_append, decode_ascii before _ later.1]
    cases run with
    | nil => simp
    | cons next run =>
      have inner := ih (List.cons_ne_nil next run) later.2 []
      rw [List.nil_append] at inner
      rw [inner]
      simp [decode, decodeFrom, flush]

/-! ## Line breaks -/

private theorem ofNat_ne_newline {point : Nat} (other : point ≠ 10) : Char.ofNat point ≠ '\n' := by
  intro same
  by_cases valid : point.isValidChar
  · rw [Char.ofNat, dif_pos valid] at same
    exact other (congrArg Char.toNat same)
  · rw [Char.ofNat, dif_neg valid] at same
    exact absurd same (by decide)

private theorem newline_notMem_first {byte : Nat} (other : byte ≠ 10) : '\n' ∉ (first byte).1 := by
  unfold first
  split_ifs
  · simpa using (ofNat_ne_newline other).symm
  all_goals simp

private theorem newline_notMem_feed {state : State} (sound : Sound state) {byte : Nat} (other : byte ≠ 10) :
    '\n' ∉ (feed state byte).1 := by
  cases state with
  | between => exact newline_notMem_first other
  | inside owed low high point =>
    rw [feed]
    split_ifs with fits last
    · have large : point * 64 + (byte - 0x80) ≠ 10 := by
        have := sound.1
        have := sound.2
        omega
      simpa using (ofNat_ne_newline large).symm
    · simp
    · simpa using newline_notMem_first other

private theorem newline_notMem_decodeFrom (state : State) (sound : Sound state) {bytes : List UInt8}
    (plain : 10 ∉ bytes) : '\n' ∉ decodeFrom state bytes := by
  induction bytes generalizing state with
  | nil => cases state <;> simp [decodeFrom, flush]
  | cons byte rest ih =>
    simp only [List.mem_cons, not_or] at plain
    have other : byte.toNat ≠ 10 := fun same => plain.1 (UInt8.toNat_inj.mp same).symm
    rw [decodeFrom, List.mem_append, not_or]
    exact ⟨newline_notMem_feed sound other, ih _ (sound_feed sound _) plain.2⟩

/-- Only the byte of a line break decodes to one. -/
theorem newline_notMem_decode {bytes : List UInt8} (plain : 10 ∉ bytes) : '\n' ∉ decode bytes :=
  newline_notMem_decodeFrom .between trivial plain

example : decode [0xE2, 0x80, 0xA6, 0xC3, 0x0A, 0xF0, 0x9F, 0x98, 0x80, 0xE0, 0x80] =
    ['…', '\uFFFD', '\n', '😀', '\uFFFD', '\uFFFD'] := by decide

end Faberun.Utf8
