import Gqe.Lib.ShiftAnd

/-!
# LIKE

The string matching of `executor/like.cu` on bytes. A pattern is cut at its wildcards for any
sequence into a prefix, a suffix and the parts in between. The kernel compares prefix and suffix in
place and looks for the others with a shift-and automaton. Lengths are of type `size_t` and wrap
around.
-/

namespace Gqe.Like

/-- How characters are matched. -/
inductive EncodingTag where
  | ascii | utf8Bytewise
  deriving DecidableEq

def multiWildcard : UInt8 := '%'.toUInt8

def singleWildcard : UInt8 := '_'.toUInt8

/-! ### Patterns -/

/-- A byte of a pattern with its wildcard flag. -/
structure PatternChar where
  char : UInt8
  isWildcard : Bool
  deriving DecidableEq

/-- A part of a pattern between wildcards for any sequence. -/
abbrev SubPattern := List PatternChar

/-- The loop of `preprocess_like`, which appends `tmp` to `all_patterns` at the last character and
at a wildcard for any sequence. -/
@[simp] def splitPatterns (escapeCharacter : UInt8) : List UInt8 → SubPattern → List SubPattern
  | [], _ => []
  | [c], tmp =>
    -- an escape character without a successor stands for itself
    if c = escapeCharacter ∨ c ≠ multiWildcard then
      [tmp ++ [⟨c, decide (c ≠ escapeCharacter ∧ c = singleWildcard)⟩]]
    else if tmp ≠ [] then [tmp] else []
  | c :: d :: rest, tmp =>
    if c = escapeCharacter then
      let tmp := tmp ++ [⟨d, false⟩]
      (if rest = [] then [tmp] else []) ++ splitPatterns escapeCharacter rest tmp
    else if c ≠ multiWildcard then
      splitPatterns escapeCharacter (d :: rest) (tmp ++ [⟨c, decide (c = singleWildcard)⟩])
    else (if tmp ≠ [] then [tmp] else []) ++ splitPatterns escapeCharacter (d :: rest) []

/-- Take the first part as the prefix, unless the pattern starts with `%`. -/
def splitPrefix (pattern : List UInt8) (allPatterns : List SubPattern) :
    SubPattern × List SubPattern :=
  match allPatterns with
  | [] => ([], [])
  | p :: ps => if pattern.head? ≠ some multiWildcard then (p, ps) else ([], p :: ps)

/-- Take the last part as the suffix, unless the pattern ends with `%` and the character before it
is not the escape character. -/
def splitSuffix (pattern : List UInt8) (escapeCharacter : UInt8) (allPatterns : List SubPattern) :
    List SubPattern × SubPattern :=
  if allPatterns ≠ [] ∧ (pattern.getLast? ≠ some multiWildcard ∨
      1 < pattern.length ∧ pattern[pattern.length - 2]? = some escapeCharacter) then
    (allPatterns.dropLast, allPatterns.getLastD [])
  else (allPatterns, [])

/-- What `preprocess_like` finds in a pattern. -/
structure PreprocessedPattern where
  patternPrefix : SubPattern
  middlePatterns : List SubPattern
  patternSuffix : SubPattern
  maxMidPatternLen : Nat
  hasSingleWildcard : Bool
  deriving DecidableEq

def preprocessLike (pattern : List UInt8) (escapeCharacter : UInt8) (hasSingleWildcard : Bool) :
    PreprocessedPattern :=
  let allPatterns := splitPatterns escapeCharacter pattern []
  let (patternPrefix, rest) := splitPrefix pattern allPatterns
  let (middlePatterns, patternSuffix) := splitSuffix pattern escapeCharacter rest
  { patternPrefix, middlePatterns, patternSuffix
    maxMidPatternLen := middlePatterns.foldl (fun n p => max n p.length) 0
    hasSingleWildcard := hasSingleWildcard || allPatterns.any (·.any (·.isWildcard)) }

/-- `is_valid_pattern_escape`: the pattern ends in an even number of escape characters. -/
def isValidPatternEscape (pattern : List UInt8) (escapeCharacter : UInt8) : Bool :=
  decide (escapeCharacter = 0) ||
    (pattern.reverse.takeWhile (· = escapeCharacter)).length % 2 == 0

/-! ### Machine integers -/

/-- Converted to `int`. -/
def toInt (x : Nat) : Int := Int.bmod x (2 ^ 32)

/-- Converted to `size_t`. -/
def toSize (x : Int) : Nat := (x % 2 ^ 64).toNat

/-- Subtraction of type `size_t`. -/
def subSize (x y : Nat) : Nat := toSize (x - y)

/-- `string_view::length`: the number of bytes that start a UTF-8 character. -/
def stringViewLength (p : SubPattern) : Nat := p.countP fun k => k.char &&& 0xC0 ≠ 0x80

/-! ### Strings -/

/-- A string of a column: its position in the characters of the column, and its size. -/
structure StringView where
  offset : Nat
  sizeBytes : Nat
  deriving DecidableEq

/-- A column of nullable strings. -/
structure StringsColumn where
  chars : List UInt8
  rows : List (Option StringView)
  chars_lt : chars.length < 2 ^ 63
  size_lt : ∀ s, some s ∈ rows → s.sizeBytes < 2 ^ 31
  offset_add_size_le : ∀ s, some s ∈ rows → s.offset + s.sizeBytes ≤ chars.length

def StringsColumn.string (input : StringsColumn) (s : StringView) : List UInt8 :=
  (input.chars.drop s.offset).take s.sizeBytes

/-- A read from the characters of a column; `none` outside of them. -/
def readChar (chars : List UInt8) (ptr : Int) : Option UInt8 :=
  if 0 ≤ ptr then chars[ptr.toNat]? else none

/-- `check_exact_pattern_match`; `none` at the first read outside of the characters. -/
def checkExactPatternMatch (chars : List UInt8) (ptr : Int) : SubPattern → Option Bool
  | [] => some true
  | k :: p => do
    let c ← readChar chars ptr
    if !k.isWildcard ∧ c ≠ k.char then return false
    checkExactPatternMatch chars (ptr + 1) p

/-! ### The automaton -/

/-- The mask table and the length of a part of the pattern. -/
structure MiddlePattern (w : Nat) where
  mask : UInt8 → BitVec w
  length : Nat

/-- One part of `generate_shift_and_mask_tables`. -/
def maskTable (w : Nat) (encoding : EncodingTag) (p : SubPattern) : UInt8 → BitVec w :=
  p.zipIdx.foldl (fun mask (k, idx) c =>
    if (encoding = .ascii ∧ k.isWildcard) ∨ c = k.char then mask c ||| (1#w <<< idx) else mask c)
    fun _ => 0#w

def generateShiftAndMaskTables (w : Nat) (encoding : EncodingTag) (ps : List SubPattern) :
    List (MiddlePattern w) :=
  ps.map fun p => ⟨maskTable w encoding p, p.length⟩

/-- The variables of the search: the bits of the automaton, the current part with those that follow
it, and the last position at which the remaining parts can start. -/
structure SearchState (w : Nat) where
  state : BitVec w
  current : MiddlePattern w
  rest : List (MiddlePattern w)
  farthestStart : Int

/-- The early exit after the character at `i`; an error is a `return`. The comparison converts to
`size_t`. -/
def SearchState.checkExit {w : Nat} (i : Nat) (s : SearchState w) : Except Bool (SearchState w) :=
  if toSize s.farthestStart < i ∧ s.state = 0#w then .error false else .ok s

/-- The body of the loop for the character at `i`. -/
def SearchState.step {w : Nat} (s : SearchState w) (i : Nat) (c : UInt8) :
    Except Bool (SearchState w) :=
  let state := ShiftAnd.shift s.state (s.current.mask c)
  let next : Except Bool (SearchState w) :=
    if state &&& (1#w <<< (s.current.length - 1)) ≠ 0#w then
      match s.rest with
      | [] => .error true
      | p :: rest => .ok ⟨0#w, p, rest, toInt (toSize s.farthestStart + s.current.length)⟩
    else .ok { s with state := state }
  next.bind (SearchState.checkExit i)

/-- The characters from `i` on, one after another. -/
def SearchState.steps {w : Nat} (i : Nat) : List UInt8 → SearchState w → Except Bool (SearchState w)
  | [], s => .ok s
  | c :: cs, s => (s.step i c).bind (SearchState.steps (i + 1) cs)

/-- The loops over batches of `size` characters, each read before it is searched. -/
def SearchState.batches {w : Nat} (read : Nat → Option UInt8) (size : Nat) :
    (numBatches i : Nat) → SearchState w → Option (Except Bool (SearchState w))
  | 0, _, s => some (.ok s)
  | n + 1, i, s => do
    let chars ← (List.range' i size).mapM read
    match s.steps i chars with
    | .error result => some (.error result)
    | .ok s => s.batches read size n (i + size)

/-- `check_multi_pattern_match_bytewise`: batches of four characters, then single ones. -/
def checkMultiPatternMatchBytewise {w : Nat} (read : Nat → Option UInt8) (stringLen : Nat)
    (middlePatterns : List (MiddlePattern w)) (totalPatternLen : Nat) : Option Bool :=
  match middlePatterns with
  | [] => some true
  | p :: rest =>
    if totalPatternLen ≤ stringLen then do
      let s : SearchState w := ⟨0#w, p, rest, toInt (subSize stringLen totalPatternLen)⟩
      match ← s.batches read 4 (stringLen / 4) 0 with
      | .error result => return result
      | .ok s =>
        match ← s.batches read 1 (stringLen % 4) (stringLen / 4 * 4) with
        | .error result => return result
        | .ok _ => return false
    else some false

/-! ### The kernel -/

section Kernel
variable {w : Nat} (chars : List UInt8) (patternPrefix patternSuffix : SubPattern)
  (middlePatterns : List (MiddlePattern w)) (totalPatternLen : Nat) (string : StringView)

/-- The check for the prefix, which a shorter string passes. -/
def checkPrefix : Option Bool :=
  let prefixLen := stringViewLength patternPrefix
  if 0 < prefixLen ∧ prefixLen ≤ string.sizeBytes then
    checkExactPatternMatch chars string.offset (patternPrefix.take prefixLen)
  else some true

/-- The check for the suffix, after the result for the prefix. -/
def checkSuffix (result : Bool) : Option Bool :=
  let suffixLen := stringViewLength patternSuffix
  if 0 < suffixLen ∧ result ∧
      suffixLen ≤ subSize string.sizeBytes (stringViewLength patternPrefix) then
    checkExactPatternMatch chars (string.offset + string.sizeBytes - suffixLen)
      (patternSuffix.take suffixLen)
  else some result

/-- The search between prefix and suffix, after the result for both. -/
def checkMiddle (result : Bool) : Option Bool :=
  let prefixLen := stringViewLength patternPrefix
  let suffixLen := stringViewLength patternSuffix
  if middlePatterns ≠ [] ∧ result then
    checkMultiPatternMatchBytewise (fun i => readChar chars (string.offset + prefixLen + i))
      (subSize (subSize string.sizeBytes prefixLen) suffixLen) middlePatterns totalPatternLen
  else some result

/-- `like_fn_shift_and_kernel` for one string. -/
def likeFnShiftAndKernel : Option Bool := do
  let result ← checkPrefix chars patternPrefix string
  let result ← checkSuffix chars patternPrefix patternSuffix string result
  checkMiddle chars patternPrefix patternSuffix middlePatterns totalPatternLen string result

end Kernel

/-- An entry of the result. Its value is unspecified if nothing was written to it, or if it depends
on what is outside of the characters of the column. -/
inductive Cell where
  | null
  | value (result : Bool)
  | unspecified
  deriving DecidableEq

/-- The entry for a string, from what its thread computes. -/
def Cell.ofThread (thread : StringView → Option Bool) : Option StringView → Cell
  | none => .null
  | some string => match thread string with
    | some result => .value result
    | none => .unspecified

/-- The device and library: the shared memory that a kernel may ask for, and
`cudf::strings::like`. -/
structure Device where
  maxSharedMemory : Nat
  cudfLike : StringsColumn → (pattern escapeCharacter : List UInt8) → List Cell

/-- The shared memory for the mask tables, of 256 entries each, and the lengths. -/
def smemSize (w numMiddlePatterns : Nat) : Nat :=
  numMiddlePatterns * (w / 8) * 256 + 8 * numMiddlePatterns

/-- `run_string_match`. A launch that asks for too much shared memory fails, which is not checked,
and nothing is written. -/
def runStringMatch (device : Device) (w : Nat) (encoding : EncodingTag) (input : StringsColumn)
    (p : PreprocessedPattern) : List Cell :=
  let totalPatternLen := (p.middlePatterns.map List.length).sum
  input.rows.map <| Cell.ofThread <|
    if smemSize w p.middlePatterns.length ≤ device.maxSharedMemory then
      likeFnShiftAndKernel input.chars p.patternPrefix p.patternSuffix
        (generateShiftAndMaskTables w encoding p.middlePatterns) totalPatternLen
    else fun _ => none

/-- `like_impl`. The escape character is a string scalar, `none` if it is not valid. -/
def likeImpl (device : Device) (encoding : EncodingTag) (input : StringsColumn)
    (pattern : List UInt8) (escapeCharacter : Option (List UInt8)) : Except String (List Cell) :=
  match escapeCharacter with
  | none => .error "Parameter escape_character must be valid"
  | some escape =>
    if 1 < escape.length then .error "Parameter escape_character must be a single character"
    else if input.rows = [] then .ok []
    else if !isValidPatternEscape pattern (escape.headD 0) then
      .ok (input.rows.map (Cell.ofThread fun _ => none))
    else
      let p := preprocessLike pattern (escape.headD 0) (decide (encoding ≠ .utf8Bytewise))
      if encoding = .utf8Bytewise ∧ p.hasSingleWildcard then
        .ok (device.cudfLike input pattern escape)
      else if p.maxMidPatternLen ≤ 8 then .ok (runStringMatch device 8 encoding input p)
      else if p.maxMidPatternLen ≤ 16 then .ok (runStringMatch device 16 encoding input p)
      else if p.maxMidPatternLen ≤ 32 then .ok (runStringMatch device 32 encoding input p)
      else if p.maxMidPatternLen ≤ 64 then .ok (runStringMatch device 64 encoding input p)
      else .ok (device.cudfLike input pattern escape)

def likeUtf8Bytewise (device : Device) (input : StringsColumn) (pattern : List UInt8)
    (escapeCharacter : Option (List UInt8)) : Except String (List Cell) :=
  likeImpl device .utf8Bytewise input pattern escapeCharacter

def like (device : Device) (input : StringsColumn) (pattern : List UInt8)
    (escapeCharacter : Option (List UInt8)) : Except String (List Cell) :=
  likeImpl device .ascii input pattern escapeCharacter

/-- `like_utf8` up to where it goes on with a valid pattern. -/
def likeUtf8 (likeValid : StringsColumn → List UInt8 → List UInt8 → Except String (List Cell))
    (input : StringsColumn) (pattern : List UInt8) (escapeCharacter : Option (List UInt8)) :
    Except String (List Cell) :=
  match escapeCharacter with
  | none => .error "Parameter escape_character must be valid"
  | some escape =>
    if 1 < escape.length then .error "Parameter escape_character must be a single character"
    else if input.rows = [] then .ok []
    else if !isValidPatternEscape pattern (escape.headD 0) then
      .ok (input.rows.map (Cell.ofThread fun _ => none))
    else likeValid input pattern escape

end Gqe.Like
