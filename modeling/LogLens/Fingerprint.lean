import LogLens.Library.BacktrackingRegex
import LogLens.Platform

/-! `app/services/fingerprint.py`: the substitutions that turn a message or a
stack trace into its normal form, and the fingerprint hashed from them. -/

namespace LogLens
open BacktrackingRegex

/-- The character classes of the patterns. -/
inductive CharClass
  | lit (c : Char)
  | anyOf (chars : List Char) (ranges : List (Char × Char))
  | noneOf (chars : List Char)
  | decimal
  | space
  /-- a lower-case letter under `re.IGNORECASE` -/
  | letter (c : Char)

/-- The letters outside ASCII that `re.IGNORECASE` equates with `c`: dotless and
dotted i, long s, the Kelvin sign. -/
def caseFolds (c : Char) : List Char :=
  if c = 'i' then ['ı', 'İ'] else if c = 's' then ['ſ'] else if c = 'k' then ['\u212a'] else []

def CharClass.test [Platform] : CharClass → Char → Bool
  | .lit c, x => x = c
  | .anyOf chars ranges, x => x ∈ chars || ranges.any fun r => r.1 ≤ x && x ≤ r.2
  | .noneOf chars, x => x ∉ chars
  | .decimal, x => Platform.isDecimal x
  | .space, x => Platform.isSpace x
  | .letter c, x => x = c || x = c.toUpper || x ∈ caseFolds c

/-- `\w` -/
def isWord [Platform] (c : Char) : Bool := Platform.isAlnum c || c = '_'

namespace Patterns
open Pattern CharClass

def lits (s : String) : Pattern CharClass := chain (s.toList.map fun c => one (lit c))

/-- A literal under `re.IGNORECASE`. -/
def word (s : String) : Pattern CharClass :=
  chain (s.toList.map fun c => one (if c.isLower then letter c else lit c))

def hex : CharClass := anyOf [] [('0', '9'), ('a', 'f'), ('A', 'F')]

def uuid : Pattern CharClass :=
  chain [boundary, exactly 8 hex, lits "-", exactly 4 hex, lits "-", one (anyOf [] [('1', '5')]),
    exactly 3 hex, lits "-", one (anyOf ['8', '9', 'a', 'b', 'A', 'B'] []), exactly 3 hex,
    lits "-", exactly 12 hex, boundary]

def isoDay : Pattern CharClass :=
  chain [exactly 4 decimal, lits "-", exactly 2 decimal, lits "-", exactly 2 decimal]

def isoTimestamp : Pattern CharClass :=
  chain [boundary, isoDay, one (anyOf [' ', 'T'] []), exactly 2 decimal, lits ":",
    exactly 2 decimal, lits ":", exactly 2 decimal,
    optional (chain [lits ".", atLeast 1 decimal]),
    optional (alt (lits "Z") (chain [one (anyOf ['+', '-'] []), exactly 2 decimal,
      optional (lits ":"), exactly 2 decimal])), boundary]

def isoDate : Pattern CharClass := chain [boundary, isoDay, boundary]

def email : Pattern CharClass :=
  chain [boundary,
    atLeast 1 (anyOf ['.', '_', '%', '+', '-'] [('A', 'Z'), ('a', 'z'), ('0', '9')]), lits "@",
    atLeast 1 (anyOf ['.', '-'] [('A', 'Z'), ('a', 'z'), ('0', '9')]), lits ".",
    atLeast 2 (anyOf [] [('A', 'Z'), ('a', 'z')]), boundary]

def octet : Pattern CharClass := run decimal 1 (some 3)

def ip : Pattern CharClass :=
  chain [boundary, octet, lits ".", octet, lits ".", octet, lits ".", octet, boundary]

def memoryAddress : Pattern CharClass := chain [boundary, lits "0x", atLeast 1 hex, boundary]

def hexRun : Pattern CharClass :=
  chain [boundary, notBehind [lit '0', lit 'x'], atLeast 12 hex, boundary]

/-- `[_\- ]?id` -/
def idSuffix : Pattern CharClass := chain [optional (one (anyOf ['_', '-', ' '] [])), word "id"]

/-- The class of the request id itself, with the letters `re.IGNORECASE` adds. -/
def idChar : CharClass :=
  anyOf ['.', '_', ':', '-', 'ı', 'İ', 'ſ', '\u212a'] [('A', 'Z'), ('a', 'z'), ('0', '9')]

def requestId : Pattern CharClass :=
  chain [boundary,
    group 1 (choice (chain [word "request", idSuffix])
      [chain [word "req", idSuffix], chain [word "trace", idSuffix]]),
    boundary, atLeast 0 (anyOf [':', '=', ' '] []), group 2 (atLeast 1 idChar)]

def longNumber : Pattern CharClass := chain [boundary, atLeast 5 decimal, boundary]

def labelNumber : Pattern CharClass :=
  chain [boundary,
    group 1 (choice (word "id") [word "user_id", word "record_id", word "db_id",
      word "request_id", word "trace_id", word "line"]),
    atLeast 1 (anyOf [':', '=', ' '] []), group 2 (atLeast 1 decimal), boundary]

def stackLine : Pattern CharClass :=
  chain [group 1 (chain [lits "File \"", group 2 (atLeast 1 (noneOf ['"'])), lits "\", line "]),
    group 3 (atLeast 1 decimal),
    group 4 (chain [lits ", in ", atLeast 1 (noneOf ['\n'])])]

def spaces : Pattern CharClass := atLeast 1 space

def colonNumber : Pattern CharClass := chain [lits ":", atLeast 1 decimal]

end Patterns

section Normalisation
variable [Platform]

/-- `pattern.sub(replacement, text)` -/
def reSub (p : Pattern CharClass) (replacement : Cursor Char → Str) (text : Str) : Str :=
  sub CharClass.test isWord p replacement text

def fixedText (s : String) (_ : Cursor Char) : Str := s.toList

/-- The substitutions of `_normalize_common` in their order, white space last. -/
def substitutions : List (Pattern CharClass × (Cursor Char → Str)) :=
  [(Patterns.uuid, fixedText "<uuid>"),
    (Patterns.isoTimestamp, fixedText "<timestamp>"),
    (Patterns.isoDate, fixedText "<date>"),
    (Patterns.email, fixedText "<email>"),
    (Patterns.ip, fixedText "<ip>"),
    (Patterns.memoryAddress, fixedText "<memory_address>"),
    (Patterns.requestId, fun m => m.groupText 1 ++ ":<request_id>".toList),
    (Patterns.labelNumber, fun m => m.groupText 1 ++ "=<id>".toList),
    (Patterns.hexRun, fixedText "<hex>"),
    (Patterns.longNumber, fixedText "<number>"),
    (Patterns.spaces, fixedText " ")]

def normalizeCommon (text : Str) : Str :=
  strip (substitutions.foldl (fun normalized s => reSub s.1 s.2 normalized) (strip text))

def normalizeMessage (message : Str) : Str := normalizeCommon message

def normalizeStackLine (line : Str) : Str :=
  let line := reSub Patterns.stackLine
    (fun m => m.groupText 1 ++ "<line>".toList ++ m.groupText 4) line
  let line := normalizeCommon line
  reSub Patterns.colonNumber (fixedText ":<line>") line

def normalizeStackTrace : Option Str → Str
  | none => []
  | some stackTrace =>
    let lines := ((splitlines stackTrace).map strip).filter fun line => !line.isEmpty
    joinWith ['\n'] (lines.map normalizeStackLine)

structure FingerprintInput where
  serviceName : Str
  normalizedMessage : Str
  exceptionType : Option Str
  stackTrace : Option Str

def fingerprintParts (payload : FingerprintInput) : List Str :=
  [Platform.lower (strip payload.serviceName), payload.normalizedMessage,
    Platform.lower (strip (payload.exceptionType.getD [])), normalizeStackTrace payload.stackTrace]

def generateFingerprint (payload : FingerprintInput) : Str :=
  Platform.sha256Hex (joinWith ['|'] (fingerprintParts payload))

end Normalisation

section Ascii

theorem strip_subset [Platform] {s : Str} {c : Char} (h : c ∈ strip s) : c ∈ s := by
  rw [strip, List.mem_reverse] at h
  have inner := (List.dropWhile_sublist _).subset h
  rw [List.mem_reverse] at inner
  exact (List.dropWhile_sublist _).subset inner

section Holds
variable [Platform] {P : Char → Prop}

omit [Platform] in
theorem fixedText_holds (printable : ∀ c : Char, 32 ≤ c.toNat → c.toNat < 128 → P c)
    {text : String} (h : text.toList.all fun c => 32 ≤ c.toNat && c.toNat < 128) :
    ∀ c ∈ text.toList, P c := by
  intro c hc
  have range := List.all_eq_true.mp h c hc
  simp only [Bool.and_eq_true, decide_eq_true_eq] at range
  exact printable c range.1 range.2

omit [Platform] in
theorem substitutions_hold (printable : ∀ c : Char, 32 ≤ c.toNat → c.toNat < 128 → P c) :
    ∀ s ∈ substitutions, ∀ d : Cursor Char, d.Holds P → ∀ c ∈ s.2 d, P c := by
  have fixed (text : String) (h : text.toList.all fun c => 32 ≤ c.toNat && c.toNat < 128)
      (d : Cursor Char) (_ : d.Holds P) : ∀ c ∈ fixedText text d, P c :=
    fixedText_holds printable h
  have labelled (text : String) (h : text.toList.all fun c => 32 ≤ c.toNat && c.toNat < 128)
      (d : Cursor Char) (held : d.Holds P) : ∀ c ∈ d.groupText 1 ++ text.toList, P c :=
    List.forall_mem_append.mpr ⟨held.groupText 1, fixedText_holds printable h⟩
  simp only [substitutions, List.forall_mem_cons, List.not_mem_nil, false_implies, implies_true,
    and_true]
  exact ⟨fixed _ rfl, fixed _ rfl, fixed _ rfl, fixed _ rfl, fixed _ rfl, fixed _ rfl,
    labelled _ rfl, labelled _ rfl, fixed _ rfl, fixed _ rfl, fixed _ rfl⟩

/-- A property of the characters of a text is one of its normal form, if the printable
ASCII characters have it. -/
theorem normalizeMessage_holds (printable : ∀ c : Char, 32 ≤ c.toNat → c.toNat < 128 → P c)
    {message : Str} (h : ∀ c ∈ message, P c) : ∀ c ∈ normalizeMessage message, P c := by
  have passes : ∀ (ss : List (Pattern CharClass × (Cursor Char → Str))) (text : Str),
      (∀ s ∈ ss, ∀ d : Cursor Char, d.Holds P → ∀ c ∈ s.2 d, P c) → (∀ c ∈ text, P c) →
      ∀ c ∈ ss.foldl (fun normalized s => reSub s.1 s.2 normalized) text, P c := by
    intro ss
    induction ss with
    | nil => exact fun _ _ held => held
    | cons s rest ih =>
      intro text kept held
      rw [List.forall_mem_cons] at kept
      exact ih _ kept.2 (sub_holds s.1 kept.1 held)
  exact fun c hc => passes _ _ (substitutions_hold printable) (fun c hc => h c (strip_subset hc)) c
    (strip_subset hc)

end Holds

theorem strip_ascii [Platform] {s : Str} (h : ∀ c ∈ s, IsAscii c) : ∀ c ∈ strip s, IsAscii c :=
  fun c hc => h c (strip_subset hc)

/-- A replacement of ASCII text by ASCII text. -/
theorem substitutions_ascii : ∀ s ∈ substitutions, ∀ d : Cursor Char, d.Holds IsAscii →
    ∀ c ∈ s.2 d, IsAscii c := substitutions_hold fun _ _ ascii => ascii

theorem test_ascii (P Q : Platform) (k : CharClass) (c : Char) (h : IsAscii c) :
    @CharClass.test P k c = @CharClass.test Q k c := by
  cases k with
  | lit | anyOf | noneOf | letter => rfl
  | decimal =>
    exact (P.isDecimal_ascii c h).trans (Q.isDecimal_ascii c h).symm
  | space =>
    exact (P.isSpace_ascii c h).trans (Q.isSpace_ascii c h).symm

theorem isWord_ascii (P Q : Platform) (c : Char) (h : IsAscii c) : @isWord P c = @isWord Q c := by
  unfold isWord
  rw [P.isAlnum_ascii c h, Q.isAlnum_ascii c h]

theorem dropWhile_ascii (P Q : Platform) (s : Str) (h : ∀ c ∈ s, IsAscii c) :
    s.dropWhile P.isSpace = s.dropWhile Q.isSpace := by
  induction s with
  | nil => rfl
  | cons c rest ih =>
    rw [List.forall_mem_cons] at h
    rw [List.dropWhile_cons, List.dropWhile_cons, P.isSpace_ascii c h.1, Q.isSpace_ascii c h.1,
      ih h.2]

theorem strip_congr (P Q : Platform) {s : Str} (h : ∀ c ∈ s, IsAscii c) :
    @strip P s = @strip Q s := by
  unfold strip
  rw [dropWhile_ascii P Q s h, dropWhile_ascii P Q]
  intro c hc
  rw [List.mem_reverse] at hc
  exact h c ((List.dropWhile_sublist _).subset hc)

theorem reSub_ascii [Platform] {p : Pattern CharClass} {replacement : Cursor Char → Str}
    (kept : ∀ d : Cursor Char, d.Holds IsAscii → ∀ c ∈ replacement d, IsAscii c) {s : Str}
    (h : ∀ c ∈ s, IsAscii c) : ∀ c ∈ reSub p replacement s, IsAscii c :=
  sub_holds p kept h

theorem reSub_congr (P Q : Platform) (p : Pattern CharClass) (replacement : Cursor Char → Str)
    {s : Str} (h : ∀ c ∈ s, IsAscii c) : @reSub P p replacement s = @reSub Q p replacement s :=
  sub_congr (test_ascii P Q) (isWord_ascii P Q) p replacement h

/-- Every Unicode table normalises an ASCII message alike. -/
theorem normalizeMessage_congr (P Q : Platform) {message : Str} (h : ∀ c ∈ message, IsAscii c) :
    @normalizeMessage P message = @normalizeMessage Q message := by
  have passes : ∀ (ss : List (Pattern CharClass × (Cursor Char → Str))) (text : Str),
      (∀ s ∈ ss, ∀ d : Cursor Char, d.Holds IsAscii → ∀ c ∈ s.2 d, IsAscii c) →
      (∀ c ∈ text, IsAscii c) →
      (∀ c ∈ ss.foldl (fun normalized s => @reSub P s.1 s.2 normalized) text, IsAscii c) ∧
      ss.foldl (fun normalized s => @reSub P s.1 s.2 normalized) text =
        ss.foldl (fun normalized s => @reSub Q s.1 s.2 normalized) text := by
    intro ss
    induction ss with
    | nil => exact fun text _ ascii => ⟨ascii, rfl⟩
    | cons s rest ih =>
      intro text kept ascii
      rw [List.forall_mem_cons] at kept
      have next := @reSub_ascii P s.1 s.2 kept.1 text ascii
      rw [List.foldl_cons, List.foldl_cons, ← reSub_congr P Q s.1 s.2 ascii]
      exact ih _ kept.2 next
  have stripped := @strip_ascii P message h
  obtain ⟨ascii, same⟩ := passes substitutions _ substitutions_ascii stripped
  unfold normalizeMessage normalizeCommon
  rw [← strip_congr P Q h, ← same, strip_congr P Q ascii]

end Ascii

end LogLens
