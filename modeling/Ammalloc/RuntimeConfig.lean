import Ammalloc.Config

set_option relaxedAutoImplicit false
set_option autoImplicit false

/-!
# The runtime configuration

The allocator reads three environment variables when it first needs one of them: `AM_TC_SIZE`, a
number of bytes with an optional unit, and the two switches `AM_USE_MAP_POPULATE` and
`AM_ENABLE_SCAVENGER`. The parsers accept any text. What they make of it is said here by a grammar
of sizes and of switches: a text that is not a size leaves the default alone, a size that does not
fit is cut, and no text gives a limit of zero or above `MAX_TC_SIZE`.

A C string is the list of its characters before the terminator. Only ASCII characters are compared
with, in the C locale, so that a byte above 127 is like any other character.

## Main definitions

* `Ammalloc.RuntimeConfig.strtoul`, `Ammalloc.RuntimeConfig.parseSize`,
  `Ammalloc.RuntimeConfig.parseBool`, `Ammalloc.RuntimeConfig.initFromEnv` — the code.
* `Ammalloc.RuntimeConfig.SizeText`, `Ammalloc.RuntimeConfig.Enables` — the texts of sizes and of
  switches that are on.

## Main results

* `Ammalloc.RuntimeConfig.parseSize_text`, `Ammalloc.RuntimeConfig.exists_sizeText` — a text is read
  as the size that it denotes, and every text that is read as a number is such a text.
* `Ammalloc.RuntimeConfig.parseBool_iff` — the switches.
* `Ammalloc.RuntimeConfig.initFromEnv_reads` — the configuration, for every environment.
-/

namespace Ammalloc

/-- The settings of `RuntimeConfig` with their defaults. -/
structure RuntimeConfig where
  maxTcSize : ℕ := Ammalloc.maxTcSize
  useMapPopulate : Bool := false
  enableScavenger : Bool := true
  deriving DecidableEq, Repr

namespace RuntimeConfig

/-! ## The code -/

/-- `std::isspace`. -/
def isSpace (c : Char) : Bool := c = ' ' || (9 ≤ c.toNat && c.toNat ≤ 13)

/-- A decimal digit. -/
def isDigit (c : Char) : Bool := 48 ≤ c.toNat && c.toNat ≤ 57

/-- `std::tolower`. -/
def toLower (c : Char) : Char :=
  if 65 ≤ c.toNat && c.toNat ≤ 90 then Char.ofNat (c.toNat + 32) else c

/-- The sign of a number: whether it is a minus, and what follows. -/
def takeSign : List Char → Bool × List Char
  | '-' :: s => (true, s)
  | '+' :: s => (false, s)
  | s => (false, s)

/-- The digits of a number after those that make `value`, and what follows them. -/
def takeDigits : ℕ → List Char → ℕ × List Char
  | value, [] => (value, [])
  | value, c :: s =>
    if isDigit c then takeDigits (10 * value + (c.toNat - 48)) s else (value, c :: s)

/-- `strtoul` in base ten, with what follows the number; nothing if there is no number. One that
does not fit is `ULONG_MAX`, whatever its sign, and a minus sign negates one that fits. -/
def strtoul (str : List Char) : Option (ℕ × List Char) :=
  let number := takeSign (str.dropWhile isSpace)
  if number.2.head?.any isDigit then
    let digits := takeDigits 0 number.2
    some (if digits.1 > sizeMax then sizeMax
      else if number.1 then subU64 0 digits.1 else digits.1, digits.2)
  else none

/-- The `switch` of `ParseSize`. -/
def multiplier (c : Char) : Option ℕ :=
  match toLower c with
  | 'b' => some 1
  | 'k' => some (2 ^ 10)
  | 'm' => some (2 ^ 20)
  | 'g' => some (2 ^ 30)
  | 't' => some (2 ^ 40)
  | _ => none

/-- `detail::ParseSize`. -/
def parseSize : Option (List Char) → ℕ
  | none | some [] => 0
  | some str =>
    match strtoul str with
    | none => 0
    | some (value, rest) =>
      match rest.dropWhile isSpace with
      | [] => value
      | c :: _ =>
        match multiplier c with
        | none => value
        | some m => if value > sizeMax / m then sizeMax else m * value % 2 ^ 64

/-- The comparison `is_equal` of `ParseBool`. -/
def isEqual (a b : List Char) : Bool :=
  a.length = b.length && (a.map toLower = b.map toLower)

/-- The two loops of `ParseBool` that remove spaces. -/
def trimSpaces (str : List Char) : List Char :=
  (((str.dropWhile isSpace).reverse).dropWhile isSpace).reverse

/-- `detail::ParseBool`. -/
def parseBool : Option (List Char) → Bool
  | none => false
  | some str =>
    let sv := trimSpaces str
    if sv = [] then false
    else if sv = ['1'] then true
    else isEqual sv "true".toList || isEqual sv "on".toList || isEqual sv "yes".toList

/-- `RuntimeConfig::InitFromEnv` on the defaults; `getenv` is the environment. -/
def initFromEnv (getenv : String → Option (List Char)) : RuntimeConfig where
  maxTcSize :=
    match getenv "AM_TC_SIZE" with
    | none => Ammalloc.maxTcSize
    | some env =>
      let val := parseSize (some env)
      if val > 0 then (if val < Ammalloc.maxTcSize then val else Ammalloc.maxTcSize)
      else Ammalloc.maxTcSize
  useMapPopulate :=
    match getenv "AM_USE_MAP_POPULATE" with
    | none => false
    | some env => parseBool (some env)
  enableScavenger :=
    match getenv "AM_ENABLE_SCAVENGER" with
    | none => true
    | some env => parseBool (some env)

/-! ## The texts of sizes -/

/-- The sign of a number, if one is written. -/
inductive Sign where
  | none
  | plus
  | minus
  deriving DecidableEq, Repr

/-- How a sign is written. -/
def Sign.text : Sign → List Char
  | .none => []
  | .plus => ['+']
  | .minus => ['-']

/-- A decimal digit as a character. -/
def digitChar (d : Fin 10) : Char := Char.ofNat (48 + d)

/-- **A text with a size in it**: spaces, a sign, digits, spaces, and a suffix whose first character
is the unit. The suffix begins where the spaces end. -/
structure SizeText where
  lead : List Char
  sign : Sign
  digits : List (Fin 10)
  gap : List Char
  suffix : List Char
  lead_space : ∀ c ∈ lead, isSpace c = true
  digits_ne : digits ≠ []
  gap_space : ∀ c ∈ gap, isSpace c = true
  suffix_space : ∀ c ∈ suffix.head?, isSpace c = false
  suffix_digit : gap = [] → ∀ c ∈ suffix.head?, isDigit c = false

namespace SizeText

variable (t : SizeText)

/-- The text as the environment has it. -/
def text : List Char := t.lead ++ (t.sign.text ++ (t.digits.map digitChar ++ (t.gap ++ t.suffix)))

/-- The number that the digits make. -/
def amount : ℕ := Nat.ofDigits 10 (t.digits.reverse.map Fin.val)

/-- The number as a 64-bit word: a large one is cut, and a negative one is its complement. -/
def number : ℕ :=
  if t.amount > sizeMax then sizeMax
  else if t.sign = .minus then subU64 0 t.amount else t.amount

/-- The size of the unit. Without one, or with a letter that is none, it is a byte. -/
def unit : ℕ := (t.suffix.head?.bind multiplier).getD 1

/-- The number of bytes, cut to what fits. -/
def bytes : ℕ := min (t.number * t.unit) sizeMax

end SizeText

/-! ### Characters -/

/-- `isdigit` accepts the ten digits. -/
lemma isDigit_digitChar : ∀ d : Fin 10, isDigit (digitChar d) = true := by decide

/-- `isspace` rejects the ten digits. -/
lemma isSpace_digitChar : ∀ d : Fin 10, isSpace (digitChar d) = false := by decide

/-- The value of a digit is its code less that of `0`. -/
lemma toNat_digitChar : ∀ d : Fin 10, (digitChar d).toNat - 48 = d := by decide

/-- A digit is not a sign. -/
lemma digitChar_ne_sign : ∀ d : Fin 10, digitChar d ≠ '-' ∧ digitChar d ≠ '+' := by decide

/-- Every character that `isdigit` accepts is one of the ten. -/
lemma exists_digitChar {c : Char} (h : isDigit c = true) : ∃ d, digitChar d = c := by
  simp only [isDigit, Bool.and_eq_true, decide_eq_true_eq] at h
  refine ⟨⟨c.toNat - 48, by omega⟩, ?_⟩
  unfold digitChar
  rw [show 48 + (c.toNat - 48) = c.toNat by omega, Char.ofNat_toNat]

/-- A space is not a digit. -/
lemma isDigit_of_isSpace {c : Char} (h : isSpace c = true) : isDigit c = false := by
  simp only [isSpace, Bool.or_eq_true, Bool.and_eq_true, decide_eq_true_eq] at h
  rcases h with rfl | h
  · decide
  · simp only [isDigit, Bool.and_eq_false_iff, decide_eq_false_iff_not]
    omega

/-- A space is a space in lower case. -/
lemma isSpace_toLower {c : Char} (h : isSpace c = true) : isSpace (toLower c) = true := by
  have hupper : ¬ (65 ≤ c.toNat && c.toNat ≤ 90) = true := by
    simp only [isSpace, Bool.or_eq_true, Bool.and_eq_true, decide_eq_true_eq] at h ⊢
    rcases h with rfl | h
    · decide
    · omega
  rw [toLower, if_neg hupper]
  exact h

/-- Spaces in front of a text that does not begin with one are skipped. -/
lemma dropWhile_isSpace {lead s : List Char} (hlead : ∀ c ∈ lead, isSpace c = true)
    (hs : ∀ c ∈ s.head?, isSpace c = false) : (lead ++ s).dropWhile isSpace = s := by
  induction lead with
  | nil =>
    cases s with
    | nil => rfl
    | cons c s => exact List.dropWhile_cons_of_neg (by simp [hs c rfl])
  | cons c lead ih =>
    rw [List.cons_append, List.dropWhile_cons_of_pos (hlead c List.mem_cons_self)]
    exact ih fun d hd => hlead d (List.mem_cons_of_mem c hd)

/-- The spaces in front of a text, and the rest of it. -/
lemma exists_spaces (s : List Char) : ∃ lead, (∀ c ∈ lead, isSpace c = true) ∧
    lead ++ s.dropWhile isSpace = s ∧ ∀ c ∈ (s.dropWhile isSpace).head?, isSpace c = false := by
  induction s with
  | nil => exact ⟨[], by simp, rfl, by simp⟩
  | cons c s ih =>
    cases hc : isSpace c with
    | false =>
      rw [List.dropWhile_cons_of_neg (by simp [hc])]
      refine ⟨[], by simp, rfl, ?_⟩
      rintro d ⟨rfl⟩
      exact hc
    | true =>
      obtain ⟨lead, hlead, happ, hhead⟩ := ih
      rw [List.dropWhile_cons_of_pos hc]
      refine ⟨c :: lead, ?_, by rw [List.cons_append, happ], hhead⟩
      rintro d (_ | ⟨_, hd⟩)
      · exact hc
      · exact hlead d hd

/-! ### Numbers -/

/-- Reading a digit after those that make a number. -/
lemma foldl_digits (ds : List (Fin 10)) :
    ds.foldl (fun v d => 10 * v + d.val) 0 = Nat.ofDigits 10 (ds.reverse.map Fin.val) := by
  induction ds using List.reverseRecOn with
  | nil => rfl
  | append_singleton ds d ih =>
    rw [List.foldl_append, ih]
    simp only [List.foldl_cons, List.foldl_nil, List.reverse_append, List.reverse_cons,
      List.reverse_nil, List.nil_append, List.cons_append, List.map_cons, Nat.ofDigits_cons]
    omega

/-- The digits up to a character that is none are read as a decimal number. -/
lemma takeDigits_digits (ds : List (Fin 10)) {rest : List Char}
    (hrest : ∀ c ∈ rest.head?, isDigit c = false) (v : ℕ) :
    takeDigits v (ds.map digitChar ++ rest) =
      (ds.foldl (fun v d => 10 * v + d.val) v, rest) := by
  induction ds generalizing v with
  | nil =>
    cases rest with
    | nil => rfl
    | cons c rest => simp [takeDigits, hrest c rfl]
  | cons d ds ih =>
    simp only [List.map_cons, List.cons_append, takeDigits, isDigit_digitChar, if_true,
      toNat_digitChar, List.foldl_cons]
    exact ih _

/-- The digits in front of a text, and the rest of it. -/
lemma exists_digits (s : List Char) : ∃ (ds : List (Fin 10)) (rest : List Char),
    ds.map digitChar ++ rest = s ∧ ∀ c ∈ rest.head?, isDigit c = false := by
  induction s with
  | nil => exact ⟨[], [], rfl, by simp⟩
  | cons c s ih =>
    cases hc : isDigit c with
    | false =>
      refine ⟨[], c :: s, rfl, ?_⟩
      rintro d ⟨rfl⟩
      exact hc
    | true =>
      obtain ⟨ds, rest, rfl, hrest⟩ := ih
      obtain ⟨d, rfl⟩ := exists_digitChar hc
      exact ⟨d :: ds, rest, rfl, hrest⟩

/-- A sign before a digit is read as such. -/
lemma takeSign_text (sign : Sign) (d : Fin 10) (s : List Char) :
    takeSign (sign.text ++ digitChar d :: s) = (decide (sign = .minus), digitChar d :: s) := by
  cases sign with
  | plus => rfl
  | minus => rfl
  | none =>
    obtain ⟨hminus, hplus⟩ := digitChar_ne_sign d
    simp only [Sign.text, List.nil_append]
    unfold takeSign
    split
    · rename_i heq
      exact absurd (List.cons.inj heq).1 hminus
    · rename_i heq
      exact absurd (List.cons.inj heq).1 hplus
    · rfl

/-- The sign in front of a text, and the rest of it. -/
lemma exists_sign (s : List Char) : ∃ sign : Sign, sign.text ++ (takeSign s).2 = s := by
  unfold takeSign
  split
  · exact ⟨.minus, rfl⟩
  · exact ⟨.plus, rfl⟩
  · exact ⟨.none, rfl⟩

namespace SizeText

variable (t : SizeText)

/-- What follows the digits of a text does not begin with a digit. -/
lemma rest_digit : ∀ c ∈ (t.gap ++ t.suffix).head?, isDigit c = false := by
  intro c hc
  cases hgap : t.gap with
  | nil =>
    rw [hgap, List.nil_append] at hc
    exact t.suffix_digit hgap c hc
  | cons d gap =>
    rw [hgap] at hc
    obtain rfl : d = c := Option.some.inj hc
    exact isDigit_of_isSpace (t.gap_space d (hgap ▸ List.mem_cons_self))

/-- **The number in a text** is read, up to the spaces and the suffix. -/
lemma strtoul_text : strtoul t.text = some (t.number, t.gap ++ t.suffix) := by
  obtain ⟨d, ds, hds⟩ := List.exists_cons_of_ne_nil t.digits_ne
  have hskip : t.text.dropWhile isSpace =
      t.sign.text ++ (t.digits.map digitChar ++ (t.gap ++ t.suffix)) := by
    refine dropWhile_isSpace t.lead_space fun c hc => ?_
    rw [hds] at hc
    cases hsign : t.sign with
    | none =>
      rw [hsign] at hc
      obtain rfl := Option.some.inj hc
      exact isSpace_digitChar d
    | plus =>
      rw [hsign] at hc
      obtain rfl := Option.some.inj hc
      decide
    | minus =>
      rw [hsign] at hc
      obtain rfl := Option.some.inj hc
      decide
  have hsign : takeSign (t.text.dropWhile isSpace) =
      (decide (t.sign = .minus), t.digits.map digitChar ++ (t.gap ++ t.suffix)) := by
    rw [hskip, hds]
    exact takeSign_text t.sign d _
  have hhead : (t.digits.map digitChar ++ (t.gap ++ t.suffix)).head?.any isDigit = true := by
    rw [hds]
    exact isDigit_digitChar d
  simp only [strtoul, hsign, if_pos hhead, takeDigits_digits _ t.rest_digit, foldl_digits,
    decide_eq_true_eq]
  rfl

/-- The number of a text is a `size_t`. -/
lemma number_le : t.number ≤ sizeMax := by
  unfold number subU64
  have hmod := Nat.mod_lt (0 + 2 ^ 64 - t.amount) (show 0 < 2 ^ 64 by decide)
  have hmax : sizeMax = 2 ^ 64 - 1 := rfl
  split_ifs <;> omega

end SizeText

/-- A suffix multiplies by a positive number. -/
lemma multiplier_pos {c : Char} {m : ℕ} (h : multiplier c = some m) : 0 < m := by
  unfold multiplier at h
  split at h <;> simp at h <;> omega

/-- The multiplication of `ParseSize` saturates. -/
lemma saturating_mul {value m : ℕ} (hm : 0 < m) :
    (if value > sizeMax / m then sizeMax else m * value % 2 ^ 64) = min (value * m) sizeMax := by
  have hiff := Nat.le_div_iff_mul_le (x := value) (y := sizeMax) hm
  split_ifs with hlarge
  · rw [min_eq_right]
    by_contra hlt
    exact absurd (hiff.mpr (by omega)) (by omega)
  · have hle : value * m ≤ sizeMax := hiff.mp (by omega)
    rw [min_eq_left hle, Nat.mul_comm, Nat.mod_eq_of_lt]
    exact Nat.lt_of_le_of_lt hle (by decide)

/-- **A text is read as the size that it denotes.** -/
theorem parseSize_text (t : SizeText) : parseSize (some t.text) = t.bytes := by
  have hread := t.strtoul_text
  have hskip := dropWhile_isSpace t.gap_space t.suffix_space
  have hle := t.number_le
  cases htext : t.text with
  | nil =>
    rw [htext, show strtoul [] = none from rfl] at hread
    exact absurd hread (by simp)
  | cons c s =>
    rw [← htext]
    have hparse : parseSize (some t.text) =
        match t.suffix with
        | [] => t.number
        | c :: _ =>
          match multiplier c with
          | none => t.number
          | some m => if t.number > sizeMax / m then sizeMax else m * t.number % 2 ^ 64 := by
      rw [htext] at hread ⊢
      simp only [parseSize, hread, hskip]
    rw [hparse]
    unfold SizeText.bytes SizeText.unit
    cases t.suffix with
    | nil => simp [hle]
    | cons c suffix =>
      cases hm : multiplier c with
      | none => simp [hm, hle]
      | some m =>
        simp only [hm, List.head?_cons, Option.bind_some, Option.getD_some]
        exact saturating_mul (multiplier_pos hm)

/-- **Every text that is read as a number** is the text of a size. -/
theorem exists_sizeText {s : List Char} (h : (strtoul s).isSome) : ∃ t : SizeText, t.text = s := by
  obtain ⟨lead, hlead, happ, -⟩ := exists_spaces s
  obtain ⟨sign, hsign⟩ := exists_sign (s.dropWhile isSpace)
  obtain ⟨digits, rest, hdigits, hrest⟩ := exists_digits (takeSign (s.dropWhile isSpace)).2
  obtain ⟨gap, hgap, hsuffix, hhead⟩ := exists_spaces rest
  have hne : digits ≠ [] := by
    rintro rfl
    have hany : (takeSign (s.dropWhile isSpace)).2.head?.any isDigit = false := by
      rw [← hdigits, List.map_nil, List.nil_append]
      cases hr : rest.head? with
      | none => rfl
      | some c => exact hrest c hr
    simp [strtoul, hany] at h
  refine ⟨⟨lead, sign, digits, gap, rest.dropWhile isSpace, hlead, hne, hgap, hhead, ?_⟩, ?_⟩
  · rintro rfl
    rw [List.nil_append] at hsuffix
    rwa [hsuffix]
  · simp only [SizeText.text]
    rw [hsuffix, hdigits, hsign, happ]

/-- A text without a size is read as zero. -/
lemma parseSize_eq_zero {s : List Char} (h : ∀ t : SizeText, t.text ≠ s) :
    parseSize (some s) = 0 := by
  have hnone : strtoul s = none := by
    by_contra hsome
    obtain ⟨t, ht⟩ := exists_sizeText (Option.isSome_iff_ne_none.mpr hsome)
    exact h t ht
  cases s with
  | nil => rfl
  | cons c s => simp only [parseSize, hnone]

/-! ## The switches -/

/-- A text that turns a switch on: one of four words, in any case, between spaces. -/
def Enables (s : List Char) : Prop :=
  ∃ lead word trail : List Char, s = lead ++ (word ++ trail) ∧ (∀ c ∈ lead, isSpace c = true) ∧
    (∀ c ∈ trail, isSpace c = true) ∧
    word.map toLower ∈ [['1'], ['t', 'r', 'u', 'e'], ['o', 'n'], ['y', 'e', 's']]

/-- The first and last character of a word that turns a switch on are none that is removed. -/
lemma isSpace_of_word {word : List Char}
    (h : word.map toLower ∈ [['1'], ['t', 'r', 'u', 'e'], ['o', 'n'], ['y', 'e', 's']]) :
    ∀ c ∈ word, isSpace c = false := by
  intro c hc
  have hall : ([['1'], ['t', 'r', 'u', 'e'], ['o', 'n'], ['y', 'e', 's']].all fun w =>
      w.all fun d => !isSpace d) = true := rfl
  simp only [List.all_eq_true, Bool.not_eq_true'] at hall
  by_contra hspace
  have hlower := isSpace_toLower (Bool.not_eq_false _ ▸ hspace)
  rw [hall _ h _ (List.mem_map_of_mem hc)] at hlower
  exact Bool.false_ne_true hlower

/-- What is left when the spaces around a word are removed. -/
lemma trimSpaces_word {lead word trail : List Char} (hlead : ∀ c ∈ lead, isSpace c = true)
    (htrail : ∀ c ∈ trail, isSpace c = true) (hne : word ≠ [])
    (hword : ∀ c ∈ word, isSpace c = false) :
    trimSpaces (lead ++ (word ++ trail)) = word := by
  have hfirst : ∀ c ∈ (word ++ trail).head?, isSpace c = false := by
    intro c hc
    rw [List.head?_append_of_ne_nil _ hne] at hc
    exact hword c (List.mem_of_mem_head? hc)
  have hlast : ∀ c ∈ word.reverse.head?, isSpace c = false := fun c hc =>
    hword c (List.mem_reverse.mp (List.mem_of_mem_head? hc))
  unfold trimSpaces
  rw [dropWhile_isSpace hlead hfirst, List.reverse_append,
    dropWhile_isSpace (fun c hc => htrail c (List.mem_reverse.mp hc)) hlast, List.reverse_reverse]

/-- The spaces around a text. -/
lemma exists_trimSpaces (s : List Char) : ∃ lead trail : List Char,
    s = lead ++ (trimSpaces s ++ trail) ∧ (∀ c ∈ lead, isSpace c = true) ∧
      ∀ c ∈ trail, isSpace c = true := by
  obtain ⟨lead, hlead, happ, -⟩ := exists_spaces s
  obtain ⟨trail, htrail, happ', -⟩ := exists_spaces (s.dropWhile isSpace).reverse
  refine ⟨lead, trail.reverse, ?_, hlead, fun c hc => htrail c (List.mem_reverse.mp hc)⟩
  have hmid : s.dropWhile isSpace = trimSpaces s ++ trail.reverse := by
    rw [trimSpaces, ← List.reverse_append, happ', List.reverse_reverse]
  rw [← hmid, happ]

/-- Only `1` has `1` as its lower case. -/
lemma toLower_eq_one {c : Char} : toLower c = '1' ↔ c = '1' := by
  unfold toLower
  split_ifs with hupper
  · simp only [Bool.and_eq_true, decide_eq_true_eq] at hupper
    have hletters : ∀ n < 91, 65 ≤ n → Char.ofNat (n + 32) ≠ '1' := by decide
    constructor
    · intro h
      exact absurd h (hletters c.toNat (by omega) hupper.1)
    · rintro rfl
      exact absurd hupper (by decide)
  · exact Iff.rfl

/-- `IsEqual` compares without regard to the case. -/
lemma isEqual_iff (a b : List Char) : isEqual a b = true ↔ a.map toLower = b.map toLower := by
  simp only [isEqual, Bool.and_eq_true, decide_eq_true_eq]
  refine ⟨fun h => h.2, fun h => ⟨?_, h⟩⟩
  simpa using congrArg List.length h

/-- **A switch is on** exactly if its text says so. -/
theorem parseBool_iff (s : List Char) : parseBool (some s) = true ↔ Enables s := by
  have hword : ∀ w : List Char, w.map toLower = ['1'] ↔ w = ['1'] := by
    intro w
    simp [List.map_eq_singleton_iff, toLower_eq_one]
  have hparse : parseBool (some s) = true ↔ (trimSpaces s).map toLower ∈
      [['1'], ['t', 'r', 'u', 'e'], ['o', 'n'], ['y', 'e', 's']] := by
    have htrue : "true".toList.map toLower = ['t', 'r', 'u', 'e'] := by decide
    have hon : "on".toList.map toLower = ['o', 'n'] := by decide
    have hyes : "yes".toList.map toLower = ['y', 'e', 's'] := by decide
    simp only [parseBool, List.mem_cons, List.not_mem_nil, or_false, hword]
    split_ifs with hnil hone
    · simp [hnil]
    · simp [hone]
    · simp only [Bool.or_eq_true, isEqual_iff, htrue, hon, hyes, hone, false_or, or_assoc]
  rw [hparse]
  constructor
  · intro h
    obtain ⟨lead, trail, happ, hlead, htrail⟩ := exists_trimSpaces s
    exact ⟨lead, trimSpaces s, trail, happ, hlead, htrail, h⟩
  · rintro ⟨lead, word, trail, rfl, hlead, htrail, h⟩
    have hne : word ≠ [] := by
      rintro rfl
      exact absurd h (by decide)
    rwa [trimSpaces_word hlead htrail hne (isSpace_of_word h)]

/-! ## The configuration -/

/-- **What the environment says is what is configured**, for every environment. The limit is never
zero and never above `MAX_TC_SIZE`; a text with a size sets it, up to that, and any other text
leaves the default. A switch has the value that its text denotes, and its default without one.

**Proof sketch.** The texts with a size are read by `parseSize_text`, all others by
`parseSize_eq_zero`, and the switches by `parseBool_iff`. -/
theorem initFromEnv_reads (getenv : String → Option (List Char)) :
    (0 < (initFromEnv getenv).maxTcSize ∧ (initFromEnv getenv).maxTcSize ≤ Ammalloc.maxTcSize) ∧
      (∀ t : SizeText, getenv "AM_TC_SIZE" = some t.text → (initFromEnv getenv).maxTcSize =
        if t.bytes = 0 then Ammalloc.maxTcSize else min t.bytes Ammalloc.maxTcSize) ∧
      ((∀ t : SizeText, getenv "AM_TC_SIZE" ≠ some t.text) →
        (initFromEnv getenv).maxTcSize = Ammalloc.maxTcSize) ∧
      ((initFromEnv getenv).useMapPopulate = true ↔
        ∃ s, getenv "AM_USE_MAP_POPULATE" = some s ∧ Enables s) ∧
      ((initFromEnv getenv).enableScavenger = true ↔
        ∀ s, getenv "AM_ENABLE_SCAVENGER" = some s → Enables s) := by
  refine ⟨?_, ?_, ?_, ?_, ?_⟩
  · have hmax : 0 < Ammalloc.maxTcSize := by decide
    simp only [initFromEnv]
    split
    · exact ⟨hmax, le_rfl⟩
    · split_ifs <;> omega
  · intro t ht
    simp only [initFromEnv, ht, parseSize_text]
    split_ifs <;> omega
  · intro hnone
    simp only [initFromEnv]
    cases henv : getenv "AM_TC_SIZE" with
    | none => rfl
    | some s =>
      have hzero : parseSize (some s) = 0 := by
        refine parseSize_eq_zero fun t ht => hnone t ?_
        rw [henv, ht]
      simp [hzero]
  · simp only [initFromEnv]
    cases getenv "AM_USE_MAP_POPULATE" with
    | none => simp
    | some s => simp [parseBool_iff]
  · simp only [initFromEnv]
    cases getenv "AM_ENABLE_SCAVENGER" with
    | none => simp
    | some s => simp [parseBool_iff]

/-- Eight kibibytes, in one of the ways to write them. -/
example : (initFromEnv fun name =>
    if name = "AM_TC_SIZE" then some [' ', '8', ' ', 'K', 'B'] else none).maxTcSize = 8192 := by
  decide

end RuntimeConfig

end Ammalloc
