import Mathlib.Data.List.Forall2
import Mathlib.Data.List.TakeWhile
import Mathlib.Data.Nat.Digits.Lemmas
import Unwind.Settings

/-!
# Sizes in the environment

`Asks` says which values of a variable ask for which size: the UTF-8 form of a decimal or of a
marked hexadecimal number, with at most one plus sign, and white space only around it. A tracer
takes a size from its variable exactly if that asks for one that a word has room for, and no
variable decides about more than its own setting (`sizes_as_asked`). A word is asked for by whatever
it can be printed as (`isSize_of_isPrinted`).
-/

namespace Unwind

namespace Settings

/-! ## Numerals -/

/-- The character stands for the digit `d`. Letters do in either case. -/
def IsDigit (radix : Nat) (c : Char) (d : Nat) : Prop :=
  d < radix ∧ (c = d.digitChar ∨ c = d.digitChar.toUpper)

/-- The characters are at least one digit to the base `radix`, most significant first, and `n` is
their number. -/
def Denotes (radix : Nat) (text : List Char) (n : Nat) : Prop :=
  text ≠ [] ∧ ∃ digits, List.Forall₂ (IsDigit radix) text digits ∧
    n = Nat.ofDigits radix digits.reverse

/-- The text is a size without white space around it. -/
inductive IsSize : List Char → Nat → Prop
  | decimal {sign digits : List Char} {n : Nat} (hsign : sign = [] ∨ sign = ['+'])
      (h : Denotes 10 digits n) : IsSize (sign ++ digits) n
  | hexadecimal {x : Char} {sign digits : List Char} {n : Nat} (hx : x = 'x' ∨ x = 'X')
      (hsign : sign = [] ∨ sign = ['+']) (h : Denotes 16 digits n) :
      IsSize ('0' :: x :: (sign ++ digits)) n

/-- The text is a size with white space around it, if any. -/
def IsSizeText (text : List Char) (n : Nat) : Prop :=
  ∃ before size after, text = before ++ size ++ after ∧ (∀ c ∈ before, isBlank c = true) ∧
    (∀ c ∈ after, isBlank c = true) ∧ IsSize size n

variable {radix value n d : Nat} {c : Char} {text : List Char} {v : UInt64}

theorem isDigit_cases (h : IsDigit 16 c d) : digitValue? c = some d ∧ isBlank c = false := by
  have hall : ∀ d < 16, (digitValue? d.digitChar = some d ∧ isBlank d.digitChar = false) ∧
      digitValue? d.digitChar.toUpper = some d ∧ isBlank d.digitChar.toUpper = false := by
    decide
  obtain ⟨hd, rfl | rfl⟩ := h
  · exact (hall d hd).1
  · exact (hall d hd).2

theorem digitValue?_eq_some_iff : digitValue? c = some d ↔ IsDigit 16 c d := by
  refine ⟨fun h => ?_, fun h => (isDigit_cases h).1⟩
  -- The characters of each range are few enough to be looked through.
  have hdecimal : ∀ n < 58, 48 ≤ n → Char.ofNat n = (n - 48).digitChar := by decide
  have hlower : ∀ n < 103, 97 ≤ n → Char.ofNat n = (n - 97 + 10).digitChar := by decide
  have hupper : ∀ n < 71, 65 ≤ n → Char.ofNat n = (n - 65 + 10).digitChar.toUpper := by decide
  unfold digitValue? at h
  rw [IsDigit, ← Char.ofNat_toNat c]
  split at h
  · rename_i hrange
    obtain ⟨hlo, hhi⟩ : 48 ≤ c.toNat ∧ c.toNat ≤ 57 := hrange
    cases h
    exact ⟨show c.toNat - 48 < 16 by omega, .inl (hdecimal _ (by omega) hlo)⟩
  split at h
  · rename_i hrange
    obtain ⟨hlo, hhi⟩ : 97 ≤ c.toNat ∧ c.toNat ≤ 102 := hrange
    cases h
    exact ⟨show c.toNat - 97 + 10 < 16 by omega, .inl (hlower _ (by omega) hlo)⟩
  split at h
  · rename_i hrange
    obtain ⟨hlo, hhi⟩ : 65 ≤ c.toNat ∧ c.toNat ≤ 70 := hrange
    cases h
    exact ⟨show c.toNat - 65 + 10 < 16 by omega, .inr (hupper _ (by omega) hlo)⟩
  · cases h

theorem digitsFrom?_eq_some_iff (hradix : radix ≤ 16) :
    digitsFrom? radix value text = some n ↔ ∃ digits, List.Forall₂ (IsDigit radix) text digits ∧
      n = value * radix ^ digits.length + Nat.ofDigits radix digits.reverse := by
  induction text generalizing value with
  | nil => simp [digitsFrom?, eq_comm]
  | cons c rest ih =>
    have hnumber (d : Nat) (digits : List Nat) :
        value * radix ^ (d :: digits).length + Nat.ofDigits radix (d :: digits).reverse =
          (radix * value + d) * radix ^ digits.length + Nat.ofDigits radix digits.reverse := by
      rw [List.length_cons, List.reverse_cons, Nat.ofDigits_append, List.length_reverse,
        Nat.ofDigits_singleton, Nat.pow_succ]
      ring
    rw [digitsFrom?]
    constructor
    · intro h
      split at h
      · rename_i d hd
        split at h
        · rename_i hlt
          obtain ⟨digits, hdigits, hn⟩ := ih.mp h
          have hc := (digitValue?_eq_some_iff.mp hd).2
          exact ⟨d :: digits, .cons ⟨hlt, hc⟩ hdigits, hn.trans (hnumber d digits).symm⟩
        · cases h
      · cases h
    · rintro ⟨_, _ | ⟨⟨hlt, hc⟩, hdigits⟩, hn⟩
      rename_i d digits
      have hd : digitValue? c = some d := digitValue?_eq_some_iff.mpr ⟨by omega, hc⟩
      rw [hd]
      dsimp only
      rw [if_pos hlt]
      exact ih.mpr ⟨digits, hdigits, hn.trans (hnumber d digits)⟩

theorem digits?_eq_some_iff (hradix : radix ≤ 16) :
    digits? radix text = some v ↔ Denotes radix text v.toNat := by
  unfold digits? Denotes
  by_cases hempty : text = []
  · simp [hempty]
  · rw [if_neg (by rwa [List.isEmpty_iff])]
    have hword : ((digitsFrom? radix 0 text).bind fun n =>
        if n < wordCount then some n.toUInt64 else none) = some v ↔
          digitsFrom? radix 0 text = some v.toNat := by
      rw [Option.bind_eq_some_iff]
      constructor
      · rintro ⟨n, hn, hv⟩
        split at hv
        · rename_i hlt
          cases hv
          rw [hn, Nat.toUInt64_eq, UInt64.toNat_ofNat_of_lt' hlt]
        · cases hv
      · intro h
        refine ⟨_, h, ?_⟩
        rw [if_pos (show v.toNat < wordCount from v.toNat_lt), Nat.toUInt64_eq, UInt64.ofNat_toNat]
    rw [hword, digitsFrom?_eq_some_iff hradix]
    simp [hempty]

theorem numeral?_eq_some_iff (hradix : radix ≤ 16) :
    numeral? radix text = some v ↔ ∃ sign digits, text = sign ++ digits ∧
      (sign = [] ∨ sign = ['+']) ∧ Denotes radix digits v.toNat := by
  unfold numeral?
  split
  · rename_i rest
    rw [digits?_eq_some_iff hradix]
    constructor
    · exact fun h => ⟨['+'], rest, rfl, .inr rfl, h⟩
    · rintro ⟨sign, digits, htext, rfl | rfl, h⟩
      · -- A plus sign is no digit.
        obtain ⟨-, _, hdigits, -⟩ := h
        cases htext
        cases hdigits with
        | cons hplus _ =>
          have hvalue := (isDigit_cases ⟨by have := hplus.1; omega, hplus.2⟩).1
          cases hvalue
      · cases htext
        exact h
  · rename_i hsign
    rw [digits?_eq_some_iff hradix]
    constructor
    · exact fun h => ⟨[], text, rfl, .inl rfl, h⟩
    · rintro ⟨sign, digits, htext, rfl | rfl, h⟩
      · cases htext
        exact h
      · exact absurd htext (hsign digits)

/-! ## White space -/

theorem exists_trim (text : List Char) : ∃ before after, text = before ++ trim text ++ after ∧
    (∀ c ∈ before, isBlank c = true) ∧ ∀ c ∈ after, isBlank c = true := by
  have hfront := List.takeWhile_append_dropWhile (p := isBlank) (l := text)
  have hback := List.takeWhile_append_dropWhile (p := isBlank)
    (l := (text.dropWhile isBlank).reverse)
  refine ⟨text.takeWhile isBlank, ((text.dropWhile isBlank).reverse.takeWhile isBlank).reverse, ?_,
    fun c hc => List.mem_takeWhile_imp hc, fun c hc => ?_⟩
  · rw [trim, List.append_assoc, ← List.reverse_append, hback, List.reverse_reverse, hfront]
  · exact List.mem_takeWhile_imp (List.mem_reverse.mp hc)

theorem dropWhile_of_blank {before size : List Char} (hbefore : ∀ c ∈ before, isBlank c = true)
    (hsize : ∀ c ∈ size, isBlank c = false) (hne : size ≠ []) (after : List Char) :
    (before ++ (size ++ after)).dropWhile isBlank = size ++ after := by
  obtain ⟨c, rest, rfl⟩ := List.exists_cons_of_ne_nil hne
  rw [List.dropWhile_append_of_pos hbefore, List.cons_append, List.dropWhile_cons_of_neg]
  rw [hsize c List.mem_cons_self]
  nofun

/-- White space is taken away only in front and behind. -/
theorem trim_of_blank {before size after : List Char} (hbefore : ∀ c ∈ before, isBlank c = true)
    (hafter : ∀ c ∈ after, isBlank c = true) (hsize : ∀ c ∈ size, isBlank c = false)
    (hne : size ≠ []) : trim (before ++ size ++ after) = size := by
  have hback : (after.reverse ++ (size.reverse ++ [])).dropWhile isBlank = size.reverse ++ [] :=
    dropWhile_of_blank (fun c hc => hafter c (List.mem_reverse.mp hc))
      (fun c hc => hsize c (List.mem_reverse.mp hc)) (by rwa [ne_eq, List.reverse_eq_nil_iff]) []
  rw [List.append_nil] at hback
  rw [trim, List.append_assoc, dropWhile_of_blank hbefore hsize hne, List.reverse_append, hback,
    List.reverse_reverse]

theorem blank_of_denotes (hradix : radix ≤ 16) (h : Denotes radix text n) :
    ∀ c ∈ text, isBlank c = false := by
  obtain ⟨-, digits, hdigits, -⟩ := h
  induction hdigits with
  | nil => nofun
  | cons hc _ ih =>
    rw [List.forall_mem_cons]
    exact ⟨(isDigit_cases ⟨by have := hc.1; omega, hc.2⟩).2, ih⟩

/-! ## Sizes -/

theorem blank_of_isSize (h : IsSize text n) : text ≠ [] ∧ ∀ c ∈ text, isBlank c = false := by
  have hsigned {sign digits : List Char} (hsign : sign = [] ∨ sign = ['+'])
      (hdigits : ∀ c ∈ digits, isBlank c = false) : ∀ c ∈ sign ++ digits, isBlank c = false := by
    obtain rfl | rfl := hsign
    · exact hdigits
    · exact List.forall_mem_cons.mpr ⟨rfl, hdigits⟩
  cases h with
  | decimal hsign h =>
    exact ⟨List.append_ne_nil_of_right_ne_nil _ h.1, hsigned hsign (blank_of_denotes (by decide) h)⟩
  | hexadecimal hx hsign h =>
    refine ⟨nofun, List.forall_mem_cons.mpr ⟨rfl, List.forall_mem_cons.mpr ⟨?_, ?_⟩⟩⟩
    · obtain rfl | rfl := hx <;> rfl
    · exact hsigned hsign (blank_of_denotes (by decide) h)

/-- Behind the mark of a hexadecimal number stands nothing else: the mark holds no decimal digit. -/
theorem isSize_marked {x : Char} (hx : x = 'x' ∨ x = 'X') {rest : List Char} :
    IsSize ('0' :: x :: rest) n ↔ ∃ sign digits, rest = sign ++ digits ∧
      (sign = [] ∨ sign = ['+']) ∧ Denotes 16 digits n := by
  constructor
  · intro h
    generalize htext : '0' :: x :: rest = text at h
    cases h with
    | decimal hsign h =>
      obtain rfl | rfl := hsign
      · cases htext
        obtain ⟨-, _, _ | ⟨-, _ | ⟨hmark, -⟩⟩, -⟩ := h
        have hvalue := (isDigit_cases ⟨by have := hmark.1; omega, hmark.2⟩).1
        obtain rfl | rfl := hx <;> cases hvalue
      · cases htext
    | hexadecimal _ hsign h =>
      cases htext
      exact ⟨_, _, rfl, hsign, h⟩
  · rintro ⟨sign, digits, rfl, hsign, h⟩
    exact .hexadecimal hx hsign h

theorem isSize_unmarked (hlower : ∀ rest, text ≠ '0' :: 'x' :: rest)
    (hupper : ∀ rest, text ≠ '0' :: 'X' :: rest) :
    IsSize text n ↔ ∃ sign digits, text = sign ++ digits ∧ (sign = [] ∨ sign = ['+']) ∧
      Denotes 10 digits n := by
  constructor
  · intro h
    cases h with
    | decimal hsign h => exact ⟨_, _, rfl, hsign, h⟩
    | hexadecimal hx _ _ =>
      obtain rfl | rfl := hx
      · exact absurd rfl (hlower _)
      · exact absurd rfl (hupper _)
  · rintro ⟨sign, digits, rfl, hsign, h⟩
    exact .decimal hsign h

/-- The texts that are read as sizes. -/
theorem size?_eq_some_iff : size? text = some v ↔ IsSizeText text v.toNat := by
  have htrimmed : size? text = some v ↔ IsSize (trim text) v.toNat := by
    unfold size?
    split
    · rename_i htrim
      rw [htrim, numeral?_eq_some_iff (by decide), isSize_marked (.inl rfl)]
    · rename_i htrim
      rw [htrim, numeral?_eq_some_iff (by decide), isSize_marked (.inr rfl)]
    · rename_i hlower hupper
      rw [numeral?_eq_some_iff (by decide), isSize_unmarked hlower hupper]
  rw [htrimmed]
  constructor
  · intro h
    -- What is trimmed is white space, and what is left is known to be a size.
    obtain ⟨before, after, htext, hbefore, hafter⟩ := exists_trim text
    exact ⟨before, trim text, after, htext, hbefore, hafter, h⟩
  · rintro ⟨before, size, after, rfl, hbefore, hafter, h⟩
    obtain ⟨hne, hsize⟩ := blank_of_isSize h
    rwa [trim_of_blank hbefore hafter hsize hne]

/-! ## Variables -/

/-- The bytes of a text in UTF-8. -/
def utf8 (text : List Char) : Bytes := (String.ofList text).toByteArray.data.toList

/-- The value of a variable, if it has one, asks for a size. -/
def Asks (value : Option Bytes) (v : UInt64) : Prop :=
  ∃ text, value = some (utf8 text) ∧ IsSizeText text v.toNat

/-- A setting is what the value of its variable asks for, and the default if it asks for nothing. -/
def Obeys (setting fallback : UInt64) (value : Option Bytes) : Prop :=
  (∀ v, Asks value v → setting = v) ∧ ((∀ v, ¬ Asks value v) → setting = fallback)

/-- The value of a variable of the program. -/
def valueOf (program : String) (lookup : String → Option Bytes) (key : String) : Option Bytes :=
  lookup (program ++ "_" ++ key)

theorem fromUTF8?_toByteArray (s : String) : String.fromUTF8? s.toByteArray = some s := by
  unfold String.fromUTF8?
  rw [dif_pos s.isValidUTF8]
  rfl

theorem characters?_eq_some_iff {bytes : Bytes} :
    characters? bytes = some text ↔ bytes = utf8 text := by
  unfold characters? utf8
  constructor
  · intro h
    unfold String.fromUTF8? at h
    split at h
    · cases h
      rw [String.ofList_toList]
      rfl
    · cases h
  · rintro rfl
    rw [Array.toArray_toList, fromUTF8?_toByteArray, Option.map_some, String.toList_ofList]

theorem asks_iff {value : Option Bytes} :
    Asks value v ↔ (value.bind characters?).bind size? = some v := by
  unfold Asks
  cases value with
  | none => simp
  | some bytes =>
    simp only [Option.some.injEq, Option.bind_some, Option.bind_eq_some_iff,
      characters?_eq_some_iff, size?_eq_some_iff]

theorem asks_utf8_iff : Asks (some (utf8 text)) v ↔ size? text = some v := by
  rw [asks_iff, Option.bind_some, characters?_eq_some_iff.mpr rfl, Option.bind_some]

theorem obeys_getD (fallback : UInt64) (value : Option Bytes) :
    Obeys (((value.bind characters?).bind size?).getD fallback) fallback value := by
  unfold Obeys
  simp only [asks_iff]
  refine ⟨fun v hv => ?_, fun hnone => ?_⟩
  · rw [hv, Option.getD_some]
  · rw [Option.eq_none_iff_forall_ne_some.mpr hnone, Option.getD_none]

/-! ## Printed sizes -/

/-- The word in decimal, or in hexadecimal in either case, with any number of zeros in front. -/
inductive IsPrinted (v : UInt64) : List Char → Prop
  | decimal (zeros : Nat) :
      IsPrinted v (List.replicate zeros '0' ++ Nat.toDigits 10 v.toNat)
  | hexadecimal {x : Char} {shape : Char → Char} (hx : x = 'x' ∨ x = 'X')
      (hshape : shape = id ∨ shape = Char.toUpper) (zeros : Nat) :
      IsPrinted v
        ('0' :: x :: (List.replicate zeros '0' ++ (Nat.toDigits 16 v.toNat).map shape))

theorem denotes_toDigits (hradix : 1 < radix) {shape : Char → Char}
    (hshape : shape = id ∨ shape = Char.toUpper) (n : Nat) :
    Denotes radix ((Nat.toDigits radix n).map shape) n := by
  have hdigit {d : Nat} (hd : d < radix) : IsDigit radix (shape d.digitChar) d := by
    obtain rfl | rfl := hshape
    · exact ⟨hd, .inl rfl⟩
    · exact ⟨hd, .inr rfl⟩
  refine ⟨fun h => Nat.toDigits_ne_nil (List.map_eq_nil_iff.mp h), ?_⟩
  induction n using Nat.strongRecOn with
  | ind n ih =>
    rw [Nat.toDigits_eq_if hradix]
    split
    · rename_i hlt
      exact ⟨[n], .cons (hdigit hlt) .nil, Nat.ofDigits_singleton.symm⟩
    · rename_i hlt
      -- The last digit is split off.
      obtain ⟨digits, hdigits, hn⟩ := ih (n / radix) (Nat.div_lt_self (by omega) hradix)
      have hlast := hdigit (Nat.mod_lt n (Nat.zero_lt_of_lt hradix))
      refine ⟨digits ++ [n % radix], ?_, ?_⟩
      · rw [List.map_append]
        exact List.rel_append hdigits (.cons hlast .nil)
      · rw [List.reverse_append, List.reverse_singleton, List.singleton_append, Nat.ofDigits_cons,
          ← hn, Nat.mod_add_div]

theorem denotes_zeros (hradix : 0 < radix) (h : Denotes radix text n) (zeros : Nat) :
    Denotes radix (List.replicate zeros '0' ++ text) n := by
  induction zeros with
  | zero => exact h
  | succ zeros ih =>
    obtain ⟨-, digits, hdigits, hn⟩ := ih
    refine ⟨nofun, 0 :: digits, .cons ⟨hradix, .inl rfl⟩ hdigits, ?_⟩
    rw [List.reverse_cons, Nat.ofDigits_append, Nat.ofDigits_singleton, Nat.mul_zero, Nat.add_zero,
      hn]

theorem isSize_of_isPrinted (h : IsPrinted v text) : IsSize text v.toNat := by
  cases h with
  | decimal zeros =>
    have hdigits := @denotes_toDigits 10 (by decide) _ (.inl rfl) v.toNat
    rw [List.map_id] at hdigits
    exact @IsSize.decimal [] _ _ (.inl rfl) (denotes_zeros (by decide) hdigits zeros)
  | hexadecimal hx hshape zeros =>
    have hdigits := @denotes_toDigits 16 (by decide) _ hshape v.toNat
    exact @IsSize.hexadecimal _ [] _ _ hx (.inl rfl) (denotes_zeros (by decide) hdigits zeros)

/-! ## Environments -/

section

variable (program : String) (lookup : String → Option Bytes)

theorem maxFrameSize_ofEnvironment : (ofEnvironment program lookup).limits.maxFrameSize =
    (((valueOf program lookup "MAX_FRAME_SIZE").bind characters?).bind size?).getD
      Limits.default.maxFrameSize := rfl

theorem maxWalkSize_ofEnvironment : (ofEnvironment program lookup).limits.maxWalkSize =
    (((valueOf program lookup "MAX_WALK_SIZE").bind characters?).bind size?).getD
      Limits.default.maxWalkSize := rfl

theorem enabled_ofEnvironment : (ofEnvironment program lookup).enabled =
    (((valueOf program lookup "ENABLED").bind characters?).map isEnabling).getD true := rfl

end

/-- Each size is what its own variable asks for, and the default if that asks for nothing. The other
limits are the defaults, and no setting depends on any other variable than its own. The value that
a word is printed as asks for that word, with whatever zeros and white space around it. -/
theorem sizes_as_asked (program : String) (lookup : String → Option Bytes) :
    Obeys (ofEnvironment program lookup).limits.maxFrameSize Limits.default.maxFrameSize
      (valueOf program lookup "MAX_FRAME_SIZE") ∧
    Obeys (ofEnvironment program lookup).limits.maxWalkSize Limits.default.maxWalkSize
      (valueOf program lookup "MAX_WALK_SIZE") ∧
    (ofEnvironment program lookup).limits.minValidPc = Limits.default.minValidPc ∧
    (ofEnvironment program lookup).limits.pltParityThreshold =
      Limits.default.pltParityThreshold ∧
    (∀ other : String → Option Bytes,
      (valueOf program other "MAX_FRAME_SIZE" = valueOf program lookup "MAX_FRAME_SIZE" →
        (ofEnvironment program other).limits.maxFrameSize =
          (ofEnvironment program lookup).limits.maxFrameSize) ∧
      (valueOf program other "MAX_WALK_SIZE" = valueOf program lookup "MAX_WALK_SIZE" →
        (ofEnvironment program other).limits.maxWalkSize =
          (ofEnvironment program lookup).limits.maxWalkSize) ∧
      (valueOf program other "ENABLED" = valueOf program lookup "ENABLED" →
        (ofEnvironment program other).enabled = (ofEnvironment program lookup).enabled)) ∧
    ∀ (v : UInt64) (before size after : List Char), (∀ c ∈ before, isBlank c = true) →
      (∀ c ∈ after, isBlank c = true) → IsPrinted v size →
      Asks (some (utf8 (before ++ size ++ after))) v := by
  refine ⟨obeys_getD _ _, obeys_getD _ _, rfl, rfl, fun other => ⟨fun h => ?_, fun h => ?_,
    fun h => ?_⟩, fun v before size after hbefore hafter h => ?_⟩
  · rw [maxFrameSize_ofEnvironment, maxFrameSize_ofEnvironment, h]
  · rw [maxWalkSize_ofEnvironment, maxWalkSize_ofEnvironment, h]
  · rw [enabled_ofEnvironment, enabled_ofEnvironment, h]
  · exact ⟨_, rfl, before, size, after, rfl, hbefore, hafter, isSize_of_isPrinted h⟩

/-- An environment with a size in hexadecimal, with a sign, and a value that is no size. -/
def mixed (name : String) : Option Bytes :=
  if name = "NAME_MAX_FRAME_SIZE" then some (utf8 [' ', '0', 'X', '+', '1', 'f', '\n'])
  else if name = "NAME_MAX_WALK_SIZE" then some (utf8 ['-', '1'])
  else none

theorem sizes_as_asked_mixed :
    (ofEnvironment "NAME" mixed).limits.maxFrameSize = 0x1f ∧
      (ofEnvironment "NAME" mixed).limits.maxWalkSize = Limits.default.maxWalkSize ∧
      (ofEnvironment "NAME" fun _ => none).enabled = (ofEnvironment "NAME" mixed).enabled ∧
      Asks (some (utf8 ([' '] ++ (List.replicate 3 '0' ++ Nat.toDigits 10 maxWord.toNat) ++
        ['\t']))) maxWord := by
  obtain ⟨hframe, hwalk, -, -, hown, hprinted⟩ := sizes_as_asked "NAME" mixed
  have hasked : Asks (valueOf "NAME" mixed "MAX_FRAME_SIZE") 0x1f :=
    asks_utf8_iff.mpr (by decide)
  have hnothing : ∀ v, ¬ Asks (valueOf "NAME" mixed "MAX_WALK_SIZE") v := by
    intro v hv
    cases (@asks_utf8_iff ['-', '1'] v).mp hv
  exact ⟨hframe.1 _ hasked, hwalk.2 hnothing, (hown fun _ => none).2.2 rfl,
    hprinted _ _ _ _ (List.forall_mem_singleton.mpr rfl) (List.forall_mem_singleton.mpr rfl)
      (.decimal 3)⟩

end Settings

end Unwind
