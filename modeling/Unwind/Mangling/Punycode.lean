import Unwind.Mangling.Hashed

/-!
# Punycode — other scripts in ASCII

Punycode writes a word in any script as its ASCII characters followed by the others as a run of
letters and digits. The run is a sequence of distances; each says how far to move on in the list of
all pairs of a place in the word and a character, where the next character is to be put.
-/

namespace Unwind

namespace Mangling

namespace Punycode

def radix : Nat := 36

/-- The longest word that is decoded. -/
def capacity : Nat := 128

/-- The value of a digit: letters come first. -/
def digit? (c : Char) : Option Nat :=
  if 'a' ≤ c ∧ c ≤ 'z' then some (c.toNat - 'a'.toNat)
  else if '0' ≤ c ∧ c ≤ '9' then some (c.toNat - '0'.toNat + 26)
  else none

/-- The value from which on a digit is not the last of its distance. -/
def threshold (k bias : Nat) : Nat :=
  min (max (k - bias) 1) 26

/-- The rest of a distance: digits of the weight `weight`, the first of them the one with the index
`k`, are added to `sum`. Both have to fit a word. -/
def distanceFrom? (bias k weight sum : Nat) : List Char → Option (Nat × List Char)
  | [] => none
  | c :: rest => do
    let d ← digit? c
    let sum := sum + d * weight
    let t := threshold k bias
    let weight := weight * (radix - t)
    if wordCount ≤ sum then none
    else if d < t then return (sum, rest)
    else if wordCount ≤ weight then none
    else distanceFrom? bias (k + radix) weight sum rest

theorem length_lt_of_distanceFrom? {bias k weight sum n : Nat} {cs rest : List Char}
    (h : distanceFrom? bias k weight sum cs = some (n, rest)) : rest.length < cs.length := by
  induction cs generalizing k weight sum with
  | nil => simp [distanceFrom?] at h
  | cons c cs ih =>
    simp only [distanceFrom?, Option.bind_eq_bind, Option.bind_eq_some_iff] at h
    obtain ⟨d, -, h⟩ := h
    split at h
    · cases h
    · split at h
      · simp only [Option.pure_def, Option.some.injEq, Prod.mk.injEq] at h
        simp [h.2]
      · split at h
        · cases h
        · exact Nat.lt_succ_of_lt (ih h)

/-- Divides a distance until it is small, and counts the divisions in steps of the radix. -/
def reduce (delta k : Nat) : Nat × Nat :=
  if _h : 455 < delta then reduce (delta / 35) (k + radix) else (delta, k)
termination_by delta
decreasing_by omega

/-- The bias for the next distance, given the last one, the damping and the length of the word. -/
def adapt (delta damp length : Nat) : Nat :=
  let delta := delta / damp
  let (delta, k) := reduce (delta + delta / length) 0
  k + 36 * delta / (delta + 38)

/-- Puts the characters that a run of distances stands for into a word. `place` and `code` are where
the search for the next pair starts. -/
def decodeFrom? (bias damp place code : Nat) (word : List Char) (run : List Char) :
    Option (List Char) :=
  match _h : distanceFrom? bias radix 1 0 run with
  | none => none
  | some (delta, rest) =>
    let length := word.length + 1
    let sum := place + delta
    let code := code + sum / length
    let place := sum % length
    if sum < wordCount ∧ code < 0x100000000 ∧ length ≤ capacity then
      match charOf? code with
      | none => none
      | some c =>
        let word := word.take place ++ c :: word.drop place
        if rest.isEmpty then some word
        else decodeFrom? (adapt delta damp length) 2 (place + 1) code word rest
    else none
termination_by run.length
decreasing_by exact length_lt_of_distanceFrom? _h

def decode? (ascii run : List Char) : Option (List Char) :=
  if run.isEmpty || capacity < ascii.length then none
  else decodeFrom? 72 700 0 0x80 ascii run

end Punycode

end Mangling

end Unwind
