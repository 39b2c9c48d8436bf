/-!
# Word — machine words and their text

Addresses, lengths and saved registers are unsigned 64-bit words with wrapping arithmetic. This
module holds the few operations on them that core lacks: a sum that stops at the largest word, the
word that stands for a signed offset, and the hexadecimal text used in messages.
-/

namespace Unwind

abbrev Bytes := List UInt8

/-- The number of words: words are the natural numbers below it. -/
def wordCount : Nat := 0x10000000000000000

def maxWord : UInt64 := 0xffffffffffffffff

def saturatingAdd (a b : UInt64) : UInt64 :=
  if a + b < a then maxWord else a + b

/-- The word congruent to a signed 32-bit offset: adding it moves an address by the offset. -/
def wordOfOffset (offset : Int32) : UInt64 :=
  offset.toInt64.toUInt64

def wordSize : UInt64 := 8

/-- A number in lower-case hexadecimal with the leading `0x`. -/
def hex (n : Nat) : String :=
  "0x" ++ String.ofList (Nat.toDigits 16 n)

theorem toNat_maxWord : maxWord.toNat = wordCount - 1 := rfl

theorem toNat_saturatingAdd (a b : UInt64) :
    (saturatingAdd a b).toNat = min (a.toNat + b.toNat) (wordCount - 1) := by
  have ha := a.toNat_lt
  have hb := b.toNat_lt
  unfold saturatingAdd wordCount
  split <;> rename_i h <;> rw [UInt64.lt_iff_toNat_lt, UInt64.toNat_add] at h
  · rw [toNat_maxWord, wordCount]
    omega
  · rw [UInt64.toNat_add]
    omega

end Unwind
