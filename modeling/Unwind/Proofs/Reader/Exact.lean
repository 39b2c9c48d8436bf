import Unwind.Proofs.Leb128

/-!
# Reading numbers without bound

A word holds the number of a numeral only as far as it goes. The readers here take a numeral from
the front of a section and give its number as it is, and `Follows` compares other readers with them:
where the one succeeds the other reads as far, and what they give is related. An unsigned number
that was read is the exact one, a signed number is the exact one modulo `2 ^ 64`.
-/

namespace Unwind

namespace Leb128

/-- The numeral at the front of a byte string, if it ends there. -/
def front : Bytes → Option Bytes
  | [] => none
  | b :: rest => if b < 0x80 then some [b] else (front rest).map (b :: ·)

theorem isNumeral_of_front {bytes numeral : Bytes} (h : front bytes = some numeral) :
    IsNumeral numeral ∧ ∃ rest, bytes = numeral ++ rest := by
  induction bytes generalizing numeral with
  | nil => cases h
  | cons b tail ih =>
    rw [front] at h
    split at h
    · rename_i hlast
      cases h
      rw [IsNumeral, if_pos hlast]
      exact ⟨rfl, tail, rfl⟩
    · rename_i hlast
      obtain ⟨rest, hrest, rfl⟩ := Option.map_eq_some_iff.mp h
      obtain ⟨hnumeral, behind, rfl⟩ := ih hrest
      rw [IsNumeral, if_neg hlast]
      exact ⟨hnumeral, behind, rfl⟩

/-- An unsigned number that was read is the one of the numeral at the front. -/
theorem front_of_unsignedFrom {bytes : Bytes} {bit count : Nat} {sum value : UInt64}
    (hsum : sum.toNat < 2 ^ bit) (h : unsignedFrom bit sum bytes = (.ok value, count)) :
    ∃ numeral, front bytes = some numeral ∧ count = numeral.length ∧
      value.toNat = sum.toNat + 2 ^ bit * magnitude numeral := by
  -- The digits so far stay below the weight of the next one.
  induction bytes generalizing bit sum count with
  | nil => cases h
  | cons b tail ih =>
    rw [unsignedFrom] at h
    split at h
    · rename_i hfits
      rw [fits_iff, toNat_digit] at hfits
      obtain ⟨hbit, hdigit⟩ := hfits
      have hplace := toNat_place hbit hsum (digit b)
      rw [toNat_digit, Nat.mod_eq_of_lt hdigit] at hplace
      dsimp only at h
      by_cases hlast : b < 0x80
      · rw [if_pos ((isLast_iff b).mpr hlast)] at h
        cases h
        refine ⟨[b], ?_, rfl, ?_⟩
        · rw [front, if_pos hlast]
        · rw [hplace, magnitude, magnitude, Nat.mul_zero, Nat.add_zero]
      · have hweight : 2 ^ (bit + 7) = 2 ^ bit * 128 := Nat.pow_add 2 bit 7
        have hlt := Nat.mod_lt b.toNat (by decide : 128 > 0)
        have hle : 2 ^ bit * (b.toNat % 128) ≤ 2 ^ bit * 127 := Nat.mul_le_mul_left _ (by omega)
        rw [if_neg (by rwa [isLast_iff])] at h
        obtain ⟨hvalue, rfl⟩ := Prod.mk.inj h
        obtain ⟨numeral, hnumeral, hlength, heq⟩ := ih (by omega) (Prod.ext hvalue rfl)
        refine ⟨b :: numeral, ?_, ?_, ?_⟩
        · rw [front, if_neg hlast, hnumeral]
          rfl
        · exact congrArg Nat.succ hlength
        · rw [heq, hplace, magnitude, hweight]
          ring
    · cases h

theorem front_of_signedFrom {bytes : Bytes} {bit count : Nat} {sum : UInt64} {value : Int64}
    (h : signedFrom bit sum bytes = (.ok value, count)) : ∃ numeral, front bytes = some numeral := by
  induction bytes generalizing bit sum count with
  | nil => cases h
  | cons b tail ih =>
    rw [front]
    by_cases hlast : b < 0x80
    · exact ⟨[b], if_pos hlast⟩
    · rw [signedFrom] at h
      dsimp only at h
      rw [if_neg (by rwa [isLast_iff])] at h
      obtain ⟨hvalue, -⟩ := Prod.mk.inj h
      obtain ⟨numeral, hnumeral⟩ := ih (Prod.ext hvalue rfl)
      rw [if_neg hlast, hnumeral]
      exact ⟨b :: numeral, rfl⟩

end Leb128

/-! ## Readers of numbers -/

namespace Reader

open Leb128

def numeral : Reader Bytes := fun s =>
  match front s.bytes with
  | some bytes => .ok bytes (s.drop bytes.length)
  | none => .error (.unsignedTruncated s.address) s

def natural : Reader Nat := do
  return magnitude (← numeral)

def integer : Reader Int := do
  return Leb128.integer (← numeral)

end Reader

/-! ## Sequences that go through -/

section

variable {α β : Type} {r : Reader α} {f : α → Reader β} {s t u : Section} {a : α} {b : β}

theorem Reader.exists_of_bind (h : (r >>= f) s = .ok b t) :
    ∃ a u, r s = .ok a u ∧ f a u = .ok b t := by
  change EStateM.bind r f s = _ at h
  unfold EStateM.bind at h
  cases hr : r s with
  | error e u =>
    rw [hr] at h
    cases h
  | ok a u =>
    rw [hr] at h
    exact ⟨a, u, rfl, h⟩

theorem Reader.bind_of_ok (h : r s = .ok a u) : (r >>= f) s = f a u := by
  change EStateM.bind r f s = _
  unfold EStateM.bind
  rw [h]

theorem Reader.exists_of_on (h : r.on s = .ok a) : ∃ t, r s = .ok a t := by
  unfold Reader.on at h
  split at h
  · rename_i hr
    cases h
    exact ⟨_, hr⟩
  · cases h

theorem Reader.on_of_ok (h : r s = .ok a t) : r.on s = .ok a := by
  unfold Reader.on
  rw [h]

end

/-- Whatever the reader gives has the property. -/
def Gives {α : Type} (P : α → Prop) (r : Reader α) : Prop :=
  ∀ s a t, r s = .ok a t → P a

namespace Gives

variable {α β : Type} {P : α → Prop} {Q : β → Prop}

theorem of_ok {r : Reader α} {s t : Section} {a : α} (hr : Gives P r) : r s = .ok a t → P a :=
  hr s a t

theorem pure {a : α} (h : P a) : Gives P (Pure.pure a) := by
  intro s b t hread
  cases hread
  exact h

theorem bind {r : Reader α} {f : α → Reader β} (h : Gives P r) (hf : ∀ a, P a → Gives Q (f a)) :
    Gives Q (r >>= f) := by
  intro s b t hread
  obtain ⟨a, u, hr, hb⟩ := Reader.exists_of_bind hread
  exact hf a (h s a u hr) u b t hb

theorem behind {r : Reader α} {f : α → Reader β} (hf : ∀ a, Gives Q (f a)) : Gives Q (r >>= f) :=
  bind (P := fun _ => True) (fun _ _ _ _ => trivial) fun a _ => hf a

theorem lift {x : Except CfiError α} (h : ∀ a, x = .ok a → P a) : Gives P (Reader.lift x) := by
  intro s a t hread
  cases x with
  | error e => cases hread
  | ok b =>
    cases hread
    exact h _ rfl

end Gives

/-! ## Readers that go along -/

/-- Where `r` succeeds, so does `q`, which reads as far and gives something that belongs to what
`r` gives. -/
def Follows {α β : Type} (R : α → β → Prop) (r : Reader α) (q : Reader β) : Prop :=
  ∀ s a t, r s = .ok a t → ∃ b, q s = .ok b t ∧ R a b

namespace Follows

open Leb128

variable {α β γ δ : Type} {R : α → β → Prop} {S : γ → δ → Prop}

theorem refl (r : Reader α) : Follows Eq r r :=
  fun _ a _ h => ⟨a, h, rfl⟩

theorem pure {a : α} {b : β} (h : R a b) : Follows R (Pure.pure a) (Pure.pure b) := by
  intro s c t hread
  cases hread
  exact ⟨b, rfl, h⟩

theorem throw (e : CfiError) (q : Reader β) : Follows R (throw e : Reader α) q := by
  intro s a t h
  cases h

theorem bind {r : Reader α} {q : Reader β} {f : α → Reader γ} {g : β → Reader δ}
    (h : Follows R r q) (hf : ∀ a b, R a b → Follows S (f a) (g b)) :
    Follows S (r >>= f) (q >>= g) := by
  intro s c t hread
  obtain ⟨a, u, hr, hc⟩ := Reader.exists_of_bind hread
  obtain ⟨b, hq, hab⟩ := h s a u hr
  obtain ⟨d, hg, hcd⟩ := hf a b hab u c t hc
  exact ⟨d, (Reader.bind_of_ok hq).trans hg, hcd⟩

theorem bindEq {r : Reader α} {f : α → Reader γ} {g : α → Reader δ}
    (hf : ∀ a, Follows S (f a) (g a)) : Follows S (r >>= f) (r >>= g) :=
  (refl r).bind fun a _ hab => hab ▸ hf a

theorem map {r : Reader α} {q : Reader β} {f : α → γ} {g : β → δ} (h : Follows R r q)
    (hf : ∀ a b, R a b → S (f a) (g b)) :
    Follows S (r >>= fun a => Pure.pure (f a)) (q >>= fun b => Pure.pure (g b)) :=
  h.bind fun a b hab => pure (hf a b hab)

theorem mapExact {r : Reader α} {q : Reader β} {g : β → δ} {S : α → δ → Prop}
    (h : Follows R r q) (hg : ∀ a b, R a b → S a (g b)) :
    Follows S r (q >>= fun b => Pure.pure (g b)) := by
  intro s a t hread
  obtain ⟨b, hq, hab⟩ := h s a t hread
  exact ⟨g b, Reader.bind_of_ok hq, hg a b hab⟩

theorem unsignedNumeral :
    Follows (fun u bytes => magnitude bytes = u.toNat) Reader.uleb128 Reader.numeral := by
  intro s u t h
  unfold Reader.uleb128 unsigned at h
  split at h
  · rename_i value count hread
    cases h
    obtain ⟨bytes, hfront, rfl, hvalue⟩ := front_of_unsignedFrom (by decide) hread
    refine ⟨bytes, ?_, ?_⟩
    · unfold Reader.numeral
      rw [hfront]
    · rw [UInt64.toNat_zero, Nat.pow_zero, Nat.one_mul, Nat.zero_add] at hvalue
      exact hvalue.symm
  · cases h
  · cases h

theorem signedNumeral :
    Follows (fun z bytes => z = Int64.ofInt (Leb128.integer bytes)) Reader.sleb128
      Reader.numeral := by
  intro s z t h
  unfold Reader.sleb128 signed at h
  split at h
  · rename_i value count hread
    cases h
    obtain ⟨bytes, hfront⟩ := front_of_signedFrom hread
    obtain ⟨hnumeral, rest, hbytes⟩ := isNumeral_of_front hfront
    have hvalue := @signedFrom_append bytes rest 0 0 hnumeral (by decide)
    rw [← hbytes, hread, pow_zero, one_mul, UInt64.toNat_zero, Nat.cast_zero, zero_add] at hvalue
    cases hvalue
    refine ⟨bytes, ?_, rfl⟩
    unfold Reader.numeral
    rw [hfront]
  · cases h

/-- An unsigned number is read exactly. -/
theorem natural : Follows (fun u n => n = u.toNat) Reader.uleb128 Reader.natural :=
  unsignedNumeral.mapExact fun _ _ h => h

/-- A signed number is read modulo `2 ^ 64`. -/
theorem integer : Follows (fun z n => z = Int64.ofInt n) Reader.sleb128 Reader.integer :=
  signedNumeral.mapExact fun _ _ h => h

/-- Of a signed number that is read as if it had no sign, only the end is found. -/
theorem integerUnsigned : Follows (fun _ _ => True) Reader.uleb128 Reader.integer :=
  unsignedNumeral.mapExact fun _ _ _ => trivial

end Follows

end Unwind
